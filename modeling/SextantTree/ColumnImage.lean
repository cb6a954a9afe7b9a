import SextantTree.ColumnBytes

/-!
What the writer leaves in memory for one column, and what the two readers make of it.
-/

namespace SextantTree.ColumnBytes

open FilterHash ByteMem

lemma le_align4 (n : ℕ) : n ≤ align4 n := by
  simp only [align4]
  omega

lemma runOffsets_range {f : ℕ → ℕ} {n : ℕ} (h : total f n < 2 ^ 32) :
    runOffsets 0 ((List.range n).map f) =
      ((List.range n).map fun i => UInt32.ofNat (total f i), total f n) := by
  -- The general form starts in the middle of the list.
  suffices hgen : ∀ k j, k + j = n →
      runOffsets (total f k) ((List.range j).map fun i => f (k + i)) =
        ((List.range j).map fun i => UInt32.ofNat (total f (k + i)), total f n) by
    simpa using hgen 0 n (Nat.zero_add n)
  intro k j
  induction j generalizing k with
  | zero => rintro rfl; rfl
  | succ j ih =>
    intro hk
    have hnext : (total f k + f k) % 2 ^ 32 = total f (k + 1) := by
      rw [← total_succ]
      exact Nat.mod_eq_of_lt ((total_mono f (by omega)).trans_lt h)
    have hshift : ∀ {β : Type} (g : ℕ → β), (List.range (j + 1)).map (fun i => g (k + i)) =
        g k :: (List.range j).map fun i => g (k + 1 + i) := by
      intro β g
      rw [List.range_succ_eq_map, List.map_cons, List.map_map, add_zero]
      refine congrArg _ (List.map_congr_left fun i _ => ?_)
      simp only [Function.comp, Nat.succ_eq_add_one]
      congr 1
      omega
    have hrest := ih (k + 1) (by omega)
    rw [hshift f, hshift fun i => UInt32.ofNat (total f i), runOffsets, hnext, hrest]

lemma runOffsets_snd (acc : ℕ) (lens : List ℕ) :
    (runOffsets acc lens).2 = lens.foldl (fun a n => (a + n) % 2 ^ 32) acc := by
  induction lens generalizing acc with
  | nil => rfl
  | cons len lens ih => exact ih _

lemma foldl_wrap (f : ℕ → ℕ) (k : ℕ) :
    ((List.range k).map f).foldl (fun a n => (a + n) % 2 ^ 32) 0 = total f k % 2 ^ 32 := by
  induction k with
  | zero => rfl
  | succ k ih =>
    rw [List.range_succ, List.map_append, List.foldl_append, ih, total_succ]
    exact Nat.mod_add_mod _ _ _

/-! ### Strings -/

section Strings

variable {d : ColumnData} {m₀ : Mem} {o l h q n k : ℕ}

/-- The writer's string loop after `k` rows. -/
structure StringsAt (d : ColumnData) (m₀ : Mem) (o l h q k : ℕ) (st : Mem × ℕ) : Prop where
  pos : st.2 = q + total d.strLen k
  offsets : Holds st.1 o ((List.range k).flatMap fun i => leBytes 4 (total d.strLen i % 2 ^ 32))
  lengths : Holds st.1 l ((List.range k).flatMap fun i => leBytes 2 (d.strLen i))
  hashes : Holds st.1 h ((List.range k).flatMap fun i => leBytes 4 (filterHash (d.str i)).toNat)
  data : Holds st.1 q ((List.range k).flatMap d.str)
  frame : ∀ i, i < o ∨ q + total d.strLen k ≤ i → st.1 i = m₀ i

lemma writeStrings_concat (is : List ℕ) (i acc : ℕ) (st : Mem × ℕ) :
    writeStrings d o l h (is ++ [i]) acc st =
      writeStrings d o l h [i] ((is.map d.strLen).foldl (fun a n => (a + n) % 2 ^ 32) acc)
        (writeStrings d o l h is acc st) := by
  induction is generalizing acc st with
  | nil => rfl
  | cons j is ih => exact ih _ _

/-- The length and hash arrays and the data lie one behind the other. -/
structure StringSpace (o l h q n : ℕ) : Prop where
  lengths : o + 4 * n ≤ l
  hashes : l + 2 * n ≤ h
  data : h + 4 * n ≤ q

lemma length_words (w k : ℕ) (f : ℕ → ℕ) :
    ((List.range k).flatMap fun i => leBytes w (f i)).length = w * k := by
  rw [length_flatMap_const (fun _ _ => length_leBytes w _), List.length_range]

lemma StringsAt.step (sp : StringSpace o l h q n) (hk : k < n)
    (hlen : ∀ i < n, (d.str i).length = d.strLen i) {st : Mem × ℕ}
    (hst : StringsAt d m₀ o l h q k st) :
    StringsAt d m₀ o l h q (k + 1) (writeStrings d o l h [k] (total d.strLen k % 2 ^ 32) st) := by
  obtain ⟨m, p⟩ := st
  obtain ⟨rfl, ho, hl, hh, hq, hf⟩ := hst
  obtain ⟨sp₁, sp₂, sp₃⟩ := sp
  have hlo := length_words 4 k fun i => total d.strLen i % 2 ^ 32
  have hll := length_words 2 k d.strLen
  have hlh := length_words 4 k fun i => (filterHash (d.str i)).toNat
  have hlq := length_flatMap_range fun i (hi : i < k) => hlen i (by omega)
  have hk' := hlen k hk
  refine ⟨?_, ?_, ?_, ?_, ?_, ?_⟩
  · simp only [writeStrings, total_succ]
    omega
  · rw [flatMap_range_succ]
    refine (((ho.poke_end (by rw [hlo])).poke (.inr ?_)).poke (.inr ?_)).poke (.inr ?_)
    all_goals simp only [List.length_append, hlo, length_leBytes]; omega
  · rw [flatMap_range_succ]
    refine (((hl.poke (.inl ?_)).poke_end (by rw [hll])).poke (.inr ?_)).poke (.inr ?_)
    all_goals simp only [List.length_append, hll, length_leBytes]; omega
  · rw [flatMap_range_succ]
    refine (((hh.poke (.inl ?_)).poke (.inl ?_)).poke_end (by rw [hlh])).poke (.inr ?_)
    all_goals simp only [List.length_append, hlh, length_leBytes]; omega
  · rw [flatMap_range_succ]
    refine (((hq.poke (.inl ?_)).poke (.inl ?_)).poke (.inl ?_)).poke_end (by rw [hlq])
    all_goals simp only [length_leBytes]; omega
  · intro i hi
    rw [total_succ] at hi
    simp only [writeStrings]
    rcases hi with hi | hi
    · rw [poke_apply_of_lt (by omega), poke_apply_of_lt (by omega), poke_apply_of_lt (by omega),
        poke_apply_of_lt (by omega)]
      exact hf i (.inl hi)
    · rw [poke_apply_of_le (by omega), poke_apply_of_le (by rw [length_leBytes]; omega),
        poke_apply_of_le (by rw [length_leBytes]; omega),
        poke_apply_of_le (by rw [length_leBytes]; omega)]
      exact hf i (.inr (by omega))

lemma writeStrings_spec (sp : StringSpace o l h q n)
    (hlen : ∀ i < n, (d.str i).length = d.strLen i) :
    StringsAt d m₀ o l h q n (writeStrings d o l h (List.range n) 0 (m₀, q)) := by
  suffices hgen : ∀ k ≤ n,
      StringsAt d m₀ o l h q k (writeStrings d o l h (List.range k) 0 (m₀, q)) from hgen n le_rfl
  intro k
  induction k with
  | zero => exact fun _ => ⟨rfl, holds_nil _ _, holds_nil _ _, holds_nil _ _, holds_nil _ _,
      fun _ _ => rfl⟩
  | succ k ih =>
    intro hk
    rw [List.range_succ, writeStrings_concat, foldl_wrap]
    exact (ih (by omega)).step sp (by omega) hlen

end Strings

/-! ### Sets -/

namespace ColumnData

/-- The bytes of element `k` of a set column. -/
def elem (d : ColumnData) (k : ℕ) : Bytes := (d.setElemData.drop (d.elemStart k)).take (d.elemLen k)

/-- The elements of row `i`. -/
def rowElems (d : ColumnData) (i : ℕ) : List Bytes :=
  (List.range (d.setCount i)).map fun e => d.elem (d.setOff i + e)

/-- The elements of the first `n` rows. -/
def elems (d : ColumnData) (n : ℕ) : List Bytes := (List.range n).flatMap d.rowElems

@[simp] lemma length_rowElems (d : ColumnData) (i : ℕ) : (d.rowElems i).length = d.setCount i := by
  simp [rowElems]

lemma length_elems (d : ColumnData) (n : ℕ) : (d.elems n).length = total d.setCount n :=
  length_flatMap_range fun i _ => d.length_rowElems i

end ColumnData

/-- An element as stored: its length and its bytes. -/
def elemRecord (b : Bytes) : Bytes := leBytes 2 b.length ++ b

def hashWord (b : Bytes) : Bytes := leBytes 4 (filterHash b).toNat

@[simp] lemma length_elemRecord (b : Bytes) : (elemRecord b).length = 2 + b.length := by
  simp [elemRecord]

@[simp] lemma length_hashWord (b : Bytes) : (hashWord b).length = 4 := length_leBytes 4 _

lemma length_hashWords (es : List Bytes) : (es.flatMap hashWord).length = 4 * es.length :=
  length_flatMap_const fun b _ => length_hashWord b

section Sets

variable {d : ColumnData} {m₀ : Mem} {c o h q n k N : ℕ} {es : List Bytes}

/-- The writer's set loop: the counts and offsets of `k` rows, and the elements `es`. -/
structure SetsAt (d : ColumnData) (m₀ : Mem) (c o h q k : ℕ) (es : List Bytes)
    (st : Mem × ℕ) : Prop where
  pos : st.2 = q + (es.flatMap elemRecord).length
  counts : Holds st.1 c ((List.range k).map fun i => UInt8.ofNat (d.setCount i))
  offsets : Holds st.1 o ((List.range k).flatMap fun i => leBytes 4 (total d.setCount i))
  hashes : Holds st.1 h (es.flatMap hashWord)
  data : Holds st.1 q (es.flatMap elemRecord)
  frame : ∀ i, i < c ∨ q + (es.flatMap elemRecord).length ≤ i → st.1 i = m₀ i

/-- The arrays lie one behind the other; there are `n` rows and `N` elements. -/
structure SetSpace (c o h q n N : ℕ) : Prop where
  offsets : c + n ≤ o
  hashes : o + 4 * n ≤ h
  data : h + 4 * N ≤ q

/-- What the writer needs of element `k`: its index and its bytes are addressed in 32 bits. -/
structure ElemAt (d : ColumnData) (k : ℕ) : Prop where
  index : k < 2 ^ 32
  start : d.elemStart k < 2 ^ 32
  bytes : (d.elem k).length = d.elemLen k

lemma SetsAt.elemStep (sp : SetSpace c o h q n N) (hk : k ≤ n) {off acc e : ℕ}
    (hacc : es.length = acc + e) (hN : acc + e < N) (hN' : N < 2 ^ 32) (he : ElemAt d (off + e))
    {st : Mem × ℕ} (hst : SetsAt d m₀ c o h q k es st) :
    SetsAt d m₀ c o h q k (es ++ [d.elem (off + e)]) (writeElems d h off acc [e] st) := by
  obtain ⟨m, p⟩ := st
  obtain ⟨rfl, hc, ho, hh, hq, hf⟩ := hst
  obtain ⟨sp₁, sp₂, sp₃⟩ := sp
  have hidx : (off + e) % 2 ^ 32 = off + e := Nat.mod_eq_of_lt he.index
  have hacc' : (acc + e) % 2 ^ 32 = acc + e := Nat.mod_eq_of_lt (by omega)
  have hstr : (d.setElemData.drop (d.elemByteOff (off + e))).take (d.elemLen (off + e)) =
      d.elem (off + e) := by
    rw [ColumnData.elemByteOff, Nat.mod_eq_of_lt he.start]
    rfl
  have hlc : ((List.range k).map fun i => UInt8.ofNat (d.setCount i)).length = k := by simp
  have hlo := length_words 4 k (total d.setCount)
  have hlh := length_hashWords es
  have hrec : (elemRecord (d.elem (off + e))) =
      leBytes 2 (d.elemLen (off + e)) ++ d.elem (off + e) := by rw [elemRecord, he.bytes]
  have hsnoc : ∀ f : Bytes → Bytes, (es ++ [d.elem (off + e)]).flatMap f =
      es.flatMap f ++ f (d.elem (off + e)) := fun f => by simp
  have hb := he.bytes
  simp only [writeElems, hidx, hacc', hstr]
  refine ⟨?_, ?_, ?_, ?_, ?_, ?_⟩
  · rw [hsnoc, List.length_append, length_elemRecord]
    omega
  · refine ((hc.poke (.inr ?_)).poke (.inr ?_)).poke (.inr ?_)
    all_goals rw [hlc]; omega
  · refine ((ho.poke (.inr ?_)).poke (.inr ?_)).poke (.inr ?_)
    all_goals rw [hlo]; omega
  · rw [hsnoc]
    refine ((hh.poke_end (by rw [hlh]; omega)).poke (.inr ?_)).poke (.inr ?_)
    all_goals rw [List.length_append, hlh, length_leBytes]; omega
  · rw [hsnoc, hrec, ← List.append_assoc]
    refine ((hq.poke (.inl ?_)).poke_end rfl).poke_end ?_
    · rw [length_leBytes]; omega
    · rw [List.length_append, length_leBytes]; omega
  · intro i hi
    rw [hsnoc, List.length_append, length_elemRecord] at hi
    dsimp only
    rcases hi with hi | hi
    · rw [poke_apply_of_lt (by omega), poke_apply_of_lt (by omega), poke_apply_of_lt (by omega)]
      exact hf i (.inl hi)
    · rw [poke_apply_of_le (by omega), poke_apply_of_le (by rw [length_leBytes]; omega),
        poke_apply_of_le (by rw [length_leBytes]; omega)]
      exact hf i (.inr (by omega))

lemma writeElems_concat (off acc : ℕ) (as : List ℕ) (e : ℕ) (st : Mem × ℕ) :
    writeElems d h off acc (as ++ [e]) st =
      writeElems d h off acc [e] (writeElems d h off acc as st) := by
  induction as generalizing st with
  | nil => rfl
  | cons a as ih => exact ih _

lemma SetsAt.elems (sp : SetSpace c o h q n N) (hk : k ≤ n) {off acc ec : ℕ}
    (hacc : es.length = acc) (hN : acc + ec ≤ N) (hN' : N < 2 ^ 32)
    (he : ∀ e < ec, ElemAt d (off + e)) {st : Mem × ℕ} (hst : SetsAt d m₀ c o h q k es st) :
    SetsAt d m₀ c o h q k (es ++ (List.range ec).map fun e => d.elem (off + e))
      (writeElems d h off acc (List.range ec) st) := by
  induction ec with
  | zero => simpa [writeElems] using hst
  | succ ec ih =>
    have hprev := ih (by omega) fun e he' => he e (by omega)
    rw [List.range_succ, writeElems_concat, List.map_append, ← List.append_assoc]
    exact hprev.elemStep sp hk (by simp [hacc]) (by omega) hN' (he ec (by omega))

lemma writeSets_concat (is : List ℕ) (i acc : ℕ) (st : Mem × ℕ) :
    writeSets d c o h (is ++ [i]) acc st =
      writeSets d c o h [i] ((is.map d.setCount).foldl (fun a n => (a + n) % 2 ^ 32) acc)
        (writeSets d c o h is acc st) := by
  induction is generalizing acc st with
  | nil => rfl
  | cons j is ih => exact ih _ _

lemma SetsAt.row (sp : SetSpace c o h q n N) (hk : k < n) (hN : total d.setCount (k + 1) ≤ N)
    (hN' : N < 2 ^ 32) (he : ∀ e < d.setCount k, ElemAt d (d.setOff k + e)) {st : Mem × ℕ}
    (hst : SetsAt d m₀ c o h q k (d.elems k) st) :
    SetsAt d m₀ c o h q (k + 1) (d.elems (k + 1))
      (writeSets d c o h [k] (total d.setCount k) st) := by
  obtain ⟨m, p⟩ := st
  have hlen := d.length_elems k
  have hlh := length_hashWords (d.elems k)
  rw [total_succ] at hN
  have hlc : ((List.range k).map fun i => UInt8.ofNat (d.setCount i)).length = k := by simp
  have hlo := length_words 4 k (total d.setCount)
  have hmid : SetsAt d m₀ c o h q (k + 1) (d.elems k)
      (poke (poke m (c + k) [UInt8.ofNat (d.setCount k)]) (o + 4 * k)
        (leBytes 4 (total d.setCount k)), p) := by
    obtain ⟨rfl, hc, ho, hh, hq, hf⟩ := hst
    obtain ⟨sp₁, sp₂, sp₃⟩ := sp
    refine ⟨rfl, ?_, ?_, ?_, ?_, ?_⟩
    · rw [List.range_succ, List.map_append]
      refine (hc.poke_end (by rw [hlc])).poke (.inr ?_)
      simp only [List.length_append, hlc, List.length_cons, List.length_nil]
      omega
    · rw [flatMap_range_succ]
      refine (ho.poke (.inl ?_)).poke_end (by rw [hlo])
      simp only [List.length_cons, List.length_nil]
      omega
    · refine (hh.poke (.inl ?_)).poke (.inl ?_)
      · simp only [List.length_cons, List.length_nil]; omega
      · rw [length_leBytes]; omega
    · refine (hq.poke (.inl ?_)).poke (.inl ?_)
      · simp only [List.length_cons, List.length_nil]; omega
      · rw [length_leBytes]; omega
    · intro i hi
      dsimp only
      rcases hi with hi | hi
      · rw [poke_apply_of_lt (by omega), poke_apply_of_lt (by omega)]
        exact hf i (.inl hi)
      · rw [poke_apply_of_le (by rw [length_leBytes]; omega),
          poke_apply_of_le (by simp only [List.length_cons, List.length_nil]; omega)]
        exact hf i (.inr hi)
  have := hmid.elems sp hk hlen hN hN' he
  rwa [← ColumnData.rowElems, ColumnData.elems, ← flatMap_range_succ] at this

lemma writeSets_spec (sp : SetSpace c o h q n (total d.setCount n))
    (hN : total d.setCount n < 2 ^ 32)
    (he : ∀ i < n, ∀ e < d.setCount i, ElemAt d (d.setOff i + e)) :
    SetsAt d m₀ c o h q n (d.elems n) (writeSets d c o h (List.range n) 0 (m₀, q)) := by
  suffices hgen : ∀ k ≤ n, SetsAt d m₀ c o h q k (d.elems k)
      (writeSets d c o h (List.range k) 0 (m₀, q)) from hgen n le_rfl
  intro k
  induction k with
  | zero => exact fun _ => ⟨rfl, holds_nil _ _, holds_nil _ _, holds_nil _ _, holds_nil _ _,
      fun _ _ => rfl⟩
  | succ k ih =>
    intro hk
    have hfit : total d.setCount k < 2 ^ 32 := (total_mono _ (by omega)).trans_lt hN
    rw [List.range_succ, writeSets_concat, foldl_wrap, Nat.mod_eq_of_lt hfit]
    exact (ih (by omega)).row sp (by omega) (total_mono _ hk) hN (he k (by omega))

end Sets

end SextantTree.ColumnBytes
