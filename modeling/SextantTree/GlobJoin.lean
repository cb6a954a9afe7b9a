import SextantTree.GlobSource
import SextantTree.Outcome
import SextantTree.PayloadOffsets

/-!
The label join of the sharded source. A buffer holds the label rows that were read and not dropped
yet (`Holds`); appending, consuming and compacting keep it so, in whatever sizes the batches come.
Over the chunks of the shards this gives every row its own labels.
-/

namespace SextantTree.GlobSource

open FilterHash
open PushStage (View Value offsetOf offsetOf_succ offsetOf_append)

/-! ### A label buffer and its rows -/

def strings (offsets : List UInt32) (lengths : List UInt16) (data : Bytes) (count : ℕ) :
    List Bytes :=
  (List.range count).map fun i =>
    (data.drop (offsets.getD i 0).toNat).take (lengths.getD i 0).toNat

namespace LabelStringBuf

/-- The buffer holds these rows, of which `head` are consumed. -/
structure Holds (b : LabelStringBuf) (rows : List Bytes) (head : ℕ) : Prop where
  offsets : b.offsets = (List.range (rows.length + 1)).map (offsetOf rows) ∨
    rows = [] ∧ b.offsets = []
  lengths : b.lengths = rows.map fun s => UInt16.ofNat s.length
  data : b.data = rows.flatten
  head : b.head = head

lemma holds_new : ({} : LabelStringBuf).Holds [] 0 := ⟨Or.inr ⟨rfl, rfl⟩, rfl, rfl, rfl⟩

variable {b : LabelStringBuf} {rows : List Bytes} {head : ℕ}

lemma Holds.available (h : b.Holds rows head) : b.available = rows.length - head := by
  unfold LabelStringBuf.available
  rcases h.offsets with ho | ⟨rfl, ho⟩
  · have hne : b.offsets.isEmpty = false := by simp [ho]
    rw [hne, ho, h.head, List.length_map, List.length_range]
    rfl
  · simp [ho]

lemma Holds.appendRow (h : b.Holds rows head)
    (ho : b.offsets = (List.range (rows.length + 1)).map (offsetOf rows)) {len : UInt16} {s : Bytes}
    (hlen : s.length = len.toNat) :
    (b.appendRow len s).Holds (rows ++ [s]) head ∧
      (b.appendRow len s).offsets
        = (List.range ((rows ++ [s]).length + 1)).map (offsetOf (rows ++ [s])) := by
  have hlast : b.offsets.getLastD 0 = offsetOf rows rows.length := by
    rw [ho, List.range_succ, List.map_append]
    simp
  have hget : (rows ++ [s])[rows.length]? = some s := by simp
  have hnext : offsetOf rows rows.length + len.toUInt32
      = offsetOf (rows ++ [s]) (rows.length + 1) := by
    rw [offsetOf_succ hget, offsetOf_append le_rfl, hlen]
    congr 1
    rw [← UInt32.toNat_inj]
    have := UInt16.toNat_lt len
    rw [UInt16.toNat_toUInt32, UInt32.toNat_ofNat_of_lt' (lt_trans this (by norm_num))]
  have hoffsets : (b.appendRow len s).offsets
      = (List.range ((rows ++ [s]).length + 1)).map (offsetOf (rows ++ [s])) := by
    rw [List.length_append, List.length_singleton, List.range_succ (n := rows.length + 1),
      List.map_append, List.map_cons, List.map_nil, ← hnext, ← hlast]
    simp only [LabelStringBuf.appendRow]
    rw [ho]
    congr 1
    refine List.map_congr_left fun i hi => ?_
    have := List.mem_range.1 hi
    rw [offsetOf_append (by omega)]
  refine ⟨⟨Or.inl hoffsets, ?_, ?_, h.head⟩, hoffsets⟩
  · simp [LabelStringBuf.appendRow, h.lengths, hlen]
  · simp [LabelStringBuf.appendRow, h.data]

lemma Holds.append (h : b.Holds rows head) {offsets : List UInt32} {lengths : List UInt16}
    {data : Bytes} {count : ℕ}
    (hin : ∀ i, i < count → (offsets.getD i 0).toNat + (lengths.getD i 0).toNat ≤ data.length) :
    (b.append offsets lengths data count).Holds (rows ++ strings offsets lengths data count)
      head := by
  set b₀ := if b.offsets.isEmpty then { b with offsets := [0] } else b with hb₀
  have hstart : b₀.Holds rows head ∧
      b₀.offsets = (List.range (rows.length + 1)).map (offsetOf rows) := by
    rcases h.offsets with ho | ⟨rfl, ho⟩
    · have hne : b.offsets.isEmpty = false := by simp [ho]
      rw [hb₀, hne]
      exact ⟨h, ho⟩
    · have hsame : b₀.offsets = (List.range (([] : List Bytes).length + 1)).map (offsetOf []) := by
        rw [hb₀, ho]
        rfl
      refine ⟨⟨Or.inl hsame, ?_, ?_, ?_⟩, hsame⟩ <;> rw [hb₀, ho]
      · exact h.lengths
      · exact h.data
      · exact h.head
  have hloop : ∀ n, n ≤ count →
      ((List.range n).foldl (fun b i => b.appendRow (lengths.getD i 0)
        ((data.drop (offsets.getD i 0).toNat).take (lengths.getD i 0).toNat)) b₀).Holds
        (rows ++ strings offsets lengths data n) head ∧
      ((List.range n).foldl (fun b i => b.appendRow (lengths.getD i 0)
        ((data.drop (offsets.getD i 0).toNat).take (lengths.getD i 0).toNat)) b₀).offsets
        = (List.range ((rows ++ strings offsets lengths data n).length + 1)).map
          (offsetOf (rows ++ strings offsets lengths data n)) := by
    intro n hn
    induction n with
    | zero => simpa [strings] using hstart
    | succ n ih =>
      obtain ⟨hh, hoff⟩ := ih (by omega)
      have hlen : ((data.drop (offsets.getD n 0).toNat).take (lengths.getD n 0).toNat).length
          = (lengths.getD n 0).toNat := by
        have := hin n (by omega)
        rw [List.length_take, List.length_drop]
        omega
      have hstep := hh.appendRow hoff hlen
      have hstrings : strings offsets lengths data (n + 1) = strings offsets lengths data n
          ++ [(data.drop (offsets.getD n 0).toNat).take (lengths.getD n 0).toNat] := by
        simp [strings, List.range_succ]
      rw [List.range_succ, List.foldl_append, hstrings, ← List.append_assoc]
      exact hstep
  exact (hloop count le_rfl).1

lemma Holds.compact (h : b.Holds rows head) (hhead : head ≤ rows.length)
    (hbytes : (rows.take head).flatten.length < 2 ^ 32) (hleft : rows.length - head < 2 ^ 32)
    (hsmall : head < 2 ^ 32) : b.compact.Holds (rows.drop head) 0 := by
  unfold LabelStringBuf.compact
  rw [h.head]
  dsimp only
  split_ifs with hzero hall
  · subst hzero
    rw [List.drop_zero]
    exact h
  · rw [Nat.mod_eq_of_lt hsmall] at hall
    have hlen : b.offsets.length - 1 = rows.length := by
      rcases h.offsets with ho | ⟨rfl, ho⟩ <;> simp [ho]
    have hnil : rows.drop head = [] := List.drop_of_length_le (by omega)
    rw [hnil]
    exact ⟨Or.inl rfl, rfl, rfl, rfl⟩
  · rw [Nat.mod_eq_of_lt hsmall] at hall ⊢
    have ho : b.offsets = (List.range (rows.length + 1)).map (offsetOf rows) := by
      rcases h.offsets with ho | ⟨rfl, ho⟩
      · exact ho
      · simp [ho] at hall
    have hlen : b.offsets.length - 1 = rows.length := by simp [ho]
    have hget : ∀ i, i ≤ rows.length → b.offsets.getD i 0 = offsetOf rows i := by
      intro i hi
      rw [List.getD_eq_getElem?_getD, ho, List.getElem?_map, List.getElem?_range (by omega)]
      rfl
    have hdrop : (offsetOf rows head).toNat = (rows.take head).flatten.length :=
      UInt32.toNat_ofNat_of_lt' hbytes
    have hsplit : ∀ i, (rows.take (head + i)).flatten.length
        = (rows.take head).flatten.length + ((rows.drop head).take i).flatten.length := by
      intro i
      rw [List.take_add, List.flatten_append, List.length_append]
    rw [hlen, Nat.mod_eq_of_lt hleft]
    refine ⟨Or.inl ?_, ?_, ?_, rfl⟩
    · rw [List.length_drop]
      refine List.map_congr_left fun i hi => ?_
      have := List.mem_range.1 hi
      rw [hget (head + i) (by omega), hget head hhead, offsetOf, offsetOf, offsetOf, hsplit,
        UInt32.ofNat_add, UInt32.add_comm, UInt32.add_sub_cancel]
    · simp [h.lengths, List.map_drop]
    · simp only [hget head hhead, hdrop, h.data]
      have hall' : rows.flatten = (rows.take head).flatten ++ (rows.drop head).flatten := by
        rw [← List.flatten_append, List.take_append_drop]
      rw [hall', List.drop_left]

lemma Holds.value_view (h : b.Holds rows 0) {i : ℕ} {s : Bytes} (hi : rows[i]? = some s)
    (hshort : s.length < 2 ^ 16) (hbytes : (rows.take i).flatten.length < 2 ^ 32)
    (t : ColumnType) : b.view.value t i = .str s := by
  obtain ⟨hlt, hget⟩ := List.getElem?_eq_some_iff.1 hi
  have ho : b.offsets = (List.range (rows.length + 1)).map (offsetOf rows) := by
    rcases h.offsets with ho | ⟨rfl, -⟩
    · exact ho
    · simp at hlt
  have hoff : b.offsets.getD i 0 = offsetOf rows i := by
    rw [List.getD_eq_getElem?_getD, ho, List.getElem?_map, List.getElem?_range (by omega)]
    rfl
  have hlen : b.lengths.getD i 0 = UInt16.ofNat s.length := by
    rw [List.getD_eq_getElem?_getD, h.lengths, List.getElem?_map, hi]
    rfl
  rw [LabelStringBuf.view, h.head, List.drop_zero, List.drop_zero, View.value, hoff, hlen, h.data,
    offsetOf, UInt32.toNat_ofNat_of_lt' hbytes, UInt16.toNat_ofNat_of_lt' hshort, ← hget,
    PushStage.take_drop_flatten rows hlt]

end LabelStringBuf

/-! ### The label file -/

/-- The strings of a batch in column `j`. -/
def Batch.labels (b : Batch Unit) (j : ℕ) : List Bytes :=
  match b.columns[j]? with
  | some (View.str offsets lengths data _) => strings offsets lengths data b.count
  | _ => []

/-- The strings of a label file in column `j`. -/
def labelColumn (f : ParquetFile Unit) (j : ℕ) : List Bytes := f.batches.flatMap (·.labels j)

/-- What the label reader delivers: batches of at most `batch_size` rows, which is an `int32_t`, with
string columns that lie in their data. -/
structure LabelsRegular (f : ParquetFile Unit) (n : ℕ) : Prop where
  nonempty : ∀ b ∈ f.batches, b.count ≠ 0
  narrow : ∀ b ∈ f.batches, b.count < 2 ^ 31
  strings : ∀ b ∈ f.batches, ∀ j, j < n → ∃ offsets lengths data total,
    b.columns[j]? = some (View.str offsets lengths data total) ∧
      ∀ i, i < b.count → (offsets.getD i 0).toNat + (lengths.getD i 0).toNat ≤ data.length

/-- The label reader has delivered `R` rows, and these batches are ahead. -/
def LabelsAt (f : ParquetFile Unit) (R : ℕ) (ahead : List (Batch Unit)) : Prop :=
  ∃ done, f.batches = done ++ ahead ∧ R = (done.map Batch.count).sum

/-- The buffers of the columns: of the `R` rows read, the buffer of column `j` holds those from `s j`
on, and the rows before `p` are consumed. -/
structure BufsAt (f : ParquetFile Unit) (n p R : ℕ) (s : ℕ → ℕ) (bufs : List LabelStringBuf) :
    Prop where
  length : bufs.length = n
  le : ∀ j, j < n → s j ≤ p
  holds : ∀ j, j < n →
    (bufs.getD j {}).Holds (((labelColumn f j).take R).drop (s j)) (p - s j)

section Labels

variable {f : ParquetFile Unit} {n p R : ℕ} {ahead : List (Batch Unit)} {s : ℕ → ℕ}
  {bufs : List LabelStringBuf}

lemma LabelsRegular.length_labels (hf : LabelsRegular f n) {b : Batch Unit} (hb : b ∈ f.batches)
    {j : ℕ} (hj : j < n) : (b.labels j).length = b.count := by
  obtain ⟨offsets, lengths, data, total, hcol, -⟩ := hf.strings b hb j hj
  simp [Batch.labels, hcol, GlobSource.strings]

lemma LabelsRegular.length_flatMap (hf : LabelsRegular f n) (bs : List (Batch Unit))
    (hbs : ∀ b ∈ bs, b ∈ f.batches) {j : ℕ} (hj : j < n) :
    (bs.flatMap (·.labels j)).length = (bs.map Batch.count).sum := by
  rw [List.length_flatMap]
  exact congrArg _ (List.map_congr_left fun b hb => hf.length_labels (hbs b hb) hj)

lemma LabelsRegular.length_labelColumn (hf : LabelsRegular f n) {j : ℕ} (hj : j < n) :
    (labelColumn f j).length = f.count := hf.length_flatMap f.batches (fun _ hb => hb) hj

lemma LabelsAt.le_count (h : LabelsAt f R ahead) : R ≤ f.count := by
  obtain ⟨done, hf, rfl⟩ := h
  rw [ParquetFile.count, hf, List.map_append, List.sum_append]
  exact Nat.le_add_right _ _

lemma LabelsAt.eq_count (h : LabelsAt f R []) : R = f.count := by
  obtain ⟨done, hf, rfl⟩ := h
  rw [ParquetFile.count, hf, List.append_nil]

lemma LabelsAt.next (hf : LabelsRegular f n) {b : Batch Unit} (h : LabelsAt f R (b :: ahead)) :
    LabelsAt f (R + b.count) ahead ∧ b ∈ f.batches ∧ ∀ j, j < n →
      (labelColumn f j).take (R + b.count) = (labelColumn f j).take R ++ b.labels j := by
  obtain ⟨done, hbatches, rfl⟩ := h
  have hb : b ∈ f.batches := by
    rw [hbatches]
    simp
  refine ⟨⟨done ++ [b], by simp [hbatches], by simp⟩, hb, fun j hj => ?_⟩
  have hdone := hf.length_flatMap done (by
    intro b' hb'
    rw [hbatches]
    exact List.mem_append_left _ hb') hj
  have hsplit : labelColumn f j
      = done.flatMap (·.labels j) ++ (b.labels j ++ ahead.flatMap (·.labels j)) := by
    simp [labelColumn, hbatches]
  rw [hsplit, ← hdone, ← hf.length_labels hb hj, List.take_length_add_append, List.take_left,
    List.take_left]

lemma BufsAt.appendLabels (hf : LabelsRegular f n) {b : Batch Unit}
    (h : BufsAt f n p R s bufs) (hat : LabelsAt f R (b :: ahead)) (hp : p ≤ R) :
    ∃ bufs', appendLabels b bufs = .ok bufs' ∧ BufsAt f n p (R + b.count) s bufs' := by
  obtain ⟨-, hb, htake⟩ := hat.next hf
  set g : LabelStringBuf × ℕ → LabelStringBuf := fun x =>
    match b.columns[x.2]? with
    | some (View.str offsets lengths data _) => x.1.append offsets lengths data b.count
    | _ => x.1 with hg
  have hok : GlobSource.appendLabels b bufs = .ok (bufs.zipIdx.map g) := by
    refine Outcome.mapM_ok fun x hx => ?_
    obtain ⟨hlt, -⟩ := List.mem_zipIdx' hx
    obtain ⟨offsets, lengths, data, total, hcol, -⟩ := hf.strings b hb x.2 (h.length ▸ hlt)
    simp only [hg, hcol]
  refine ⟨_, hok, by simp [h.length], h.le, fun j hj => ?_⟩
  have hget : (bufs.zipIdx.map g).getD j {} = g (bufs.getD j {}, j) := by
    have hlt : j < bufs.length := h.length ▸ hj
    simp [List.getD_eq_getElem?_getD, hlt]
  obtain ⟨offsets, lengths, data, total, hcol, hin⟩ := hf.strings b hb j hj
  have hlabels : b.labels j = strings offsets lengths data b.count := by
    simp only [Batch.labels, hcol]
  have hdrop : s j ≤ ((labelColumn f j).take R).length := by
    rw [List.length_take, hf.length_labelColumn hj]
    exact le_min (le_trans (h.le j hj) hp) (le_trans (le_trans (h.le j hj) hp) hat.le_count)
  rw [hget, htake j hj, List.drop_append_of_le_length hdrop, hlabels]
  simp only [hg, hcol]
  exact (h.holds j hj).append hin

lemma BufsAt.compact (hf : LabelsRegular f n) (h : BufsAt f n p R s bufs)
    (hcount : R ≤ f.count) (hp : p ≤ R) {li : ℕ}
    (hbytes : li < n → (((labelColumn f li).drop (s li)).take (p - s li)).flatten.length < 2 ^ 32)
    (hhead : li < n → p - s li < 2 ^ 32) (hleft : R - p < 2 ^ 32) :
    BufsAt f n p R (Function.update s li p) (bufs.modify li LabelStringBuf.compact) := by
  refine ⟨by simp [h.length], fun j hj => ?_, fun j hj => ?_⟩
  · by_cases hli : j = li
    · subst hli
      simp
    · rw [Function.update_of_ne hli]
      exact h.le j hj
  · by_cases hli : j = li
    · subst hli
      have hsj := h.le j hj
      have hlen : ((labelColumn f j).take R).length = R := by
        rw [List.length_take, hf.length_labelColumn hj]
        exact Nat.min_eq_left hcount
      have hrows : (((labelColumn f j).take R).drop (s j)).length = R - s j := by
        rw [List.length_drop, hlen]
      have hfront : (((labelColumn f j).take R).drop (s j)).take (p - s j)
          = ((labelColumn f j).drop (s j)).take (p - s j) := by
        rw [List.drop_take, List.take_take, Nat.min_eq_left (by omega)]
      have hget : (bufs.modify j LabelStringBuf.compact).getD j {}
          = (bufs.getD j {}).compact := by
        have hlt : j < bufs.length := h.length ▸ hj
        simp [List.getD_eq_getElem?_getD, hlt]
      have hcompact := (h.holds j hj).compact (by rw [hrows]; omega)
        (by rw [hfront]; exact hbytes hj) (by rw [hrows]; omega) (hhead hj)
      rw [List.drop_drop, Nat.add_sub_cancel' hsj] at hcompact
      rw [hget, Function.update_self, Nat.sub_self]
      exact hcompact
    · have hget : (bufs.modify li LabelStringBuf.compact).getD j {} = bufs.getD j {} := by
        simp [List.getD_eq_getElem?_getD, Ne.symm hli]
      rw [hget, Function.update_of_ne hli]
      exact h.holds j hj

lemma BufsAt.fillTo (hf : LabelsRegular f n) {need li : ℕ} (hli : li < n) (hs : s li = p)
    (henough : p + need ≤ f.count) (h : BufsAt f n p R s bufs) (hat : LabelsAt f R ahead)
    (hp : p ≤ R) (hnear : R < p + need + 2 ^ 31) :
    ∃ ahead' bufs' R', fillTo need li ahead bufs = .ok (ahead', bufs') ∧ LabelsAt f R' ahead' ∧
      BufsAt f n p R' s bufs' ∧ p + need ≤ R' ∧ R' < p + need + 2 ^ 31 := by
  have havail : ∀ {R : ℕ} {bufs : List LabelStringBuf}, BufsAt f n p R s bufs → R ≤ f.count →
      (bufs.getD li {}).available = R - p := by
    intro R bufs h hR
    rw [(h.holds li hli).available, hs, Nat.sub_self, Nat.sub_zero, List.length_drop,
      List.length_take, hf.length_labelColumn hli, Nat.min_eq_left hR]
  induction ahead generalizing R bufs with
  | nil =>
    have hR := hat.eq_count
    refine ⟨[], bufs, R, ?_, hat, h, by omega, hnear⟩
    rw [GlobSource.fillTo, if_pos (by rw [havail h hat.le_count]; omega)]
  | cons b ahead ih =>
    by_cases hdone : need ≤ R - p
    · refine ⟨b :: ahead, bufs, R, ?_, hat, h, by omega, hnear⟩
      rw [GlobSource.fillTo, if_pos (by rw [havail h hat.le_count]; exact hdone)]
    · obtain ⟨hat', hb, -⟩ := hat.next hf
      obtain ⟨bufs₁, hok, h₁⟩ := h.appendLabels hf hat hp
      have hnarrow := hf.narrow b hb
      obtain ⟨ahead', bufs', R', hfill, hrest⟩ := ih h₁ hat' (by omega) (by omega)
      refine ⟨ahead', bufs', R', ?_, hrest⟩
      rw [GlobSource.fillTo, if_neg (by rw [havail h hat.le_count]; exact hdone),
        if_neg (hf.nonempty b hb), hok]
      exact hfill

lemma BufsAt.congr {s' : ℕ → ℕ} (h : BufsAt f n p R s bufs) (hs : ∀ j, j < n → s' j = s j) :
    BufsAt f n p R s' bufs := by
  refine ⟨h.length, fun j hj => ?_, fun j hj => ?_⟩
  · rw [hs j hj]
    exact h.le j hj
  · rw [hs j hj]
    exact h.holds j hj

/-- The bytes of the rows from `a` to `b` in a column. -/
def bytesBetween (f : ParquetFile Unit) (j a b : ℕ) : ℕ :=
  (((labelColumn f j).drop a).take (b - a)).flatten.length

lemma bytesBetween_le (f : ParquetFile Unit) (j a b : ℕ) :
    bytesBetween f j a b ≤ (labelColumn f j).flatten.length :=
  (((List.take_sublist _ _).trans (List.drop_sublist _ _)).flatten).length_le

lemma bytesBetween_self (f : ParquetFile Unit) (j a : ℕ) : bytesBetween f j a a = 0 := by
  simp [bytesBetween]

lemma BufsAt.ensure (hf : LabelsRegular f n) {need : ℕ} (hneed : need < 2 ^ 31)
    (henough : p + need ≤ f.count) (lis : List ℕ) (hlis : ∀ li ∈ lis, li < n)
    (h : BufsAt f n p R s bufs) (hat : LabelsAt f R ahead) (hp : p ≤ R)
    (hnear : R < p + need + 2 ^ 31) (hbytes : ∀ j, j < n → bytesBetween f j (s j) p < 2 ^ 32)
    (hhead : ∀ j, j < n → p - s j < 2 ^ 32) (htodo : ∀ j, j < n → s j = p ∨ j ∈ lis)
    (hstart : p + need ≤ R ∨ lis ≠ []) :
    ∃ ahead' bufs' R', ensureLabelRows need lis ahead bufs = .ok (ahead', bufs') ∧
      LabelsAt f R' ahead' ∧ BufsAt f n p R' (fun _ => p) bufs' ∧ p + need ≤ R' ∧
      R' < p + need + 2 ^ 31 := by
  induction lis generalizing R s ahead bufs with
  | nil =>
    refine ⟨ahead, bufs, R, rfl, hat, h.congr fun j hj => ?_, by simpa using hstart, hnear⟩
    exact ((htodo j hj).resolve_right (by simp)).symm
  | cons li lis ih =>
    have hli := hlis li List.mem_cons_self
    have h₁ := h.compact hf hat.le_count hp (fun _ => hbytes li hli) (fun _ => hhead li hli)
      (by omega)
    obtain ⟨ahead₁, bufs₁, R₁, hfill, hat₁, h₂, hle, hnear₁⟩ :=
      h₁.fillTo hf hli (Function.update_self li p s) henough hat hp hnear
    have hupdate : ∀ j, j ≠ li → Function.update s li p j = s j :=
      fun j hj => Function.update_of_ne hj p s
    obtain ⟨ahead', bufs', R', hens, hrest⟩ :=
      ih (fun x hx => hlis x (List.mem_cons_of_mem li hx)) h₂ hat₁ (by omega) hnear₁
        (fun j hj => by
          by_cases hj' : j = li
          · subst hj'
            rw [Function.update_self, bytesBetween_self]
            norm_num
          · rw [hupdate j hj']
            exact hbytes j hj)
        (fun j hj => by
          by_cases hj' : j = li
          · subst hj'
            rw [Function.update_self]
            omega
          · rw [hupdate j hj']
            exact hhead j hj)
        (fun j hj => by
          by_cases hj' : j = li
          · subst hj'
            exact Or.inl (Function.update_self j p s)
          · rw [hupdate j hj']
            rcases htodo j hj with hs | hmem
            · exact Or.inl hs
            · exact Or.inr ((List.mem_cons.1 hmem).resolve_left hj'))
        (Or.inl hle)
    refine ⟨ahead', bufs', R', ?_, hrest⟩
    rw [ensureLabelRows, hfill]
    exact hens

/-- Where the label reader and the buffers stand after `p` rows. Without label columns nothing is
read. -/
structure LabelInv (f : ParquetFile Unit) (n p : ℕ) (ahead : List (Batch Unit))
    (bufs : List LabelStringBuf) : Prop where
  length : bufs.length = n
  held : 0 < n → ∃ R s, LabelsAt f R ahead ∧ BufsAt f n p R s bufs ∧ p ≤ R ∧ R < p + 2 ^ 31 ∧
    (∀ j, j < n → bytesBetween f j (s j) p < 2 ^ 32) ∧ ∀ j, j < n → p - s j < 2 ^ 32

lemma LabelsRegular.length_lt (hf : LabelsRegular f n) {j : ℕ} (hj : j < n) {x : Bytes}
    (hx : x ∈ labelColumn f j) : x.length < 2 ^ 16 := by
  obtain ⟨b, hb, hxb⟩ := List.mem_flatMap.1 hx
  obtain ⟨offsets, lengths, data, total, hcol, -⟩ := hf.strings b hb j hj
  simp only [Batch.labels, hcol, GlobSource.strings, List.mem_map] at hxb
  obtain ⟨i, -, rfl⟩ := hxb
  have := UInt16.toNat_lt (lengths.getD i 0)
  rw [List.length_take]
  omega

lemma labelInv_start (f : ParquetFile Unit) (n : ℕ) :
    LabelInv f n 0 f.batches (List.replicate n {}) := by
  refine ⟨List.length_replicate, fun _ => ⟨0, fun _ => 0, ⟨[], rfl, rfl⟩,
    ⟨List.length_replicate, fun _ _ => le_rfl, fun j hj => ?_⟩, le_rfl, by norm_num, fun j _ => ?_,
    fun _ _ => by norm_num⟩⟩
  · have hget : (List.replicate n ({} : LabelStringBuf)).getD j {} = {} := by
      simp [List.getD_eq_getElem?_getD, hj]
    rw [hget]
    exact LabelStringBuf.holds_new
  · rw [bytesBetween_self]
    norm_num

lemma LabelInv.step (hf : LabelsRegular f n) {need : ℕ} (hneed : need < 2 ^ 31)
    (henough : 0 < n → p + need ≤ f.count) (h : LabelInv f n p ahead bufs)
    (hbytes : ∀ j, j < n → bytesBetween f j p (p + need) < 2 ^ 32) :
    ∃ ahead' bufs', ensureLabelRows need (List.range n) ahead bufs = .ok (ahead', bufs') ∧
      LabelInv f n (p + need) ahead' (bufs'.map fun b => { b with head := b.head + need }) ∧
      bufs'.length = n ∧ ∀ j, j < n → ∀ i, i < need → ∀ t,
        (bufs'.getD j {}).view.value t i = .str ((labelColumn f j).getD (p + i) []) := by
  rcases Nat.eq_zero_or_pos n with rfl | hn
  · have hnil : bufs = [] := List.eq_nil_of_length_eq_zero h.length
    subst hnil
    exact ⟨ahead, [], rfl, ⟨rfl, fun hlt => absurd hlt (by omega)⟩, rfl,
      fun j hj => absurd hj (by omega)⟩
  · have henough := henough hn
    obtain ⟨R, s, hat, hbufs, hp, hnear, hold, hhead⟩ := h.held hn
    obtain ⟨ahead', bufs', R', hens, hat', hbufs', hle, hnear'⟩ :=
      hbufs.ensure hf hneed henough (List.range n) (fun li hli => List.mem_range.1 hli) hat hp
        (by omega) hold hhead (fun j hj => Or.inr (List.mem_range.2 hj))
        (Or.inr (by simp; omega))
    refine ⟨ahead', bufs', hens, ⟨by simp [hbufs'.length], fun _ => ⟨R', fun _ => p, hat', ?_, hle,
      hnear', hbytes, fun _ _ => by simp only [Nat.add_sub_cancel_left]; omega⟩⟩, hbufs'.length,
      ?_⟩
    · refine ⟨by simp [hbufs'.length], fun _ _ => Nat.le_add_right _ _, fun j hj => ?_⟩
      have hget : (bufs'.map fun b => { b with head := b.head + need }).getD j {}
          = { bufs'.getD j {} with head := (bufs'.getD j {}).head + need } := by
        have hlt : j < bufs'.length := hbufs'.length ▸ hj
        simp [List.getD_eq_getElem?_getD, hlt]
      have hj' := hbufs'.holds j hj
      rw [hget]
      refine ⟨hj'.offsets, hj'.lengths, hj'.data, ?_⟩
      simp only [hj'.head, Nat.sub_self, Nat.add_sub_cancel_left, Nat.zero_add]
    · intro j hj i hi t
      have hj' := hbufs'.holds j hj
      rw [Nat.sub_self] at hj'
      have hlen := hf.length_labelColumn hj
      have hlt : p + i < (labelColumn f j).length := by omega
      have hrow : (((labelColumn f j).take R').drop p)[i]?
          = some ((labelColumn f j).getD (p + i) []) := by
        rw [List.getElem?_drop, List.getElem?_take_of_lt (by omega), List.getElem?_eq_getElem hlt,
          List.getD_eq_getElem?_getD, List.getElem?_eq_getElem hlt]
        rfl
      have hmem : (labelColumn f j).getD (p + i) [] ∈ labelColumn f j := by
        rw [List.getD_eq_getElem?_getD, List.getElem?_eq_getElem hlt]
        exact List.getElem_mem hlt
      refine hj'.value_view hrow (hf.length_lt hj hmem) (lt_of_le_of_lt ?_ (hbytes j hj)) t
      have htake : (((labelColumn f j).take R').drop p).take i
          = (((labelColumn f j).drop p).take need).take i := by
        rw [List.drop_take, List.take_take, List.take_take, Nat.min_eq_left (by omega),
          Nat.min_eq_left hi.le]
      rw [htake, bytesBetween, Nat.add_sub_cancel_left]
      exact PushStage.length_take_flatten_le _ i

end Labels

/-! ### The shards -/

section Shards

variable {V : Type} {g : ParquetGlobSource V} {pos : Position V} {p : ℕ} {todo : List (Batch V)}

/-- `p` rows are delivered, and these batches are to come. -/
def Position.At (g : ParquetGlobSource V) (pos : Position V) (p : ℕ) (todo : List (Batch V)) :
    Prop :=
  match pos.src with
  | none => p = g.shardBase pos.shard ∧ todo = (g.shards.drop pos.shard).flatMap (·.batches)
  | some s => ∃ f, g.shards[pos.shard]? = some f ∧ p = g.shardBase pos.shard + s.cursor ∧
      s.cursor + (s.ahead.map Batch.count).sum = f.count ∧
      todo = s.ahead ++ (g.shards.drop (pos.shard + 1)).flatMap (·.batches)

lemma shardBase_succ {i : ℕ} {f : ParquetFile V} (h : g.shards[i]? = some f) :
    g.shardBase (i + 1) = g.shardBase i + f.count := by
  simp [ParquetGlobSource.shardBase, List.take_add_one, h]

lemma Position.At.opened (h : pos.At g p todo) {f : ParquetFile V}
    (hf : g.shards[pos.shard]? = some f) :
    p = g.shardBase pos.shard + (pos.src.getD (.new f)).cursor ∧
      (pos.src.getD (.new f)).cursor + ((pos.src.getD (.new f)).ahead.map Batch.count).sum
        = f.count ∧
      todo = (pos.src.getD (.new f)).ahead
        ++ (g.shards.drop (pos.shard + 1)).flatMap (·.batches) := by
  obtain ⟨hlt, hget⟩ := List.getElem?_eq_some_iff.1 hf
  unfold Position.At at h
  cases hsrc : pos.src with
  | none =>
    rw [hsrc] at h
    obtain ⟨rfl, rfl⟩ := h
    refine ⟨rfl, by simp [ParquetSource.new, ParquetFile.count], ?_⟩
    rw [List.drop_eq_getElem_cons hlt, hget]
    rfl
  | some s =>
    rw [hsrc] at h
    obtain ⟨f', hf', rfl, hsum, rfl⟩ := h
    rw [hf] at hf'
    obtain rfl := Option.some.inj hf'
    exact ⟨rfl, hsum, rfl⟩

/-- The chunk of a batch whose first row is row `p`. -/
def chunkOf (p : ℕ) (b : Batch V) : Chunk V where
  vectors := b.vectors
  rowIds := (List.range b.count).map (p + ·)
  filterColumns := if b.columns.isEmpty then none else some (b.columns.map some)

/-- What the loop over the shards leaves: the next batch with the ids of the whole source, or the end.
-/
def Delivers (g : ParquetGlobSource V) (p : ℕ) :
    List (Batch V) → Option (Chunk V) × Position V → Prop
  | [], r => r.1 = none ∧ r.2.At g p []
  | b :: rest, r => r.1 = some (chunkOf p b) ∧ r.2.At g (p + b.count) rest

lemma Position.At.done (h : pos.At g p todo) (hle : g.shards.length ≤ pos.shard) :
    todo = [] := by
  unfold Position.At at h
  cases hsrc : pos.src with
  | none =>
    rw [hsrc] at h
    obtain ⟨-, rfl⟩ := h
    rw [List.drop_of_length_le hle]
    rfl
  | some s =>
    rw [hsrc] at h
    obtain ⟨f, hf, -⟩ := h
    exact absurd (List.getElem?_eq_some_iff.1 hf).1 (by omega)

lemma advance_spec (hne : ∀ b ∈ todo, b.count ≠ 0) {fuel : ℕ} (h : pos.At g p todo)
    (hfuel : g.shards.length - pos.shard ≤ fuel) : Delivers g p todo (g.advance fuel pos) := by
  induction fuel generalizing pos with
  | zero =>
    obtain rfl := h.done (by omega)
    exact ⟨rfl, h⟩
  | succ fuel ih =>
    cases hf : g.shards[pos.shard]? with
    | none =>
      obtain rfl := h.done (List.getElem?_eq_none_iff.1 hf)
      rw [ParquetGlobSource.advance, hf]
      exact ⟨rfl, h⟩
    | some f =>
      have hlt := (List.getElem?_eq_some_iff.1 hf).1
      obtain ⟨hp, hsum, htodo⟩ := h.opened hf
      set s := pos.src.getD (.new f) with hs
      rw [ParquetGlobSource.advance, hf]
      dsimp only
      rw [← hs]
      cases hahead : s.ahead with
      | nil =>
        rw [hahead] at hsum htodo
        have hnext : s.next = (none, s) := by rw [ParquetSource.next, hahead]
        have hat : Position.At g { src := none, shard := pos.shard + 1 } p todo := by
          refine ⟨?_, htodo⟩
          rw [shardBase_succ hf, ← hsum, hp]
          simp
        rw [hnext]
        exact ih hat (by simp only; omega)
      | cons b ahead =>
        rw [hahead, List.cons_append] at htodo
        rw [hahead, List.map_cons, List.sum_cons] at hsum
        rw [htodo] at hne ⊢
        have hcount := hne b List.mem_cons_self
        have hnext : s.next = (some
            { vectors := b.vectors
              rowIds := (List.range b.count).map (s.cursor + ·)
              filterColumns := if b.columns.isEmpty then none else some (b.columns.map some) },
            { ahead := ahead, cursor := s.cursor + b.count }) := by
          rw [ParquetSource.next, hahead]
          exact if_neg hcount
        rw [hnext]
        refine ⟨congrArg some ?_, f, hf, ?_, ?_, rfl⟩
        · simp only [chunkOf, List.map_map]
          congr 1
          refine List.map_congr_left fun i _ => ?_
          simp only [Function.comp_apply, hp]
          omega
        · simp only [hp]
          omega
        · simp only
          omega

end Shards

/-! ### Rows by position -/

def selected (columns : List FilterColumn) (labelCols : List String) (vs : List Value) :
    List Value :=
  if labelCols.isEmpty then vs
  else ((columns.zip vs).filter fun x => labelCols.any (x.1.name == ·)).map Prod.snd

/-- The selected labels of row `i`. -/
def labelValues (labels : Option (ParquetFile Unit)) (labelCols : List String) (i : ℕ) :
    List Value :=
  match labels with
  | none => []
  | some l => selected l.columns labelCols ((l.rows.map Prod.snd).getD i [])

section Rows

variable {V : Type}

/-- The row at position `i`. -/
def joinedRow (labels : Option (ParquetFile Unit)) (labelCols : List String)
    (x : (V × List Value) × ℕ) : Row V where
  vector := x.1.1
  id := x.2
  values := (x.1.2 ++ labelValues labels labelCols x.2).map some

/-- The rows of the shards, numbered, each with its own columns and the labels at its position. -/
def joined (shards : List (ParquetFile V)) (labels : Option (ParquetFile Unit))
    (labelCols : List String) : List (Row V) :=
  (shards.flatMap ParquetFile.rows).zipIdx.map (joinedRow labels labelCols)

/-- What the readers deliver: batches that are not empty, of at most `batch_size` rows, which is an
`int32_t`, with a view for each column, and strings that lie in their data. -/
structure Readers (shards : List (ParquetFile V)) (labels : Option (ParquetFile Unit)) : Prop where
  shards : ∀ f ∈ shards, ∀ b ∈ f.batches, b.count ≠ 0 ∧ b.count < 2 ^ 31 ∧
    b.columns.length = f.columns.length
  labels : ∀ l, labels = some l → ∀ b ∈ l.batches, b.count ≠ 0 ∧ b.count < 2 ^ 31 ∧
    b.columns.length = l.columns.length ∧ ∀ (j : ℕ) (col : FilterColumn), l.columns[j]? = some col →
      col.type = .string →
      ∃ offsets lengths data total, b.columns[j]? = some (View.str offsets lengths data total) ∧
        ∀ i, i < b.count → (offsets.getD i 0).toNat + (lengths.getD i 0).toNat ≤ data.length

/-- The rows before batch `k` of the shards. -/
def rowsBefore (shards : List (ParquetFile V)) (k : ℕ) : ℕ :=
  (((shards.flatMap (·.batches)).take k).map Batch.count).sum

/-- When the columns of the chunks are those of the schema: every shard with rows has the columns of
the first shard, and none besides labels (or when they are suppressed); the selected labels are the
first columns of their file and hold strings, and if there are any there is one for every row; the
strings of a chunk have fewer than `2 ^ 32` bytes together. -/
structure Aligned (shards : List (ParquetFile V)) (labels : Option (ParquetFile Unit))
    (config : Config) : Prop where
  same : ∀ first, shards.head? = some first → ∀ f ∈ shards, f.batches ≠ [] →
    f.columns = first.columns
  bare : labels.isSome ∨ config.vectorsOnly = true → ∀ f ∈ shards, f.batches ≠ [] → f.columns = []
  first : ∀ l, labels = some l → labelSchema l.columns config.labelCols
    = l.columns.take (labelSchema l.columns config.labelCols).length
  strings : ∀ l, labels = some l → ∀ col ∈ labelSchema l.columns config.labelCols,
    col.type = .string
  enough : ∀ l, labels = some l → labelSchema l.columns config.labelCols ≠ [] →
    (shards.map ParquetFile.count).sum ≤ l.count
  bytes : ∀ l, labels = some l → ∀ j, j < (labelSchema l.columns config.labelCols).length → ∀ k,
    bytesBetween l j (rowsBefore shards k) (rowsBefore shards (k + 1)) < 2 ^ 32

end Rows

section Select

variable {n : ℕ}

lemma filter_zip_eq_take {α β : Type} (q : α → Bool) (l : List α) (m : List β)
    (h : l.filter q = l.take (l.filter q).length) :
    (l.zip m).filter (fun x => q x.1) = (l.zip m).take (l.filter q).length := by
  induction l generalizing m with
  | nil => simp
  | cons a l ih =>
    by_cases ha : q a = true
    · rw [List.filter_cons_of_pos ha] at h ⊢
      rw [List.length_cons, List.take_succ_cons, List.cons.injEq] at h
      cases m with
      | nil => simp
      | cons b m =>
        rw [List.zip_cons_cons, List.filter_cons_of_pos (by simpa using ha), List.length_cons,
          List.take_succ_cons, ih m h.2]
    · have hnil : l.filter q = [] := by
        rw [List.filter_cons_of_neg ha] at h
        by_contra hne
        obtain ⟨b, bs, hb⟩ := List.exists_cons_of_ne_nil hne
        rw [hb, List.length_cons, List.take_succ_cons, List.cons.injEq] at h
        have hmem : b ∈ l.filter q := by
          rw [hb]
          exact List.mem_cons_self
        exact ha (h.1 ▸ (List.mem_filter.1 hmem).2)
      have hall : ∀ x ∈ (a :: l).zip m, ¬ q x.1 = true := by
        intro x hx
        rcases List.mem_cons.1 (List.of_mem_zip hx).1 with hxa | hxl
        · rw [hxa]
          exact ha
        · intro hq
          have : x.1 ∈ l.filter q := List.mem_filter.2 ⟨hxl, hq⟩
          rw [hnil] at this
          cases this
      rw [List.filter_cons_of_neg ha, hnil, List.length_nil, List.take_zero,
        List.filter_eq_nil_iff]
      exact hall

lemma selected_eq_take {columns : List FilterColumn} {labelCols : List String}
    (h : labelSchema columns labelCols
      = columns.take (labelSchema columns labelCols).length) {vs : List Value}
    (hlen : vs.length = columns.length) :
    selected columns labelCols vs = vs.take (labelSchema columns labelCols).length := by
  unfold selected
  unfold labelSchema at h ⊢
  split_ifs at h ⊢ with hempty
  · rw [← hlen, List.take_length]
  · rw [filter_zip_eq_take _ _ _ h, List.map_take, List.map_snd_zip (by omega)]

lemma selected_eq_nil {columns : List FilterColumn} {labelCols : List String}
    (h : labelSchema columns labelCols = []) {vs : List Value} (hvs : columns = [] → vs = []) :
    selected columns labelCols vs = [] := by
  unfold selected
  unfold labelSchema at h
  split_ifs at h ⊢ with hempty
  · exact hvs h
  · have hzip := filter_zip_eq_take (fun col => labelCols.any (col.name == ·)) columns vs
      (by rw [h]; rfl)
    rw [hzip, h]
    rfl

end Select

section LabelRows

variable {l : ParquetFile Unit} {n : ℕ}

lemma length_values {V : Type} {b : Batch V} {columns : List FilterColumn} {i : ℕ}
    (h : b.columns.length = columns.length) : (b.values columns i).length = columns.length := by
  simp [Batch.values, h]

lemma getElem?_labelRow (hf : LabelsRegular l n) (hn : n ≤ l.columns.length)
    (hcols : ∀ b ∈ l.batches, b.columns.length = l.columns.length) {q : ℕ} (hq : q < l.count) :
    ((l.rows.map Prod.snd).getD q []).length = l.columns.length ∧ ∀ j, j < n →
      ((l.rows.map Prod.snd).getD q [])[j]? = some (.str ((labelColumn l j).getD q [])) := by
  have hrows : l.rows.map Prod.snd
      = l.batches.flatMap fun b => (List.range b.count).map (b.values l.columns) := by
    rw [ParquetFile.rows, List.map_flatMap]
    refine List.flatMap_congr fun b _ => ?_
    rw [Batch.rows, List.map_map]
    refine List.ext_getElem (by simp [Batch.count]) fun i _ _ => by simp
  have hbatch : ∀ bs : List (Batch Unit), (∀ b ∈ bs, b ∈ l.batches) →
      ∀ q, q < (bs.map Batch.count).sum →
      ((bs.flatMap fun b => (List.range b.count).map (b.values l.columns)).getD q []).length
        = l.columns.length ∧ ∀ j, j < n →
      ((bs.flatMap fun b => (List.range b.count).map (b.values l.columns)).getD q [])[j]?
        = some (.str ((bs.flatMap (·.labels j)).getD q [])) := by
    intro bs hbs
    induction bs with
    | nil => simp
    | cons b bs ih =>
      intro q hq
      have hb := hbs b List.mem_cons_self
      have hlen : ((List.range b.count).map (b.values l.columns)).length = b.count := by simp
      rw [List.map_cons, List.sum_cons] at hq
      rw [List.flatMap_cons]
      rcases Nat.lt_or_ge q b.count with hlt | hge
      · have hval : ((List.range b.count).map (b.values l.columns)).getD q []
            = b.values l.columns q := by
          simp [List.getD_eq_getElem?_getD, hlt]
        rw [List.getD_append _ _ _ _ (by rw [hlen]; exact hlt), hval]
        refine ⟨length_values (hcols b hb), fun j hj => ?_⟩
        obtain ⟨offsets, lengths, data, total, hcol, -⟩ := hf.strings b hb j hj
        have hlabels : b.labels j = strings offsets lengths data b.count := by
          simp only [Batch.labels, hcol]
        rw [List.flatMap_cons, List.getD_append _ _ _ _ (by rw [hf.length_labels hb hj]; exact hlt)]
        have hj' : j < l.columns.length := by omega
        rw [Batch.values, List.getElem?_zipWith, List.getElem?_eq_getElem hj', hcol]
        simp [View.value, hlabels, strings, List.getD_eq_getElem?_getD, hlt]
      · have hge' : ((List.range b.count).map (b.values l.columns)).length ≤ q := by
          rw [hlen]
          exact hge
        rw [List.getD_append_right _ _ _ _ hge', hlen]
        obtain ⟨h₁, h₂⟩ := ih (fun b' hb' => hbs b' (List.mem_cons_of_mem b hb')) (q - b.count)
          (by omega)
        refine ⟨h₁, fun j hj => ?_⟩
        have hlabels := hf.length_labels hb hj
        rw [h₂ j hj, List.flatMap_cons, List.getD_append_right _ _ _ _ (by omega), hlabels]
  rw [hrows]
  exact hbatch l.batches (fun _ hb => hb) q hq

end LabelRows

/-! ### The source -/

section Source

variable {V : Type} {shards : List (ParquetFile V)} {labels : Option (ParquetFile Unit)}
  {config : Config} {g : ParquetGlobSource V} {p : ℕ}

def lschema (labels : Option (ParquetFile Unit)) (config : Config) : List FilterColumn :=
  (labels.map fun f => labelSchema f.columns config.labelCols).getD []

/-- A source over these files, in whatever state its calls left it. -/
structure Over (shards : List (ParquetFile V)) (labels : Option (ParquetFile Unit))
    (config : Config) (g : ParquetGlobSource V) : Prop where
  sameShards : g.shards = shards
  sameLabels : g.labels = labels
  sameConfig : g.config = config
  columns : ∃ first, shards.head? = some first ∧
    g.columns = first.columns ++ lschema labels config
  nLabelCols : g.nLabelCols = (lschema labels config).length
  bufs : g.labelBufs.length = g.nLabelCols
  ptrs : g.chunkFilterPtrs.length = g.columns.length

lemma over_new (h : ParquetGlobSource.new shards labels config = .ok g) :
    Over shards labels config g ∧ g.reset = g := by
  cases shards with
  | nil => cases h
  | cons first rest =>
    obtain rfl := Except.ok.inj h
    refine ⟨⟨rfl, rfl, rfl, ⟨first, rfl, rfl⟩, rfl, by simp, by simp⟩, ?_⟩
    cases labels <;> simp [ParquetGlobSource.reset]

/-- The states of a source: after its construction, calls of `next` and `reset`, and whatever a call
that threw left of the position, the label reader and the buffers. -/
inductive Reached (shards : List (ParquetFile V)) (labels : Option (ParquetFile Unit))
    (config : Config) : ParquetGlobSource V → Prop
  | new {g : ParquetGlobSource V} (h : ParquetGlobSource.new shards labels config = .ok g) :
      Reached shards labels config g
  | next {g g' : ParquetGlobSource V} {c : Option (Chunk V)} (h : Reached shards labels config g)
      (ok : g.next = .ok (c, g')) : Reached shards labels config g'
  | failed {g : ParquetGlobSource V} {e : Error} (h : Reached shards labels config g)
      (fails : g.next = .error e) (pos : Position V) (ahead : List (Batch Unit))
      (bufs : List LabelStringBuf) (hlen : bufs.length = g.labelBufs.length) :
      Reached shards labels config
        { g with position := pos, labelAhead := ahead, labelBufs := bufs }
  | reset {g : ParquetGlobSource V} (h : Reached shards labels config g) :
      Reached shards labels config g.reset

lemma length_appendLabels {b : Batch Unit} {bufs bufs' : List LabelStringBuf}
    (h : appendLabels b bufs = .ok bufs') : bufs'.length = bufs.length := by
  have := (Outcome.mapM_eq_ok_iff.1 h).length_eq
  simpa using this.symm

lemma length_fillTo {need li : ℕ} {ahead ahead' : List (Batch Unit)}
    {bufs bufs' : List LabelStringBuf} (h : fillTo need li ahead bufs = .ok (ahead', bufs')) :
    bufs'.length = bufs.length := by
  induction ahead generalizing bufs with
  | nil =>
    rw [fillTo] at h
    split_ifs at h
    obtain ⟨-, rfl⟩ := Prod.ext_iff.1 (Except.ok.inj h)
    rfl
  | cons b ahead ih =>
    rw [fillTo] at h
    split_ifs at h
    · obtain ⟨-, rfl⟩ := Prod.ext_iff.1 (Except.ok.inj h)
      rfl
    · obtain ⟨bufs₁, happend, h⟩ := Outcome.bind_eq_ok.1 h
      exact (ih h).trans (length_appendLabels happend)

lemma length_ensureLabelRows {need : ℕ} {lis : List ℕ} {ahead ahead' : List (Batch Unit)}
    {bufs bufs' : List LabelStringBuf}
    (h : ensureLabelRows need lis ahead bufs = .ok (ahead', bufs')) :
    bufs'.length = bufs.length := by
  induction lis generalizing ahead bufs with
  | nil =>
    obtain ⟨-, rfl⟩ := Prod.ext_iff.1 (Except.ok.inj h)
    rfl
  | cons li lis ih =>
    obtain ⟨⟨ahead₁, bufs₁⟩, hfill, h⟩ := Outcome.bind_eq_ok.1 h
    rw [ih h, length_fillTo hfill, List.length_modify]

lemma length_foldl_set (xs : List (LabelStringBuf × ℕ)) (ptrs : List (Option View)) :
    (xs.foldl (fun ptrs x => ptrs.set x.2 (some x.1.view)) ptrs).length = ptrs.length := by
  induction xs generalizing ptrs with
  | nil => rfl
  | cons x xs ih => rw [List.foldl_cons, ih, List.length_set]

lemma length_consumeLabels (bufs : List LabelStringBuf) (ptrs : List (Option View)) :
    (ParquetGlobSource.consumeLabels bufs ptrs).length = ptrs.length :=
  length_foldl_set _ ptrs

lemma getElem?_consumeLabels {bufs : List LabelStringBuf} {ptrs : List (Option View)}
    (hlen : bufs.length ≤ ptrs.length) {j : ℕ} (hj : j < bufs.length) :
    (ParquetGlobSource.consumeLabels bufs ptrs)[j]? = some (some (bufs.getD j {}).view) := by
  induction bufs using List.reverseRecOn generalizing ptrs j with
  | nil => simp at hj
  | append_singleton bufs b ih =>
    rw [List.length_append, List.length_singleton] at hlen hj
    have hstep : ParquetGlobSource.consumeLabels (bufs ++ [b]) ptrs
        = (ParquetGlobSource.consumeLabels bufs ptrs).set bufs.length (some b.view) := by
      simp [ParquetGlobSource.consumeLabels, List.zipIdx_append]
    rw [hstep]
    rcases Nat.lt_or_ge j bufs.length with hlt | hge
    · rw [List.getElem?_set_ne (by omega), ih (by omega) hlt, List.getD_append _ _ _ _ hlt]
    · obtain rfl : j = bufs.length := by omega
      rw [List.getElem?_set_self (by rw [length_consumeLabels]; omega)]
      simp [List.getD_eq_getElem?_getD]

lemma Over.next (h : Over shards labels config g) {c : Option (Chunk V)} {g' : ParquetGlobSource V}
    (ok : g.next = .ok (c, g')) : Over shards labels config g' := by
  unfold ParquetGlobSource.next at ok
  cases hadv : g.advance (g.shards.length - g.position.shard) g.position with
  | mk c₀ pos =>
    rw [hadv] at ok
    cases c₀ with
    | none =>
      obtain ⟨-, rfl⟩ := Prod.ext_iff.1 (Except.ok.inj ok)
      exact ⟨h.sameShards, h.sameLabels, h.sameConfig, h.columns, h.nLabelCols, h.bufs, h.ptrs⟩
    | some c₀ =>
      dsimp only at ok
      generalize (if g.config.vectorsOnly = true then { c₀ with filterColumns := none } else c₀) = c₁
        at ok
      split_ifs at ok with hlabels
      · obtain ⟨⟨ahead, bufs⟩, hens, ok⟩ := Outcome.bind_eq_ok.1 ok
        obtain ⟨-, rfl⟩ := Prod.ext_iff.1 (Except.ok.inj ok)
        refine ⟨h.sameShards, h.sameLabels, h.sameConfig, h.columns, h.nLabelCols, ?_, ?_⟩
        · simp only [List.length_map]
          exact (length_ensureLabelRows hens).trans h.bufs
        · simp only [length_consumeLabels]
          exact h.ptrs
      · obtain ⟨-, rfl⟩ := Prod.ext_iff.1 (Except.ok.inj ok)
        exact ⟨h.sameShards, h.sameLabels, h.sameConfig, h.columns, h.nLabelCols, h.bufs, h.ptrs⟩

lemma Over.reset (h : Over shards labels config g) : Over shards labels config g.reset := by
  refine ⟨h.sameShards, h.sameLabels, h.sameConfig, h.columns, h.nLabelCols, ?_, h.ptrs⟩
  unfold ParquetGlobSource.reset
  dsimp only
  split_ifs
  · rw [List.length_map]
    exact h.bufs
  · exact h.bufs

lemma Reached.over (h : Reached shards labels config g) : Over shards labels config g := by
  induction h with
  | new h => exact (over_new h).1
  | next _ ok ih => exact ih.next ok
  | failed _ _ _ _ _ hlen ih =>
    exact ⟨ih.sameShards, ih.sameLabels, ih.sameConfig, ih.columns, ih.nLabelCols,
      hlen.trans ih.bufs, ih.ptrs⟩
  | reset _ ih => exact ih.reset

lemma rowsBefore_succ {k : ℕ} {b : Batch V} {rest : List (Batch V)}
    (h : (shards.flatMap (·.batches)).drop k = b :: rest) :
    rowsBefore shards (k + 1) = rowsBefore shards k + b.count ∧
      (shards.flatMap (·.batches)).drop (k + 1) = rest ∧
      rowsBefore shards (k + 1) ≤ (shards.map ParquetFile.count).sum ∧
      b ∈ shards.flatMap (·.batches) := by
  have hget : (shards.flatMap (·.batches))[k]? = some b := by
    rw [← List.head?_drop, h]
    rfl
  have hnext : rowsBefore shards (k + 1) = rowsBefore shards k + b.count := by
    simp [rowsBefore, List.take_add_one, hget]
  have htotal : (shards.map ParquetFile.count).sum
      = ((shards.flatMap (·.batches)).map Batch.count).sum := by
    clear h hget hnext
    induction shards with
    | nil => rfl
    | cons f shards ih =>
      rw [List.flatMap_cons, List.map_append, List.sum_append, List.map_cons, List.sum_cons, ih]
      rfl
  refine ⟨hnext, ?_, ?_, List.mem_of_getElem? hget⟩
  · rw [← List.drop_drop, h]
    rfl
  · rw [htotal, rowsBefore]
    conv_rhs => rw [← List.take_append_drop (k + 1) (shards.flatMap (·.batches))]
    rw [List.map_append, List.sum_append]
    exact Nat.le_add_right _ _

lemma labelsRegular (hread : Readers shards labels) (hal : Aligned shards labels config)
    {l : ParquetFile Unit} (hl : labels = some l) :
    LabelsRegular l (labelSchema l.columns config.labelCols).length := by
  refine ⟨fun b hb => (hread.labels l hl b hb).1, fun b hb => (hread.labels l hl b hb).2.1,
    fun b hb j hj => ?_⟩
  have hfirst := hal.first l hl
  have hmem := List.getElem_mem hj
  have hcol : l.columns[j]? = some (labelSchema l.columns config.labelCols)[j] := by
    rw [← List.getElem?_eq_getElem hj]
    conv_rhs => rw [hfirst]
    rw [List.getElem?_take_of_lt hj]
  exact (hread.labels l hl b hb).2.2.2 j _ hcol (hal.strings l hl _ hmem)

lemma rows_eq_of_values {c : Chunk V} {b : Batch V} {columns cols : List FilterColumn}
    (hvectors : c.vectors = b.vectors) (hids : c.rowIds = (List.range b.count).map (p + ·))
    (hvalues : ∀ i, i < b.count → columns.zipIdx.map (fun y =>
        ((c.filterColumns.getD [])[y.2]?.join).map fun v => v.value y.1.type i)
      = (b.values cols i ++ labelValues labels config.labelCols (p + i)).map some) :
    c.rows columns
      = ((b.rows cols).zipIdx p).map (joinedRow labels config.labelCols) := by
  refine List.ext_getElem (by simp [Chunk.rows, Batch.rows, hvectors]) fun i h₁ h₂ => ?_
  have hi : i < b.count := by simpa [Chunk.rows, hvectors, Batch.count] using h₁
  have hid : c.rowIds.getD i 0 = p + i := by
    simp [hids, List.getD_eq_getElem?_getD, hi]
  simp only [Chunk.rows, Batch.rows, List.getElem_map, List.getElem_zipIdx, joinedRow, hvectors,
    Nat.zero_add]
  rw [hid, hvalues i hi]

lemma values_chunkOf {b : Batch V} {cols : List FilterColumn}
    (hcols : b.columns.length = cols.length) (i : ℕ) :
    cols.zipIdx.map (fun y =>
        (((chunkOf p b).filterColumns.getD [])[y.2]?.join).map fun v => v.value y.1.type i)
      = (b.values cols i).map some := by
  have hjoin : ∀ j : ℕ, ((chunkOf p b).filterColumns.getD [])[j]?.join = b.columns[j]? := by
    intro j
    unfold chunkOf
    dsimp only
    split_ifs with hempty
    · rw [List.isEmpty_iff] at hempty
      simp [hempty]
    · rw [Option.getD_some, List.getElem?_map]
      cases b.columns[j]? <;> rfl
  refine List.ext_getElem (by simp [Batch.values, hcols]) fun j h₁ h₂ => ?_
  have hj : j < cols.length := by simpa using h₁
  simp only [List.getElem_map, List.getElem_zipIdx, Nat.zero_add, hjoin, Batch.values,
    List.getElem_zipWith, List.getElem?_eq_getElem (hcols ▸ hj), Option.map_some]

lemma getD_rows_nil {l : ParquetFile Unit} (h : l.columns = []) (q : ℕ) :
    (l.rows.map Prod.snd).getD q [] = [] := by
  rw [List.getD_eq_getElem?_getD]
  cases hrow : (l.rows.map Prod.snd)[q]? with
  | none => rfl
  | some vs =>
    obtain ⟨x, hx, rfl⟩ := List.mem_map.1 (List.mem_of_getElem? hrow)
    obtain ⟨b, -, hx⟩ := List.mem_flatMap.1 hx
    rw [h] at hx
    obtain ⟨y, -, rfl⟩ := List.mem_map.1 hx
    rfl

lemma values_labels (hread : Readers shards labels) (hal : Aligned shards labels config)
    {l : ParquetFile Unit} (hl : labels = some l) {q i : ℕ}
    (hq : labelSchema l.columns config.labelCols ≠ [] → q < l.count)
    {ptrs : List (Option View)}
    (hptrs : ∀ j, j < (labelSchema l.columns config.labelCols).length → ∃ v : View,
      ptrs[j]? = some (some v) ∧ ∀ t, v.value t i = .str ((labelColumn l j).getD q [])) :
    (labelSchema l.columns config.labelCols).zipIdx.map (fun y =>
        (ptrs[y.2]?.join).map fun v => v.value y.1.type i)
      = (labelValues labels config.labelCols q).map some := by
  subst hl
  rw [labelValues.eq_def]
  dsimp only
  by_cases hnil : labelSchema l.columns config.labelCols = []
  · rw [hnil, selected_eq_nil hnil fun h => getD_rows_nil h q]
    rfl
  have hreg := labelsRegular hread hal rfl
  have hle : (labelSchema l.columns config.labelCols).length ≤ l.columns.length := by
    rw [hal.first l rfl, List.length_take]
    exact Nat.min_le_right _ _
  obtain ⟨hlen, hrow⟩ := getElem?_labelRow hreg hle
    (fun b hb => (hread.labels l rfl b hb).2.2.1) (hq hnil)
  rw [selected_eq_take (hal.first l rfl) hlen]
  refine List.ext_getElem ?_ fun j h₁ h₂ => ?_
  · rw [List.length_map, List.length_zipIdx, List.length_map, List.length_take, hlen]
    exact (Nat.min_eq_left hle).symm
  · have hj : j < (labelSchema l.columns config.labelCols).length := by simpa using h₁
    obtain ⟨v, hv, hval⟩ := hptrs j hj
    have hget := hrow j hj
    obtain ⟨hlt, hget⟩ := List.getElem?_eq_some_iff.1 hget
    simp only [List.getElem_map, List.getElem_zipIdx, Nat.zero_add, hv, Option.join_some,
      Option.map_some, hval, List.getElem_take, hget]

/-- Where a source stands after `p` rows: behind batch `k` of the shards. -/
structure Running (shards : List (ParquetFile V)) (labels : Option (ParquetFile Unit))
    (config : Config) (g : ParquetGlobSource V) (k : ℕ) : Prop where
  isOver : Over shards labels config g
  position : g.position.At g (rowsBefore shards k) ((shards.flatMap (·.batches)).drop k)
  held : ∀ l, labels = some l →
    LabelInv l g.nLabelCols (rowsBefore shards k) g.labelAhead g.labelBufs

lemma running_reset (h : Over shards labels config g) : Running shards labels config g.reset 0 := by
  refine ⟨h.reset, ⟨by simp [rowsBefore, ParquetGlobSource.shardBase, ParquetGlobSource.reset], ?_⟩,
    fun l hl => ?_⟩
  · simp [ParquetGlobSource.reset, h.sameShards]
  · have hlabels : g.labels = some l := h.sameLabels.trans hl
    have hbufs : g.labelBufs.map (fun _ => ({} : LabelStringBuf))
        = List.replicate g.nLabelCols {} := by
      rw [← h.bufs]
      simp
    have hstart := labelInv_start l g.nLabelCols
    simpa [ParquetGlobSource.reset, hlabels, rowsBefore, hbufs] using hstart

end Source

end SextantTree.GlobSource
