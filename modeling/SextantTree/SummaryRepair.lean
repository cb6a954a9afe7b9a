import SextantTree.ByteMem
import SextantTree.InsertSizing
import SextantTree.SummaryMerge

/-!
The summaries `vacuum` leaves. The writer of summaries stores ranges and bit counts and or-s the bits
of filters in, into a buffer that the caller has zeroed. `vacuum` hands it the old summary. The
result is that of a build when every bit that was set is set again by the rows that are left.
-/

namespace SextantTree

open FilterHash ByteMem

variable {s : Schema}

/-! ### The bytes of a summary -/

def bloomBytes (b : Bloom) : List UInt8 := leBytes 2 b.size ++ leBytes bloomAlloc b.bits

/-- A section: the number of entries, and each under its column id. -/
def sectionBytes {α : Type} (enc : α → List UInt8) (sec : List (ℕ × α)) : List UInt8 :=
  UInt8.ofNat sec.length :: sec.flatMap fun e => UInt8.ofNat e.1 :: enc e.2

/-- The bytes of a summary; `num` is the encoding of doubles. -/
def summaryBytes (num : ℚ → List UInt8) (sum : Summary) : List UInt8 :=
  sectionBytes (fun r : NumRange => num r.min ++ num r.max) sum.numeric ++
    (sectionBytes bloomBytes sum.strings ++ sectionBytes bloomBytes sum.sets)

lemma length_bloomBytes (b : Bloom) : (bloomBytes b).length = 2 + bloomAlloc := by
  rw [bloomBytes, List.length_append, length_leBytes, length_leBytes]

lemma flatMap_eq_iff {α β : Type} {xs : List α} {f g : α → List β}
    (hlen : ∀ x, (f x).length = (g x).length) :
    xs.flatMap f = xs.flatMap g ↔ ∀ x ∈ xs, f x = g x := by
  induction xs with
  | nil => simp
  | cons x xs ih =>
    rw [List.flatMap_cons, List.flatMap_cons, List.forall_mem_cons, ← ih]
    constructor
    · intro h
      exact List.append_inj h (hlen x)
    · rintro ⟨h₁, h₂⟩
      rw [h₁, h₂]

section Sections

variable (sel : ColumnType → Bool) (f g : ℕ → Bloom)

lemma length_sectionBytes_bloom :
    (sectionBytes bloomBytes (s.sectionOf sel f)).length =
      (sectionBytes bloomBytes (s.sectionOf sel g)).length := by
  simp [sectionBytes, Schema.sectionOf, List.length_flatMap, Function.comp_def, length_bloomBytes]

lemma sectionBytes_eq_iff :
    sectionBytes bloomBytes (s.sectionOf sel f) = sectionBytes bloomBytes (s.sectionOf sel g) ↔
      ∀ c col, s.columns[c]? = some col → sel col.type = true → bloomBytes (f c) = bloomBytes (g c) := by
  have hlen : (s.sectionOf sel f).length = (s.sectionOf sel g).length := by
    simp [Schema.sectionOf]
  rw [sectionBytes, sectionBytes, hlen, List.cons_inj_right, Schema.sectionOf, Schema.sectionOf,
    List.flatMap_map, List.flatMap_map, flatMap_eq_iff fun x => by simp [length_bloomBytes]]
  simp only [List.cons_inj_right, List.mem_filter, Prod.forall, List.mk_mem_zipIdx_iff_getElem?]
  exact ⟨fun h c col hcol hsel => h col c ⟨hcol, hsel⟩, fun h col c hx => h c col hx.1 hx.2⟩

end Sections

/-! ### Bits of filters -/

lemma bloomAlloc_pos : 0 < bloomAlloc := by decide +kernel

lemma bloomBits_le (n : ℕ) : bloomBits n ≤ bloomAlloc * 8 := by
  have := bloomAlloc_pos
  simp only [bloomBits]
  split
  · omega
  · exact Nat.min_le_right _ _

/-- The bits are in the bytes that a filter has. -/
def BitsFit (b : Bloom) : Prop := b.bits < 256 ^ bloomAlloc

lemma pow_bloomAlloc : 256 ^ bloomAlloc = 2 ^ (bloomAlloc * 8) := by
  rw [Nat.mul_comm, Nat.pow_mul]

lemma bitsFit_iff (b : Bloom) :
    BitsFit b ↔ ∀ i, b.bits.testBit i = true → i < bloomAlloc * 8 := by
  rw [BitsFit, pow_bloomAlloc]
  constructor
  · intro h i hi
    by_contra hge
    rw [Nat.testBit_lt_two_pow (h.trans_le (Nat.pow_le_pow_right (by decide) (not_lt.mp hge)))] at hi
    cases hi
  · intro h
    refine Nat.lt_pow_two_of_testBit _ fun i hge => ?_
    by_contra hi
    have := h i (by simpa using hi)
    omega

lemma lt_of_mem_bloomProbes {n i : ℕ} {h : UInt32} (hn : 0 < n) (hi : i ∈ bloomProbes n h) : i < n := by
  obtain ⟨k, -, rfl⟩ := List.mem_map.mp hi
  exact Nat.mod_lt _ hn

lemma testBit_writeBloom (base : ℕ) (hashes : List UInt32) (i : ℕ) :
    (writeBloom base hashes).bits.testBit i = true ↔
      base.testBit i = true ∨ (writeBloom 0 hashes).bits.testBit i = true := by
  simp only [writeBloom]
  split
  · rw [Bloom.testBit_ofKeys, Bloom.testBit_ofKeys]
    simp
  · simp

lemma bitsFit_writeBloom {base : ℕ} (hashes : List UInt32) (h : BitsFit ⟨0, base⟩) :
    BitsFit (writeBloom base hashes) := by
  rw [bitsFit_iff] at h ⊢
  intro i hi
  simp only [writeBloom] at hi
  split at hi
  · rw [Bloom.testBit_ofKeys] at hi
    rcases hi with hi | ⟨k, -, hi⟩
    · exact h i hi
    · exact (lt_of_mem_bloomProbes (Nat.pos_of_ne_zero (bloomBits_pos _)) hi).trans_le
        (bloomBits_le _)
  · exact h i hi

/-- A filter written over old bits has the bytes of one written over zeros when its own bits cover
the old ones. -/
lemma bloomBytes_writeBloom_iff {base : ℕ} (hashes : List UInt32) (h : BitsFit ⟨0, base⟩) :
    bloomBytes (writeBloom base hashes) = bloomBytes (writeBloom 0 hashes) ↔
      ∀ i, base.testBit i = true → (writeBloom 0 hashes).bits.testBit i = true := by
  have hzero : BitsFit ⟨0, 0⟩ := Nat.pow_pos (by decide)
  constructor
  · intro heq i hi
    have hbits := (List.append_inj heq (by rw [length_leBytes, length_leBytes])).2
    have hnat := congrArg leNat hbits
    rw [leNat_leBytes (bitsFit_writeBloom hashes h), leNat_leBytes (bitsFit_writeBloom hashes hzero)]
      at hnat
    rw [← hnat, testBit_writeBloom]
    exact .inl hi
  · intro hcover
    have hbits : (writeBloom base hashes).bits = (writeBloom 0 hashes).bits := by
      refine Nat.eq_of_testBit_eq fun i => Bool.eq_iff_iff.mpr ?_
      rw [testBit_writeBloom]
      exact ⟨fun hi => hi.elim (hcover i) id, .inr⟩
    have hsize : (writeBloom base hashes).size = (writeBloom 0 hashes).size := by
      simp only [writeBloom]
      split <;> rfl
    rw [bloomBytes, bloomBytes, hbits, hsize]

/-! ### Summaries of reached leaves -/

/-- A summary of the schema's shape, all bits in the bytes of the filters. -/
structure SummaryOk (s : Schema) (sum : Summary) : Prop where
  shaped : Shaped s sum
  strings : ∀ e ∈ sum.strings, BitsFit e.2
  sets : ∀ e ∈ sum.sets, BitsFit e.2

lemma bitsFit_zero : BitsFit ⟨0, 0⟩ := Nat.pow_pos (by decide)

lemma bitsFit_entryOf {l : List (ℕ × Bloom)} (h : ∀ e ∈ l, BitsFit e.2) (c : ℕ) :
    BitsFit ⟨0, (entryOf l c).elim 0 Bloom.bits⟩ := by
  cases hc : entryOf l c with
  | none => exact bitsFit_zero
  | some b => exact h _ (mem_of_entryOf hc)

lemma summaryOk_write {buf : Summary} (rows : List (FilterRow s))
    (hstrings : ∀ e ∈ buf.strings, BitsFit e.2) (hsets : ∀ e ∈ buf.sets, BitsFit e.2) :
    SummaryOk s (writeFilterSummary buf rows) where
  shaped := Shaped.write buf rows
  strings := by
    intro e he
    simp only [writeFilterSummary] at he
    obtain ⟨c, -, -, -, rfl⟩ := (mem_sectionOf _ _).mp he
    exact bitsFit_writeBloom _ (bitsFit_entryOf hstrings c)
  sets := by
    intro e he
    simp only [writeFilterSummary] at he
    obtain ⟨c, -, -, -, rfl⟩ := (mem_sectionOf _ _).mp he
    exact bitsFit_writeBloom _ (bitsFit_entryOf hsets c)

lemma summaryOk_fresh (rows : List (FilterRow s)) : SummaryOk s (writeFilterSummary .zero rows) :=
  summaryOk_write rows (fun _ h => absurd h List.not_mem_nil) (fun _ h => absurd h List.not_mem_nil)

lemma bitsFit_union {a b : Bloom} (ha : BitsFit a) (hb : BitsFit b) : BitsFit (a.union b) := by
  rw [BitsFit, pow_bloomAlloc] at *
  exact Nat.or_lt_two_pow ha hb

lemma bitsFit_mergeSection {dst src : List (ℕ × Bloom)} (hdst : ∀ e ∈ dst, BitsFit e.2)
    (hsrc : ∀ e ∈ src, BitsFit e.2) : ∀ e ∈ mergeSection Bloom.union dst src, BitsFit e.2 := by
  intro e he
  obtain ⟨d, hd, rfl⟩ := List.mem_map.mp he
  cases hlook : src.lookup d.1 with
  | none => exact hdst d hd
  | some b =>
    obtain ⟨l₁, l₂, hsplit, -⟩ := List.lookup_eq_some_iff.mp hlook
    refine bitsFit_union (hdst d hd) (hsrc (d.1, b) ?_)
    rw [hsplit]
    exact List.mem_append_right _ List.mem_cons_self

lemma summaryOk_merge {a b : Summary} (ha : SummaryOk s a) (hb : SummaryOk s b) :
    SummaryOk s (mergeFilterSummary a b) :=
  ⟨ha.shaped.merge, bitsFit_mergeSection ha.strings hb.strings, bitsFit_mergeSection ha.sets hb.sets⟩

/-- **Every leaf that builds and mutations produce has a well-formed summary.** -/
lemma Reached.summaryOk {eng : Engine} {Ok : Leaf s → List (FilterRow s) → Prop} {l : Leaf s}
    (h : Reached eng Ok l) : SummaryOk s l.summary := by
  induction h with
  | built b hc rows payloadPage => exact summaryOk_fresh _
  | inserted l _ pts rs hrs hok payload ih =>
    simp only [appendedLeaf]
    split
    · exact ih
    · exact summaryOk_merge ih (summaryOk_fresh rs)
  | deleted l _ rowIds ih => exact ih
  | split l _ group ih => exact ih
  | repaired l _ ih =>
    simp only [repairedLeaf]
    split
    · exact ih
    · exact summaryOk_write _ ih.strings ih.sets

/-! ### Repair -/

/-- Every bit set in the old filters of the leaf is set by the rows it has. -/
def StaleBitsCovered (l : Leaf s) : Prop :=
  (∀ c col, s.columns[c]? = some col → (col.type == .string) = true →
    ∀ i, ((entryOf l.summary.strings c).elim 0 Bloom.bits).testBit i = true →
      (writeBloom 0 (stringHashes l.filters c)).bits.testBit i = true) ∧
  (∀ c col, s.columns[c]? = some col → (col.type == .set) = true →
    ∀ i, ((entryOf l.summary.sets c).elim 0 Bloom.bits).testBit i = true →
      (writeBloom 0 (setHashes l.filters c)).bits.testBit i = true)

lemma Shaped.eq_zero {sum : Summary} (h : Shaped s sum) (hc : s.columns = []) : sum = Summary.zero := by
  obtain ⟨numeric, strings, sets⟩ := sum
  obtain ⟨h₁, h₂, h₃⟩ := h
  simp only [Schema.sectionOf, hc, List.zipIdx_nil, List.filter_nil, List.map_nil,
    List.map_eq_nil_iff] at h₁ h₂ h₃
  rw [h₁, h₂, h₃]
  rfl

lemma summaryBytes_write_iff {num : ℚ → List UInt8} {l : Leaf s} (h : SummaryOk s l.summary) :
    summaryBytes num (writeFilterSummary l.summary l.filters) =
      summaryBytes num (writeFilterSummary Summary.zero l.filters) ↔ StaleBitsCovered l := by
  have hsplit : summaryBytes num (writeFilterSummary l.summary l.filters) =
      summaryBytes num (writeFilterSummary Summary.zero l.filters) ↔
      sectionBytes bloomBytes (writeFilterSummary l.summary l.filters).strings =
          sectionBytes bloomBytes (writeFilterSummary Summary.zero l.filters).strings ∧
        sectionBytes bloomBytes (writeFilterSummary l.summary l.filters).sets =
          sectionBytes bloomBytes (writeFilterSummary Summary.zero l.filters).sets := by
    constructor
    · intro heq
      refine List.append_inj (List.append_cancel_left heq) ?_
      simp only [writeFilterSummary]
      exact length_sectionBytes_bloom _ _ _
    · rintro ⟨h₁, h₂⟩
      rw [summaryBytes, summaryBytes, h₁, h₂]
      rfl
  rw [hsplit, StaleBitsCovered]
  simp only [writeFilterSummary, sectionBytes_eq_iff]
  refine and_congr ?_ ?_
  · refine forall₄_congr fun c col hcol hsel => ?_
    exact bloomBytes_writeBloom_iff _ (bitsFit_entryOf h.strings c)
  · refine forall₄_congr fun c col hcol hsel => ?_
    exact bloomBytes_writeBloom_iff _ (bitsFit_entryOf h.sets c)

/-- **The summary that `vacuum` leaves.** For every leaf that builds and mutations produce and that
has a row, repair leaves the bytes a build would write for its rows if those cover the old bits, and
only then. -/
theorem vacuum_summary_fresh_iff (eng : Engine) (num : ℚ → List UInt8) (l : Leaf s)
    (h : Reached eng (FiltersFit eng) l) (hne : l.rows ≠ []) :
    summaryBytes num (repairedLeaf l).summary =
      summaryBytes num (writeFilterSummary Summary.zero l.filters) ↔ StaleBitsCovered l := by
  by_cases hc : s.columns = []
  · -- No columns: nothing is written, and there is nothing to write.
    have hfresh : writeFilterSummary Summary.zero l.filters = Summary.zero :=
      (Shaped.write Summary.zero l.filters).eq_zero hc
    have hold : (repairedLeaf l).summary = Summary.zero := by
      simp only [repairedLeaf, List.isEmpty_iff.mpr hc, Bool.true_or, if_true]
      exact h.summaryOk.shaped.eq_zero hc
    rw [hold, hfresh]
    refine iff_of_true rfl ⟨?_, ?_⟩ <;> intro c col hcol <;> rw [hc] at hcol <;> cases hcol
  · have hwrite : (repairedLeaf l).summary = writeFilterSummary l.summary l.filters := by
      simp [repairedLeaf, hc, hne, Leaf.filters]
    rw [hwrite, summaryBytes_write_iff h.summaryOk]

def labelSchema : Schema := { columns := [⟨"label", .string, false⟩] }

def labelRow (v : Bytes) : FilterRow labelSchema := ⟨[some (.string v)], .cons rfl .nil⟩

def labelLeaf (v w : Bytes) : Leaf labelSchema :=
  let l := flushedLeaf (lineBuild labelSchema 1 1000 []) [⟨7, [0], labelRow v, []⟩, ⟨8, [0], labelRow w, []⟩]
    none
  compactedLeaf (lineEngine labelSchema) l (deletedSlots l [8])

lemma reached_labelLeaf (v w : Bytes) :
    Reached (lineEngine labelSchema) (FiltersFit (lineEngine labelSchema)) (labelLeaf v w) :=
  .deleted _ (.built _ rfl _ _) _

/-- The row that is left has the label of the one deleted. -/
theorem vacuum_summary_fresh_same_label :
    summaryBytes (fun _ => []) (repairedLeaf (labelLeaf [97] [97])).summary =
      summaryBytes (fun _ => []) (writeFilterSummary Summary.zero (labelLeaf [97] [97]).filters) := by
  refine (vacuum_summary_fresh_iff (lineEngine labelSchema) _ _ (reached_labelLeaf _ _)
    (by decide +kernel)).mpr ⟨fun c col hcol hsel i hi => ?_, fun c col hcol hsel => ?_⟩
  · obtain rfl : c = 0 := by
      have := (List.getElem?_eq_some_iff.mp hcol).1
      simp only [labelSchema, List.length_singleton] at this
      omega
    have heq : (entryOf (labelLeaf [97] [97]).summary.strings 0).elim 0 Bloom.bits =
        (writeBloom 0 (stringHashes (labelLeaf [97] [97]).filters 0)).bits := by decide +kernel
    rw [← heq]
    exact hi
  · obtain ⟨hlt, rfl⟩ := List.getElem?_eq_some_iff.mp hcol
    simp only [labelSchema, List.length_singleton] at hlt
    obtain rfl : c = 0 := by omega
    cases hsel

/-- The label of a deleted row stays in the filter. -/
theorem vacuum_keeps_deleted_label :
    (labelLeaf [97] [98]).summaryDirty = true ∧ (labelLeaf [97] [98]).rows ≠ [] ∧
      ¬ ∀ num, summaryBytes num (repairedLeaf (labelLeaf [97] [98])).summary =
        summaryBytes num (writeFilterSummary Summary.zero (labelLeaf [97] [98]).filters) := by
  refine ⟨rfl, by decide +kernel, fun h => absurd (h fun _ => []) ?_⟩
  decide +kernel

end SextantTree
