import Mathlib.Data.List.Flatten
import SextantTree.ColumnSelect

/-!
Rows picked from the columns of a leaf: what `select_filter_rows` returns for columns that were read
back is well formed, has the cells of the rows picked, and takes no more bytes than before.
-/

namespace SextantTree.ColumnBytes

open FilterHash ByteMem

/-! ### Arrays of packed rows -/

section Packed

variable (base : ColumnData) {i k : ℕ}

lemma total_eq_sum {α : Type*} {rows : List α} {f : ℕ → ℕ} {g : α → ℕ}
    (h : ∀ i b, rows[i]? = some b → f i = g b) : total f rows.length = (rows.map g).sum := by
  rw [total]
  refine congrArg List.sum (List.ext_getElem (by simp) fun i h₁ h₂ => ?_)
  have hi : i < rows.length := by simpa using h₁
  rw [List.getElem_map, List.getElem_map, List.getElem_range]
  exact h i _ (List.getElem?_eq_getElem hi)

variable {rows : List Bytes} {sets : List (List Bytes)}

lemma strLen_withStrings (hlen : ∀ b ∈ rows, b.length < 2 ^ 16) {b : Bytes} (h : rows[i]? = some b) :
    (base.withStrings rows).strLen i = b.length := by
  rw [ColumnData.strLen, List.getD_eq_getElem?_getD]
  simp only [ColumnData.withStrings, lengthsOf, List.getElem?_map, h, Option.map_some,
    Option.getD_some]
  exact toNat_ofNat16 (hlen b (List.mem_of_getElem? h))

lemma strOff_withStrings (hsum : rows.flatten.length < 2 ^ 32) {b : Bytes} (h : rows[i]? = some b) :
    (base.withStrings rows).strOff i = (rows.take i).flatten.length := by
  obtain ⟨-, hle⟩ := slice_row h
  obtain ⟨hi, -⟩ := List.getElem?_eq_some_iff.mp h
  rw [ColumnData.strOff, List.getD_eq_getElem?_getD]
  simp only [ColumnData.withStrings, getElem?_offsetsOf hi, Option.getD_some]
  exact toNat_ofNat32 (by omega)

lemma total_withStrings (hlen : ∀ b ∈ rows, b.length < 2 ^ 16) :
    total (base.withStrings rows).strLen rows.length = rows.flatten.length := by
  rw [total_eq_sum fun i b h => strLen_withStrings base hlen h, List.length_flatten]

lemma str_withStrings (hlen : ∀ b ∈ rows, b.length < 2 ^ 16) (hsum : rows.flatten.length < 2 ^ 32)
    {b : Bytes} (h : rows[i]? = some b) : (base.withStrings rows).str i = b ∧
      (base.withStrings rows).strOff i + (base.withStrings rows).strLen i ≤
        (base.withStrings rows).strData.length := by
  obtain ⟨hslice, hle⟩ := slice_row h
  rw [ColumnData.str, strOff_withStrings base hsum h, strLen_withStrings base hlen h]
  exact ⟨hslice, hle⟩

lemma setCount_withSets (hcount : ∀ es ∈ sets, es.length < 2 ^ 8) {es : List Bytes}
    (h : sets[i]? = some es) : (base.withSets sets).setCount i = es.length := by
  rw [ColumnData.setCount, List.getD_eq_getElem?_getD]
  simp only [ColumnData.withSets, List.getElem?_map, h, Option.map_some, Option.getD_some]
  exact toNat_ofNat8 (hcount es (List.mem_of_getElem? h))

lemma setOff_withSets (hsum : sets.flatten.length < 2 ^ 32) {es : List Bytes}
    (h : sets[i]? = some es) : (base.withSets sets).setOff i = (sets.take i).flatten.length := by
  obtain ⟨-, hle⟩ := slice_row h
  obtain ⟨hi, -⟩ := List.getElem?_eq_some_iff.mp h
  rw [ColumnData.setOff, List.getD_eq_getElem?_getD]
  simp only [ColumnData.withSets, getElem?_offsetsOf hi, Option.getD_some]
  exact toNat_ofNat32 (by omega)

lemma total_withSets (hcount : ∀ es ∈ sets, es.length < 2 ^ 8) :
    total (base.withSets sets).setCount sets.length = sets.flatten.length := by
  rw [total_eq_sum fun i es h => setCount_withSets base hcount h, List.length_flatten]

lemma elem_withSets (hlen : ∀ b ∈ sets.flatten, b.length < 2 ^ 16) {b : Bytes}
    (h : sets.flatten[k]? = some b) : (base.withSets sets).elem k = b ∧
      (base.withSets sets).elemStart k + (base.withSets sets).elemLen k ≤
        (base.withSets sets).setElemData.length := by
  obtain ⟨hslice, hle⟩ := slice_row h
  have hel : (base.withSets sets).elemLen k = b.length := by
    rw [ColumnData.elemLen, List.getD_eq_getElem?_getD]
    simp only [ColumnData.withSets, lengthsOf, List.getElem?_map, h, Option.map_some,
      Option.getD_some]
    exact toNat_ofNat16 (hlen b (List.mem_of_getElem? h))
  rw [ColumnData.elem, elemStart_withSets base hlen, hel]
  exact ⟨hslice, hle⟩

lemma getElem?_flatten {es : List Bytes} (h : sets[i]? = some es) {e : ℕ} (he : e < es.length) :
    sets.flatten[(sets.take i).flatten.length + e]? = some es[e] := by
  have hslice := congrArg (·[e]?) (slice_row h).1
  simp only [List.getElem?_take_of_lt he, List.getElem?_drop] at hslice
  rw [hslice, List.getElem?_eq_getElem he]

lemma rowElems_withSets (hcount : ∀ es ∈ sets, es.length < 2 ^ 8)
    (hlen : ∀ b ∈ sets.flatten, b.length < 2 ^ 16) (hsum : sets.flatten.length < 2 ^ 32)
    {es : List Bytes} (h : sets[i]? = some es) : (base.withSets sets).rowElems i = es := by
  refine List.ext_getElem ?_ fun e h₁ h₂ => ?_
  · rw [ColumnData.length_rowElems, setCount_withSets base hcount h]
  · simp only [ColumnData.rowElems, List.getElem_map, List.getElem_range]
    rw [setOff_withSets base hsum h]
    exact (elem_withSets base hlen (getElem?_flatten h h₂)).1

lemma elems_withSets (hcount : ∀ es ∈ sets, es.length < 2 ^ 8)
    (hlen : ∀ b ∈ sets.flatten, b.length < 2 ^ 16) (hsum : sets.flatten.length < 2 ^ 32) :
    (base.withSets sets).elems sets.length = sets.flatten := by
  rw [ColumnData.elems, ← flatten_map_range]
  refine congrArg List.flatten (List.ext_getElem (by simp) fun i h₁ h₂ => ?_)
  rw [List.getElem_map, List.getElem_range]
  exact rowElems_withSets base hcount hlen hsum (List.getElem?_eq_getElem h₂)

end Packed

/-! ### Rows of a column -/

section Rows

variable {d : ColumnData} {col : FilterColumn} {n : ℕ} {idx : List ℕ}

/-- A column fits what the readers and the selection count in 32 bits: besides `Addressable`, every
element of a Set column starts below 4 GiB when the elements of all rows are packed. -/
structure ColumnData.Compactable (col : FilterColumn) (n : ℕ) (d : ColumnData) : Prop
    extends d.Addressable col n where
  starts : col.type = .set → ∀ k < (d.elems n).length, ((d.elems n).take k).flatten.length < 2 ^ 32

lemma ColumnData.WellFormed.elem_le (wf : d.WellFormed col n) (hcol : col.type = .set) :
    ∀ i < n, ∀ e < d.setCount i,
      d.elemStart (d.setOff i + e) + d.elemLen (d.setOff i + e) ≤ d.setElemData.length := by
  obtain ⟨-, -, hrows, hdata⟩ := wf.sets hcol
  intro i hi e he
  have := hrows i hi
  exact (elemStart_succ_le (by omega)).trans hdata

lemma ColumnData.WellFormed.length_fixedRow (wf : d.WellFormed col n) (hs : col.type ≠ .string)
    (ht : col.type ≠ .set) {i : ℕ} (hi : i < n) :
    (d.fixedRow col.type.width i).length = col.type.width := by
  have hin := wf.fixed hs ht
  have := Nat.mul_le_mul_right col.type.width (show i + 1 ≤ n from hi)
  rw [Nat.add_mul, Nat.one_mul] at this
  rw [ColumnData.fixedRow, List.length_take, List.length_drop]
  omega

/-- The rows `idx` of a column of `n` rows, packed. -/
def ColumnData.picked (col : FilterColumn) (n : ℕ) (d : ColumnData) (idx : List ℕ) : ColumnData :=
  let base : ColumnData :=
    { type := col.type
      nullMask := if col.nullable then idx.map fun i => (maskBytes n d).getD i 0 else [] }
  match col.type with
  | .string => base.withStrings (idx.map d.str)
  | .set => base.withSets (idx.map d.rowElems)
  | t => base.withFixed (idx.map (d.fixedRow t.width))

/-- A column as the copying reader returns it. -/
def ColumnData.readBack (col : FilterColumn) (n : ℕ) (d : ColumnData) : ColumnData :=
  { d.packed col n with nullMask := if col.nullable then maskBytes n d else [] }

lemma mapM_mask {mask : Bytes} (h : ∀ i ∈ idx, i < mask.length) :
    idx.mapM (mask[·]?) = some (idx.map fun i => mask.getD i 0) := by
  induction idx with
  | nil => rfl
  | cons i is ih =>
    have hi := h i List.mem_cons_self
    rw [List.mapM_cons, ih fun j hj => h j (List.mem_cons_of_mem _ hj),
      List.getElem?_eq_getElem hi]
    simp [hi]

lemma mask_readBack (wf : d.WellFormed col n) (hidx : ∀ i ∈ idx, i < n) :
    selectMask col (d.readBack col n) idx =
      some (if col.nullable then idx.map fun i => (maskBytes n d).getD i 0 else []) := by
  have hlen := length_maskBytes wf
  unfold selectMask
  by_cases hnull : col.nullable = true
  · have hmask : (d.readBack col n).nullMask = maskBytes n d := if_pos hnull
    rw [hmask, hnull]
    by_cases hempty : (maskBytes n d).isEmpty = true
    · have hzero : n = 0 := by
        rw [List.isEmpty_iff] at hempty
        rw [← hlen, hempty, List.length_nil]
      have hnil : idx = [] := List.eq_nil_iff_forall_not_mem.mpr fun i hi => by
        have := hidx i hi
        omega
      simp [hempty, hnil]
    · rw [Bool.not_eq_true] at hempty
      rw [hempty]
      simp only [Bool.not_false, Bool.and_self, if_true]
      exact mapM_mask fun i hi => by rw [hlen]; exact hidx i hi
  · rw [Bool.not_eq_true] at hnull
    simp [hnull]

lemma getD_map_range {α : Type*} {f : ℕ → α} {x : α} {i : ℕ} (hi : i < n) :
    ((List.range n).map f).getD i x = f i := by
  simp [List.getD_eq_getElem?_getD, hi]

lemma map_getD_range {α : Type*} {f : ℕ → α} {x : α} (hidx : ∀ i ∈ idx, i < n) :
    idx.map (fun i => ((List.range n).map f).getD i x) = idx.map f :=
  List.map_congr_left fun i hi => getD_map_range (hidx i hi)

lemma length_str_lt (wf : d.WellFormed col n) (hcol : col.type = .string) :
    ∀ b ∈ (List.range n).map d.str, b.length < 2 ^ 16 := by
  intro b hb
  obtain ⟨i, hi, rfl⟩ := List.mem_map.mp hb
  rw [length_str ((wf.strings hcol).2.2 i (List.mem_range.mp hi))]
  exact strLen_lt d i

lemma length_rowElems_lt (d : ColumnData) (is : List ℕ) :
    ∀ es ∈ is.map d.rowElems, es.length < 2 ^ 8 := by
  intro es hes
  obtain ⟨i, -, rfl⟩ := List.mem_map.mp hes
  rw [ColumnData.length_rowElems]
  exact setCount_lt d i

lemma length_elem_lt (wf : d.WellFormed col n) (hcol : col.type = .set) :
    ∀ b ∈ ((List.range n).map d.rowElems).flatten, b.length < 2 ^ 16 := by
  intro b hb
  rw [flatten_map_range] at hb
  obtain ⟨i, hi, hb⟩ := List.mem_flatMap.mp hb
  obtain ⟨e, he, rfl⟩ := List.mem_map.mp hb
  rw [length_elem (wf.elem_le hcol i (List.mem_range.mp hi) e (List.mem_range.mp he))]
  exact UInt16.toNat_lt _

lemma length_strings (wf : d.WellFormed col n) (hcol : col.type = .string) :
    ((List.range n).map d.str).flatten.length = total d.strLen n := by
  rw [flatten_map_range]
  exact length_flatMap_range fun i hi => length_str ((wf.strings hcol).2.2 i hi)

/-- **The selection from a column that was read back** is that of its rows. -/
lemma selectColumn_readBack (wf : d.WellFormed col n) (hc : d.Compactable col n)
    (hidx : ∀ i ∈ idx, i < n) :
    selectColumn col (d.readBack col n) idx = some (d.picked col n idx) := by
  rw [selectColumn, mask_readBack wf hidx]
  simp only [Option.bind_eq_bind, Option.bind_some]
  by_cases hs : col.type = .string
  · have hread : d.readBack col n = ColumnData.withStrings
        { type := .string, nullMask := if col.nullable then maskBytes n d else [] }
        ((List.range n).map d.str) := by
      simp only [ColumnData.readBack, ColumnData.packed, hs, ColumnData.withStrings]
    rw [hread]
    simp only [ColumnData.picked, hs]
    have := selectStrings_spec
      { type := .string, nullMask := if col.nullable then maskBytes n d else [] }
      { type := .string
        nullMask := if col.nullable then idx.map fun i => (maskBytes n d).getD i 0 else [] }
      idx (length_str_lt wf hs) (by rw [length_strings wf hs]; exact hc.strings hs)
      (fun i hi => by simpa using hidx i hi) []
    rwa [map_getD_range hidx, List.nil_append] at this
  by_cases ht : col.type = .set
  · have hread : d.readBack col n = ColumnData.withSets
        { type := .set, nullMask := if col.nullable then maskBytes n d else [] }
        ((List.range n).map d.rowElems) := by
      simp only [ColumnData.readBack, ColumnData.packed, ht, ColumnData.withSets]
    have helems : ((List.range n).map d.rowElems).flatten = d.elems n := rfl
    rw [hread]
    simp only [ColumnData.picked, ht]
    have := selectSets_spec
      { type := .set, nullMask := if col.nullable then maskBytes n d else [] }
      { type := .set
        nullMask := if col.nullable then idx.map fun i => (maskBytes n d).getD i 0 else [] }
      idx (length_rowElems_lt d (List.range n)) (length_elem_lt wf ht)
      (by rw [helems, d.length_elems]; exact (hc.sets ht).1)
      (by rw [helems]; exact hc.starts ht) (fun i hi => by simpa using hidx i hi) []
    rwa [map_getD_range hidx, List.nil_append] at this
  · have hread : d.readBack col n = ColumnData.withFixed
        { type := col.type, nullMask := if col.nullable then maskBytes n d else [] }
        ((List.range n).map (d.fixedRow col.type.width)) := by
      unfold ColumnData.readBack ColumnData.packed
      cases hty : col.type <;> first | rfl | exact absurd hty hs | exact absurd hty ht
    have hrows : ∀ b ∈ (List.range n).map (d.fixedRow col.type.width), b.length = col.type.width := by
      intro b hb
      obtain ⟨i, hi, rfl⟩ := List.mem_map.mp hb
      exact wf.length_fixedRow hs ht (List.mem_range.mp hi)
    have := selectFixed_spec
      { type := col.type, nullMask := if col.nullable then maskBytes n d else [] }
      { type := col.type
        nullMask := if col.nullable then idx.map fun i => (maskBytes n d).getD i 0 else [] }
      idx hrows
      (fun i hi => by simpa using hidx i hi) []
    rw [map_getD_range hidx, List.nil_append, ← hread] at this
    unfold ColumnData.picked
    cases hty : col.type <;> first | exact absurd hty hs | exact absurd hty ht |
      (rw [hty] at this; exact this)

/-! ### The rows picked -/

lemma sublist_take {α : Type*} {l₁ l₂ : List α} (h : l₁.Sublist l₂) :
    ∀ k < l₁.length, ∃ j < l₂.length, (l₁.take k).Sublist (l₂.take j) := by
  induction h with
  | slnil => exact fun k hk => absurd hk (Nat.not_lt_zero k)
  | cons a _ ih =>
    intro k hk
    obtain ⟨j, hj, hsub⟩ := ih k hk
    exact ⟨j + 1, by simpa using hj, hsub.cons a⟩
  | cons_cons a _ ih =>
    intro k hk
    cases k with
    | zero => exact ⟨0, by simp, by simp⟩
    | succ k =>
      obtain ⟨j, hj, hsub⟩ := ih k (by simpa using hk)
      exact ⟨j + 1, by simpa using hj, hsub.cons_cons a⟩

lemma align4_mono {p q : ℕ} (h : p ≤ q) : align4 p ≤ align4 q := by
  simp only [align4]
  omega

lemma mem_of_sublist (hsub : idx.Sublist (List.range n)) : ∀ i ∈ idx, i < n := fun _ hi =>
  List.mem_range.mp (hsub.subset hi)

def pickedMask (col : FilterColumn) (n : ℕ) (d : ColumnData) (idx : List ℕ) : Bytes :=
  if col.nullable then idx.map fun i => (maskBytes n d).getD i 0 else []

lemma nullMask_picked (col : FilterColumn) (n : ℕ) (d : ColumnData) (idx : List ℕ) :
    (d.picked col n idx).nullMask = pickedMask col n d idx := by
  unfold ColumnData.picked
  cases col.type <;> rfl

lemma picked_of_string (hs : col.type = .string) : d.picked col n idx =
    ColumnData.withStrings { type := .string, nullMask := pickedMask col n d idx }
      (idx.map d.str) := by
  simp only [ColumnData.picked, hs, pickedMask]

lemma picked_of_set (ht : col.type = .set) : d.picked col n idx =
    ColumnData.withSets { type := .set, nullMask := pickedMask col n d idx } (idx.map d.rowElems) := by
  simp only [ColumnData.picked, ht, pickedMask]

lemma picked_of_fixed (hs : col.type ≠ .string) (ht : col.type ≠ .set) : d.picked col n idx =
    ColumnData.withFixed { type := col.type, nullMask := pickedMask col n d idx }
      (idx.map (d.fixedRow col.type.width)) := by
  unfold ColumnData.picked
  cases hty : col.type <;> first | rfl | exact absurd hty hs | exact absurd hty ht

lemma getElem?_pick {α : Type*} {f : ℕ → α} {i j : ℕ} (h : idx[i]? = some j) :
    (idx.map f)[i]? = some (f j) := by
  rw [List.getElem?_map, h]
  rfl

section Picked

variable (wf : d.WellFormed col n) (hc : d.Compactable col n) (hsub : idx.Sublist (List.range n))
include wf hsub

lemma picked_strings (hs : col.type = .string) (hc : total d.strLen n < 2 ^ 32) :
    (∀ b ∈ idx.map d.str, b.length < 2 ^ 16) ∧ (idx.map d.str).flatten.length < 2 ^ 32 := by
  refine ⟨fun b hb => length_str_lt wf hs b ((hsub.map d.str).subset hb), ?_⟩
  have hle := (hsub.map d.str).flatten.length_le
  rw [length_strings wf hs] at hle
  omega

lemma picked_sets (ht : col.type = .set) (hc : total d.setCount n < 2 ^ 32) :
    (∀ b ∈ (idx.map d.rowElems).flatten, b.length < 2 ^ 16) ∧
      (idx.map d.rowElems).flatten.length < 2 ^ 32 := by
  refine ⟨fun b hb => length_elem_lt wf ht b ((hsub.map d.rowElems).flatten.subset hb), ?_⟩
  have hle := (hsub.map d.rowElems).flatten.length_le
  have helems : ((List.range n).map d.rowElems).flatten.length = total d.setCount n :=
    d.length_elems n
  omega

lemma length_picked_fixed (hs : col.type ≠ .string) (ht : col.type ≠ .set) :
    (∀ b ∈ idx.map (d.fixedRow col.type.width), b.length = col.type.width) ∧
      (idx.map (d.fixedRow col.type.width)).flatten.length = idx.length * col.type.width := by
  have hrow : ∀ b ∈ idx.map (d.fixedRow col.type.width), b.length = col.type.width := by
    intro b hb
    obtain ⟨i, hi, rfl⟩ := List.mem_map.mp hb
    exact wf.length_fixedRow hs ht (mem_of_sublist hsub i hi)
  refine ⟨hrow, ?_⟩
  rw [List.length_flatten, List.map_congr_left hrow, List.map_const', List.sum_replicate,
    List.length_map, smul_eq_mul]

include hc

/-- **Picked rows are a well-formed column.** -/
lemma picked_wellFormed : (d.picked col n idx).WellFormed col idx.length := by
  have hmask : pickedMask col n d idx = [] ∨ idx.length ≤ (pickedMask col n d idx).length := by
    unfold pickedMask
    split
    · exact .inr (by simp)
    · exact .inl rfl
  rw [← nullMask_picked] at hmask
  refine ⟨hmask, fun hs ht => ?_, fun hs => ?_, fun ht => ?_⟩
  · rw [picked_of_fixed hs ht]
    exact (length_picked_fixed wf hsub hs ht).2.ge
  · obtain ⟨hlen, hsum⟩ := picked_strings wf hsub hs (hc.strings hs)
    rw [picked_of_string hs]
    refine ⟨?_, ?_, fun i hi => ?_⟩
    · simp [ColumnData.withStrings, length_offsetsOf]
    · simp [ColumnData.withStrings, lengthsOf]
    · have hrow := getElem?_pick (f := d.str) (List.getElem?_eq_getElem hi)
      exact (str_withStrings _ hlen hsum hrow).2
  · obtain ⟨hlen, hsum⟩ := picked_sets wf hsub ht (hc.sets ht).1
    have hcount := length_rowElems_lt d idx
    rw [picked_of_set ht]
    refine ⟨?_, ?_, fun i hi => ?_, ?_⟩
    · simp [ColumnData.withSets]
    · simp [ColumnData.withSets, length_offsetsOf]
    · have hrow := getElem?_pick (f := d.rowElems) (List.getElem?_eq_getElem hi)
      rw [setOff_withSets _ hsum hrow, setCount_withSets _ hcount hrow]
      change _ ≤ (lengthsOf (idx.map d.rowElems).flatten).length
      rw [lengthsOf, List.length_map]
      exact (slice_row hrow).2
    · rw [elemStart_withSets _ hlen]
      refine (List.Sublist.flatten (List.take_sublist _ _)).length_le.trans ?_
      exact le_rfl

/-- **What is counted in 32 bits fits picked rows as it does all rows.** -/
lemma picked_addressable : (d.picked col n idx).Addressable col idx.length := by
  refine ⟨fun hs => ?_, fun ht => ?_⟩
  · obtain ⟨hlen, hsum⟩ := picked_strings wf hsub hs (hc.strings hs)
    rw [picked_of_string hs]
    have := total_withStrings { type := .string, nullMask := pickedMask col n d idx } hlen
    rw [List.length_map] at this
    omega
  · obtain ⟨hlen, hsum⟩ := picked_sets wf hsub ht (hc.sets ht).1
    have hcount := length_rowElems_lt d idx
    rw [picked_of_set ht]
    have htotal := total_withSets { type := .set, nullMask := pickedMask col n d idx } hcount
    rw [List.length_map] at htotal
    refine ⟨by omega, fun i hi e he => ?_⟩
    have hrow := getElem?_pick (f := d.rowElems) (List.getElem?_eq_getElem hi)
    rw [setCount_withSets _ hcount hrow] at he
    rw [setOff_withSets _ hsum hrow, elemStart_withSets _ hlen]
    have hle := (slice_row hrow).2
    refine ⟨by omega, ?_⟩
    -- Before an element there are only elements that were before it.
    obtain ⟨j, hj, hbefore⟩ := sublist_take (hsub.map d.rowElems).flatten
      ((List.take i (idx.map d.rowElems)).flatten.length + e) (by omega)
    exact hbefore.flatten.length_le.trans_lt (hc.starts ht j hj)

/-- **A picked row has the cell of the row it was picked from.** -/
lemma picked_cell {i j : ℕ} (h : idx[i]? = some j) :
    (d.picked col n idx).cell col i = d.cell col j := by
  have hj : j < n := mem_of_sublist hsub j (List.mem_of_getElem? h)
  obtain ⟨hi, -⟩ := List.getElem?_eq_some_iff.mp h
  have hwf := picked_wellFormed wf hc hsub
  have hnull : (d.picked col n idx).isNull col i = d.isNull col j := by
    by_cases hcol : col.nullable = true
    · rw [← isNull_maskBytes hcol hj { nullMask := maskBytes n d } rfl, ColumnData.isNull,
        ColumnData.isNull, nullMask_picked, pickedMask, if_pos hcol]
      have hne : (idx.map fun i => (maskBytes n d).getD i 0).isEmpty = false := by
        rw [List.isEmpty_eq_false_iff, ← List.length_pos_iff, List.length_map]
        omega
      have hne' : (maskBytes n d).isEmpty = false := by
        rw [List.isEmpty_eq_false_iff, ← List.length_pos_iff, length_maskBytes wf]
        omega
      rw [hne, hne', List.getD_eq_getElem?_getD, getElem?_pick h]
      rfl
    · simp [ColumnData.isNull, hcol]
  have hraw : (d.picked col n idx).raw col i = d.raw col j := by
    by_cases hs : col.type = .string
    · obtain ⟨hlen, hsum⟩ := picked_strings wf hsub hs (hc.strings hs)
      rw [raw_string hs ((hwf.strings hs).2.2 i hi), raw_string hs ((wf.strings hs).2.2 j hj),
        picked_of_string hs, (str_withStrings _ hlen hsum (getElem?_pick h)).1]
    by_cases ht : col.type = .set
    · obtain ⟨hlen, hsum⟩ := picked_sets wf hsub ht (hc.sets ht).1
      rw [raw_set ht (hwf.elem_le ht i hi), raw_set ht (wf.elem_le ht j hj), picked_of_set ht,
        rowElems_withSets _ (length_rowElems_lt d idx) hlen hsum (getElem?_pick h)]
    · obtain ⟨hrow, -⟩ := length_picked_fixed wf hsub hs ht
      have hget := getElem?_pick (f := d.fixedRow col.type.width) h
      obtain ⟨hslice, hle⟩ := slice_row hget
      rw [length_take_flatten hrow (by simpa using hi.le),
        hrow _ (List.mem_of_getElem? hget)] at hslice hle
      have hend := Nat.mul_le_mul_right col.type.width (show j + 1 ≤ n from hj)
      rw [Nat.add_mul, Nat.one_mul] at hend
      rw [raw_fixed hs ht, raw_fixed hs ht, picked_of_fixed hs ht,
        slice_eq_some (hend.trans (wf.fixed hs ht))]
      refine congrArg (Option.map RawCell.fixed) ((slice_eq_some hle).trans ?_)
      exact congrArg some hslice
  rw [ColumnData.cell, ColumnData.cell, hnull, hraw]

lemma picked_columnBytes {p q : ℕ} (hpq : p ≤ q) :
    columnBytes idx.length col (d.picked col n idx) p ≤ columnBytes n col d q := by
  have hcount : idx.length ≤ n := by simpa using hsub.length_le
  have hend : dataEnd idx.length col (d.picked col n idx) p ≤ dataEnd n col d q := by
    by_cases hs : col.type = .string
    · obtain ⟨hlen, -⟩ := picked_strings wf hsub hs (hc.strings hs)
      have htotal := total_withStrings { type := .string, nullMask := pickedMask col n d idx } hlen
      rw [List.length_map] at htotal
      have hle := (hsub.map d.str).flatten.length_le
      rw [length_strings wf hs] at hle
      rw [picked_of_string hs]
      simp only [dataEnd, hs, htotal]
      have hal := align4_mono (show p + idx.length * (4 + 2) ≤ q + n * (4 + 2) by omega)
      omega
    by_cases ht : col.type = .set
    · obtain ⟨hlen, hsum⟩ := picked_sets wf hsub ht (hc.sets ht).1
      have hcounts := length_rowElems_lt d idx
      have htotal := total_withSets { type := .set, nullMask := pickedMask col n d idx } hcounts
      rw [List.length_map] at htotal
      have hrecs := length_records (d := d.picked col n idx) (n := idx.length)
        ((picked_wellFormed wf hc hsub).elem_le ht) fun i hi e he =>
          (((picked_addressable wf hc hsub).sets ht).2 i hi e he).1
      have hrecs' := length_records (wf.elem_le ht) fun i hi e he => ((hc.sets ht).2 i hi e he).1
      have helems : (d.picked col n idx).elems idx.length = (idx.map d.rowElems).flatten := by
        rw [picked_of_set ht]
        simpa using elems_withSets { type := .set, nullMask := pickedMask col n d idx } hcounts
          hlen hsum
      have hsub' : (idx.map d.rowElems).flatten.Sublist (d.elems n) := (hsub.map d.rowElems).flatten
      have hle := (hsub'.flatMap elemRecord).length_le
      have hlen' := hsub'.length_le
      rw [d.length_elems] at hlen'
      rw [helems] at hrecs
      simp only [dataEnd, ht]
      rw [← hrecs, ← hrecs', picked_of_set ht, htotal]
      have hal := align4_mono (show p + idx.length * 1 ≤ q + n * 1 by omega)
      omega
    · have hfixed : ∀ (k : ℕ) (x : ColumnData) (r : ℕ), dataEnd k col x r = r + k * col.type.width := by
        intro k x r
        unfold dataEnd
        cases hty : col.type <;> first | rfl | exact absurd hty hs | exact absurd hty ht
      rw [hfixed, hfixed]
      exact Nat.add_le_add hpq (Nat.mul_le_mul_right _ hcount)
  rw [columnBytes_eq, columnBytes_eq]
  refine align4_mono ?_
  split <;> omega

end Picked

end Rows

/-! ### All columns -/

section Region

variable {m : Mem} {s : Schema} {cols : List ColumnData} {n p e : ℕ} {idx : List ℕ}
  {xs : List (FilterColumn × ColumnData)}

lemma AllRead.data (h : AllRead m n xs p e) :
    (readColumns m n (xs.map Prod.fst) p).1 = xs.map fun x => x.2.readBack x.1 n := by
  induction xs generalizing p with
  | nil => rfl
  | cons x xs ih =>
    obtain ⟨q, hx, hxs⟩ := h
    simp only [List.map_cons, readColumns, hx.readEnd, hx.data, ih hxs]
    rfl

/-- The rows `idx` of all columns. -/
def pickedColumns (n : ℕ) (s : Schema) (cols : List ColumnData) (idx : List ℕ) : List ColumnData :=
  (s.columns.zip cols).map fun x => x.2.picked x.1 n idx

lemma mapM_eq_map {α β : Type*} {f : α → Option β} {g : α → β} {l : List α}
    (h : ∀ x ∈ l, f x = some (g x)) : l.mapM f = some (l.map g) := by
  induction l with
  | nil => rfl
  | cons x l ih =>
    rw [List.mapM_cons, h x List.mem_cons_self, ih fun y hy => h y (List.mem_cons_of_mem _ hy)]
    rfl

lemma mapM_eq_none {α β : Type*} {f : α → Option β} {l : List α} {x : α} (hx : x ∈ l)
    (h : f x = none) : l.mapM f = none := by
  induction l with
  | nil => simp at hx
  | cons y l ih =>
    rw [List.mapM_cons]
    rcases List.mem_cons.mp hx with rfl | hx
    · rw [h]
      rfl
    · rw [ih hx]
      cases f y <;> rfl

lemma zip_picked {as : List FilterColumn} {bs : List ColumnData} (hlen : as.length = bs.length)
    (g : FilterColumn × ColumnData → ColumnData) :
    as.zip ((as.zip bs).map g) = (as.zip bs).map fun x => (x.1, g x) := by
  induction as generalizing bs with
  | nil => rfl
  | cons a as ih =>
    cases bs with
    | nil => cases hlen
    | cons b bs =>
      simp only [List.zip_cons_cons, List.map_cons]
      rw [ih (Nat.succ.inj hlen)]

variable (wf : List.Forall₂ (fun col d => d.WellFormed col n) s.columns cols)
  (hc : ∀ x ∈ s.columns.zip cols, x.2.Compactable x.1 n)
include wf hc

lemma selectFilterRows_readBack (hidx : ∀ i ∈ idx, i < n) :
    selectFilterRows ((s.columns.zip cols).map fun x => x.2.readBack x.1 n) s idx =
      some (pickedColumns n s cols idx) := by
  rw [selectFilterRows, zip_picked wf.length_eq, List.mapM_map]
  exact mapM_eq_map fun x hx =>
    selectColumn_readBack ((List.forall₂_iff_zip.mp wf).2 hx) (hc x hx) hidx

variable (hsub : idx.Sublist (List.range n))
include hsub

lemma pickedColumns_wellFormed :
    List.Forall₂ (fun col d => d.WellFormed col idx.length) s.columns (pickedColumns n s cols idx) := by
  refine List.forall₂_iff_zip.mpr ⟨?_, fun hx => ?_⟩
  · rw [pickedColumns, List.length_map, List.length_zip, ← wf.length_eq, Nat.min_self]
  · rw [pickedColumns, zip_picked wf.length_eq] at hx
    obtain ⟨y, hy, heq⟩ := List.mem_map.mp hx
    obtain ⟨rfl, rfl⟩ := Prod.mk.injEq _ _ _ _ ▸ heq
    exact picked_wellFormed ((List.forall₂_iff_zip.mp wf).2 hy) (hc y hy) hsub

lemma pickedColumns_addressable :
    ∀ x ∈ s.columns.zip (pickedColumns n s cols idx), x.2.Addressable x.1 idx.length := by
  rw [pickedColumns, zip_picked wf.length_eq]
  intro x hx
  obtain ⟨y, hy, rfl⟩ := List.mem_map.mp hx
  exact picked_addressable ((List.forall₂_iff_zip.mp wf).2 hy) (hc y hy) hsub

lemma pickedColumns_bytes :
    filterColumnsBytes idx.length s (pickedColumns n s cols idx) ≤ filterColumnsBytes n s cols := by
  rw [filterColumnsBytes_eq, filterColumnsBytes_eq, pickedColumns, zip_picked wf.length_eq,
    List.foldl_map]
  have hstep : ∀ xs : List (FilterColumn × ColumnData), (∀ x ∈ xs, x ∈ s.columns.zip cols) →
      ∀ p q : ℕ, p ≤ q →
      xs.foldl (fun total x => columnBytes idx.length x.1 (x.2.picked x.1 n idx) total) p ≤
        xs.foldl (fun total x => columnBytes n x.1 x.2 total) q := by
    intro xs
    induction xs with
    | nil => exact fun _ _ _ h => h
    | cons x xs ih =>
      intro hmem p q hpq
      have hx := hmem x List.mem_cons_self
      exact ih (fun y hy => hmem y (List.mem_cons_of_mem _ hy)) _ _
        (picked_columnBytes ((List.forall₂_iff_zip.mp wf).2 hx) (hc x hx) hsub hpq)
  exact hstep _ (fun _ h => h) 0 0 le_rfl

end Region

/-! ### Strings of `2 ^ 32` bytes and more -/

section Long

variable {m m' : Mem} {n p : ℕ} {col : FilterColumn} {d : ColumnData}

lemma getElem?_runOffsets (acc : ℕ) (lens : List ℕ) {i : ℕ} (hi : i < lens.length) :
    (runOffsets acc lens).1[i]? = some (UInt32.ofNat (acc + (lens.take i).sum)) := by
  induction lens generalizing acc i with
  | nil => simp at hi
  | cons len lens ih =>
    cases i with
    | zero => simp [runOffsets]
    | succ i =>
      simp only [runOffsets, List.getElem?_cons_succ, List.take_succ_cons, List.sum_cons]
      rw [ih _ (by simpa using hi)]
      congr 1
      apply UInt32.toNat_inj.mp
      simp only [UInt32.toNat_ofNat']
      omega

lemma exists_crossing {f : ℕ → ℕ} (h : 2 ^ 32 ≤ total f n) :
    ∃ i < n, total f i < 2 ^ 32 ∧ 2 ^ 32 ≤ total f i + f i := by
  induction n with
  | zero => exact absurd h (by simp)
  | succ n ih =>
    by_cases hn : 2 ^ 32 ≤ total f n
    · obtain ⟨i, hi, hcross⟩ := ih hn
      exact ⟨i, by omega, hcross⟩
    · rw [total_succ] at h
      exact ⟨n, by omega, by omega, h⟩

lemma selectStrings_none {r : ColumnData} {i : ℕ} {len : UInt16} {off : UInt32}
    (hlen : r.strLengths[i]? = some len) (hoff : r.strOffsets[i]? = some off)
    (hout : r.strData.length < off.toNat + len.toNat) {idx : List ℕ} (hidx : i ∈ idx)
    (acc : ColumnData) : selectStrings r idx acc = none := by
  induction idx generalizing acc with
  | nil => simp at hidx
  | cons j js ih =>
    rw [selectStrings]
    by_cases hj : j = i
    · subst hj
      have hslice : slice r.strData off.toNat len.toNat = none := if_neg (by omega)
      simp only [hlen, hoff, hslice, Option.bind_eq_bind, Option.bind_some, Option.bind_none]
    · have hmem : i ∈ js := (List.mem_cons.mp hidx).resolve_left (Ne.symm hj)
      simp only [ih hmem, Option.bind_eq_bind, Option.bind_fun_none]

/-- The string where 4 GiB are passed is not in what the copying reader returns, so its row cannot
be selected. -/
lemma selectColumn_long (hcol : col.type = .string) (wf : d.WellFormed col n)
    (hread : ∀ i, p ≤ i → i < (writeColumn n (m, p) (col, d)).2 →
      m' i = (writeColumn n (m, p) (col, d)).1 i) {i : ℕ} (hi : i < n)
    (hlt : total d.strLen i < 2 ^ 32) (hcross : 2 ^ 32 ≤ total d.strLen i + d.strLen i)
    {idx : List ℕ} (hidx : i ∈ idx) : selectColumn col (readColumn m' n col p).1 idx = none := by
  obtain ⟨-, hend, hlens, -⟩ := writeColumn_strings (m := m) (p := p) hcol wf
  have hll := length_words 2 n d.strLen
  have hl : Holds m' (p + n * 4) _ :=
    hlens.congr fun i h₁ h₂ => hread i (by omega) (by rw [hll] at h₂; omega)
  have hmap : (List.range n).map (fun i => word m' 2 (p + n * 4 + 2 * i)) =
      (List.range n).map d.strLen :=
    List.map_congr_left fun i hi => word_of_holds hl (List.mem_range.mp hi) (strLen_lt d i)
  have hdata : (readColumn m' n col p).1.strLengths =
        ((List.range n).map d.strLen).map UInt16.ofNat ∧
      (readColumn m' n col p).1.strOffsets = (runOffsets 0 ((List.range n).map d.strLen)).1 ∧
      (readColumn m' n col p).1.strData.length = total d.strLen n % 2 ^ 32 := by
    rw [← foldl_wrap, ← runOffsets_snd]
    simp only [readColumn, readData, hcol, hmap]
    split <;> exact ⟨rfl, rfl, length_peek _ _ _⟩
  obtain ⟨h₁, h₂, h₃⟩ := hdata
  have hlen : (readColumn m' n col p).1.strLengths[i]? = some (UInt16.ofNat (d.strLen i)) := by
    rw [h₁, List.getElem?_map, List.getElem?_map, List.getElem?_range hi]
    rfl
  have hoff : (readColumn m' n col p).1.strOffsets[i]? =
      some (UInt32.ofNat (total d.strLen i)) := by
    rw [h₂, getElem?_runOffsets 0 _ (by simpa using hi), take_map_range _ hi.le, Nat.zero_add]
    rfl
  have hmod := Nat.mod_lt (total d.strLen n) (show 0 < 2 ^ 32 by norm_num)
  have hnone := selectStrings_none hlen hoff (by
    rw [h₃, toNat_ofNat32 hlt, toNat_ofNat16 (strLen_lt d i)]
    omega) hidx
  rw [selectColumn]
  cases selectMask col (readColumn m' n col p).1 idx with
  | none => rfl
  | some mask =>
    simp only [hcol, Option.bind_eq_bind, Option.bind_some]
    exact hnone _

lemma writeColumn_frame (wf : d.WellFormed col n) (hset : col.type = .set → d.Addressable col n) :
    p ≤ (writeColumn n (m, p) (col, d)).2 ∧
      ∀ i < p, (writeColumn n (m, p) (col, d)).1 i = m i := by
  by_cases hs : col.type = .string
  · obtain ⟨-, hend, -, hframe⟩ := writeColumn_strings (m := m) (p := p) hs wf
    exact ⟨by omega, hframe⟩
  · have ha : d.Addressable col n := by
      by_cases ht : col.type = .set
      · exact hset ht
      · exact ⟨fun h => absurd h hs, fun h => absurd h ht⟩
    have hw := columnWritten (m := m) (p := p) wf ha
    exact ⟨hw.le, fun i hi => hw.frame i (.inl hi)⟩

lemma writeColumns_frame {xs : List (FilterColumn × ColumnData)}
    (wf : ∀ x ∈ xs, x.2.WellFormed x.1 n)
    (hset : ∀ x ∈ xs, x.1.type = .set → x.2.Addressable x.1 n) (m : Mem) (p : ℕ) :
    p ≤ (xs.foldl (writeColumn n) (m, p)).2 ∧
      ∀ i < p, (xs.foldl (writeColumn n) (m, p)).1 i = m i := by
  induction xs generalizing m p with
  | nil => exact ⟨le_rfl, fun _ _ => rfl⟩
  | cons x xs ih =>
    obtain ⟨hle, hframe⟩ := writeColumn_frame (m := m) (p := p) (wf x List.mem_cons_self)
      (hset x List.mem_cons_self)
    obtain ⟨hle', hframe'⟩ := ih (fun y hy => wf y (List.mem_cons_of_mem _ hy))
      (fun y hy => hset y (List.mem_cons_of_mem _ hy)) (writeColumn n (m, p) x).1
      (writeColumn n (m, p) x).2
    exact ⟨hle.trans hle', fun i hi => (hframe' i (hi.trans_le hle)).trans (hframe i hi)⟩

lemma readColumns_append (as bs : List FilterColumn) (p : ℕ) :
    (readColumns m n (as ++ bs) p).1 = (readColumns m n as p).1 ++
      (readColumns m n bs (readColumns m n as p).2).1 := by
  induction as generalizing p with
  | nil => rfl
  | cons a as ih => simp only [List.cons_append, readColumns, ih]

lemma length_readColumns (as : List FilterColumn) (p : ℕ) :
    (readColumns m n as p).1.length = as.length := by
  induction as generalizing p with
  | nil => rfl
  | cons a as ih => simp only [readColumns, List.length_cons, ih]

/-- The first String column of 4 GiB or more: rows that include the one where 4 GiB are passed cannot
be selected. -/
lemma selectFilterRows_long {s : Schema} {cols : List ColumnData}
    {xs ys : List (FilterColumn × ColumnData)}
    (wf : List.Forall₂ (fun col d => d.WellFormed col n) s.columns cols)
    (hsplit : s.columns.zip cols = xs ++ (col, d) :: ys) (hxs : ∀ x ∈ xs, x.2.Addressable x.1 n)
    (hys : ∀ y ∈ ys, y.1.type = .set → y.2.Addressable y.1 n) (hcol : col.type = .string)
    (hread : ∀ i < (writeFilterColumns m n s cols).2, m' i = (writeFilterColumns m n s cols).1 i)
    {i : ℕ} (hi : i < n) (hlt : total d.strLen i < 2 ^ 32)
    (hcross : 2 ^ 32 ≤ total d.strLen i + d.strLen i) {idx : List ℕ} (hidx : i ∈ idx) :
    selectFilterRows (readFilterColumns m' n s).1 s idx = none := by
  have hcols : (s.columns.zip cols).map Prod.fst = s.columns := List.map_fst_zip wf.length_eq.le
  have hwf : ∀ x ∈ xs ++ (col, d) :: ys, x.2.WellFormed x.1 n := fun x hx => by
    rw [← hsplit] at hx
    exact (List.forall₂_iff_zip.mp wf).2 hx
  have hwd : d.WellFormed col n := hwf (col, d) (by simp)
  -- The memory behind the columns before, behind this one, and behind all.
  obtain ⟨⟨m₁, p₁⟩, hst⟩ : ∃ st, xs.foldl (writeColumn n) (m, 0) = st := ⟨_, rfl⟩
  obtain ⟨-, -, -, hall⟩ := allWritten (m := m) (p := 0)
    (fun x hx => hwf x (List.mem_append_left _ hx)) hxs
  rw [hst] at hall
  obtain ⟨hle, hframe⟩ := writeColumn_frame (m := m₁) (p := p₁) hwd
    fun h => by rw [hcol] at h; cases h
  have hwfy : ∀ y ∈ ys, y.2.WellFormed y.1 n := fun y hy => hwf y (by simp [hy])
  obtain ⟨hle', hframe'⟩ := writeColumns_frame hwfy hys
    (writeColumn n (m₁, p₁) (col, d)).1 (writeColumn n (m₁, p₁) (col, d)).2
  have hw : writeFilterColumns m n s cols =
      ys.foldl (writeColumn n) (writeColumn n (m₁, p₁) (col, d)) := by
    rw [writeFilterColumns_eq, hsplit, List.foldl_append, hst, List.foldl_cons]
  rw [hw] at hread
  have hmid : ∀ i < (writeColumn n (m₁, p₁) (col, d)).2,
      m' i = (writeColumn n (m₁, p₁) (col, d)).1 i := fun i hi =>
    (hread i (hi.trans_le hle')).trans (hframe' i hi)
  have hbefore := hall m' fun i _ hi => (hmid i (hi.trans_le hle)).trans (hframe i hi)
  refine mapM_eq_none (x := (col, (readColumn m' n col p₁).1)) ?_
    (selectColumn_long hcol hwd (fun i _ hi => hmid i hi) hi hlt hcross hidx)
  have hpos := hbefore.readEnd
  dsimp only at hpos
  rw [readFilterColumns, ← hcols, hsplit, List.map_append, List.map_cons, readColumns_append,
    List.zip_append (length_readColumns _ _).symm, hpos]
  refine List.mem_append_right _ ?_
  simp only [readColumns, List.zip_cons_cons]
  exact List.mem_cons_self

end Long

end SextantTree.ColumnBytes
