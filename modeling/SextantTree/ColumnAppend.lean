import SextantTree.ColumnPick
import SextantTree.StagedRecordSpec

/-!
`select_filter_rows` and `append_filter_rows` on logical rows: what the two do with the cells of
well-formed columns, wherever the strings and the elements of their rows are.
-/

namespace SextantTree.ColumnBytes

open FilterHash ByteMem Staged

/-! ### Appending -/

/-- The null flags behind those of the destination. -/
def appendMask (col : FilterColumn) (s d : ColumnData) (indices : List ℕ) : Bytes :=
  if col.nullable && !s.nullMask.isEmpty then d.nullMask ++ indices.map (s.nullMask.getD · 0)
  else d.nullMask

/-- The data of the rows goes behind that of `d`; the loops are those of the selection. -/
def copyRows (col : FilterColumn) (s : ColumnData) (indices : List ℕ) (d : ColumnData) :
    Option ColumnData :=
  match col.type with
  | .string => selectStrings s indices d
  | .set => selectSets s indices d
  | t => selectFixed s t.width indices d

def appendColumn (col : FilterColumn) (s d : ColumnData) (indices : List ℕ) : Option ColumnData :=
  copyRows col s indices { d with type := col.type, nullMask := appendMask col s d indices }

/-- The columns of a schema; a list that is too short is read behind its end. -/
def appendColumns (indices : List ℕ) :
    List FilterColumn → (src dst : List ColumnData) → Option (List ColumnData)
  | [], _, dst => some dst
  | col :: cols, s :: src, d :: dst => do
    let d' ← appendColumn col s d indices
    let ds ← appendColumns indices cols src dst
    some (d' :: ds)
  | _, _, _ => none

/-- `append_filter_rows`: the destination after it. -/
def appendFilterRows (dst src : List ColumnData) (s : Schema) (indices : List ℕ) :
    Option (List ColumnData) := appendColumns indices s.columns src dst

/-- The indices that `select_filter_rows` gets to: it counts them in 32 bits. -/
def counted (indices : List ℕ) : List ℕ := indices.take (indices.length % 2 ^ 32)

/-! ### Logical rows -/

/-- Row `i`: its cells in the order of the columns. -/
def rowAt (cols : List FilterColumn) (ds : List ColumnData) (i : ℕ) :
    List (Option (Option RawCell)) := (cols.zip ds).map fun x => x.2.cell x.1 i

/-- The first `n` rows. -/
def logicalRows (s : Schema) (n : ℕ) (ds : List ColumnData) :
    List (List (Option (Option RawCell))) := (List.range n).map (rowAt s.columns ds)

def Selected (s : Schema) (src : List ColumnData) (idx : List ℕ) : Prop :=
  ∃ out, selectFilterRows src s (counted idx) = some out ∧ LeafColumns s idx.length out ∧
    logicalRows s idx.length out = idx.map (rowAt s.columns src)

/-- The rows stand behind the `n` rows of the destination. -/
def Appended (s : Schema) (n : ℕ) (dst src : List ColumnData) (idx : List ℕ) : Prop :=
  ∃ out, appendFilterRows dst src s idx = some out ∧ LeafColumns s (n + idx.length) out ∧
    logicalRows s (n + idx.length) out = logicalRows s n dst ++ idx.map (rowAt s.columns src)

/-- 32 bits reach the elements of row `i` of a Set column. -/
def ElemsReached (s : ColumnData) (i : ℕ) : Prop :=
  ∀ e < s.setCount i, s.setOff i + e < 2 ^ 32 ∧ s.elemStart (s.setOff i + e) < 2 ^ 32

/-- 32 bits count what stands before each row that is copied behind `d`. -/
structure CopyFits (col : FilterColumn) (s : ColumnData) (idx : List ℕ) (d : ColumnData) : Prop where
  strings : col.type = .string → ∀ k < idx.length,
    d.strData.length + ((idx.take k).map s.strLen).sum < 2 ^ 32
  sets : col.type = .set → ∀ k < idx.length,
    d.setElemLengths.length + ((idx.take k).map s.setCount).sum < 2 ^ 32
  reached : col.type = .set → ∀ i ∈ idx, ElemsReached s i

/-- The masks of a column of `n` rows and of the one that is appended: both there, or both not. -/
def MaskAgrees (col : FilterColumn) (n : ℕ) (d s : ColumnData) (idx : List ℕ) : Prop :=
  col.nullable = true → idx = [] ∨ n = 0 ∨ (d.nullMask = [] ↔ s.nullMask = [])

/-- The selection fits: 32 bits count the indices, and the rows in every column. -/
def SelectFits (s : Schema) (src : List ColumnData) (idx : List ℕ) : Prop :=
  idx.length < 2 ^ 32 ∧ ∀ x ∈ s.columns.zip src, CopyFits x.1 x.2 idx {}

/-- Every column of the destination has room for the rows. -/
def AppendFits (s : Schema) (dst src : List ColumnData) (idx : List ℕ) : Prop :=
  ∀ x ∈ s.columns.zip (src.zip dst), CopyFits x.1 x.2.1 idx x.2.2

def MasksAgree (s : Schema) (n : ℕ) (dst src : List ColumnData) (idx : List ℕ) : Prop :=
  ∀ x ∈ s.columns.zip (src.zip dst), MaskAgrees x.1 n x.2.2 x.2.1 idx

/-! ### The loops -/

section Loops

variable {col : FilterColumn} {s d d' : ColumnData} {m n : ℕ} {idx : List ℕ}

def ColumnData.value (col : FilterColumn) (s : ColumnData) (i : ℕ) : RawCell :=
  match col.type with
  | .string => .string (s.str i)
  | .set => .set (s.rowElems i)
  | t => .fixed (s.fixedRow t.width i)

lemma value_fixed (hs : col.type ≠ .string) (ht : col.type ≠ .set) (i : ℕ) :
    s.value col i = .fixed (s.fixedRow col.type.width i) := by
  unfold ColumnData.value
  cases h : col.type <;> simp_all

def pushRows (col : FilterColumn) (s : ColumnData) (idx : List ℕ) (d : ColumnData) : ColumnData :=
  idx.foldl (fun d i => pushValue d (s.value col i)) d

lemma elems_inside (h : RowData col m s) (ht : col.type = .set) {i : ℕ} (hi : i < m) :
    ∀ e < s.setCount i, s.setOff i + e < s.setElemLengths.length ∧
      s.elemStart (s.setOff i + e) + s.elemLen (s.setOff i + e) ≤ s.setElemData.length := by
  obtain ⟨-, -, hin, hpacked⟩ := h.sets ht
  intro e he
  have hk : s.setOff i + e < s.setElemLengths.length := by
    have := hin i hi
    omega
  exact ⟨hk, (elemStart_succ_le hk).trans hpacked.le⟩

lemma fixed_inside (h : RowData col m s) (hs : col.type ≠ .string) (ht : col.type ≠ .set) {i : ℕ}
    (hi : i < m) : i * col.type.width + col.type.width ≤ s.fixedData.length := by
  rw [h.fixed hs ht, ← Nat.succ_mul]
  exact Nat.mul_le_mul_right _ hi

lemma raw_value (h : RowData col m s) {i : ℕ} (hi : i < m) :
    s.raw col i = some (s.value col i) ∧ ValueOk col.type (s.value col i) := by
  by_cases hs : col.type = .string
  · have hin := (h.strings hs).2.2 i hi
    have hval : s.value col i = .string (s.str i) := by rw [ColumnData.value, hs]
    refine ⟨by rw [raw_string hs hin, hval], ?_⟩
    rw [hval]
    exact ⟨hs, by rw [length_str hin]; exact strLen_lt s i⟩
  by_cases ht : col.type = .set
  · have hin := elems_inside h ht hi
    have hval : s.value col i = .set (s.rowElems i) := by rw [ColumnData.value, ht]
    refine ⟨by rw [raw_set ht fun e he => (hin e he).2, hval], ?_⟩
    rw [hval]
    refine ⟨ht, by rw [ColumnData.length_rowElems]; exact UInt8.toNat_lt _, fun b hb => ?_⟩
    obtain ⟨e, he, rfl⟩ := List.mem_map.mp hb
    rw [length_elem (hin e (List.mem_range.mp he)).2]
    exact UInt16.toNat_lt _
  · have hin := fixed_inside h hs ht hi
    rw [value_fixed hs ht, raw_fixed hs ht, slice_eq_some hin]
    refine ⟨rfl, hs, ht, ?_⟩
    rw [ColumnData.fixedRow, List.length_take, List.length_drop]
    omega

lemma selectElems_eq (off : ℕ) (es : List ℕ)
    (hin : ∀ e ∈ es, off + e < s.setElemLengths.length ∧
      s.elemStart (off + e) + s.elemLen (off + e) ≤ s.setElemData.length)
    (hfit : ∀ e ∈ es, off + e < 2 ^ 32 ∧ s.elemStart (off + e) < 2 ^ 32) (d : ColumnData) :
    selectElems s off es d = some
      { d with
        setElemLengths := d.setElemLengths ++
          (es.map fun e => s.elem (off + e)).map fun b => UInt16.ofNat b.length
        setElemData := d.setElemData ++ (es.map fun e => s.elem (off + e)).flatten } := by
  induction es generalizing d with
  | nil => simp [selectElems]
  | cons e es ih =>
    obtain ⟨hk, hle⟩ := hin e List.mem_cons_self
    obtain ⟨hidx, hstart⟩ := hfit e List.mem_cons_self
    have hlen : s.elemLen (off + e) = (s.setElemLengths[off + e]).toNat := by
      simp [ColumnData.elemLen, hk]
    have hword : UInt16.ofNat (s.elem (off + e)).length = s.setElemLengths[off + e] := by
      rw [length_elem hle, hlen, UInt16.ofNat_toNat]
    have hstr : slice s.setElemData (s.elemByteOff (off + e)) s.setElemLengths[off + e].toNat =
        some (s.elem (off + e)) := by
      rw [ColumnData.elemByteOff, Nat.mod_eq_of_lt hstart, ← hlen, slice_eq_some hle]
      rfl
    rw [selectElems, Nat.mod_eq_of_lt hidx, List.getElem?_eq_getElem hk]
    simp only [Option.bind_eq_bind, Option.bind_some]
    rw [hstr, Option.bind_some, ih (fun f hf => hin f (List.mem_cons_of_mem e hf))
      (fun f hf => hfit f (List.mem_cons_of_mem e hf))]
    simp [hword]

/-- **Each loop pushes the values of its rows.** -/
lemma copyRows_eq (h : RowData col m s) (hidx : ∀ i ∈ idx, i < m)
    (hreach : col.type = .set → ∀ i ∈ idx, ElemsReached s i) (d : ColumnData) :
    copyRows col s idx d = some (pushRows col s idx d) := by
  by_cases hs : col.type = .string
  · simp only [copyRows, hs]
    induction idx generalizing d with
    | nil => rfl
    | cons i is ih =>
      have hi := hidx i List.mem_cons_self
      obtain ⟨hoffs, hlens, hin⟩ := h.strings hs
      have hoff : s.strOffsets[i]? = some (s.strOffsets.getD i 0) := by
        simp [List.getElem?_eq_getElem (show i < s.strOffsets.length by omega)]
      have hlen : s.strLengths[i]? = some (s.strLengths.getD i 0) := by
        simp [List.getElem?_eq_getElem (show i < s.strLengths.length by omega)]
      have hstr : slice s.strData (s.strOffsets.getD i 0).toNat (s.strLengths.getD i 0).toNat =
          some (s.str i) := slice_eq_some (hin i hi)
      have hword : s.strLengths.getD i 0 = UInt16.ofNat (s.str i).length := by
        rw [length_str (hin i hi), ColumnData.strLen, UInt16.ofNat_toNat]
      rw [selectStrings, hoff, hlen]
      simp only [Option.bind_eq_bind, Option.bind_some]
      rw [hstr, Option.bind_some, hword, ih (fun j hj => hidx j (List.mem_cons_of_mem i hj))
        fun ht => absurd (hs.symm.trans ht) (by decide)]
      simp only [pushRows, List.foldl_cons, ColumnData.value, hs]
      rfl
  by_cases ht : col.type = .set
  · have hreach' := hreach ht
    simp only [copyRows, ht]
    clear hreach
    induction idx generalizing d with
    | nil => rfl
    | cons i is ih =>
      have hi := hidx i List.mem_cons_self
      obtain ⟨hcounts, hoffs, -, -⟩ := h.sets ht
      have hoff : s.setOffsets[i]? = some (s.setOffsets.getD i 0) := by
        simp [List.getElem?_eq_getElem (show i < s.setOffsets.length by omega)]
      have hcount : s.setCounts[i]? = some (s.setCounts.getD i 0) := by
        simp [List.getElem?_eq_getElem (show i < s.setCounts.length by omega)]
      have hword : s.setCounts.getD i 0 = UInt8.ofNat (s.rowElems i).length := by
        rw [ColumnData.length_rowElems, ColumnData.setCount, UInt8.ofNat_toNat]
      have helems := selectElems_eq (s.setOffsets.getD i 0).toNat
        (List.range (s.setCounts.getD i 0).toNat)
        (fun e he => elems_inside h ht hi e (List.mem_range.mp he))
        (fun e he => hreach' i List.mem_cons_self e (List.mem_range.mp he))
        { d with
          setCounts := d.setCounts ++ [s.setCounts.getD i 0]
          setOffsets := d.setOffsets ++ [UInt32.ofNat d.setElemLengths.length] }
      rw [selectSets, hoff, hcount]
      simp only [Option.bind_eq_bind, Option.bind_some]
      rw [helems, Option.bind_some, ih (fun j hj => hidx j (List.mem_cons_of_mem i hj)) _
        fun j hj => hreach' j (List.mem_cons_of_mem i hj)]
      simp only [pushRows, List.foldl_cons, ColumnData.value, ht, pushValue]
      rw [← hword]
      rfl
  · have hloop : ∀ (is : List ℕ) (d : ColumnData), (∀ i ∈ is, i < m) →
        selectFixed s col.type.width is d = some (pushRows col s is d) := by
      intro is
      induction is with
      | nil => exact fun d _ => rfl
      | cons i is ih =>
        intro d his
        have hin := fixed_inside h hs ht (his i List.mem_cons_self)
        rw [selectFixed, slice_eq_some hin]
        simp only [Option.bind_eq_bind, Option.bind_some]
        rw [ih _ fun j hj => his j (List.mem_cons_of_mem i hj)]
        simp only [pushRows, List.foldl_cons, value_fixed hs ht]
        rfl
    unfold copyRows
    have := hloop idx d hidx
    cases hty : col.type <;> first | exact absurd hty hs | exact absurd hty ht |
      (rw [hty] at this; exact this)

/-! ### The rows behind those of the destination -/

lemma nullMask_push (d : ColumnData) (v : RawCell) : (pushValue d v).nullMask = d.nullMask := by
  cases v <;> rfl

lemma nullMask_pushRows (idx : List ℕ) (d : ColumnData) :
    (pushRows col s idx d).nullMask = d.nullMask := by
  induction idx generalizing d with
  | nil => rfl
  | cons i is ih => exact (ih _).trans (nullMask_push d _)

lemma pushRows_concat (idx : List ℕ) (i : ℕ) (d : ColumnData) :
    pushRows col s (idx ++ [i]) d = pushValue (pushRows col s idx d) (s.value col i) :=
  List.foldl_concat _ _ _ _

lemma length_pushRows (h : RowData col m s) (hidx : ∀ i ∈ idx, i < m) (d : ColumnData) :
    (col.type = .string → (pushRows col s idx d).strData.length =
      d.strData.length + (idx.map s.strLen).sum) ∧
    (col.type = .set → (pushRows col s idx d).setElemLengths.length =
      d.setElemLengths.length + (idx.map s.setCount).sum) := by
  induction idx generalizing d with
  | nil => exact ⟨fun _ => rfl, fun _ => rfl⟩
  | cons i is ih =>
    obtain ⟨hstr, hset⟩ := ih (fun j hj => hidx j (List.mem_cons_of_mem i hj))
      (pushValue d (s.value col i))
    have hi := hidx i List.mem_cons_self
    refine ⟨fun hs => (hstr hs).trans ?_, fun ht => (hset ht).trans ?_⟩
    · rw [ColumnData.value, hs]
      simp only [pushValue, List.length_append, length_str ((h.strings hs).2.2 i hi), List.map_cons,
        List.sum_cons, Nat.add_assoc]
    · rw [ColumnData.value, ht]
      simp only [pushValue, List.length_append, List.length_map, ColumnData.length_rowElems,
        List.map_cons, List.sum_cons, Nat.add_assoc]

/-- **The rows copied are rows of the destination**, behind those it had. -/
lemma pushRows_spec (hs : RowData col m s) (hd : RowData col n d) (hidx : ∀ i ∈ idx, i < m)
    (hfit : CopyFits col s idx d) :
    RowData col (n + idx.length) (pushRows col s idx d) ∧
      (∀ i < n, (pushRows col s idx d).raw col i = d.raw col i) ∧
      ∀ (k : ℕ) (hk : k < idx.length),
        (pushRows col s idx d).raw col (n + k) = s.raw col idx[k] := by
  induction idx using List.reverseRecOn with
  | nil => exact ⟨hd, fun _ _ => rfl, nofun⟩
  | append_singleton is i ih =>
    have hin : ∀ j ∈ is, j < m := fun j hj => hidx j (List.mem_append_left _ hj)
    have hlen : (is ++ [i]).length = is.length + 1 := List.length_append
    have htake : ∀ k ≤ is.length, (is ++ [i]).take k = is.take k := fun k hk =>
      List.take_append_of_le_length hk
    obtain ⟨hdata, hkept, hadded⟩ := ih hin
      { strings := fun hty k hk => by
          have := hfit.strings hty k (by omega)
          rwa [htake k hk.le] at this
        sets := fun hty k hk => by
          have := hfit.sets hty k (by omega)
          rwa [htake k hk.le] at this
        reached := fun hty j hj => hfit.reached hty j (List.mem_append_left _ hj) }
    obtain ⟨hstrLen, hsetLen⟩ := length_pushRows hs hin d
    obtain ⟨hraw, hvalue⟩ := raw_value hs (hidx i (List.mem_append_right _ List.mem_cons_self))
    have hstr : col.type = .string → (pushRows col s is d).strData.length < 2 ^ 32 := fun hty => by
      have := hfit.strings hty is.length (by omega)
      rwa [htake _ le_rfl, List.take_length, ← hstrLen hty] at this
    have hset : col.type = .set → (pushRows col s is d).setElemLengths.length < 2 ^ 32 :=
      fun hty => by
        have := hfit.sets hty is.length (by omega)
        rwa [htake _ le_rfl, List.take_length, ← hsetLen hty] at this
    rw [pushRows_concat]
    refine ⟨by rw [hlen]; exact rowData_push hdata hvalue hstr hset, fun j hj => ?_, fun k hk => ?_⟩
    · rw [raw_push_of_lt hdata hvalue (by omega), hkept j hj]
    · rcases Nat.lt_or_ge k is.length with hlt | hge
      · rw [raw_push_of_lt hdata hvalue (by omega), hadded k hlt, List.getElem_append_left hlt]
      · obtain rfl : k = is.length := by omega
        rw [raw_push_self hdata hvalue hstr hset, List.getElem_concat_length rfl, hraw]

/-! ### Cells -/

lemma cell_eq_of {a b : ColumnData} {i j : ℕ} (hnull : a.isNull col i = b.isNull col j)
    (hraw : a.raw col i = b.raw col j) : a.cell col i = b.cell col j := by
  rw [ColumnData.cell, ColumnData.cell, hnull, hraw]

lemma isNull_of_mask {a b : ColumnData} {i j : ℕ}
    (h : col.nullable = true → a.nullMask.isEmpty = b.nullMask.isEmpty ∧
      a.nullMask.getD i 0 = b.nullMask.getD j 0) : a.isNull col i = b.isNull col j := by
  rw [ColumnData.isNull, ColumnData.isNull]
  cases hnull : col.nullable with
  | false => rfl
  | true => rw [(h hnull).1, (h hnull).2]

lemma isEmpty_eq_of_ne {a b : Bytes} (ha : a ≠ []) (hb : b ≠ []) : a.isEmpty = b.isEmpty :=
  (List.isEmpty_eq_false_iff.mpr ha).trans (List.isEmpty_eq_false_iff.mpr hb).symm

lemma isNull_of_nil {a : ColumnData} {i : ℕ} (h : a.nullMask = []) : a.isNull col i = false := by
  rw [ColumnData.isNull, h]
  simp

/-- `d'` is `d` with the rows `idx` of `s` behind its `n` rows. -/
structure RowsAppended (col : FilterColumn) (n : ℕ) (d s : ColumnData) (idx : List ℕ)
    (d' : ColumnData) : Prop where
  rows : Rows col (n + idx.length) d'
  kept : ∀ i < n, d'.cell col i = d.cell col i
  added : ∀ (k : ℕ) (hk : k < idx.length), d'.cell col (n + k) = s.cell col idx[k]

lemma isNull_appendMask (hs : Rows col m s) (hd : Rows col n d)
    (hagree : MaskAgrees col n d s idx) {d' : ColumnData}
    (hmask : d'.nullMask = appendMask col s d idx) :
    (col.nullable = true → d'.nullMask = [] ∨ d'.nullMask.length = n + idx.length) ∧
      (∀ i < n, d'.isNull col i = d.isNull col i) ∧
      ∀ (k : ℕ) (hk : k < idx.length), d'.isNull col (n + k) = s.isNull col idx[k] := by
  by_cases hnull : col.nullable = true
  swap
  · have hfalse : ∀ (a : ColumnData) (i : ℕ), a.isNull col i = false := fun a i => by
      rw [ColumnData.isNull, Bool.eq_false_iff.mpr hnull]
      rfl
    exact ⟨fun h => absurd h hnull, fun i _ => by rw [hfalse, hfalse],
      fun k hk => by rw [hfalse, hfalse]⟩
  by_cases hsrc : s.nullMask = []
  · -- Nothing is appended to the flags.
    have hd' : d'.nullMask = d.nullMask := by
      rw [hmask, appendMask, hsrc]
      simp
    have hempty : idx = [] ∨ d.nullMask = [] := by
      rcases hagree hnull with hnil | hzero | hiff
      · exact .inl hnil
      · refine .inr ((hd.mask hnull).elim id fun hlen => ?_)
        exact List.eq_nil_of_length_eq_zero (hlen.trans hzero)
      · exact .inr (hiff.mpr hsrc)
    refine ⟨fun _ => ?_, fun i _ => isNull_of_mask fun _ => by rw [hd']; exact ⟨rfl, rfl⟩,
      fun k hk => ?_⟩
    · rw [hd']
      rcases hempty with hnil | hdst
      · rw [hnil]
        exact hd.mask hnull
      · exact .inl hdst
    · rcases hempty with hnil | hdst
      · rw [hnil] at hk
        exact absurd hk (Nat.not_lt_zero k)
      · rw [isNull_of_nil (hd'.trans hdst), isNull_of_nil hsrc]
  · have hflags : d'.nullMask = d.nullMask ++ idx.map (s.nullMask.getD · 0) := by
      rw [hmask, appendMask, hnull]
      simp [hsrc]
    have hslen : s.nullMask.length = m := (hs.mask hnull).resolve_left hsrc
    have hdlen : idx = [] ∨ d.nullMask.length = n := by
      rcases hagree hnull with hnil | hzero | hiff
      · exact .inl hnil
      · refine .inr ((hd.mask hnull).elim (fun hnil => ?_) id)
        rw [hnil, hzero]
        rfl
      · exact .inr ((hd.mask hnull).resolve_left fun hnil => hsrc (hiff.mp hnil))
    rcases hdlen with hnil | hdlen
    · have hd' : d'.nullMask = d.nullMask := by
        rw [hflags, hnil]
        simp
      refine ⟨fun _ => ?_, fun i _ => isNull_of_mask fun _ => by rw [hd']; exact ⟨rfl, rfl⟩,
        fun k hk => ?_⟩
      · rw [hd', hnil]
        exact hd.mask hnull
      · rw [hnil] at hk
        exact absurd hk (Nat.not_lt_zero k)
    · refine ⟨fun _ => .inr ?_, fun i hi => isNull_of_mask fun _ => ?_,
        fun k hk => isNull_of_mask fun _ => ?_⟩
      · rw [hflags, List.length_append, List.length_map, hdlen]
      · have hi' : i < d.nullMask.length := by omega
        have hne : d.nullMask ≠ [] := List.ne_nil_of_length_pos (by omega)
        rw [hflags, List.getD_append _ _ _ _ hi']
        exact ⟨isEmpty_eq_of_ne (List.append_ne_nil_of_left_ne_nil hne _) hne, rfl⟩
      · rw [hflags, List.getD_append_right _ _ _ _ (by omega)]
        have hk' : n + k - d.nullMask.length = k := by omega
        have hne : idx.map (s.nullMask.getD · 0) ≠ [] :=
          List.ne_nil_of_length_pos (by rw [List.length_map]; omega)
        refine ⟨isEmpty_eq_of_ne (List.append_ne_nil_of_right_ne_nil _ hne) hsrc, ?_⟩
        rw [hk']
        simp [hk]

lemma rowData_retyped (h : RowData col n d) (mask : Bytes) :
    RowData col n { d with type := col.type, nullMask := mask } :=
  ⟨rfl, h.fixed, h.strings, h.sets⟩

/-- **One column is appended as its rows** where the masks agree. -/
lemma appendColumn_spec (hs : Rows col m s) (hd : Rows col n d) (hidx : ∀ i ∈ idx, i < m)
    (hfit : CopyFits col s idx d) (hagree : MaskAgrees col n d s idx) :
    ∃ d', appendColumn col s d idx = some d' ∧ RowsAppended col n d s idx d' := by
  set start : ColumnData := { d with type := col.type, nullMask := appendMask col s d idx }
    with hstart
  have hdata : RowData col n start := rowData_retyped hd.toRowData _
  have hfit' : CopyFits col s idx start := ⟨hfit.strings, hfit.sets, hfit.reached⟩
  obtain ⟨hrows, hkept, hadded⟩ := pushRows_spec hs.toRowData hdata hidx hfit'
  have hmask : (pushRows col s idx start).nullMask = appendMask col s d idx :=
    nullMask_pushRows idx start
  obtain ⟨hwf, hnullKept, hnullAdded⟩ := isNull_appendMask hs hd hagree hmask
  refine ⟨_, copyRows_eq hs.toRowData hidx hfit.reached start, ⟨hrows, hwf⟩, fun i hi => ?_,
    fun k hk => ?_⟩
  · exact cell_eq_of (hnullKept i hi) (hkept i hi)
  · exact cell_eq_of (hnullAdded k hk) (hadded k hk)

/-! ### The flags of a column alone -/

lemma nullMask_selectStrings {out : ColumnData} (h : selectStrings s idx d = some out) :
    out.nullMask = d.nullMask := by
  induction idx generalizing d with
  | nil =>
    cases h
    rfl
  | cons i is ih =>
    simp only [selectStrings, Option.bind_eq_bind, Option.bind_eq_some_iff] at h
    obtain ⟨len, -, off, -, str, -, h⟩ := h
    exact (ih h :)

lemma nullMask_selectElems {out : ColumnData} {off : ℕ} (h : selectElems s off idx d = some out) :
    out.nullMask = d.nullMask := by
  induction idx generalizing d with
  | nil =>
    cases h
    rfl
  | cons e es ih =>
    simp only [selectElems, Option.bind_eq_bind, Option.bind_eq_some_iff] at h
    obtain ⟨elen, -, str, -, h⟩ := h
    exact (ih h :)

lemma nullMask_selectSets {out : ColumnData} (h : selectSets s idx d = some out) :
    out.nullMask = d.nullMask := by
  induction idx generalizing d with
  | nil =>
    cases h
    rfl
  | cons i is ih =>
    simp only [selectSets, Option.bind_eq_bind, Option.bind_eq_some_iff] at h
    obtain ⟨ec, -, off, -, mid, helems, h⟩ := h
    exact (ih h :).trans (nullMask_selectElems helems :)

lemma nullMask_selectFixed {out : ColumnData} {w : ℕ} (h : selectFixed s w idx d = some out) :
    out.nullMask = d.nullMask := by
  induction idx generalizing d with
  | nil =>
    cases h
    rfl
  | cons i is ih =>
    simp only [selectFixed, Option.bind_eq_bind, Option.bind_eq_some_iff] at h
    obtain ⟨b, -, h⟩ := h
    exact (ih h :)

lemma nullMask_appendColumn {out : ColumnData} (h : appendColumn col s d idx = some out) :
    out.nullMask = appendMask col s d idx := by
  unfold appendColumn copyRows at h
  split at h
  · exact nullMask_selectStrings h
  · exact nullMask_selectSets h
  · exact nullMask_selectFixed h

lemma maskAgrees_of_rows (hd : Rows col n d) {out : ColumnData}
    (happ : appendColumn col s d idx = some out) (hrows : Rows col (n + idx.length) out) :
    MaskAgrees col n d s idx := by
  intro hnull
  have hmask := nullMask_appendColumn happ
  have hlen : out.nullMask = [] ∨ out.nullMask.length = n + idx.length := hrows.mask hnull
  rcases Nat.eq_zero_or_pos idx.length with hidx | hidx
  · exact .inl (List.eq_nil_of_length_eq_zero hidx)
  rcases Nat.eq_zero_or_pos n with hn | hn
  · exact .inr (.inl hn)
  refine .inr (.inr ⟨fun hdst => ?_, fun hsrc => ?_⟩)
  · by_contra hsrc
    have hflags : out.nullMask.length = idx.length := by
      rw [hmask, appendMask, hnull, hdst]
      simp [hsrc]
    rcases hlen with hnil | hlen
    · rw [hnil] at hflags
      simp only [List.length_nil] at hflags
      omega
    · omega
  · by_contra hdst
    have hflags : out.nullMask.length = n := by
      rw [hmask, appendMask, hsrc]
      simpa using (hd.mask hnull).resolve_left hdst
    rcases hlen with hnil | hlen
    · rw [hnil] at hflags
      simp only [List.length_nil] at hflags
      omega
    · omega

/-- **One column is selected as its rows.** -/
lemma selectColumn_spec (hs : Rows col m s) (hidx : ∀ i ∈ idx, i < m)
    (hfit : CopyFits col s idx {}) :
    ∃ d', selectColumn col s idx = some d' ∧ Rows col idx.length d' ∧
      ∀ (k : ℕ) (hk : k < idx.length), d'.cell col k = s.cell col idx[k] := by
  have hempty : Rows col 0 { type := col.type } := by
    refine ⟨⟨rfl, fun _ _ => ?_, fun _ => ⟨rfl, rfl, nofun⟩, fun _ => ⟨rfl, rfl, nofun, rfl⟩⟩,
      fun _ => .inl rfl⟩
    simp
  obtain ⟨d', happ, hrows, -, hadded⟩ := appendColumn_spec hs hempty hidx
    ⟨hfit.strings, hfit.sets, hfit.reached⟩ fun _ => .inr (.inl rfl)
  simp only [Nat.zero_add] at hrows hadded
  refine ⟨d', ?_, hrows, hadded⟩
  -- The selection appends to a column without rows.
  have hmask : selectMask col s idx = some (appendMask col s { type := col.type } idx) := by
    unfold selectMask appendMask
    split
    · rename_i hflags
      rw [Bool.and_eq_true, Bool.not_eq_true', List.isEmpty_eq_false_iff] at hflags
      have hlen := (hs.mask hflags.1).resolve_left hflags.2
      exact mapM_mask fun i hi => hlen.symm ▸ hidx i hi
    · rfl
  rw [selectColumn, hmask]
  exact happ

end Loops

/-! ### All columns -/

section Columns

variable {cols : List FilterColumn} {src dst out : List ColumnData} {m n : ℕ} {idx : List ℕ}

lemma selectColumns_spec (hlen : cols.length ≤ src.length)
    (hsrc : ∀ x ∈ cols.zip src, Rows x.1 m x.2) (hidx : ∀ i ∈ idx, i < m)
    (hfit : ∀ x ∈ cols.zip src, CopyFits x.1 x.2 idx {}) :
    ∃ out, (cols.zip src).mapM (fun x => selectColumn x.1 x.2 idx) = some out ∧
      out.length = cols.length ∧ (∀ x ∈ cols.zip out, Rows x.1 idx.length x.2) ∧
      ∀ (k : ℕ) (hk : k < idx.length), rowAt cols out k = rowAt cols src idx[k] := by
  induction cols generalizing src with
  | nil => exact ⟨[], rfl, rfl, nofun, fun _ _ => rfl⟩
  | cons col cols ih =>
    obtain _ | ⟨s, src⟩ := src
    · exact absurd hlen (Nat.not_succ_le_zero _)
    rw [List.zip_cons_cons] at hsrc hfit
    obtain ⟨d, hd, hrows, hcells⟩ := selectColumn_spec (hsrc _ List.mem_cons_self) hidx
      (hfit _ List.mem_cons_self)
    obtain ⟨out, hout, hlenOut, hrowsOut, hcellsOut⟩ := ih (Nat.le_of_succ_le_succ hlen)
      (fun x hx => hsrc x (List.mem_cons_of_mem _ hx))
      (fun x hx => hfit x (List.mem_cons_of_mem _ hx))
    refine ⟨d :: out, ?_, congrArg (· + 1) hlenOut, fun x hx => ?_, fun k hk => ?_⟩
    · rw [List.zip_cons_cons, List.mapM_cons, hd, hout]
      rfl
    · rcases List.mem_cons.mp hx with rfl | hx
      · exact hrows
      · exact hrowsOut x hx
    · exact congrArg₂ List.cons (hcells k hk) (hcellsOut k hk)

lemma appendColumns_spec (hlen : cols.length ≤ src.length) (hlen' : cols.length ≤ dst.length)
    (hsrc : ∀ x ∈ cols.zip src, Rows x.1 m x.2) (hdst : ∀ x ∈ cols.zip dst, Rows x.1 n x.2)
    (hidx : ∀ i ∈ idx, i < m) (hfit : ∀ x ∈ cols.zip (src.zip dst), CopyFits x.1 x.2.1 idx x.2.2)
    (hagree : ∀ x ∈ cols.zip (src.zip dst), MaskAgrees x.1 n x.2.2 x.2.1 idx) :
    ∃ out, appendColumns idx cols src dst = some out ∧ cols.length ≤ out.length ∧
      (∀ x ∈ cols.zip out, Rows x.1 (n + idx.length) x.2) ∧
      (∀ i < n, rowAt cols out i = rowAt cols dst i) ∧
      ∀ (k : ℕ) (hk : k < idx.length), rowAt cols out (n + k) = rowAt cols src idx[k] := by
  induction cols generalizing src dst with
  | nil => exact ⟨dst, rfl, Nat.zero_le _, nofun, fun _ _ => rfl, fun _ _ => rfl⟩
  | cons col cols ih =>
    obtain _ | ⟨s, src⟩ := src
    · exact absurd hlen (Nat.not_succ_le_zero _)
    obtain _ | ⟨d, dst⟩ := dst
    · exact absurd hlen' (Nat.not_succ_le_zero _)
    rw [List.zip_cons_cons] at hsrc hdst
    simp only [List.zip_cons_cons] at hfit hagree
    have hs : Rows col m s := hsrc _ List.mem_cons_self
    have hd : Rows col n d := hdst _ List.mem_cons_self
    obtain ⟨d', hd', hrows, hkept, hadded⟩ := appendColumn_spec hs hd hidx
      (hfit _ List.mem_cons_self) (hagree _ List.mem_cons_self)
    obtain ⟨out, hout, hlenOut, hrowsOut, hkeptOut, haddedOut⟩ := ih
      (Nat.le_of_succ_le_succ hlen) (Nat.le_of_succ_le_succ hlen')
      (fun x hx => hsrc x (List.mem_cons_of_mem _ hx))
      (fun x hx => hdst x (List.mem_cons_of_mem _ hx))
      (fun x hx => hfit x (List.mem_cons_of_mem _ hx))
      (fun x hx => hagree x (List.mem_cons_of_mem _ hx))
    refine ⟨d' :: out, ?_, Nat.succ_le_succ hlenOut, fun x hx => ?_, fun i hi => ?_,
      fun k hk => ?_⟩
    · rw [appendColumns, hd', hout]
      rfl
    · rcases List.mem_cons.mp hx with rfl | hx
      · exact hrows
      · exact hrowsOut x hx
    · exact congrArg₂ List.cons (hkept i hi) (hkeptOut i hi)
    · exact congrArg₂ List.cons (hadded k hk) (haddedOut k hk)

lemma masksAgree_of_columns (hdst : ∀ x ∈ cols.zip dst, Rows x.1 n x.2)
    (happ : appendColumns idx cols src dst = some out)
    (hrows : ∀ x ∈ cols.zip out, Rows x.1 (n + idx.length) x.2) :
    ∀ x ∈ cols.zip (src.zip dst), MaskAgrees x.1 n x.2.2 x.2.1 idx := by
  induction cols generalizing src dst out with
  | nil => exact nofun
  | cons col cols ih =>
    obtain _ | ⟨s, src⟩ := src
    · exact nofun
    obtain _ | ⟨d, dst⟩ := dst
    · exact nofun
    simp only [appendColumns, Option.bind_eq_bind, Option.bind_eq_some_iff] at happ
    obtain ⟨d', hd', ds, hds, hout⟩ := happ
    cases hout
    rw [List.zip_cons_cons] at hdst hrows
    intro x hx
    rcases List.mem_cons.mp hx with rfl | hx
    · exact maskAgrees_of_rows (hdst _ List.mem_cons_self) hd' (hrows _ List.mem_cons_self)
    · exact ih (fun y hy => hdst y (List.mem_cons_of_mem _ hy)) hds
        (fun y hy => hrows y (List.mem_cons_of_mem _ hy)) x hx

end Columns

lemma map_range_eq {β : Type*} {f g : ℕ → β} {idx : List ℕ}
    (h : ∀ (k : ℕ) (hk : k < idx.length), f k = g idx[k]) :
    (List.range idx.length).map f = idx.map g := by
  refine List.ext_getElem (by simp) fun k h₁ h₂ => ?_
  rw [List.getElem_map, List.getElem_map, List.getElem_range]
  exact h k (by simpa using h₂)

/-- **Selecting and appending act on logical rows.** What 32 bits count is selected as it is;
appended, the rows stand behind those of the destination exactly where the masks of every nullable
column agree. -/
theorem filter_rows_iff (s : Schema) (src dst : List ColumnData) (m n : ℕ) (idx : List ℕ)
    (hsrc : LeafColumns s m src) (hdst : LeafColumns s n dst) (hidx : ∀ i ∈ idx, i < m) :
    (SelectFits s src idx → Selected s src idx) ∧
      (AppendFits s dst src idx → (Appended s n dst src idx ↔ MasksAgree s n dst src idx)) := by
  refine ⟨fun hfit => ?_, fun hfit => ⟨?_, fun hagree => ?_⟩⟩
  · have hcounted : counted idx = idx := by
      rw [counted, Nat.mod_eq_of_lt hfit.1, List.take_length]
    obtain ⟨out, hout, hlen, hrows, hcells⟩ := selectColumns_spec hsrc.1 hsrc.2 hidx hfit.2
    refine ⟨out, by rw [hcounted]; exact hout, ⟨hlen.ge, hrows⟩, map_range_eq hcells⟩
  · rintro ⟨out, hout, hrows, -⟩
    exact masksAgree_of_columns hdst.2 hout hrows.2
  · obtain ⟨out, hout, hlen, hrows, hkept, hadded⟩ :=
      appendColumns_spec hsrc.1 hdst.1 hsrc.2 hdst.2 hidx hfit hagree
    refine ⟨out, hout, ⟨hlen, hrows⟩, ?_⟩
    rw [logicalRows, List.range_add, List.map_append, List.map_map]
    exact congrArg₂ _ (List.map_congr_left fun i hi => hkept i (List.mem_range.mp hi))
      (map_range_eq hadded)

def flaggedColumn (null : UInt8) : ColumnData :=
  { type := .int32, nullMask := [null], fixedData := [5, 0, 0, 0] }

lemma leafColumns_one {d : ColumnData} (htype : d.type = .int32) (hlen : d.fixedData.length = 4)
    (hmask : d.nullMask = [] ∨ d.nullMask.length = 1) : LeafColumns stockSchema 1 [d] := by
  refine ⟨le_rfl, fun x hx => ?_⟩
  obtain rfl : x = (⟨"stock", .int32, true⟩, d) := List.mem_singleton.mp hx
  exact ⟨⟨htype, fun _ _ => hlen, nofun, nofun⟩, fun _ => hmask⟩

lemma fits_of_fixed (src dst : List ColumnData) (idx : List ℕ) :
    (idx.length < 2 ^ 32 → SelectFits stockSchema src idx) ∧ AppendFits stockSchema dst src idx := by
  have hcol : ∀ col ∈ stockSchema.columns, col.type = .int32 := fun col hc => by
    rw [List.mem_singleton.mp hc]
  have hfits : ∀ col ∈ stockSchema.columns, ∀ s d, CopyFits col s idx d := fun col hc s d => by
    constructor <;> intro h <;> rw [hcol col hc] at h <;> cases h
  exact ⟨fun hlen => ⟨hlen, fun x hx => hfits _ (List.of_mem_zip hx).1 _ _⟩,
    fun x hx => hfits _ (List.of_mem_zip hx).1 _ _⟩

/-- A NULL row, twice, behind a row that has its flag. -/
theorem filter_rows_flagged : Selected stockSchema [flaggedColumn 1] [0, 0] ∧
    Appended stockSchema 1 [flaggedColumn 0] [flaggedColumn 1] [0, 0] := by
  obtain ⟨hselect, happend⟩ := filter_rows_iff stockSchema [flaggedColumn 1] [flaggedColumn 0] 1 1
    [0, 0] (leafColumns_one rfl rfl (.inr rfl)) (leafColumns_one rfl rfl (.inr rfl)) (by decide)
  obtain ⟨hsel, happ⟩ := fits_of_fixed [flaggedColumn 1] [flaggedColumn 0] [0, 0]
  refine ⟨hselect (hsel (by decide)), (happend happ).mpr fun x hx => ?_⟩
  obtain rfl : x = (⟨"stock", .int32, true⟩, flaggedColumn 1, flaggedColumn 0) :=
    List.mem_singleton.mp hx
  exact fun _ => .inr (.inr ⟨nofun, nofun⟩)

/-- A NULL row behind a row without flags: the one flag there is goes to the wrong row. -/
theorem null_row_behind_unmasked : LeafColumns stockSchema 1 [unmasked] ∧
    LeafColumns stockSchema 1 [flaggedColumn 1] ∧
    ¬ Appended stockSchema 1 [unmasked] [flaggedColumn 1] [0] := by
  refine ⟨leafColumns_one rfl rfl (.inl rfl), leafColumns_one rfl rfl (.inr rfl), ?_⟩
  rintro ⟨out, hout, -, hrows⟩
  have hcode : appendFilterRows [unmasked] [flaggedColumn 1] stockSchema [0] =
      some [{ type := .int32, nullMask := [1], fixedData := [3, 0, 0, 0, 5, 0, 0, 0] }] := rfl
  rw [hcode] at hout
  cases hout
  exact absurd hrows (by decide)

end SextantTree.ColumnBytes
