import SextantTree.ColumnRoundTrip

/-!
`select_filter_rows`: some rows of columns, in the order of their indices. A read outside an array has
no result. On columns as the copying reader returns them the selection is that of the rows.
-/

namespace SextantTree.ColumnBytes

open FilterHash ByteMem

/-! ### The selection -/

def selectStrings (s : ColumnData) : List ℕ → ColumnData → Option ColumnData
  | [], d => some d
  | i :: is, d => do
    let len ← s.strLengths[i]?
    let off ← s.strOffsets[i]?
    let str ← slice s.strData off.toNat len.toNat
    selectStrings s is
      { d with strOffsets := d.strOffsets ++ [UInt32.ofNat d.strData.length],
               strLengths := d.strLengths ++ [len], strData := d.strData ++ str }

/-- The element loop of a row; where an element starts is summed up in 32 bits. -/
def selectElems (s : ColumnData) (off : ℕ) : List ℕ → ColumnData → Option ColumnData
  | [], d => some d
  | e :: es, d => do
    let k := (off + e) % 2 ^ 32
    let elen ← s.setElemLengths[k]?
    let str ← slice s.setElemData (s.elemByteOff k) elen.toNat
    selectElems s off es
      { d with setElemLengths := d.setElemLengths ++ [elen], setElemData := d.setElemData ++ str }

def selectSets (s : ColumnData) : List ℕ → ColumnData → Option ColumnData
  | [], d => some d
  | i :: is, d => do
    let ec ← s.setCounts[i]?
    let off ← s.setOffsets[i]?
    let d ← selectElems s off.toNat (List.range ec.toNat)
      { d with setCounts := d.setCounts ++ [ec],
               setOffsets := d.setOffsets ++ [UInt32.ofNat d.setElemLengths.length] }
    selectSets s is d

def selectFixed (s : ColumnData) (w : ℕ) : List ℕ → ColumnData → Option ColumnData
  | [], d => some d
  | i :: is, d => do
    let b ← slice s.fixedData (i * w) w
    selectFixed s w is { d with fixedData := d.fixedData ++ b }

/-- The null flags of a nullable column that has some. -/
def selectMask (col : FilterColumn) (s : ColumnData) (indices : List ℕ) : Option Bytes :=
  if col.nullable && !s.nullMask.isEmpty then indices.mapM (s.nullMask[·]?) else some []

def selectColumn (col : FilterColumn) (s : ColumnData) (indices : List ℕ) : Option ColumnData := do
  let mask ← selectMask col s indices
  let d : ColumnData := { type := col.type, nullMask := mask }
  match col.type with
  | .string => selectStrings s indices d
  | .set => selectSets s indices d
  | t => selectFixed s t.width indices d

/-- `select_filter_rows`. -/
def selectFilterRows (src : List ColumnData) (s : Schema) (indices : List ℕ) :
    Option (List ColumnData) :=
  (s.columns.zip src).mapM fun x => selectColumn x.1 x.2 indices

/-! ### On packed rows -/

section Loops

variable (base base' : ColumnData) (idx : List ℕ)

lemma lengthsOf_concat (rows : List Bytes) (b : Bytes) :
    lengthsOf (rows ++ [b]) = lengthsOf rows ++ [UInt16.ofNat b.length] := by
  simp [lengthsOf]

lemma toNat_ofNat16 {n : ℕ} (h : n < 2 ^ 16) : (UInt16.ofNat n).toNat = n := by
  rw [UInt16.toNat_ofNat']
  omega

lemma toNat_ofNat32 {n : ℕ} (h : n < 2 ^ 32) : (UInt32.ofNat n).toNat = n := by
  rw [UInt32.toNat_ofNat']
  omega

lemma toNat_ofNat8 {n : ℕ} (h : n < 2 ^ 8) : (UInt8.ofNat n).toNat = n := by
  rw [UInt8.toNat_ofNat']
  omega

lemma selectStrings_spec {rows : List Bytes} (hlen : ∀ b ∈ rows, b.length < 2 ^ 16)
    (hsum : rows.flatten.length < 2 ^ 32) (hidx : ∀ i ∈ idx, i < rows.length) (acc : List Bytes) :
    selectStrings (base.withStrings rows) idx (base'.withStrings acc) =
      some (base'.withStrings (acc ++ idx.map fun i => rows.getD i [])) := by
  induction idx generalizing acc with
  | nil => simp [selectStrings]
  | cons i is ih =>
    have hi : i < rows.length := hidx i List.mem_cons_self
    have hrow : rows[i]? = some rows[i] := List.getElem?_eq_getElem hi
    obtain ⟨hslice, hle⟩ := slice_row hrow
    have hlens : (base.withStrings rows).strLengths[i]? = some (UInt16.ofNat rows[i].length) := by
      simp [ColumnData.withStrings, lengthsOf, hrow]
    have hoffs : (base.withStrings rows).strOffsets[i]? =
        some (UInt32.ofNat (rows.take i).flatten.length) := getElem?_offsetsOf hi
    have hstr : slice (base.withStrings rows).strData
        (UInt32.ofNat (rows.take i).flatten.length).toNat (UInt16.ofNat rows[i].length).toNat =
        some rows[i] := by
      rw [toNat_ofNat32 (by omega), toNat_ofNat16 (hlen _ (List.getElem_mem hi))]
      exact (slice_eq_some hle).trans (congrArg some hslice)
    have hnext : { base'.withStrings acc with
        strOffsets := (base'.withStrings acc).strOffsets ++
          [UInt32.ofNat (base'.withStrings acc).strData.length],
        strLengths := (base'.withStrings acc).strLengths ++ [UInt16.ofNat rows[i].length],
        strData := (base'.withStrings acc).strData ++ rows[i] } =
        base'.withStrings (acc ++ [rows[i]]) := by
      simp only [ColumnData.withStrings, offsetsOf_concat, lengthsOf_concat, List.flatten_append,
        List.flatten_singleton]
    rw [selectStrings, hlens, hoffs]
    simp only [Option.bind_eq_bind, Option.bind_some]
    rw [hstr, Option.bind_some, hnext, ih (fun j hj => hidx j (List.mem_cons_of_mem _ hj))]
    simp [List.getD_eq_getElem?_getD, hrow]

lemma selectFixed_spec {rows : List Bytes} {w : ℕ} (hlen : ∀ b ∈ rows, b.length = w)
    (hidx : ∀ i ∈ idx, i < rows.length) (acc : List Bytes) :
    selectFixed (base.withFixed rows) w idx (base'.withFixed acc) =
      some (base'.withFixed (acc ++ idx.map fun i => rows.getD i [])) := by
  induction idx generalizing acc with
  | nil => simp [selectFixed]
  | cons i is ih =>
    have hi : i < rows.length := hidx i List.mem_cons_self
    have hrow : rows[i]? = some rows[i] := List.getElem?_eq_getElem hi
    obtain ⟨hslice, hle⟩ := slice_row hrow
    rw [length_take_flatten hlen hi.le, hlen _ (List.getElem_mem hi)] at hslice hle
    have hb : slice (base.withFixed rows).fixedData (i * w) w = some rows[i] :=
      (slice_eq_some hle).trans (congrArg some hslice)
    have hnext : { base'.withFixed acc with
        fixedData := (base'.withFixed acc).fixedData ++ rows[i] } =
        base'.withFixed (acc ++ [rows[i]]) := by
      simp only [ColumnData.withFixed, List.flatten_append, List.flatten_singleton]
    rw [selectFixed, hb]
    simp only [Option.bind_eq_bind, Option.bind_some]
    rw [hnext, ih (fun j hj => hidx j (List.mem_cons_of_mem _ hj))]
    simp [List.getD_eq_getElem?_getD, hrow]

def ColumnData.withElems (d : ColumnData) (es : List Bytes) : ColumnData :=
  { d with setElemLengths := lengthsOf es, setElemData := es.flatten }

lemma elemStart_withSets {rows : List (List Bytes)} (hlen : ∀ b ∈ rows.flatten, b.length < 2 ^ 16)
    (k : ℕ) : (base.withSets rows).elemStart k = (rows.flatten.take k).flatten.length := by
  rw [elemStart_of_lengths hlen rfl, List.length_flatten]

lemma selectElems_spec {rows : List (List Bytes)} (hlen : ∀ b ∈ rows.flatten, b.length < 2 ^ 16)
    (hsum : rows.flatten.length < 2 ^ 32)
    (hstart : ∀ k < rows.flatten.length, (rows.flatten.take k).flatten.length < 2 ^ 32) (off : ℕ)
    (es : List ℕ) (hes : ∀ e ∈ es, off + e < rows.flatten.length) (d : ColumnData)
    (done : List Bytes) :
    selectElems (base.withSets rows) off es (d.withElems done) =
      some (d.withElems (done ++ es.map fun e => rows.flatten.getD (off + e) [])) := by
  induction es generalizing done with
  | nil => simp [selectElems]
  | cons e es ih =>
    have hk : off + e < rows.flatten.length := hes e List.mem_cons_self
    have hrow : rows.flatten[off + e]? = some rows.flatten[off + e] := List.getElem?_eq_getElem hk
    obtain ⟨hslice, hle⟩ := slice_row hrow
    have hlens : (base.withSets rows).setElemLengths[off + e]? =
        some (UInt16.ofNat rows.flatten[off + e].length) := by
      simp only [ColumnData.withSets, lengthsOf, List.getElem?_map, hrow, Option.map_some]
    have hstr : slice (base.withSets rows).setElemData ((base.withSets rows).elemByteOff (off + e))
        (UInt16.ofNat rows.flatten[off + e].length).toNat = some rows.flatten[off + e] := by
      rw [ColumnData.elemByteOff, elemStart_withSets base hlen, Nat.mod_eq_of_lt (hstart _ hk),
        toNat_ofNat16 (hlen _ (List.getElem_mem hk))]
      exact (slice_eq_some hle).trans (congrArg some hslice)
    have hnext : { d.withElems done with
        setElemLengths := (d.withElems done).setElemLengths ++
          [UInt16.ofNat rows.flatten[off + e].length],
        setElemData := (d.withElems done).setElemData ++ rows.flatten[off + e] } =
        d.withElems (done ++ [rows.flatten[off + e]]) := by
      simp only [ColumnData.withElems, lengthsOf_concat, List.flatten_append, List.flatten_singleton]
    rw [selectElems, Nat.mod_eq_of_lt (by omega), hlens]
    simp only [Option.bind_eq_bind, Option.bind_some]
    rw [hstr, Option.bind_some, hnext, ih (fun f hf => hes f (List.mem_cons_of_mem _ hf))]
    simp [List.getD_eq_getElem?_getD, hrow]

lemma selectSets_spec {rows : List (List Bytes)} (hcount : ∀ es ∈ rows, es.length < 2 ^ 8)
    (hlen : ∀ b ∈ rows.flatten, b.length < 2 ^ 16) (hsum : rows.flatten.length < 2 ^ 32)
    (hstart : ∀ k < rows.flatten.length, (rows.flatten.take k).flatten.length < 2 ^ 32)
    (hidx : ∀ i ∈ idx, i < rows.length) (acc : List (List Bytes)) :
    selectSets (base.withSets rows) idx (base'.withSets acc) =
      some (base'.withSets (acc ++ idx.map fun i => rows.getD i [])) := by
  induction idx generalizing acc with
  | nil => simp [selectSets]
  | cons i is ih =>
    have hi : i < rows.length := hidx i List.mem_cons_self
    have hrow : rows[i]? = some rows[i] := List.getElem?_eq_getElem hi
    obtain ⟨hslice, hle⟩ := slice_row hrow
    have hcounts : (base.withSets rows).setCounts[i]? = some (UInt8.ofNat rows[i].length) := by
      simp [ColumnData.withSets, hrow]
    have hoffs : (base.withSets rows).setOffsets[i]? =
        some (UInt32.ofNat (rows.take i).flatten.length) := getElem?_offsetsOf hi
    set off := (rows.take i).flatten.length with hoff
    -- The elements of the row are those behind all earlier ones.
    have hcopy : (List.range rows[i].length).map (fun e => rows.flatten.getD (off + e) []) = rows[i] := by
      refine List.ext_getElem (by simp) fun e h₁ h₂ => ?_
      have he := congrArg (·[e]?) hslice
      simp only [List.getElem?_take_of_lt h₂, List.getElem?_drop] at he
      rw [List.getElem_map, List.getElem_range, List.getD_eq_getElem?_getD, he,
        List.getElem?_eq_getElem h₂]
      rfl
    have hnext : ({ base'.withSets acc with
        setCounts := (base'.withSets acc).setCounts ++ [UInt8.ofNat rows[i].length],
        setOffsets := (base'.withSets acc).setOffsets ++
          [UInt32.ofNat (base'.withSets acc).setElemLengths.length] } : ColumnData).withElems
          (acc.flatten ++ rows[i]) = base'.withSets (acc ++ [rows[i]]) := by
      simp only [ColumnData.withElems, ColumnData.withSets, offsetsOf_concat, List.map_append,
        List.map_singleton, List.flatten_append, List.flatten_singleton, lengthsOf, List.length_map]
    have helems : selectElems (base.withSets rows) off (List.range rows[i].length)
        { base'.withSets acc with
          setCounts := (base'.withSets acc).setCounts ++ [UInt8.ofNat rows[i].length],
          setOffsets := (base'.withSets acc).setOffsets ++
            [UInt32.ofNat (base'.withSets acc).setElemLengths.length] } =
        some (base'.withSets (acc ++ [rows[i]])) := by
      rw [← hnext]
      have := selectElems_spec base hlen hsum hstart off (List.range rows[i].length) (fun e he => by
          have := List.mem_range.mp he
          omega)
        { base'.withSets acc with
          setCounts := (base'.withSets acc).setCounts ++ [UInt8.ofNat rows[i].length],
          setOffsets := (base'.withSets acc).setOffsets ++
            [UInt32.ofNat (base'.withSets acc).setElemLengths.length] } acc.flatten
      rwa [hcopy] at this
    rw [selectSets, hcounts, hoffs]
    simp only [Option.bind_eq_bind, Option.bind_some]
    rw [toNat_ofNat8 (hcount _ (List.getElem_mem hi)), toNat_ofNat32 (by omega), helems]
    rw [Option.bind_some, ih (fun j hj => hidx j (List.mem_cons_of_mem _ hj))]
    simp [List.getD_eq_getElem?_getD, hrow]

end Loops

end SextantTree.ColumnBytes
