import SextantTree.FilterData

/-!
What of a table comes back from its `.fdat` file. Every read finds what has been written as long as
the rows are counted right and nothing is counted past 32 bits; the flags of the schema are not in
the file.
-/

namespace SextantTree.FilterData

open FilterHash ByteMem ColumnBytes Reader

/-! ### Reads of what is there -/

lemma reads_get {b : Bytes} {n : ℕ} (h : b.length = n) : Reads (get n) b b := by
  intro rest
  subst h
  simp [get]

lemma reads_num {w n : ℕ} (h : n < 256 ^ w) : Reads (num w) (leBytes w n) n := by
  have := (reads_get (length_leBytes w n)).bind_pure (f := leNat)
  rwa [leNat_leBytes h] at this

lemma reads_u32 (x : UInt32) : Reads u32 (leBytes 4 x.toNat) x := by
  have := (reads_num (w := 4) x.toNat_lt).bind_pure (f := UInt32.ofNat)
  rwa [UInt32.ofNat_toNat] at this

lemma reads_u16 (x : UInt16) : Reads u16 (leBytes 2 x.toNat) x := by
  have := (reads_num (w := 2) x.toNat_lt).bind_pure (f := UInt16.ofNat)
  rwa [UInt16.ofNat_toNat] at this

lemma reads_u32s {xs : List UInt32} {n : ℕ} (h : xs.length = n) :
    Reads (many u32 n) (xs.flatMap fun x => leBytes 4 x.toNat) xs :=
  h ▸ reads_many xs fun x _ => reads_u32 x

lemma reads_u16s {xs : List UInt16} {n : ℕ} (h : xs.length = n) :
    Reads (many u16 n) (xs.flatMap fun x => leBytes 2 x.toNat) xs :=
  h ▸ reads_many xs fun x _ => reads_u16 x

lemma reads_type (t : ColumnType) : Reads readType [UInt8.ofNat (typeCode t)] t := by
  have hcode : typeCode t < 256 ^ 1 := by cases t <;> decide
  refine (reads_num hcode).bind ?_
  cases t <;> exact reads_pure _

lemma reads_name (col : FileColumn) :
    Reads readName (nameBytes col) (col.name.take (col.name.length % 2 ^ 16)) := by
  have hlen : col.name.length % 2 ^ 16 ≤ col.name.length := Nat.mod_le _ _
  have hword : col.name.length % 2 ^ 16 < 256 ^ 2 := Nat.mod_lt _ (by decide)
  exact (reads_num hword).bind (reads_get (by rw [List.length_take]; omega))

/-! ### Header -/

def headerOf (s : FileSchema) (cols : List ColumnData) : Header :=
  ⟨rowCount s cols, s.columns.map FileColumn.type,
    s.columns.map fun col => col.name.take (col.name.length % 2 ^ 16)⟩

lemma reads_header (path : String) {s : FileSchema} {cols : List ColumnData}
    (hcols : s.columns.length < 2 ^ 32) (hrows : rowCount s cols < 2 ^ 64) :
    Reads (readHeader path) (headerBytes s cols) (headerOf s cols) := by
  have htypes : Reads (many readType s.columns.length)
      (s.columns.flatMap fun col => [UInt8.ofNat (typeCode col.type)])
      (s.columns.map FileColumn.type) :=
    reads_many_map s.columns fun col _ => reads_type col.type
  have hnames := reads_many_map s.columns fun col _ => reads_name col
  have hmagic : Reads (num 4) (leBytes 4 kFilterDataMagic) kFilterDataMagic := reads_num (by decide)
  have hcount : Reads (num 8) (leBytes 8 (rowCount s cols)) (rowCount s cols) := reads_num hrows
  have hwidth : Reads (num 4) (leBytes 4 (s.columns.length % 2 ^ 32)) s.columns.length := by
    rw [Nat.mod_eq_of_lt hcols]
    exact reads_num hcols
  rw [← List.map_eq_flatMap] at htypes
  have h := hmagic.bind (f := fun magic => if magic ≠ kFilterDataMagic then
      fail (.thrown ("Bad filter data magic in " ++ path))
    else do
      let nRows ← num 8
      let nCols ← num 4
      let types ← many readType nCols
      let names ← many readName nCols
      pure (Header.mk nRows types names))
    (hcount.bind (hwidth.bind (htypes.bind (hnames.bind_pure (f := Header.mk _ _)))))
  rw [headerBytes, List.append_assoc, List.append_assoc, List.append_assoc]
  exact h

/-! ### Payloads -/

lemma reads_payload {n : ℕ} {data : Bytes} {offsets : List UInt32} (hlen : offsets.length = n + 1)
    (hlast : (offsets.getLastD 0).toNat = data.length) (hdata : data ≠ []) :
    Reads (readPayload n) (payloadBytes data offsets) (true, offsets, data) := by
  have hflag : Reads (num 1) [1] 1 := reads_num (w := 1) (n := 1) (by decide)
  rw [payloadBytes, if_neg (by simpa using hdata), List.cons_append]
  unfold readPayload
  refine hflag.bind ?_
  rw [if_neg one_ne_zero]
  refine (reads_u32s hlen).bind ?_
  exact (reads_get hlast.symm).bind_pure

lemma reads_no_payload (n : ℕ) (offsets : List UInt32) :
    Reads (readPayload n) (payloadBytes [] offsets) (false, [], []) := by
  have hflag : Reads (num 1) [0] 0 := reads_num (w := 1) (n := 0) (by decide)
  have hread : Reads (readPayload n) ([0] ++ []) (false, [], []) := by
    unfold readPayload
    refine hflag.bind ?_
    exact reads_pure _
  exact hread

/-! ### Columns -/

section Columns

variable {n : ℕ} (base : ColumnData)

lemma size_of_strings {rows : List Bytes} (hlen : ∀ b ∈ rows, b.length < 2 ^ 16)
    (hstarts : ∀ i < rows.length, (rows.take i).flatten.length < 2 ^ 32) (hpos : 0 < rows.length) :
    ((offsetsOf rows).getLastD 0).toNat + ((lengthsOf rows).getLastD 0).toNat =
      rows.flatten.length := by
  obtain ⟨init, last, rfl⟩ : ∃ init last, rows = init ++ [last] :=
    ⟨rows.dropLast, rows.getLast (List.ne_nil_of_length_pos hpos),
      (List.dropLast_append_getLast _).symm⟩
  have hstart := hstarts init.length (by simp)
  rw [List.take_left] at hstart
  rw [offsetsOf_concat, lengthsOf, List.map_append, List.map_singleton, List.getLastD_concat,
    List.getLastD_concat, toNat_ofNat32 hstart,
    toNat_ofNat16 (hlen last (List.mem_append_right _ (List.mem_singleton_self last)))]
  simp

lemma get_take {b : Bytes} {k : ℕ} (hk : k ≤ b.length) (rest : Bytes) :
    get k (b ++ rest) = .ok (b.take k, b.drop k ++ rest) := by
  rw [get, List.take_append_of_le_length hk, List.drop_append_of_le_length hk,
    Nat.sub_eq_zero_of_le (by rw [List.length_append]; omega)]
  simp

lemma readStrings_eq {rows : List Bytes} (hlen : ∀ b ∈ rows, b.length < 2 ^ 16)
    (hstarts : ∀ i < rows.length, (rows.take i).flatten.length < 2 ^ 32) (hrows : rows.length = n)
    (htype : base.type = .string) (rest : Bytes) :
    readStrings n (columnBytes (base.withStrings rows) ++ rest) =
      .ok ({ ({ type := .string } : ColumnData).withStrings rows with
          strData := rows.flatten.take (rows.flatten.length % 2 ^ 32) },
        rows.flatten.drop (rows.flatten.length % 2 ^ 32) ++ rest) := by
  have hoffsets : (offsetsOf rows).length = n := by rw [length_offsetsOf, hrows]
  have hlengths : (lengthsOf rows).length = n := by rw [lengthsOf, List.length_map, hrows]
  have hsize : (if 0 < n then (((offsetsOf rows).getLastD 0).toNat +
      ((lengthsOf rows).getLastD 0).toNat) % 2 ^ 32 else 0) = rows.flatten.length % 2 ^ 32 := by
    split_ifs with hpos
    · rw [size_of_strings hlen hstarts (hrows ▸ hpos)]
    · rw [List.length_eq_zero_iff.1 (hrows.trans (by omega))]
      rfl
  have hbytes : columnBytes (base.withStrings rows) = ((offsetsOf rows).flatMap fun o =>
      leBytes 4 o.toNat) ++ ((lengthsOf rows).flatMap fun l => leBytes 2 l.toNat) ++ rows.flatten := by
    rw [columnBytes, show (base.withStrings rows).type = .string from htype]
    rfl
  rw [hbytes, List.append_assoc, List.append_assoc]
  unfold readStrings
  rw [bind_of_ok (reads_u32s hoffsets _), bind_of_ok (reads_u16s hlengths _)]
  dsimp only
  rw [hsize, bind_of_ok (get_take (Nat.mod_le _ _) rest)]
  rfl

lemma map_toNat_lengthsOf {rows : List Bytes} (hlen : ∀ b ∈ rows, b.length < 2 ^ 16) :
    ((lengthsOf rows).map UInt16.toNat).sum = rows.flatten.length := by
  rw [lengthsOf, List.map_map, List.length_flatten]
  refine congrArg List.sum (List.map_congr_left fun b hb => ?_)
  exact toNat_ofNat16 (hlen b hb)

lemma map_toNat_countsOf {sets : List (List Bytes)} (hcount : ∀ es ∈ sets, es.length < 2 ^ 8) :
    ((sets.map fun es => UInt8.ofNat es.length).map UInt8.toNat).sum = sets.flatten.length := by
  rw [List.map_map, List.length_flatten]
  refine congrArg List.sum (List.map_congr_left fun es hes => ?_)
  exact toNat_ofNat8 (hcount es hes)

lemma columnBytes_withSets (htype : base.type = .set) (sets : List (List Bytes)) :
    columnBytes (base.withSets sets) = (sets.map fun es => UInt8.ofNat es.length) ++
      ((offsetsOf sets).flatMap fun o => leBytes 4 o.toNat) ++
      ((lengthsOf sets.flatten).flatMap fun l => leBytes 2 l.toNat) ++ sets.flatten.flatten := by
  rw [columnBytes, show (base.withSets sets).type = .set from htype]
  rfl

lemma readSets_eq {sets : List (List Bytes)} (hcount : ∀ es ∈ sets, es.length < 2 ^ 8)
    (hlen : ∀ b ∈ sets.flatten, b.length < 2 ^ 16) (hrows : sets.length = n) (hn : n < 2 ^ 32)
    (helems : sets.flatten.length < 2 ^ 31) (htype : base.type = .set) (rest : Bytes) :
    readSets n (columnBytes (base.withSets sets) ++ rest) =
      .ok ({ ({ type := .set } : ColumnData).withSets sets with
          setElemData := sets.flatten.flatten.take (sets.flatten.flatten.length % 2 ^ 32) },
        sets.flatten.flatten.drop (sets.flatten.flatten.length % 2 ^ 32) ++ rest) := by
  have hcounts : (sets.map fun es => UInt8.ofNat es.length).length = n := by
    rw [List.length_map, hrows]
  have hoffsets : (offsetsOf sets).length = n := by rw [length_offsetsOf, hrows]
  have hlengths : (lengthsOf sets.flatten).length = sets.flatten.length := by
    rw [lengthsOf, List.length_map]
  have htotal : sets.flatten.length % 2 ^ 32 = sets.flatten.length := Nat.mod_eq_of_lt (by omega)
  have htwice : sets.flatten.length * 2 % 2 ^ 32 / 2 = sets.flatten.length := by omega
  rw [columnBytes_withSets base htype, List.append_assoc, List.append_assoc, List.append_assoc]
  unfold readSets
  rw [bind_of_ok (reads_get hcounts _), bind_of_ok (reads_u32s hoffsets _), if_neg (by omega)]
  dsimp only
  rw [map_toNat_countsOf hcount, htotal, htwice, bind_of_ok (reads_u16s hlengths _), hlengths,
    Nat.sub_self, List.replicate_zero, List.append_nil, map_toNat_lengthsOf hlen,
    bind_of_ok (get_take (Nat.mod_le _ _) rest)]
  rfl

lemma readSets_endless {sets : List (List Bytes)} (hrows : sets.length = n) (hn : 2 ^ 32 ≤ n)
    (htype : base.type = .set) (rest : Bytes) :
    readSets n (columnBytes (base.withSets sets) ++ rest) = .error .endless := by
  have hcounts : (sets.map fun es => UInt8.ofNat es.length).length = n := by
    rw [List.length_map, hrows]
  have hoffsets : (offsetsOf sets).length = n := by rw [length_offsetsOf, hrows]
  rw [columnBytes_withSets base htype, List.append_assoc, List.append_assoc, List.append_assoc]
  unfold readSets
  rw [bind_of_ok (reads_get hcounts _), bind_of_ok (reads_u32s hoffsets _), if_pos hn]
  rfl

end Columns

/-! ### Cells -/

namespace RowColumn

variable {n : ℕ} {c : RowColumn n}

/-- What the file can say of a column: the name has a 16-bit length, no cell may be NULL, and what
the reader counts in 32 bits fits. -/
structure Intact (c : RowColumn n) : Prop where
  name_lt : c.name.length < 2 ^ 16
  not_nullable : c.nullable = false
  strings : c.type = .string → c.strRows.flatten.length < 2 ^ 32
  sets : c.type = .set → n < 2 ^ 32 ∧ c.setRows.flatten.flatten.length < 2 ^ 32

/-- The bytes of the lengths of the elements are more than 32 bits count. -/
def Overlong (c : RowColumn n) : Prop := c.type = .set ∧ 2 ^ 31 ≤ c.setRows.flatten.length

/-- The arrays of a column without the mask. -/
def bare (c : RowColumn n) : ColumnData :=
  match c.type with
  | .string => ({ type := .string } : ColumnData).withStrings c.strRows
  | .set => ({ type := .set } : ColumnData).withSets c.setRows
  | t => ({ type := t } : ColumnData).withFixed c.fixedRows

lemma length_strRows (c : RowColumn n) : c.strRows.length = n := by
  rw [strRows, List.length_map, c.length_eq]

lemma length_setRows (c : RowColumn n) : c.setRows.length = n := by
  rw [setRows, List.length_map, c.length_eq]

lemma length_fixedRows (c : RowColumn n) : c.fixedRows.length = n := by
  rw [fixedRows, List.length_map, c.length_eq]

lemma strRows_lt (c : RowColumn n) : ∀ b ∈ c.strRows, b.length < 2 ^ 16 := by
  intro b hb
  obtain ⟨v, hv, rfl⟩ := List.mem_map.1 hb
  rcases v with - | ⟨b | b | es⟩
  · exact Nat.two_pow_pos _
  · exact Nat.two_pow_pos _
  · exact (c.fits _ hv).2
  · exact Nat.two_pow_pos _

lemma setRows_lt (c : RowColumn n) :
    (∀ es ∈ c.setRows, es.length < 2 ^ 8) ∧ ∀ b ∈ c.setRows.flatten, b.length < 2 ^ 16 := by
  have hrow : ∀ es ∈ c.setRows, es.length < 2 ^ 8 ∧ ∀ b ∈ es, b.length < 2 ^ 16 := by
    intro es hes
    obtain ⟨v, hv, rfl⟩ := List.mem_map.1 hes
    rcases v with - | ⟨b | b | es⟩
    · exact ⟨Nat.two_pow_pos _, fun b hb => absurd hb List.not_mem_nil⟩
    · exact ⟨Nat.two_pow_pos _, fun b hb => absurd hb List.not_mem_nil⟩
    · exact ⟨Nat.two_pow_pos _, fun b hb => absurd hb List.not_mem_nil⟩
    · exact (c.fits _ hv).2
  refine ⟨fun es hes => (hrow es hes).1, fun b hb => ?_⟩
  obtain ⟨es, hes, hb⟩ := List.mem_flatten.1 hb
  exact (hrow es hes).2 b hb

lemma fixedRows_length (c : RowColumn n) : ∀ b ∈ c.fixedRows, b.length = c.type.width := by
  intro b hb
  obtain ⟨v, hv, rfl⟩ := List.mem_map.1 hb
  rcases v with - | ⟨b | b | es⟩
  · exact List.length_replicate
  · exact (c.fits _ hv).2.2
  · exact List.length_replicate
  · exact List.length_replicate

lemma strRows_starts (c : RowColumn n) :
    ∀ i < c.strRows.length, (c.strRows.take i).flatten.length < 2 ^ 32 :=
  fun i hi => (c.starts i (hi.trans_eq c.length_strRows)).1

lemma setRows_sum (c : RowColumn n) (h : ¬ c.Overlong) (htype : c.type = .set) :
    c.setRows.flatten.length < 2 ^ 31 := by
  by_contra hlen
  exact h ⟨htype, not_lt.1 hlen⟩

lemma exists_value (hnull : c.nullable = false) {i : ℕ} (hi : i < n) :
    ∃ v, c.cells[i]? = some (some v) ∧ Fits c.type v := by
  obtain ⟨v, hv⟩ : ∃ v, c.cells[i]? = some v := ⟨_, List.getElem?_eq_getElem (hi.trans_eq c.length_eq.symm)⟩
  have hmem := List.mem_of_getElem? hv
  cases v with
  | none => exact absurd (c.nulls hmem) (by rw [hnull]; exact Bool.false_ne_true)
  | some v => exact ⟨v, hv, c.fits v hmem⟩

lemma cell_of_raw (hnull : c.nullable = false) {i : ℕ} (hi : i < n) {d : ColumnData}
    (h : ∀ v, c.cells[i]? = some (some v) → d.raw (filterColumn c.toFileColumn) i = some v) :
    d.cell (filterColumn c.toFileColumn) i = c.cells[i]? := by
  obtain ⟨v, hv, -⟩ := exists_value hnull hi
  have hflag : d.isNull (filterColumn c.toFileColumn) i = false := by
    rw [ColumnData.isNull, show (filterColumn c.toFileColumn).nullable = false from hnull,
      Bool.false_and, Bool.false_and]
  rw [ColumnData.cell, hflag, if_neg Bool.false_ne_true, h v hv, hv]
  rfl

lemma cell_bare (h : c.Intact) (hlong : ¬ c.Overlong) {i : ℕ} (hi : i < n) :
    c.bare.cell (filterColumn c.toFileColumn) i = c.cells[i]? := by
  refine cell_of_raw h.not_nullable hi fun v hv => ?_
  have hfit := c.fits v (List.mem_of_getElem? hv)
  cases v with
  | fixed b =>
    obtain ⟨hstring, hset, hwidth⟩ := hfit
    have hrow : c.fixedRows[i]? = some b := by
      rw [fixedRows, List.getElem?_map, hv]
      rfl
    have hbare : c.bare = ({ type := c.type } : ColumnData).withFixed c.fixedRows := by
      rw [bare]
      split <;> simp_all
    obtain ⟨hslice, hle⟩ := slice_row hrow
    rw [length_take_flatten c.fixedRows_length (by rw [c.length_fixedRows]; omega), hwidth]
      at hslice hle
    rw [raw_fixed hstring hset, hbare]
    exact congrArg (Option.map RawCell.fixed) ((slice_eq_some hle).trans (congrArg some hslice))
  | string b =>
    obtain ⟨htype, -⟩ := hfit
    have hrow : c.strRows[i]? = some b := by
      rw [strRows, List.getElem?_map, hv]
      rfl
    have hbare : c.bare = ({ type := .string } : ColumnData).withStrings c.strRows := by
      rw [bare, htype]
    obtain ⟨hstr, hle⟩ := str_withStrings { type := .string } c.strRows_lt (h.strings htype) hrow
    rw [hbare, raw_string htype hle, hstr]
  | set es =>
    obtain ⟨htype, -⟩ := hfit
    have hrow : c.setRows[i]? = some es := by
      rw [setRows, List.getElem?_map, hv]
      rfl
    have hbare : c.bare = ({ type := .set } : ColumnData).withSets c.setRows := by
      rw [bare, htype]
    obtain ⟨hcount, hlen⟩ := c.setRows_lt
    have hsum := (c.setRows_sum hlong htype).trans (show 2 ^ 31 < 2 ^ 32 by decide)
    have hin : ∀ e < (({ type := .set } : ColumnData).withSets c.setRows).setCount i, _ :=
      fun e he => by
        rw [setCount_withSets _ hcount hrow] at he
        have := (elem_withSets { type := .set } hlen (getElem?_flatten hrow he)).2
        rw [← setOff_withSets { type := .set } hsum hrow] at this
        exact this
    rw [hbare, raw_set htype hin, rowElems_withSets _ hcount hlen hsum hrow]

/-! ### A column from the stream -/

lemma toData_string (htype : c.type = .string) :
    c.toData = ColumnData.withStrings { type := .string, nullMask := c.toData.nullMask } c.strRows := by
  simp only [toData, htype]
  rfl

lemma toData_set (htype : c.type = .set) :
    c.toData = ColumnData.withSets { type := .set, nullMask := c.toData.nullMask } c.setRows := by
  simp only [toData, htype]
  rfl

lemma reads_fixed (hstring : c.type ≠ .string) (hset : c.type ≠ .set) :
    Reads (readColumn n c.type) (columnBytes c.toData) c.bare := by
  have hlen : c.fixedRows.flatten.length = n * c.type.width := by
    rw [← List.take_length (l := c.fixedRows), length_take_flatten c.fixedRows_length le_rfl,
      c.length_fixedRows]
  have hread : Reads (get (n * c.type.width)) c.fixedRows.flatten c.fixedRows.flatten :=
    reads_get hlen
  cases htype : c.type with
  | string => exact absurd htype hstring
  | set => exact absurd htype hset
  | _ =>
    simp only [toData, bare, htype, columnBytes, ColumnData.withFixed] at hread ⊢
    exact hread.bind_pure

lemma reads_column (h : c.Intact) (hlong : ¬ c.Overlong) :
    Reads (readColumn n c.type) (columnBytes c.toData) c.bare := by
  intro rest
  by_cases hstring : c.type = .string
  · have hread := readStrings_eq { type := .string, nullMask := c.toData.nullMask } c.strRows_lt
      c.strRows_starts c.length_strRows rfl rest
    rw [← toData_string hstring, Nat.mod_eq_of_lt (h.strings hstring), List.take_length,
      List.drop_length] at hread
    simp only [hstring, readColumn, bare]
    exact hread
  by_cases hset : c.type = .set
  · obtain ⟨hcount, hlen⟩ := c.setRows_lt
    obtain ⟨hn, hbytes⟩ := h.sets hset
    have hread := readSets_eq { type := .set, nullMask := c.toData.nullMask } hcount hlen
      c.length_setRows hn (c.setRows_sum hlong hset) rfl rest
    rw [← toData_set hset, Nat.mod_eq_of_lt hbytes, List.take_length, List.drop_length] at hread
    simp only [hset, readColumn, bare]
    exact hread
  · exact reads_fixed hstring hset rest

lemma raw_of_cell (hnull : c.nullable = false) {d : ColumnData} {i : ℕ} (hi : i < n)
    (hcell : d.cell (filterColumn c.toFileColumn) i = c.cells[i]?) :
    ∃ v, d.raw (filterColumn c.toFileColumn) i = some v := by
  obtain ⟨v, hv, -⟩ := exists_value hnull hi
  have hflag : d.isNull (filterColumn c.toFileColumn) i = false := by
    rw [ColumnData.isNull, show (filterColumn c.toFileColumn).nullable = false from hnull,
      Bool.false_and, Bool.false_and]
  rw [ColumnData.cell, hflag, if_neg Bool.false_ne_true, hv] at hcell
  obtain ⟨w, hw, -⟩ := Option.map_eq_some_iff.1 hcell
  exact ⟨w, hw⟩

lemma strings_of_cells (hstring : c.type = .string) (hnull : c.nullable = false)
    {rest rest' : Bytes} {d : ColumnData}
    (hread : readColumn n c.type (columnBytes c.toData ++ rest) = .ok (d, rest'))
    (hcells : ∀ i < n, d.cell (filterColumn c.toFileColumn) i = c.cells[i]?) :
    c.strRows.flatten.length < 2 ^ 32 := by
  by_contra hlong
  have hfound := readStrings_eq { type := .string, nullMask := c.toData.nullMask } c.strRows_lt
    c.strRows_starts c.length_strRows rfl rest
  rw [← toData_string hstring] at hfound
  rw [hstring] at hread
  obtain ⟨rfl, -⟩ := Prod.mk.inj (Except.ok.inj (hfound.symm.trans hread))
  obtain ⟨init, last, hrows⟩ : ∃ init last, c.strRows = init ++ [last] := by
    refine ⟨c.strRows.dropLast, c.strRows.getLast fun h => ?_, (List.dropLast_append_getLast _).symm⟩
    rw [h] at hlong
    exact hlong (Nat.two_pow_pos _)
  have hn : init.length + 1 = n := by rw [← c.length_strRows, hrows]; simp
  obtain ⟨v, hv⟩ := raw_of_cell hnull (show init.length < n by omega) (hcells _ (by omega))
  have hoff : ∀ data, ({ ({ type := .string } : ColumnData).withStrings c.strRows with
      strData := data } : ColumnData).strOff init.length = init.flatten.length := by
    intro data
    have hstart := c.strRows_starts init.length (by rw [c.length_strRows]; omega)
    rw [hrows, List.take_left] at hstart
    have hget : (offsetsOf c.strRows)[init.length]? = some (UInt32.ofNat init.flatten.length) := by
      rw [getElem?_offsetsOf (by rw [c.length_strRows]; omega), hrows, List.take_left]
    rw [ColumnData.strOff, List.getD_eq_getElem?_getD]
    simp only [ColumnData.withStrings, hget, Option.getD_some]
    exact toNat_ofNat32 hstart
  have hlast : ∀ data, ({ ({ type := .string } : ColumnData).withStrings c.strRows with
      strData := data } : ColumnData).strLen init.length = last.length := by
    intro data
    exact strLen_withStrings { type := .string } c.strRows_lt (by rw [hrows]; simp)
  simp only [ColumnData.raw, show (filterColumn c.toFileColumn).type = .string from hstring, hoff,
    hlast, slice] at hv
  split_ifs at hv with hle
  · have htotal : c.strRows.flatten.length = init.flatten.length + last.length := by
      rw [hrows]
      simp
    rw [List.length_take] at hle
    omega
  · cases hv

lemma exists_row {α : Type} (rows : List (List α)) {k : ℕ} (hk : k < rows.flatten.length) :
    ∃ i r e, rows[i]? = some r ∧ e < r.length ∧ k = (rows.take i).flatten.length + e := by
  induction rows generalizing k with
  | nil => simp at hk
  | cons r rows ih =>
    by_cases hfirst : k < r.length
    · exact ⟨0, r, k, rfl, hfirst, by simp⟩
    · rw [List.flatten_cons, List.length_append] at hk
      obtain ⟨i, r', e, hr', he, hke⟩ := ih (show k - r.length < rows.flatten.length by omega)
      refine ⟨i + 1, r', e, hr', he, ?_⟩
      rw [List.take_succ_cons, List.flatten_cons, List.length_append]
      omega

lemma sets_of_cells (hset : c.type = .set) (hnull : c.nullable = false) (hlong : ¬ c.Overlong)
    {rest rest' : Bytes} {d : ColumnData}
    (hread : readColumn n c.type (columnBytes c.toData ++ rest) = .ok (d, rest'))
    (hcells : ∀ i < n, d.cell (filterColumn c.toFileColumn) i = c.cells[i]?) :
    n < 2 ^ 32 ∧ c.setRows.flatten.flatten.length < 2 ^ 32 := by
  rw [toData_set hset, hset] at hread
  have hn : n < 2 ^ 32 := by
    by_contra hn
    have hend := readSets_endless { type := .set, nullMask := c.toData.nullMask } c.length_setRows
      (not_lt.1 hn) rfl rest
    exact absurd (hend.symm.trans hread) (by simp)
  refine ⟨hn, ?_⟩
  by_contra hbytes
  obtain ⟨hcount, hlen⟩ := c.setRows_lt
  have helems := c.setRows_sum hlong hset
  have hsum := helems.trans (show 2 ^ 31 < 2 ^ 32 by decide)
  have hfound := readSets_eq { type := .set, nullMask := c.toData.nullMask } hcount hlen
    c.length_setRows hn helems rfl rest
  obtain ⟨rfl, -⟩ := Prod.mk.inj (Except.ok.inj (hfound.symm.trans hread))
  -- the last element
  obtain ⟨k, hk⟩ : ∃ k, c.setRows.flatten.length = k + 1 := by
    refine ⟨c.setRows.flatten.length - 1, (Nat.sub_add_cancel ?_).symm⟩
    refine List.length_pos_iff.2 fun h => hbytes ?_
    rw [h]
    exact Nat.two_pow_pos _
  obtain ⟨i, es, e, hes, he, hke⟩ := exists_row c.setRows (show k < _ by omega)
  have hi : i < n := by
    rw [← c.length_setRows]
    exact (List.getElem?_eq_some_iff.1 hes).1
  obtain ⟨v, hv⟩ := raw_of_cell hnull hi (hcells i hi)
  obtain ⟨d, hd⟩ : ∃ d : ColumnData, d = { ({ type := .set } : ColumnData).withSets c.setRows with
      setElemData := c.setRows.flatten.flatten.take (c.setRows.flatten.flatten.length % 2 ^ 32) } :=
    ⟨_, rfl⟩
  rw [← hd] at hv
  have hdcount : d.setCount i = es.length := by
    rw [hd]
    exact setCount_withSets { type := .set } hcount hes
  have hdoff : d.setOff i = (c.setRows.take i).flatten.length := by
    rw [hd]
    exact setOff_withSets { type := .set } hsum hes
  have hend : d.elemStart k + d.elemLen k = c.setRows.flatten.flatten.length := by
    obtain ⟨b, hb⟩ : ∃ b, c.setRows.flatten[k]? = some b :=
      ⟨_, List.getElem?_eq_getElem (show k < c.setRows.flatten.length by omega)⟩
    have hstart : d.elemStart k = (c.setRows.flatten.take k).flatten.length := by
      rw [hd]
      exact elemStart_withSets { type := .set } hlen k
    have hlast : d.elemLen k = b.length := by
      rw [hd, ColumnData.elemLen, List.getD_eq_getElem?_getD]
      simp only [ColumnData.withSets, lengthsOf, List.getElem?_map, hb, Option.map_some,
        Option.getD_some]
      exact toNat_ofNat16 (hlen b (List.mem_of_getElem? hb))
    have hsplit : c.setRows.flatten = c.setRows.flatten.take k ++ [b] := by
      conv_lhs => rw [← List.take_length (l := c.setRows.flatten), hk, List.take_add_one, hb]
      rfl
    rw [hstart, hlast]
    conv_rhs => rw [hsplit]
    simp
  have hmissing : slice d.setElemData (d.elemStart (d.setOff i + e)) (d.elemLen (d.setOff i + e)) =
      none := by
    rw [hdoff, ← hke, slice, if_neg]
    rw [hend, hd, List.length_take]
    omega
  have hnone : d.raw (filterColumn c.toFileColumn) i = none := by
    have hmem : e ∈ List.range (d.setCount i) := List.mem_range.2 (hdcount.symm ▸ he)
    have helems : (List.range (d.setCount i)).mapM (fun e => slice d.setElemData
        (d.elemStart (d.setOff i + e)) (d.elemLen (d.setOff i + e))) = none :=
      mapM_eq_none hmem hmissing
    simp only [ColumnData.raw, show (filterColumn c.toFileColumn).type = .set from hset, helems]
    rfl
  rw [hnone] at hv
  cases hv

end RowColumn

/-! ### All columns -/

section AllColumns

variable {n : ℕ} {cs : List (RowColumn n)}

lemma reads_columns (h : ∀ c ∈ cs, c.Intact ∧ ¬ c.Overlong) :
    Reads (readColumns n (cs.map fun c => c.type)) ((cs.map RowColumn.toData).flatMap columnBytes)
      (cs.map RowColumn.bare) := by
  induction cs with
  | nil => exact reads_pure []
  | cons c cs ih =>
    obtain ⟨hc, hlong⟩ := h c List.mem_cons_self
    have htail := ih fun c' hc' => h c' (List.mem_cons_of_mem c hc')
    exact (RowColumn.reads_column hc hlong).bind (htail.bind_pure (f := fun ds => c.bare :: ds))

lemma columns_of_cells (hnull : ∀ c ∈ cs, c.nullable = false) (hname : ∀ c ∈ cs, c.name.length < 2 ^ 16)
    (hlong : ∀ c ∈ cs, ¬ c.Overlong) {rest rest' : Bytes} {ds : List ColumnData}
    (hread : readColumns n (cs.map fun c => c.type)
      ((cs.map RowColumn.toData).flatMap columnBytes ++ rest) = .ok (ds, rest'))
    (hcells : List.Forall₂ (fun (c : RowColumn n) d => ∀ i < n,
      d.cell (RowColumn.filterColumn c.toFileColumn) i = c.cells[i]?) cs ds) :
    ∀ c ∈ cs, c.Intact := by
  induction cs generalizing ds rest rest' with
  | nil => exact fun c hc => absurd hc List.not_mem_nil
  | cons c cs ih =>
    obtain ⟨d, mid, hd, hrest⟩ := exists_of_bind_ok hread
    obtain ⟨ds', last, hds, hpure⟩ := exists_of_bind_ok hrest
    obtain ⟨rfl, -⟩ := Prod.mk.inj (Except.ok.inj hpure)
    obtain ⟨hc, hcs⟩ := List.forall₂_cons.1 hcells
    rw [List.map_cons, List.flatMap_cons, List.append_assoc] at hd
    have hintact : c.Intact := by
      have hnull := hnull c List.mem_cons_self
      have hlong := hlong c List.mem_cons_self
      exact ⟨hname c List.mem_cons_self, hnull,
        fun hstring => RowColumn.strings_of_cells hstring hnull hd hc,
        fun hset => RowColumn.sets_of_cells hset hnull hlong hd hc⟩
    rw [RowColumn.reads_column hintact (hlong c List.mem_cons_self)] at hd
    obtain ⟨-, rfl⟩ := Prod.mk.inj (Except.ok.inj hd)
    have htail := ih (fun c' hc' => hnull c' (List.mem_cons_of_mem c hc'))
      (fun c' hc' => hname c' (List.mem_cons_of_mem c hc'))
      (fun c' hc' => hlong c' (List.mem_cons_of_mem c hc')) hds hcs
    intro c' hc'
    rcases List.mem_cons.1 hc' with rfl | hc'
    · exact hintact
    · exact htail c' hc'

end AllColumns

/-! ### The whole file -/

namespace Table

variable {t : Table}

structure Intact (t : Table) : Prop where
  columns_lt : t.columns.length < 2 ^ 32
  no_flag : t.hasPayload = false
  rows : t.n = 0 ∨ ∃ c, t.columns.head? = some c ∧ c.type ≠ .set
  column : ∀ c ∈ t.columns, c.Intact

lemma rowCount_eq (t : Table) : rowCount t.schema (t.columns.map RowColumn.toData) =
    if ∃ c, t.columns.head? = some c ∧ c.type ≠ .set then t.n else 0 := by
  rcases hcols : t.columns with - | ⟨c, cs⟩
  · rw [if_neg (by simp), rowCount, schema, hcols]
    rfl
  · have hcount : rowCount t.schema ((c :: cs).map RowColumn.toData) =
        match c.toData.type with
        | .string | .set => c.toData.strOffsets.length
        | ty => c.toData.fixedData.length / ty.width := by
      rw [rowCount, schema, hcols]
      rfl
    have hlen : c.fixedRows.flatten.length = t.n * c.type.width := by
      rw [← List.take_length (l := c.fixedRows), length_take_flatten c.fixedRows_length le_rfl,
        c.length_fixedRows]
    have hoffsets : (offsetsOf c.strRows).length = t.n := by
      rw [length_offsetsOf, c.length_strRows]
    rw [hcount]
    cases htype : c.type <;>
      simp_all [RowColumn.toData, ColumnData.withFixed, ColumnData.withStrings, ColumnData.withSets,
        ColumnType.width]

lemma rowCount_lt (t : Table) : rowCount t.schema (t.columns.map RowColumn.toData) < 2 ^ 64 := by
  rw [rowCount_eq]
  split_ifs
  · exact t.n_lt
  · exact Nat.two_pow_pos _

lemma payloadOffsets_get {ps : List Bytes} (hps : t.payloads = some ps) {i : ℕ} (hi : i ≤ t.n) :
    t.payloadOffsets[i]? = some (UInt32.ofNat (ps.take i).flatten.length) := by
  have hlen := t.payloads_length ps hps
  rw [payloadOffsets, hps, Option.map_some, Option.getD_some]
  rcases Nat.lt_or_eq_of_le hi with hlt | rfl
  · rw [List.getElem?_append_left (by rw [length_offsetsOf]; omega),
      getElem?_offsetsOf (by omega)]
  · rw [List.getElem?_append_right (by rw [length_offsetsOf]; omega), length_offsetsOf, hlen,
      Nat.sub_self, List.take_of_length_le hlen.le]
    rfl

/-- The parts of the payload that a reader with the right number of rows has. -/
def readPayloads (t : Table) : Bool × List UInt32 × Bytes :=
  if t.payloadData.isEmpty then (false, [], []) else (true, t.payloadOffsets, t.payloadData)

lemma reads_readPayloads (t : Table) :
    Reads (readPayload t.n) (payloadBytes t.payloadData t.payloadOffsets) t.readPayloads := by
  by_cases hdata : t.payloadData = []
  · rw [readPayloads, hdata]
    exact reads_no_payload t.n t.payloadOffsets
  · obtain ⟨ps, hps⟩ : ∃ ps, t.payloads = some ps := by
      refine Option.ne_none_iff_exists'.1 fun hnone => hdata ?_
      rw [payloadData, hnone]
      rfl
    have hlen := t.payloads_length ps hps
    have hoffsets : t.payloadOffsets = offsetsOf ps ++ [UInt32.ofNat ps.flatten.length] := by
      rw [payloadOffsets, hps]
      rfl
    have hbytes : t.payloadData = ps.flatten := by rw [payloadData, hps]; rfl
    rw [readPayloads, if_neg (by simpa using hdata)]
    refine reads_payload ?_ ?_ hdata
    · rw [hoffsets, List.length_append, length_offsetsOf, hlen, List.length_singleton]
    · rw [hoffsets, List.getLastD_concat, toNat_ofNat32 (t.payloads_lt ps hps), hbytes]

lemma payload_of_readPayloads {f : FilterDataFile}
    (hf : (f.hasPayload, f.payloadOffsets, f.payloadData) = t.readPayloads) {i : ℕ} (hi : i < t.n) :
    f.payload i = some ((t.payloads.getD []).getD i []) := by
  rcases hps : t.payloads with - | ps
  · have hdata : t.payloadData = [] := by rw [payloadData, hps]; rfl
    rw [readPayloads, hdata] at hf
    have hflag : f.hasPayload = false := congrArg Prod.fst hf
    rw [FilterDataFile.payload, hflag]
    rfl
  have hlen := t.payloads_length ps hps
  have hbytes : t.payloadData = ps.flatten := by rw [payloadData, hps]; rfl
  obtain ⟨b, hb⟩ : ∃ b, ps[i]? = some b := ⟨_, List.getElem?_eq_getElem (hi.trans_eq hlen.symm)⟩
  rw [Option.getD_some, List.getD_eq_getElem?_getD, hb, Option.getD_some]
  by_cases hdata : t.payloadData = []
  · have hempty : b = [] := by
      have hle := (slice_row hb).2
      rw [← hbytes, hdata, List.length_nil] at hle
      exact List.eq_nil_of_length_eq_zero (by omega)
    rw [readPayloads, hdata] at hf
    have hflag : f.hasPayload = false := congrArg Prod.fst hf
    rw [FilterDataFile.payload, hflag, hempty]
    rfl
  · rw [readPayloads, if_neg (by simpa using hdata)] at hf
    obtain ⟨hflag, hrest⟩ := Prod.mk.inj hf
    obtain ⟨hoffsets, hfound⟩ := Prod.mk.inj hrest
    obtain ⟨hslice, hle⟩ := slice_row hb
    have hfit := t.payloads_lt ps hps
    have hnext : (ps.take (i + 1)).flatten.length = (ps.take i).flatten.length + b.length := by
      rw [List.take_add_one, hb]
      simp
    rw [FilterDataFile.payload, hflag, hoffsets, payloadOffsets_get hps hi.le,
      payloadOffsets_get hps hi, hfound, hbytes]
    have hfirst := toNat_ofNat32 (show (ps.take i).flatten.length < 2 ^ 32 by omega)
    have hlast := toNat_ofNat32 (show (ps.take (i + 1)).flatten.length < 2 ^ 32 by omega)
    change slice _ (UInt32.ofNat _).toNat ((UInt32.ofNat _).toNat - (UInt32.ofNat _).toNat) = _
    rw [hfirst, hlast, hnext, Nat.add_sub_cancel_left, slice_eq_some hle, hslice]

lemma length_many {ε α : Type} {r : Reader ε α} {n : ℕ} {s rest : List UInt8} {as : List α}
    (h : many r n s = .ok (as, rest)) : as.length = n := by
  induction n generalizing s as rest with
  | zero =>
    obtain ⟨rfl, -⟩ := Prod.mk.inj (Except.ok.inj h)
    rfl
  | succ n ih =>
    obtain ⟨a, mid, -, h⟩ := exists_of_bind_ok h
    obtain ⟨as', last, has, h⟩ := exists_of_bind_ok h
    obtain ⟨rfl, -⟩ := Prod.mk.inj (Except.ok.inj h)
    rw [List.length_cons, ih has]

lemma length_of_says {path : String} {f : FilterDataFile} {rest : Bytes}
    (hread : (readHeader path >>= readBody) t.file = .ok (f, rest)) (hagree : Says t f) :
    t.columns.length < 2 ^ 32 := by
  obtain ⟨h, mid, hheader, hbody⟩ := exists_of_bind_ok hread
  obtain ⟨p, mid', -, hbody⟩ := exists_of_bind_ok hbody
  obtain ⟨ds, last, -, hbody⟩ := exists_of_bind_ok hbody
  obtain ⟨rfl, -⟩ := Prod.mk.inj (Except.ok.inj hbody)
  have hmagic : Reads (num 4) (leBytes 4 kFilterDataMagic) kFilterDataMagic := reads_num (by decide)
  have hcount : Reads (num 8) (leBytes 8 (rowCount t.schema (t.columns.map RowColumn.toData))) _ :=
    reads_num t.rowCount_lt
  have hwidth : Reads (num 4) (leBytes 4 (t.schema.columns.length % 2 ^ 32))
      (t.schema.columns.length % 2 ^ 32) := reads_num (Nat.mod_lt _ (by decide))
  rw [file, writeFilterData, headerBytes] at hheader
  simp only [List.append_assoc] at hheader
  unfold readHeader at hheader
  rw [bind_of_ok (hmagic _), if_neg (fun h => h rfl), bind_of_ok (hcount _),
    bind_of_ok (hwidth _)] at hheader
  obtain ⟨types, mid₁, htypes, hheader⟩ := exists_of_bind_ok hheader
  obtain ⟨names, mid₂, hnames, hheader⟩ := exists_of_bind_ok hheader
  obtain ⟨rfl, -⟩ := Prod.mk.inj (Except.ok.inj hheader)
  have hlen := congrArg (fun s => s.columns.length) hagree.schema
  simp only [List.length_zipWith, length_many htypes, length_many hnames, Nat.min_self] at hlen
  have hwrap : t.schema.columns.length < 2 ^ 32 := hlen ▸ Nat.mod_lt _ (by decide)
  rwa [schema, List.length_map] at hwrap

lemma schema_of_intact (h : t.Intact) :
    List.zipWith (fun name type => FileColumn.mk name type false)
      (t.schema.columns.map fun col => col.name.take (col.name.length % 2 ^ 16))
      (t.schema.columns.map FileColumn.type) = t.schema.columns := by
  rw [List.zipWith_map, List.zipWith_self]
  refine (List.map_congr_left fun col hcol => ?_).trans (List.map_id _)
  obtain ⟨c, hc, rfl⟩ := List.mem_map.1 hcol
  have hintact := h.column c hc
  rw [Nat.mod_eq_of_lt hintact.name_lt, List.take_length, ← hintact.not_nullable]
  rfl

/-- The stream behind the header, where all columns are written. -/
def body (t : Table) : Bytes :=
  payloadBytes t.payloadData t.payloadOffsets ++
    (t.columns.map RowColumn.toData).flatMap columnBytes

lemma file_eq (hcols : t.columns.length < 2 ^ 32) :
    t.file = headerBytes t.schema (t.columns.map RowColumn.toData) ++ t.body := by
  have htake : (t.columns.map RowColumn.toData).take (t.schema.columns.length % 2 ^ 32) =
      t.columns.map RowColumn.toData := by
    rw [schema, List.length_map, Nat.mod_eq_of_lt hcols]
    exact List.take_of_length_le (by rw [List.length_map])
  rw [file, writeFilterData, htake, List.append_assoc, body]

lemma headerOf_eq (hrows : rowCount t.schema (t.columns.map RowColumn.toData) = t.n) :
    headerOf t.schema (t.columns.map RowColumn.toData) = ⟨t.n, t.columns.map fun c => c.type,
      t.schema.columns.map fun col => col.name.take (col.name.length % 2 ^ 16)⟩ := by
  rw [headerOf, hrows, schema, List.map_map]
  rfl

def copy (t : Table) : FilterDataFile :=
  { schema := t.schema, cols := t.columns.map RowColumn.bare, payloadData := t.readPayloads.2.2
    payloadOffsets := t.readPayloads.2.1, nRows := t.n, hasPayload := t.readPayloads.1 }

lemma reads_body (h : t.Intact) (hlong : ∀ c ∈ t.columns, ¬ c.Overlong) :
    Reads (readBody ⟨t.n, t.columns.map fun c => c.type,
        t.schema.columns.map fun col => col.name.take (col.name.length % 2 ^ 16)⟩) t.body t.copy := by
  have hflag : FileSchema.mk t.schema.columns false = t.schema := by rw [schema, h.no_flag]
  have htypes : (t.columns.map fun c => c.type) = t.schema.columns.map FileColumn.type := by
    rw [schema, List.map_map]
    rfl
  have hschema := schema_of_intact h
  rw [← htypes] at hschema
  have hcols := reads_columns fun c hc => ⟨h.column c hc, hlong c hc⟩
  unfold readBody
  refine (reads_readPayloads t).bind ?_
  dsimp only
  rw [hschema, hflag]
  exact hcols.bind_pure (f := fun cols => FilterDataFile.mk t.schema cols t.readPayloads.2.2
    t.readPayloads.2.1 t.n t.readPayloads.1)

lemma says_copy (h : t.Intact) (hlong : ∀ c ∈ t.columns, ¬ c.Overlong) : Says t t.copy where
  rows := rfl
  schema := rfl
  cells := List.forall₂_map_right_iff.2 (List.forall₂_same.2 fun c hc _ hi =>
    RowColumn.cell_bare (h.column c hc) (hlong c hc) hi)
  payload := fun _ hi => payload_of_readPayloads rfl hi

lemma roundTrips_of_intact (h : t.Intact) (hlong : ∀ c ∈ t.columns, ¬ c.Overlong) (path : String) :
    t.RoundTrips path := by
  have hrows : rowCount t.schema (t.columns.map RowColumn.toData) = t.n := by
    rw [rowCount_eq]
    split_ifs with hfirst
    · rfl
    · exact (h.rows.resolve_right hfirst).symm
  have hcols : t.schema.columns.length < 2 ^ 32 := by
    rw [schema, List.length_map]
    exact h.columns_lt
  have hheader := reads_header path hcols t.rowCount_lt
  rw [headerOf_eq hrows] at hheader
  have hall : Reads (readHeader path >>= readBody)
      (headerBytes t.schema (t.columns.map RowColumn.toData) ++ t.body) t.copy :=
    hheader.bind (reads_body h hlong)
  have hread : (readHeader path >>= readBody) t.file = .ok (t.copy, []) := by
    rw [file_eq h.columns_lt]
    exact hall.all
  have hfile : readFilterData path t.file = .ok t.copy := by
    rw [readFilterData, hread]
    rfl
  exact ⟨t.copy, hfile, says_copy h hlong⟩

lemma exists_of_readFilterData {path : String} {bytes : Bytes} {f : FilterDataFile}
    (h : readFilterData path bytes = .ok f) :
    ∃ rest, (readHeader path >>= readBody) bytes = .ok (f, rest) := by
  rw [readFilterData] at h
  cases hx : (readHeader path >>= readBody) bytes with
  | error e =>
    rw [hx] at h
    cases h
  | ok x =>
    rw [hx] at h
    exact ⟨x.2, congrArg Except.ok (Prod.ext (Except.ok.inj h) rfl)⟩

lemma intact_of_roundTrips {path : String} (h : t.RoundTrips path)
    (hlong : ∀ c ∈ t.columns, ¬ c.Overlong) : t.Intact := by
  obtain ⟨f, hfile, hagree⟩ := h
  obtain ⟨rest, hread⟩ := exists_of_readFilterData hfile
  have hcols := length_of_says hread hagree
  have hcols' : t.schema.columns.length < 2 ^ 32 := by rwa [schema, List.length_map]
  have hheader := reads_header path hcols' t.rowCount_lt t.body
  have hbind : (readHeader path >>= readBody)
      (headerBytes t.schema (t.columns.map RowColumn.toData) ++ t.body) =
        readBody (headerOf t.schema (t.columns.map RowColumn.toData)) t.body := bind_of_ok hheader
  rw [file_eq hcols, hbind] at hread
  obtain ⟨p, mid, hpayload, hrest⟩ := exists_of_bind_ok hread
  obtain ⟨ds, last, hds, hpure⟩ := exists_of_bind_ok hrest
  obtain ⟨rfl, -⟩ := Prod.mk.inj (Except.ok.inj hpure)
  have hrows : rowCount t.schema (t.columns.map RowColumn.toData) = t.n := hagree.rows
  rw [headerOf_eq hrows] at hpayload hds
  have hfound : readPayload t.n t.body = .ok (t.readPayloads,
      (t.columns.map RowColumn.toData).flatMap columnBytes) := reads_readPayloads t _
  obtain ⟨-, rfl⟩ := Prod.mk.inj (Except.ok.inj (hfound.symm.trans hpayload))
  have hschema : t.schema.columns.map (fun col =>
      FileColumn.mk (col.name.take (col.name.length % 2 ^ 16)) col.type false) =
        t.schema.columns.map id := by
    have h := congrArg FileSchema.columns hagree.schema
    rw [List.map_id]
    refine Eq.trans ?_ h
    dsimp only [headerOf]
    rw [List.zipWith_map, List.zipWith_self]
  have hcolumn : ∀ c ∈ t.columns, c.nullable = false ∧ c.name.length < 2 ^ 16 := by
    intro c hc
    have hsame := List.map_inj_left.1 hschema c.toFileColumn (List.mem_map_of_mem hc)
    have hname := congrArg (fun col => col.name.length) hsame
    simp only [List.length_take, id] at hname
    have hlt := Nat.mod_lt c.name.length (show 0 < 2 ^ 16 by decide)
    exact ⟨(congrArg FileColumn.nullable hsame).symm, by omega⟩
  have hcells := hagree.cells
  rw [← List.append_nil ((t.columns.map RowColumn.toData).flatMap columnBytes)] at hds
  refine ⟨hcols, (congrArg FileSchema.hasPayload hagree.schema).symm, ?_, ?_⟩
  · by_contra hnone
    rw [not_or] at hnone
    rw [rowCount_eq, if_neg hnone.2] at hrows
    exact hnone.1 hrows.symm
  · exact columns_of_cells (fun c hc => (hcolumn c hc).1) (fun c hc => (hcolumn c hc).2) hlong hds hcells

/-- A Set column has more elements than the reader counts the lengths of. -/
def Overlong (t : Table) : Prop := ∃ c ∈ t.columns, c.Overlong

/-- **A filter data file comes back** if the schema has no flag, the first column counts the rows, and
names and sizes fit their fields; and only then, where no Set column is overlong. -/
theorem filter_data_round_trip (t : Table) (path : String) :
    (t.Intact ∧ ¬ t.Overlong → t.RoundTrips path) ∧ (t.RoundTrips path → t.Intact ∨ t.Overlong) := by
  refine ⟨fun h => ?_, fun h => ?_⟩
  · exact roundTrips_of_intact h.1 (fun c hc hlong => h.2 ⟨c, hc, hlong⟩) path
  · by_cases hlong : t.Overlong
    · exact Or.inr hlong
    · exact Or.inl (intact_of_roundTrips h fun c hc hlong' => hlong ⟨c, hc, hlong'⟩)

def nullTable : Table :=
  { n := 1
    n_lt := by decide
    columns := [{ name := [97], type := .int32, nullable := true, cells := [none]
                  length_eq := rfl
                  fits := fun v hv => by simp at hv
                  nulls := fun _ => rfl
                  starts := by decide }]
    payloads_length := fun ps hps => by simp at hps
    payloads_lt := fun ps hps => by simp at hps }

/-- The NULL is read as a zero. -/
theorem null_table_lost : ¬ nullTable.RoundTrips "rows.fdat" := by
  rintro ⟨f, hread, hagree⟩
  have hschema : (readFilterData "rows.fdat" nullTable.file).map FilterDataFile.schema =
      .ok ⟨[⟨[97], .int32, false⟩], false⟩ := by rfl
  rw [hread] at hschema
  have hsame := hagree.schema.symm.trans (Except.ok.inj hschema)
  exact absurd hsame (by decide)

end Table

end SextantTree.FilterData
