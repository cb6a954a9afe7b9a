import SextantTree.LeafSpec
import SextantTree.OpenRoute

/-!
The size of a leaf after an insert. `insert_batch` does not compute the size of the new filter
columns: it takes the old region up to the end of its last page and adds the widths of the new
rows. Null masks and padding are not counted, and the unused tail of the old extent is. The pages
are right when the one makes up for the other up to the page that is written last.
-/

namespace SextantTree

open Pages FilterHash

variable {s : Schema}

/-! ### What the widths of rows leave out -/

/-- The bytes up to the next multiple of four. -/
def pad4 (n : ℕ) : ℕ := align4 n - n

/-- The padding inside a column: behind the lengths of strings, behind the counts of sets. -/
def innerPadding (col : FilterColumn) (count : ℕ) : ℕ :=
  match col.type with
  | .string => pad4 (count * 6)
  | .set => pad4 count
  | _ => 0

def nullMaskBytes (col : FilterColumn) (count : ℕ) : ℕ := if col.nullable then count else 0

/-- The bytes of a column that are in the width of no row: padding and null mask. -/
def columnOverhead (col : FilterColumn) (cells : List (Option Cell)) : ℕ :=
  let extra := innerPadding col cells.length + nullMaskBytes col cells.length
  extra + pad4 ((cells.map (cellInsertBytes col)).sum + extra)

/-- The padding and the null masks of all columns. -/
def columnsOverhead (rs : List (FilterRow s)) : ℕ :=
  (s.columns.zipIdx.map fun x => columnOverhead x.1 (rs.map (·.get x.2))).sum

lemma sum_map_const_add {α : Type} (xs : List α) (c : ℕ) (f : α → ℕ) :
    (xs.map fun x => c + f x).sum = xs.length * c + (xs.map f).sum := by
  rw [List.sum_map_add, List.map_const', List.sum_replicate, smul_eq_mul]

lemma sum_cellInsertBytes (col : FilterColumn) (cells : List (Option Cell)) :
    (cells.map (cellInsertBytes col)).sum =
      match col.type with
      | .string => cells.length * 10 + (cells.map fun c => c.elim 0 Cell.dataBytes).sum
      | .set => cells.length * 5 + (cells.map fun c => c.elim 0 Cell.elements).sum * 4 +
          (cells.map fun c => c.elim 0 Cell.dataBytes).sum
      | t => cells.length * t.width := by
  unfold cellInsertBytes
  cases col.type with
  | string => exact sum_map_const_add cells 10 _
  | set =>
    rw [List.sum_map_add, sum_map_const_add cells 5 (fun c => c.elim 0 Cell.elements * 4),
      List.sum_map_mul_right]
  | int32 => simp only [List.map_const', List.sum_replicate, smul_eq_mul]
  | int64 => simp only [List.map_const', List.sum_replicate, smul_eq_mul]
  | float => simp only [List.map_const', List.sum_replicate, smul_eq_mul]
  | bool => simp only [List.map_const', List.sum_replicate, smul_eq_mul]

lemma dvd_columnEnd (col : FilterColumn) (cells : List (Option Cell)) (total : ℕ) :
    4 ∣ columnEnd col cells total := by
  rw [columnEnd, align4]
  exact Nat.dvd_mul_left 4 _

lemma columnEnd_eq {col : FilterColumn} {cells : List (Option Cell)} {total : ℕ} (h : 4 ∣ total) :
    columnEnd col cells total =
      total + ((cells.map (cellInsertBytes col)).sum + columnOverhead col cells) := by
  rw [columnEnd, columnOverhead, sum_cellInsertBytes]
  unfold innerPadding nullMaskBytes
  cases col.type <;> cases col.nullable <;>
    simp only [Bool.false_eq_true, if_false, if_true, pad4, align4, ColumnType.width] <;>
    omega

lemma rowInsertBytes_eq (r : FilterRow s) :
    rowInsertBytes r = (s.columns.zipIdx.map fun x => cellInsertBytes x.1 (r.get x.2)).sum := by
  rw [rowInsertBytes]
  congr 1
  refine List.ext_getElem? fun i => ?_
  rw [List.getElem?_zipWith, List.getElem?_map, List.getElem?_zipIdx]
  cases hcol : s.columns[i]? with
  | none => rfl
  | some col =>
    have hlt : i < r.cells.length := by
      rw [r.length_cells]
      exact (List.getElem?_eq_some_iff.mp hcol).1
    simp [FilterRow.get, List.getElem?_eq_getElem hlt]

lemma sum_rowInsertBytes (rs : List (FilterRow s)) :
    (rs.map rowInsertBytes).sum =
      (s.columns.zipIdx.map fun x => ((rs.map (·.get x.2)).map (cellInsertBytes x.1)).sum).sum := by
  induction rs with
  | nil => simp
  | cons r rs ih =>
    simp only [List.map_cons, List.sum_cons]
    rw [List.sum_map_add, ← ih, rowInsertBytes_eq]

/-- **The size of filter columns**: the widths of the rows, the padding and the null masks. -/
lemma filterColumnsBytes_eq (rs : List (FilterRow s)) :
    filterColumnsBytes rs = (rs.map rowInsertBytes).sum + columnsOverhead rs := by
  have hfold : ∀ (cols : List (FilterColumn × ℕ)) (total : ℕ), 4 ∣ total →
      cols.foldl (fun total x => columnEnd x.1 (rs.map (·.get x.2)) total) total =
        total + (cols.map fun x => ((rs.map (·.get x.2)).map (cellInsertBytes x.1)).sum +
          columnOverhead x.1 (rs.map (·.get x.2))).sum := by
    intro cols
    induction cols with
    | nil => exact fun total _ => rfl
    | cons x cols ih =>
      intro total h
      rw [List.foldl_cons, ih _ (dvd_columnEnd _ _ _), columnEnd_eq h, List.map_cons, List.sum_cons]
      omega
  rw [filterColumnsBytes, hfold _ 0 (Nat.dvd_zero 4), List.sum_map_add, ← sum_rowInsertBytes,
    columnsOverhead, Nat.zero_add]

/-! ### The pages of an insert -/

/-- The pages a build gives a leaf of these rows. -/
def freshPages (eng : Engine) (rs : List (FilterRow s)) : ℕ :=
  pagesFor (eng.coder.extentBytes rs.length + filterColumnsBytes rs)

def Leaf.filters (l : Leaf s) : List (FilterRow s) := l.rows.map (·.filter)

/-- The columns of all rows stay inside the new buffer, which has the pages of a fresh build. -/
def SizedExactly (eng : Engine) (l : Leaf s) (rs : List (FilterRow s)) : Prop :=
  eng.coder.extentBytes (l.count + rs.length) + filterColumnsBytes (l.filters ++ rs) ≤
      insertPages eng l rs * kPageSize ∧
    insertPages eng l rs = freshPages eng (l.filters ++ rs)

/-- The unused bytes behind the filter columns of a leaf. -/
def tailBytes (eng : Engine) (l : Leaf s) : ℕ := oldFilterBytes eng l - filterColumnsBytes l.filters

/-- The bytes on the last page of an extent. -/
def lastPageBytes (bytes : ℕ) : ℕ := (bytes - 1) % kPageSize + 1

/-- The tail of the old extent is as long as what padding and null masks grow by, up to the page
that is written last. -/
def TailMatches (eng : Engine) (l : Leaf s) (rs : List (FilterRow s)) : Prop :=
  let last := lastPageBytes
    (eng.coder.extentBytes (l.count + rs.length) + filterColumnsBytes (l.filters ++ rs))
  tailBytes eng l + columnsOverhead l.filters + last ≤
      columnsOverhead (l.filters ++ rs) + kPageSize ∧
    columnsOverhead (l.filters ++ rs) < tailBytes eng l + columnsOverhead l.filters + last

lemma pagesFor_eq_iff {a b : ℕ} (hb : 0 < b) :
    pagesFor a = pagesFor b ↔ a + lastPageBytes b ≤ b + kPageSize ∧ b < a + lastPageBytes b := by
  simp only [pagesFor, lastPageBytes, kPageSize]
  omega

lemma Leaf.Fits.oldFilterBytes_eq {eng : Engine} {l : Leaf s} (h : l.Fits eng) :
    oldFilterBytes eng l = filterColumnsBytes l.filters + tailBytes eng l := by
  have hle : filterColumnsBytes l.filters ≤ oldFilterBytes eng l := by
    cases hf : l.hasFilterColumns with
    | true => exact h.le_oldFilterBytes hf
    | false => exact (h.filterColumnsBytes_eq_zero hf).trans_le (Nat.zero_le _)
  exact (Nat.add_sub_cancel' hle).symm

lemma sizedExactly_iff {eng : Engine} {l : Leaf s} (h : l.Fits eng) (rs : List (FilterRow s)) :
    SizedExactly eng l rs ↔ TailMatches eng l rs := by
  have hlen : (l.filters ++ rs).length = l.count + rs.length := by
    rw [List.length_append, Leaf.filters, List.length_map, Leaf.count]
  have hall := filterColumnsBytes_eq (l.filters ++ rs)
  rw [List.map_append, List.sum_append] at hall
  have hold := filterColumnsBytes_eq l.filters
  have hgiven : newFilterBytes eng l rs =
      filterColumnsBytes l.filters + tailBytes eng l + (rs.map rowInsertBytes).sum := by
    rw [newFilterBytes, h.oldFilterBytes_eq]
  have hpages : SizedExactly eng l rs ↔ insertPages eng l rs = freshPages eng (l.filters ++ rs) := by
    refine ⟨fun hs => hs.2, fun heq => ⟨?_, heq⟩⟩
    rw [heq, freshPages, hlen]
    exact le_pagesFor _
  rw [hpages, insertPages, freshPages, hlen, pagesFor_eq_iff (Nat.add_pos_left
    (eng.coder.extentBytes_pos _) _), TailMatches, hgiven]
  generalize lastPageBytes _ = last
  constructor
  · rintro ⟨h₁, h₂⟩
    constructor <;> omega
  · rintro ⟨h₁, h₂⟩
    constructor <;> omega

/-! ### The life of a leaf -/

/-- The leaves that builds and mutations produce, with `Ok` for the inserts on the way. -/
inductive Reached (eng : Engine) (Ok : Leaf s → List (FilterRow s) → Prop) : Leaf s → Prop
  | built (b : BuildInput s) (hc : b.coder = eng.coder) (rows : List (BuildRow s))
      (payloadPage : Option ℕ) : Reached eng Ok (flushedLeaf b rows payloadPage)
  | inserted (l : Leaf s) (h : Reached eng Ok l) (pts : List (InsertPoint s))
      (rs : List (FilterRow s)) (hrs : pts.mapM InsertPoint.row = some rs) (hok : Ok l rs)
      (payload : Extent) : Reached eng Ok (appendedLeaf eng l pts rs payload)
  | deleted (l : Leaf s) (h : Reached eng Ok l) (rowIds : List RowId) :
      Reached eng Ok (compactedLeaf eng l (deletedSlots l rowIds))
  | split (l : Leaf s) (h : Reached eng Ok l) (group : List ℕ) :
      Reached eng Ok (groupLeaf eng l group)
  | repaired (l : Leaf s) (h : Reached eng Ok l) : Reached eng Ok (repairedLeaf l)

lemma filters_flushedLeaf (b : BuildInput s) (rows : List (BuildRow s)) (payloadPage : Option ℕ) :
    (flushedLeaf b rows payloadPage).filters = rows.map (·.filter) := by
  rw [Leaf.filters, flushedLeaf, List.map_zipWith]
  refine List.ext_getElem? fun i => ?_
  rw [List.getElem?_zipWith, List.getElem?_map]
  cases hrow : rows[i]? with
  | none => rfl
  | some row =>
    have hlt : i < (b.coder.flushLeaf (rows.map (·.vector))).2.length := by
      rw [b.coder.length_flushLeaf, List.length_map]
      exact (List.getElem?_eq_some_iff.mp hrow).1
    rw [List.getElem?_eq_getElem hlt]
    rfl

lemma count_flushedLeaf (b : BuildInput s) (rows : List (BuildRow s)) (payloadPage : Option ℕ) :
    (flushedLeaf b rows payloadPage).count = rows.length := by
  have := congrArg List.length (filters_flushedLeaf b rows payloadPage)
  rwa [Leaf.filters, List.length_map, List.length_map] at this

lemma fits_flushedLeaf {eng : Engine} {b : BuildInput s} (hc : b.coder = eng.coder)
    (rows : List (BuildRow s)) (payloadPage : Option ℕ) :
    (flushedLeaf b rows payloadPage).Fits eng := by
  have hfilters := filters_flushedLeaf b rows payloadPage
  rw [Leaf.filters] at hfilters
  constructor
  · rw [count_flushedLeaf, hfilters, ← hc]
    exact (Nat.le_add_right _ _).trans (le_pagesFor _)
  · intro hr hcols
    have hne : rows.map (·.filter) ≠ [] := by
      rw [← hfilters]
      simpa using hr
    simp only [flushedLeaf, decide_eq_true_eq]
    exact filterColumnsBytes_pos hne hcols

lemma filtersFit_of_sizedExactly {eng : Engine} {l : Leaf s} {rs : List (FilterRow s)}
    (h : l.Fits eng) (hs : SizedExactly eng l rs) : FiltersFit eng l rs := by
  by_cases hc : s.columns = []
  · exact .inl (List.isEmpty_iff.mpr hc)
  · refine .inr ⟨fun hcount => ?_, hs.1⟩
    have hne : l.rows ≠ [] := List.ne_nil_of_length_pos hcount
    refine lt_of_lt_of_le ?_ (h.le_oldFilterBytes (h.columns hne hc))
    exact filterColumnsBytes_pos (by simpa using hne) hc

/-- **A reached leaf holds its columns**, if inserts into such leaves do. -/
lemma Reached.fits {eng : Engine} {Ok : Leaf s → List (FilterRow s) → Prop}
    (hins : ∀ (l : Leaf s) (rs : List (FilterRow s)), l.Fits eng → Ok l rs → FiltersFit eng l rs)
    {l : Leaf s} (h : Reached eng Ok l) : l.Fits eng := by
  induction h with
  | built b hc rows payloadPage => exact fits_flushedLeaf hc rows payloadPage
  | inserted l _ pts rs hrs hok payload ih =>
    exact fits_appendedLeaf (length_of_mapM_row hrs) (hins l rs ih hok)
  | deleted l _ rowIds ih => exact fits_compactedLeaf ih rowIds
  | split l _ group _ => exact fits_groupLeaf eng l group
  | repaired l _ ih => exact ih.repaired

/-- **The size of a leaf after an insert.** In every run whose inserts find a tail that matches, an
insert stays inside its buffer and takes the pages of a fresh build if the tail matches, and only
then. -/
theorem insert_sized_exactly_iff (eng : Engine) (l : Leaf s) (h : Reached eng (TailMatches eng) l)
    (rs : List (FilterRow s)) : SizedExactly eng l rs ↔ TailMatches eng l rs :=
  sizedExactly_iff (h.fits fun _ rs hfits htail =>
    filtersFit_of_sizedExactly hfits ((sizedExactly_iff hfits rs).mpr htail)) rs

def flagSchema : Schema := { columns := [⟨"flag", .bool, true⟩] }

def flagRow : FilterRow flagSchema := ⟨[none], .cons rfl .nil⟩

/-- A leaf as built, with `n` rows. -/
def flagLeaf (n : ℕ) : Leaf flagSchema :=
  flushedLeaf (lineBuild flagSchema 1 1000 []) (List.replicate n ⟨7, [0], flagRow, []⟩) none

/-- One row on the first page, 380 more that go over to the second. -/
theorem insert_sized_exactly_flags :
    SizedExactly (lineEngine flagSchema) (flagLeaf 1) (List.replicate 380 flagRow) := by
  refine (insert_sized_exactly_iff _ _ (.built _ rfl _ _) _).mpr ?_
  unfold TailMatches
  decide +kernel

/-- The null masks of 340 rows and 429 more need a third page, and two are given. A second row in a
leaf of one page makes it two pages. -/
theorem insert_misses_a_page :
    insertPages (lineEngine flagSchema) (flagLeaf 340) (List.replicate 429 flagRow) * kPageSize <
        (lineEngine flagSchema).coder.extentBytes (340 + 429) +
          filterColumnsBytes ((flagLeaf 340).filters ++ List.replicate 429 flagRow) ∧
      ¬ SizedExactly (lineEngine flagSchema) (flagLeaf 340) (List.replicate 429 flagRow) ∧
      insertPages (lineEngine flagSchema) (flagLeaf 1) [flagRow] = 2 ∧
      freshPages (lineEngine flagSchema) ((flagLeaf 1).filters ++ [flagRow]) = 1 := by
  unfold SizedExactly
  decide +kernel

end SextantTree
