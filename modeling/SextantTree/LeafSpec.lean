import SextantTree.PayloadImage

/-!
What the operations do to one leaf: which rows it has afterwards, and that its filter columns
still lie inside its extent.
-/

namespace SextantTree

open Pages FilterHash

variable {s : Schema}

/-! ### The size of filter columns -/

lemma align4_le {a b : ℕ} (h : a ≤ b) : align4 a ≤ align4 b := by
  simp only [align4]
  omega

lemma le_align4 (a : ℕ) : a ≤ align4 a := by
  simp only [align4]
  omega

lemma columnEnd_mono {col : FilterColumn} {cs cs' : List (Option Cell)} {a b : ℕ}
    (hc : cs.Sublist cs') (hab : a ≤ b) : columnEnd col cs a ≤ columnEnd col cs' b := by
  have hlen := hc.length_le
  have hdata : (cs.map fun c => c.elim 0 Cell.dataBytes).sum ≤
      (cs'.map fun c => c.elim 0 Cell.dataBytes).sum :=
    (hc.map _).sum_le_sum fun _ _ => Nat.zero_le _
  have helems : (cs.map fun c => c.elim 0 Cell.elements).sum ≤
      (cs'.map fun c => c.elim 0 Cell.elements).sum :=
    (hc.map _).sum_le_sum fun _ _ => Nat.zero_le _
  have hw : ∀ n, cs.length * n ≤ cs'.length * n := fun n => Nat.mul_le_mul_right n hlen
  simp only [columnEnd]
  refine align4_le ?_
  cases col.type <;> cases col.nullable <;>
    simp only [Bool.false_eq_true, if_false, if_true] <;>
    simp only [align4, ColumnType.width] <;>
    omega

lemma columnEnd_le (col : FilterColumn) (cs : List (Option Cell)) (a : ℕ) :
    a ≤ columnEnd col cs a := by
  refine le_trans ?_ (le_align4 _)
  cases col.type <;> cases col.nullable <;>
    simp only [Bool.false_eq_true, if_false, if_true, align4, ColumnType.width] <;>
    omega

lemma columnEnd_pos {col : FilterColumn} {cs : List (Option Cell)} (a : ℕ) (h : 0 < cs.length) :
    0 < columnEnd col cs a := by
  refine lt_of_lt_of_le ?_ (le_align4 _)
  cases col.type <;> cases col.nullable <;>
    simp only [Bool.false_eq_true, if_false, if_true, align4, ColumnType.width] <;>
    omega

lemma columnEnd_nil (col : FilterColumn) : columnEnd col [] 0 = 0 := by
  cases h : col.type <;> cases h' : col.nullable <;> simp [columnEnd, h, h', align4]

lemma filterColumnsBytes_mono {rs rs' : List (FilterRow s)} (h : rs.Sublist rs') :
    filterColumnsBytes rs ≤ filterColumnsBytes rs' := by
  suffices hfold : ∀ (cols : List (FilterColumn × ℕ)) (a b : ℕ), a ≤ b →
      cols.foldl (fun total x => columnEnd x.1 (rs.map (·.get x.2)) total) a ≤
        cols.foldl (fun total x => columnEnd x.1 (rs'.map (·.get x.2)) total) b from
    hfold _ 0 0 le_rfl
  intro cols
  induction cols with
  | nil => exact fun a b hab => hab
  | cons x cols ih => exact fun a b hab => ih _ _ (columnEnd_mono (h.map _) hab)

lemma filterColumnsBytes_pos {rs : List (FilterRow s)} (hr : rs ≠ []) (hc : s.columns ≠ []) :
    0 < filterColumnsBytes rs := by
  have hgrow : ∀ (cols : List (FilterColumn × ℕ)) (a : ℕ),
      a ≤ cols.foldl (fun total x => columnEnd x.1 (rs.map (·.get x.2)) total) a := by
    intro cols
    induction cols with
    | nil => exact fun a => le_rfl
    | cons x cols ih => exact fun a => (columnEnd_le _ _ a).trans (ih _)
  obtain ⟨col, cols, hcols⟩ := List.exists_cons_of_ne_nil hc
  rw [filterColumnsBytes, hcols, List.zipIdx_cons, List.foldl_cons]
  refine lt_of_lt_of_le (columnEnd_pos 0 ?_) (hgrow _ _)
  rw [List.length_map]
  exact List.length_pos_of_ne_nil hr

lemma filterColumnsBytes_nil : filterColumnsBytes ([] : List (FilterRow s)) = 0 := by
  have hfold : ∀ cols : List (FilterColumn × ℕ),
      cols.foldl (fun total x =>
        columnEnd x.1 (([] : List (FilterRow s)).map (·.get x.2)) total) 0 = 0 := by
    intro cols
    induction cols with
    | nil => rfl
    | cons x cols ih =>
      rw [List.foldl_cons, List.map_nil, columnEnd_nil]
      exact ih
  exact hfold _

lemma filterColumnsBytes_of_isEmpty (hc : s.columns = []) (rs : List (FilterRow s)) :
    filterColumnsBytes rs = 0 := by
  rw [filterColumnsBytes, hc]
  rfl

lemma le_pagesFor (n : ℕ) : n ≤ pagesFor n * kPageSize := by
  simp only [pagesFor, kPageSize]
  omega

/-! ### Leaves that fit -/

/-- The filter columns of a leaf lie inside its extent, and the header says they are there. -/
structure Leaf.Fits (eng : Engine) (l : Leaf s) : Prop where
  bytes : eng.coder.extentBytes l.count + filterColumnsBytes (l.rows.map (·.filter)) ≤
    l.extentPages * kPageSize
  columns : l.rows ≠ [] → s.columns ≠ [] → l.hasFilterColumns = true

variable {eng : Engine} {l : Leaf s}

lemma Leaf.Fits.repaired (h : l.Fits eng) : (repairedLeaf l).Fits eng := by
  unfold repairedLeaf
  split
  · exact ⟨h.bytes, h.columns⟩
  · exact ⟨h.bytes, h.columns⟩

lemma Leaf.Fits.le_oldFilterBytes (h : l.Fits eng) (hf : l.hasFilterColumns = true) :
    filterColumnsBytes (l.rows.map (·.filter)) ≤ oldFilterBytes eng l := by
  have := h.bytes
  rw [oldFilterBytes, if_pos hf]
  omega

lemma Leaf.Fits.filterColumnsBytes_eq_zero (h : l.Fits eng) (hf : l.hasFilterColumns = false) :
    filterColumnsBytes (l.rows.map (·.filter)) = 0 := by
  by_cases hr : l.rows = []
  · rw [hr]
    exact filterColumnsBytes_nil
  · by_cases hc : s.columns = []
    · exact filterColumnsBytes_of_isEmpty hc _
    · rw [h.columns hr hc] at hf
      cases hf

/-! ### Rows picked by slot -/

lemma filterMap_range_getElem? {α : Type} (l : List α) :
    (List.range l.length).filterMap (l[·]?) = l := by
  induction l with
  | nil => rfl
  | cons a l ih =>
    rw [List.length_cons, List.range_succ_eq_map, List.filterMap_cons]
    simp only [List.getElem?_cons_zero, List.filterMap_map]
    congr 1

lemma pick_perm {α : Type} (l : List α) (p : ℕ → Bool) :
    (((List.range l.length).filter p).filterMap (l[·]?) ++
      ((List.range l.length).filter fun i => !p i).filterMap (l[·]?)).Perm l := by
  conv_rhs => rw [← filterMap_range_getElem? l]
  rw [← List.filterMap_append]
  exact (List.filter_append_perm p _).filterMap _

lemma pick_eq_filter {α : Type} (l : List α) (q : α → Bool) :
    ((List.range l.length).filter fun i => (l[i]?).any q).filterMap (l[·]?) = l.filter q := by
  induction l with
  | nil => rfl
  | cons a l ih =>
    rw [List.length_cons, List.range_succ_eq_map, List.filter_cons, List.filter_map]
    by_cases ha : q a
    · simp only [List.getElem?_cons_zero, Option.any_some, ha, if_true, List.filterMap_cons,
        List.filterMap_map, List.filter_cons]
      exact congrArg _ ih
    · simp only [List.getElem?_cons_zero, Option.any_some, ha, Bool.false_eq_true, if_false,
        List.filterMap_map, List.filter_cons]
      exact ih

/-! ### Insert -/

def insertedRows (eng : Engine) (l : Leaf s) (pts : List (InsertPoint s)) (rs : List (FilterRow s)) :
    List (LeafRow s) :=
  List.zipWith (fun (p : InsertPoint s) r =>
    ⟨p.rowId, eng.coder.appendEncode l.state p.vector, r⟩) pts rs

variable {pts : List (InsertPoint s)} {rs : List (FilterRow s)}

lemma length_of_mapM_row (h : pts.mapM InsertPoint.row = some rs) : rs.length = pts.length := by
  induction pts generalizing rs with
  | nil =>
    cases h
    rfl
  | cons p pts ih =>
    rw [List.mapM_cons] at h
    cases hp : p.row with
    | none => simp [hp] at h
    | some r =>
      cases hps : pts.mapM InsertPoint.row with
      | none => simp [hp, hps] at h
      | some rs' =>
        simp only [hp, hps, bind, Option.bind, pure, Option.some.injEq] at h
        rw [← h, List.length_cons, List.length_cons, ih hps]

lemma length_insertedRows (h : rs.length = pts.length) :
    (insertedRows eng l pts rs).length = pts.length := by
  simp [insertedRows, h]

lemma filter_insertedRows (h : rs.length = pts.length) :
    (insertedRows eng l pts rs).map (·.filter) = rs := by
  induction pts generalizing rs with
  | nil => simp_all [insertedRows]
  | cons p pts ih =>
    obtain ⟨r, rs, rfl⟩ := List.exists_cons_of_length_pos (by rw [h]; simp)
    simp only [insertedRows, List.zipWith_cons_cons, List.map_cons]
    congr 1
    exact ih (by simpa using h)

lemma rowInsertBytes_pos (hc : s.columns ≠ []) (r : FilterRow s) : 0 < rowInsertBytes r := by
  obtain ⟨col, cols, hcols⟩ := List.exists_cons_of_ne_nil hc
  obtain ⟨c, cs, hcs⟩ := List.exists_cons_of_length_pos
    (l := r.cells) (by rw [r.length_cells, hcols]; simp)
  rw [rowInsertBytes, hcols, hcs, List.zipWith_cons_cons, List.sum_cons]
  refine Nat.add_pos_left ?_ _
  unfold cellInsertBytes
  cases col.type <;> simp only [ColumnType.width] <;> omega

lemma fits_appendedLeaf {e : Extent} (hlen : rs.length = pts.length) (h : FiltersFit eng l rs) :
    (appendedLeaf eng l pts rs e).Fits eng := by
  have hrows : (appendedLeaf eng l pts rs e).rows = l.rows ++ insertedRows eng l pts rs := rfl
  have hcount : (appendedLeaf eng l pts rs e).count = l.count + rs.length := by
    rw [Leaf.count, hrows, List.length_append, length_insertedRows hlen, hlen, Leaf.count]
  constructor
  · rw [hcount, hrows, List.map_append, filter_insertedRows hlen]
    rcases h with hc | ⟨-, hb⟩
    · rw [filterColumnsBytes_of_isEmpty (List.isEmpty_iff.mp hc)]
      exact (Nat.le_add_right _ _).trans (le_pagesFor _)
    · exact hb
  · intro hr hc
    have hne : ¬ s.columns.isEmpty := by simpa using hc
    simp only [appendedLeaf, decide_eq_true_eq]
    refine ⟨hne, ?_⟩
    rcases h with hc' | ⟨hold, -⟩
    · exact absurd hc' hne
    · rw [newFilterBytes]
      by_cases hl : l.rows = []
      · -- the leaf was empty, so the rows are the inserted ones
        obtain ⟨r, rs', rfl⟩ : ∃ r rs', rs = r :: rs' := by
          refine List.exists_cons_of_ne_nil ?_
          rintro rfl
          rw [hrows, hl] at hr
          simp [insertedRows] at hr
        have := rowInsertBytes_pos hc r
        rw [List.map_cons, List.sum_cons]
        omega
      · have := hold (List.length_pos_of_ne_nil hl)
        omega

/-! ### Delete -/

def survives (rowIds : List RowId) (r : LeafRow s) : Bool := !rowIds.contains r.rowId

lemma contains_deletedSlots {rowIds : List RowId} {i : ℕ} :
    (deletedSlots l rowIds).contains i = (l.rows[i]?).any fun r => rowIds.contains r.rowId := by
  rw [Bool.eq_iff_iff, List.contains_iff_mem, deletedSlots, List.mem_filter, List.mem_range]
  constructor
  · exact fun h => h.2
  · intro h
    refine ⟨?_, h⟩
    by_contra hi
    rw [List.getElem?_eq_none (by simpa [Leaf.count] using hi)] at h
    cases h

lemma rows_compactedLeaf (eng : Engine) (l : Leaf s) (rowIds : List RowId) :
    (compactedLeaf eng l (deletedSlots l rowIds)).rows = l.rows.filter (survives rowIds) := by
  rw [← pick_eq_filter]
  simp only [compactedLeaf, Leaf.count]
  congr 1
  refine List.filter_congr fun i hi => ?_
  rw [List.mem_range] at hi
  rw [contains_deletedSlots, List.getElem?_eq_getElem hi]
  simp [survives]

lemma compactFits_of_fits (h : l.Fits eng) (rowIds : List RowId) :
    CompactFits eng l (compactedLeaf eng l (deletedSlots l rowIds)) := by
  by_cases hf : l.hasFilterColumns
  · right
    have h1 := h.le_oldFilterBytes hf
    have h2 : filterColumnsBytes
        ((compactedLeaf eng l (deletedSlots l rowIds)).rows.map (·.filter)) ≤
        filterColumnsBytes (l.rows.map (·.filter)) := by
      rw [rows_compactedLeaf]
      exact filterColumnsBytes_mono (List.filter_sublist.map _)
    refine le_trans ?_ (le_pagesFor _)
    exact Nat.add_le_add_left (h2.trans h1) _
  · left
    simp [oldFilterBytes, hf]

lemma fits_compactedLeaf (h : l.Fits eng) (rowIds : List RowId) :
    (compactedLeaf eng l (deletedSlots l rowIds)).Fits eng := by
  have hrows := rows_compactedLeaf eng l rowIds
  have hsub : filterColumnsBytes
      ((compactedLeaf eng l (deletedSlots l rowIds)).rows.map (·.filter)) ≤ oldFilterBytes eng l := by
    rw [hrows]
    refine (filterColumnsBytes_mono (List.filter_sublist.map _)).trans ?_
    by_cases hf : l.hasFilterColumns
    · exact h.le_oldFilterBytes hf
    · rw [h.filterColumnsBytes_eq_zero (by simpa using hf)]
      exact Nat.zero_le _
  constructor
  · exact (Nat.add_le_add_left hsub _).trans (le_pagesFor _)
  · intro hr hc
    refine h.columns ?_ hc
    rintro hl
    rw [hrows, hl] at hr
    exact hr rfl

/-! ### Split -/

lemma splitGroups_cases (eng : Engine) (l : Leaf s) (id : ℕ) : ∃ p : ℕ → Bool,
    splitGroups eng l id = ((List.range l.count).filter fun i => !p i, (List.range l.count).filter p) ∧
      (2 ≤ l.count → (splitGroups eng l id).1 ≠ [] ∧ (splitGroups eng l id).2 ≠ []) := by
  unfold splitGroups
  simp only
  split
  next h =>
    refine ⟨fun i => !decide (i < l.count / 2), by simp, fun hc => ?_⟩
    constructor
    · refine List.ne_nil_of_mem (a := 0) (List.mem_filter.mpr ⟨List.mem_range.mpr ?_, ?_⟩)
      · omega
      · simp only [decide_eq_true_eq]
        omega
    · refine List.ne_nil_of_mem (a := l.count - 1) (List.mem_filter.mpr ⟨List.mem_range.mpr ?_, ?_⟩)
      · omega
      · simp only [Bool.not_eq_eq_eq_not, Bool.not_true, decide_eq_false_iff_not]
        omega
  next h =>
    refine ⟨fun i => eng.coder.splitAssign l.state (l.rows.map (·.code)) id i, rfl, fun _ => ?_⟩
    simpa using h

lemma length_pick {α : Type} (l : List α) (p : ℕ → Bool) :
    (((List.range l.length).filter p).filterMap (l[·]?)).length =
      ((List.range l.length).filter p).length := by
  rw [List.length_filterMap_eq_countP, List.countP_eq_length]
  intro i hi
  have := List.mem_range.mp (List.mem_of_mem_filter hi)
  simp [this]

lemma splitGroups_perm (eng : Engine) (l : Leaf s) (id : ℕ) :
    ((splitGroups eng l id).1.filterMap (l.rows[·]?) ++
      (splitGroups eng l id).2.filterMap (l.rows[·]?)).Perm l.rows := by
  obtain ⟨p, hp, -⟩ := splitGroups_cases eng l id
  rw [hp]
  exact List.perm_append_comm.trans (pick_perm l.rows p)

lemma splitGroups_pos (eng : Engine) {l : Leaf s} (id : ℕ) (h : 2 ≤ l.count) :
    0 < ((splitGroups eng l id).1.filterMap (l.rows[·]?)).length ∧
      0 < ((splitGroups eng l id).2.filterMap (l.rows[·]?)).length := by
  obtain ⟨p, hp, hne⟩ := splitGroups_cases eng l id
  obtain ⟨h₁, h₂⟩ := hne h
  rw [hp] at h₁ h₂ ⊢
  have e₁ := length_pick l.rows fun i => !p i
  have e₂ := length_pick l.rows p
  constructor
  · exact e₁ ▸ List.length_pos_of_ne_nil h₁
  · exact e₂ ▸ List.length_pos_of_ne_nil h₂

def LeafRow.bare (r : LeafRow s) : RowId × FilterRow s := (r.rowId, r.filter)

lemma map_zipWith_code {β : Type} (f : LeafRow s → β) (hf : ∀ r code, f { r with code := code } = f r)
    {rows : List (LeafRow s)} {cs : List Code} (h : cs.length = rows.length) :
    (List.zipWith (fun (r : LeafRow s) code => { r with code := code }) rows cs).map f =
      rows.map f := by
  induction rows generalizing cs with
  | nil => simp
  | cons r rows ih =>
    obtain ⟨c, cs, rfl⟩ := List.exists_cons_of_length_pos (l := cs) (by rw [h]; simp)
    simp only [List.zipWith_cons_cons, List.map_cons, hf]
    rw [ih (by simpa using h)]

lemma zipWith_code_self (rows : List (LeafRow s)) :
    List.zipWith (fun (r : LeafRow s) code => { r with code := code }) rows (rows.map (·.code)) =
      rows := by
  induction rows with
  | nil => rfl
  | cons r rows ih => rw [List.map_cons, List.zipWith_cons_cons, ih]

section

variable (eng : Engine) (l : Leaf s) (g : List ℕ)

lemma bare_groupLeaf :
    (groupLeaf eng l g).rows.map LeafRow.bare = (g.filterMap (l.rows[·]?)).map LeafRow.bare :=
  map_zipWith_code _ (fun _ _ => rfl) (by simp [eng.coder.length_encodeGroup])

lemma filter_groupLeaf :
    (groupLeaf eng l g).rows.map (·.filter) = (g.filterMap (l.rows[·]?)).map (·.filter) :=
  map_zipWith_code _ (fun _ _ => rfl) (by simp [eng.coder.length_encodeGroup])

lemma count_groupLeaf : (groupLeaf eng l g).count = (g.filterMap (l.rows[·]?)).length := by
  have := congrArg List.length (bare_groupLeaf eng l g)
  rwa [List.length_map, List.length_map] at this

lemma rows_groupLeaf (h : eng.coder.family.isLocal = false) :
    (groupLeaf eng l g).rows = g.filterMap (l.rows[·]?) := by
  simp only [groupLeaf, eng.coder.encodeGroup_global h]
  exact zipWith_code_self _

lemma fits_groupLeaf : (groupLeaf eng l g).Fits eng := by
  constructor
  · rw [filter_groupLeaf, count_groupLeaf]
    exact le_pagesFor _
  · intro hr hc
    simp only [groupLeaf, decide_eq_true_eq]
    refine filterColumnsBytes_pos ?_ hc
    rw [← filter_groupLeaf eng]
    simpa using hr

lemma groupLeaf_pages_pos : 0 < (groupLeaf eng l g).extentPages :=
  pagesFor_pos (Nat.add_pos_left (eng.coder.extentBytes_pos _) _)

end

end SextantTree
