import SextantTree.VacuumSpec

/-!
The rows of an index as a multiset, and what each mutation does to it. A view of a row is as much of
it as a split leaves alone: the id and the filter values in every family, the whole row in the families
whose codes move unchanged.
-/

namespace SextantTree

open Pages Alloc AllocInv AllocRun Heap FilterHash Outcome

variable {s : Schema} {eng : Engine} {idx : Index s} {c c' : Contents s}

/-! ### Sums over a list by position -/

section

variable {α M : Type*} [AddCommMonoid M]

lemma sum_map_eq_sum_range (f : α → M) (L : List α) :
    (L.map f).sum = ∑ i ∈ Finset.range L.length, (L[i]?).elim 0 f := by
  induction L using List.reverseRecOn with
  | nil => rfl
  | append_singleton L a ih =>
    rw [List.length_append, List.length_singleton, Finset.sum_range_succ, List.map_append,
      List.sum_append, ih]
    congr 1
    · apply Finset.sum_congr rfl
      intro i hi
      rw [List.getElem?_append_left (Finset.mem_range.mp hi)]
    · simp

lemma sum_map_add_of_entries {f : α → M} {g : ℕ → M} {L L' : List α} (hlen : L'.length = L.length)
    (h : ∀ i a, L[i]? = some a → ∃ a', L'[i]? = some a' ∧ f a' = f a + g i) :
    (L'.map f).sum = (L.map f).sum + ∑ i ∈ Finset.range L.length, g i := by
  rw [sum_map_eq_sum_range, sum_map_eq_sum_range, hlen, ← Finset.sum_add_distrib]
  apply Finset.sum_congr rfl
  intro i hi
  have ha := List.getElem?_eq_getElem (Finset.mem_range.mp hi)
  obtain ⟨a', ha', hf⟩ := h i _ ha
  rw [ha, ha']
  exact hf

lemma sum_map_set_append {f : α → M} {L : List α} {i : ℕ} {a a₀ a₁ : α} (h : L[i]? = some a)
    (hsum : f a₀ + f a₁ = f a) : ((L.set i a₀ ++ [a₁]).map f).sum = (L.map f).sum := by
  obtain ⟨hi, rfl⟩ := List.getElem?_eq_some_iff.mp h
  have hold := ((List.getElem_cons_eraseIdx_perm hi).map f).sum_eq
  have hi' : i < (L.set i a₀).length := by simpa using hi
  have hnew := ((List.getElem_cons_eraseIdx_perm hi').map f).sum_eq
  rw [List.getElem_set_self, List.eraseIdx_set_eq, List.map_cons, List.sum_cons] at hnew
  rw [List.map_cons, List.sum_cons] at hold
  rw [List.map_append, List.sum_append, ← hnew, ← hold, ← hsum, List.map_singleton, List.sum_singleton]
  abel

end

/-! ### Views -/

/-- As much of a row as a split leaves alone; it tells at least the row id. -/
structure RowView (eng : Engine) (s : Schema) (κ : Type) where
  see : LeafRow s → κ
  rowId : κ → RowId
  rowId_see : ∀ r, rowId (see r) = r.rowId
  group : ∀ (l : Leaf s) (g : List ℕ),
    (groupLeaf eng l g).rows.map see = (g.filterMap (l.rows[·]?)).map see

def bareView (eng : Engine) (s : Schema) : RowView eng s (RowId × FilterRow s) where
  see := LeafRow.bare
  rowId := Prod.fst
  rowId_see _ := rfl
  group := bare_groupLeaf eng

def wholeView (eng : Engine) (h : eng.coder.family.isLocal = false) (s : Schema) :
    RowView eng s (LeafRow s) where
  see := id
  rowId := LeafRow.rowId
  rowId_see _ := rfl
  group l g := by rw [rows_groupLeaf eng l g h]

def Contents.rows (c : Contents s) : Multiset (LeafRow s) :=
  (c.leaves.map fun l => (l.leaf.rows : Multiset (LeafRow s))).sum

def Contents.seen {κ : Type} (V : RowView eng s κ) (c : Contents s) : Multiset κ := c.rows.map V.see

section

variable {κ : Type} {V : RowView eng s κ}

lemma Contents.seen_eq (V : RowView eng s κ) (c : Contents s) :
    c.seen V = (c.leaves.map fun l => ((l.leaf.rows.map V.see : List κ) : Multiset κ)).sum := by
  rw [seen, rows, ← Multiset.coe_mapAddMonoidHom, map_list_sum, List.map_map]
  rfl

lemma SameShape.seen (V : RowView eng s κ) (h : SameShape c c') : c'.seen V = c.seen V := by
  rw [Contents.seen, Contents.rows, h.leaves]
  rfl

lemma seen_of_forall₂ {P : StoredLeaf s → StoredLeaf s → Prop}
    (hP : ∀ l l', P l l' → l'.leaf.rows = l.leaf.rows) (h : List.Forall₂ P c.leaves c'.leaves)
    (V : RowView eng s κ) : c'.seen V = c.seen V := by
  rw [Contents.seen, Contents.rows, map_of_forall₂ h fun l l' hl => by rw [hP l l' hl]]
  rfl

/-! ### Splits -/

lemma seen_groups (V : RowView eng s κ) (l : Leaf s) (id : ℕ) :
    (((groupLeaf eng l (splitGroups eng l id).1).rows.map V.see : List κ) : Multiset κ) +
        (((groupLeaf eng l (splitGroups eng l id).2).rows.map V.see : List κ) : Multiset κ) =
      ((l.rows.map V.see : List κ) : Multiset κ) := by
  rw [V.group, V.group, Multiset.coe_add, ← List.map_append]
  exact Multiset.coe_eq_coe.mpr ((splitGroups_perm eng l id).map V.see)

lemma SplitOf.seen {id : ℕ} {l : StoredLeaf s} (V : RowView eng s κ) (h : SplitOf eng id l c c') :
    c'.seen V = c.seen V := by
  obtain ⟨t', l₀, l₁, rfl, h₀, h₁, -⟩ := h.split
  rw [Contents.seen_eq, Contents.seen_eq]
  apply sum_map_set_append h.leaf
  rw [h₀, h₁]
  exact seen_groups V l.leaf id

lemma Splits.seen (V : RowView eng s κ) (h : Splits eng c c') : c'.seen V = c.seen V := by
  induction h with
  | refl => rfl
  | tail _ hstep ih =>
    obtain ⟨id, l, -, hsplit⟩ := hstep
    rw [hsplit.seen V, ih]

/-! ### Insert -/

/-- A stored row is that of a point: its id, its filter values, and a code the coder gives its vector
in some leaf. -/
def EncodedAs (eng : Engine) (p : InsertPoint s) (r : LeafRow s) : Prop :=
  r.rowId = p.rowId ∧ p.row = some r.filter ∧ ∃ state, r.code = eng.coder.appendEncode state p.vector

def Encodes (eng : Engine) (pts : List (InsertPoint s)) (new : Multiset (LeafRow s)) : Prop :=
  Multiset.Rel (EncodedAs eng) pts new

lemma encodes_insertedRows (l : Leaf s) {ps : List (InsertPoint s)} {rs : List (FilterRow s)}
    (h : ps.mapM InsertPoint.row = some rs) : Encodes eng ps (insertedRows eng l ps rs) := by
  induction ps generalizing rs with
  | nil => exact .zero
  | cons p ps ih =>
    rw [List.mapM_cons] at h
    obtain ⟨r, hr, h⟩ := Option.bind_eq_some_iff.mp h
    obtain ⟨rs', hrs', h⟩ := Option.bind_eq_some_iff.mp h
    cases h
    exact .cons ⟨rfl, hr, l.state, rfl⟩ (ih hrs')

lemma sum_pointsFor {pts : List (InsertPoint s)} {ids : List ℕ} (hlen : ids.length = pts.length)
    {n : ℕ} (hids : ∀ id ∈ ids, id < n) :
    ∑ i ∈ Finset.range n, (pointsFor pts ids i : Multiset (InsertPoint s)) = pts := by
  have hperm := flatMap_filter_perm (fun x : InsertPoint s × ℕ => x.2) (pts.zip ids) n
  have hall : (pts.zip ids).filter (fun x => decide (x.2 < n)) = pts.zip ids := by
    rw [List.filter_eq_self]
    intro x hx
    simpa using hids x.2 (List.of_mem_zip hx).2
  rw [hall] at hperm
  have hmap := hperm.map Prod.fst
  rw [List.map_fst_zip hlen.ge] at hmap
  rw [← Multiset.coe_eq_coe.mpr hmap, List.map_flatMap]
  clear hperm hmap hall hids
  induction n with
  | zero => rfl
  | succ n ih =>
    rw [Finset.sum_range_succ, ih, List.range_succ, List.flatMap_append, ← Multiset.coe_add]
    simp [pointsFor]

/-- **The rows an insert adds.** -/
lemma Inserted.seen (V : RowView eng s κ) {pts : List (InsertPoint s)} {ids : List ℕ}
    (hlen : ids.length = pts.length) (h : Inserted eng pts ids c c') :
    ∃ new, Encodes eng pts new ∧ c'.seen V = c.seen V + new.map V.see := by
  obtain ⟨L₁, c₂, c₃, ht, hsame, hsplits, hsame', -⟩ := h.steps
  have hids : ∀ id ∈ ids, id < c.leaves.length := fun id hid => ht.inTable id (mem_insertKeys.mpr hid)
  -- what each leaf takes
  have hadd : ∀ i, ∃ new : List (LeafRow s), Encodes eng (pointsFor pts ids i) new ∧
      ∀ l, c.leaves[i]? = some l → ∃ l', L₁[i]? = some l' ∧
        (l'.leaf.rows : Multiset (LeafRow s)) = (l.leaf.rows : Multiset (LeafRow s)) + new := by
    intro i
    by_cases hi : i ∈ insertKeys eng ids
    · obtain ⟨l, hl⟩ : ∃ l, c.leaves[i]? = some l :=
        ⟨_, List.getElem?_eq_getElem (ht.inTable i hi)⟩
      obtain ⟨l', hl', hin, -⟩ := ht.leaf i l hl
      obtain ⟨rs, page, payPage, hrs, rfl⟩ := hin hi
      refine ⟨_, encodes_insertedRows l.leaf hrs, fun x hx => ⟨_, hl', ?_⟩⟩
      rw [hl] at hx
      cases hx
      rw [StoredLeaf.rows_appended, Multiset.coe_add]
    · refine ⟨[], ?_, fun l hl => ?_⟩
      · rw [pointsFor_eq_nil (mem_insertKeys.not.mp hi)]
        exact .zero
      · obtain ⟨l', hl', -, hout⟩ := ht.leaf i l hl
        exact ⟨l', hl', by rw [hout hi]; simp⟩
  choose new hnew hrows using hadd
  refine ⟨∑ i ∈ Finset.range c.leaves.length, (new i : Multiset (LeafRow s)), ?_, ?_⟩
  · unfold Encodes
    rw [← sum_pointsFor hlen hids]
    generalize c.leaves.length = n
    induction n with
    | zero => exact .zero
    | succ n ih =>
      rw [Finset.sum_range_succ, Finset.sum_range_succ]
      exact ih.add (hnew n)
  · have hfirst : ({ c with leaves := L₁ } : Contents s).rows =
        c.rows + ∑ i ∈ Finset.range c.leaves.length, (new i : Multiset (LeafRow s)) :=
      sum_map_add_of_entries ht.length hrows
    rw [hsame'.seen V, hsplits.seen V, hsame.seen V, Contents.seen, hfirst, Multiset.map_add]
    rfl

/-! ### Delete -/

/-- **The rows a delete keeps.** -/
lemma Deleted.seen (V : RowView eng s κ) {rowIds : List RowId} (h : Deleted eng rowIds c c') :
    c'.seen V = (c.seen V).filter fun x => V.rowId x ∉ rowIds := by
  have hrows : c'.rows = c.rows.filter fun r => r.rowId ∉ rowIds := by
    have hsum : c.rows.filter (fun r => r.rowId ∉ rowIds) = (c.leaves.map fun l =>
        ((l.leaf.rows : Multiset (LeafRow s)).filter fun r => r.rowId ∉ rowIds)).sum := by
      rw [Contents.rows]
      induction c.leaves with
      | nil => simp
      | cons l L ih => simp [Multiset.filter_add, ih]
    rw [hsum, Contents.rows, sum_map_eq_sum_range, sum_map_eq_sum_range, h.length]
    apply Finset.sum_congr rfl
    intro i hi
    have hl := List.getElem?_eq_getElem (Finset.mem_range.mp hi)
    obtain ⟨l', hl', hcomp⟩ := h.leaf i _ hl
    rw [hl, hl']
    simp only [Option.elim_some, hcomp.rows, Multiset.filter_coe]
    congr 1
    apply List.filter_congr
    intro r _
    simp [survives]
  rw [Contents.seen, hrows, Contents.seen, Multiset.filter_map]
  congr 1
  apply Multiset.filter_congr
  intro r _
  rw [Function.comp_apply, V.rowId_see]

end

end SextantTree
