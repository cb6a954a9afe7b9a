import SextantTree.BuildSpec
import SextantTree.InsertSpec

/-!
The mutations that keep the tree as it is: `delete_batch`, `vacuum` and `defrag`. They go over
leaves and commit, once or in batches.
-/

namespace SextantTree

open Pages Alloc AllocInv AllocRun Heap FilterHash Outcome

variable {s : Schema} {eng : Engine} {idx : Index s} {c : Contents s}

/-! ### Delete -/

/-- What a delete does to the contents: every leaf keeps the rows that are not listed. -/
structure Deleted (eng : Engine) (rowIds : List RowId) (c c' : Contents s) : Prop where
  shape : c'.shape = c.shape
  length : c'.leaves.length = c.leaves.length
  leaf : ∀ (id : ℕ) (l : StoredLeaf s), c.leaves[id]? = some l →
    ∃ l', c'.leaves[id]? = some l' ∧ Compacted eng rowIds l l'
  codebook : c'.codebook = c.codebook
  pca : c'.pca = c.pca
  plane : c'.plane = c.plane

lemma filter_survives_of_deletedSlots {l : Leaf s} {rowIds : List RowId}
    (h : deletedSlots l rowIds = []) : l.rows.filter (survives rowIds) = l.rows := by
  rw [List.filter_eq_self]
  intro r hr
  obtain ⟨i, hi⟩ := List.mem_iff_getElem?.mp hr
  have hno : (deletedSlots l rowIds).contains i = false := by rw [h]; rfl
  rw [contains_deletedSlots, hi] at hno
  simpa [survives] using hno

lemma compacted_self {l : StoredLeaf s} {rowIds : List RowId}
    (h : deletedSlots l.leaf rowIds = []) : Compacted eng rowIds l l :=
  ⟨(filter_survives_of_deletedSlots h).symm, rfl, fun hf => hf⟩

section

variable {L : List (StoredLeaf s)} {rowIds : List RowId}

lemma mem_leafDeletes {i : ℕ} {slots : List ℕ} :
    (i, slots) ∈ leafDeletes (L.map StoredLeaf.leaf) rowIds ↔
      ∃ l, L[i]? = some l ∧ slots = deletedSlots l.leaf rowIds ∧ slots ≠ [] := by
  simp only [leafDeletes, List.mem_filter, List.mem_map, Prod.mk.injEq, Prod.exists,
    List.mem_zipIdx_iff_getElem?, List.getElem?_map, Option.map_eq_some_iff]
  constructor
  · rintro ⟨⟨x, j, ⟨l, hl, rfl⟩, rfl, rfl⟩, hne⟩
    exact ⟨l, hl, rfl, by simpa using hne⟩
  · rintro ⟨l, hl, rfl, hne⟩
    exact ⟨⟨l.leaf, i, ⟨l, hl, rfl⟩, rfl, rfl⟩, by simpa using hne⟩

lemma nodup_leafDeletes : ((leafDeletes (L.map StoredLeaf.leaf) rowIds).map Prod.fst).Nodup := by
  refine List.Nodup.sublist (List.filter_sublist.map Prod.fst) ?_
  rw [List.map_map]
  have : (Prod.fst ∘ fun x : Leaf s × ℕ => (x.2, deletedSlots x.1 rowIds)) = Prod.snd := rfl
  rw [this, List.zipIdx_map_snd]
  exact List.nodup_range'

lemma find_leafDeletes {i : ℕ} {l : StoredLeaf s} (hl : L[i]? = some l)
    (hi : i ∈ (leafDeletes (L.map StoredLeaf.leaf) rowIds).map Prod.fst) :
    ((leafDeletes (L.map StoredLeaf.leaf) rowIds).find? (·.1 == i)).elim [] Prod.snd =
      deletedSlots l.leaf rowIds := by
  obtain ⟨x, hx, hxi⟩ := List.mem_map.mp hi
  cases hf : (leafDeletes (L.map StoredLeaf.leaf) rowIds).find? (·.1 == i) with
  | none =>
    have := List.find?_eq_none.mp hf x hx
    simp [hxi] at this
  | some y =>
    have hyi : y.1 = i := by simpa using List.find?_some hf
    obtain ⟨j, slots⟩ := y
    simp only at hyi
    subst hyi
    obtain ⟨l', hl', rfl, -⟩ := mem_leafDeletes.mp (List.mem_of_find?_eq_some hf)
    rw [hl] at hl'
    cases hl'
    rfl

end

lemma IndexOk.readLeaves (h : IndexOk eng idx c) :
    (List.range idx.leafTable.length).mapM (SextantTree.readLeaf idx.file idx.leafTable) =
      .ok (c.leaves.map StoredLeaf.leaf) := by
  have hlen : idx.leafTable.length = c.leaves.length := by
    rw [h.table, Contents.table, List.length_map]
  suffices hsub : ∀ L : List ℕ, (∀ i ∈ L, i < c.leaves.length) →
      L.mapM (SextantTree.readLeaf idx.file idx.leafTable) =
        .ok ((L.filterMap (c.leaves[·]?)).map StoredLeaf.leaf) by
    rw [hsub _ fun i hi => hlen ▸ List.mem_range.mp hi, hlen, filterMap_range_getElem?]
  intro L
  induction L with
  | nil => exact fun _ => rfl
  | cons i L ih =>
    intro hL
    have hi := List.getElem?_eq_getElem (hL i List.mem_cons_self)
    rw [List.mapM_cons, h.readLeaf hi, ih fun j hj => hL j (List.mem_cons_of_mem _ hj),
      List.filterMap_cons, hi]
    rfl

/-- What a delete returns: the index as it was, if no leaf has a listed row, or the index after
the commit. -/
structure DeleteResult (eng : Engine) (rowIds : List RowId) (idx : Index s) (c : Contents s)
    (idx' : Index s) (c' : Contents s) : Prop where
  deleted : Deleted eng rowIds c c'
  /-- An index with payloads refuses deletes. -/
  paid : s.hasPayload = true → c' = c
  moved : (idx' = idx ∧ c' = c ∧ ∀ r ∈ rowIds, isStored (c.leaves.map StoredLeaf.leaf) r = false) ∨
    (Advanced eng idx idx' c' ∧ idx'.manifest.nVectors =
      countAfterDelete idx.manifest.nVectors (c.leaves.map StoredLeaf.leaf) rowIds)

lemma not_isStored_of_leafDeletes {L : List (StoredLeaf s)} {rowIds : List RowId}
    (h : leafDeletes (L.map StoredLeaf.leaf) rowIds = []) {r : RowId} (hr : r ∈ rowIds) :
    isStored (L.map StoredLeaf.leaf) r = false := by
  rw [isStored, List.any_eq_false]
  intro l' hl'
  obtain ⟨l, hl, rfl⟩ := List.mem_map.mp hl'
  obtain ⟨i, hi⟩ := List.mem_iff_getElem?.mp hl
  have hslots : deletedSlots l.leaf rowIds = [] := by
    by_contra hne
    have hmem : (i, deletedSlots l.leaf rowIds) ∈ leafDeletes (L.map StoredLeaf.leaf) rowIds :=
      mem_leafDeletes.mpr ⟨l, hi, rfl, hne⟩
    rw [h] at hmem
    cases hmem
  have hkeep := filter_survives_of_deletedSlots hslots
  rw [List.filter_eq_self] at hkeep
  simp only [List.any_eq_true, not_exists, not_and, Bool.not_eq_true]
  intro x hx
  have := hkeep x hx
  simp only [survives, Bool.not_eq_eq_eq_not, Bool.not_true, List.contains_eq_mem,
    decide_eq_false_iff_not] at this
  simp only [beq_eq_false_iff_ne, ne_eq]
  rintro rfl
  exact this hr

lemma compactPass_spec (h : IndexOk eng idx c) (hpay : s.hasPayload = false) {w : Work s} {n : ℕ}
    (hs : Session eng { idx with manifest := { idx.manifest with nVectors := n } } w c)
    (rowIds : List RowId) {deletes : List (ℕ × List ℕ)}
    (hdel : deletes = leafDeletes (c.leaves.map StoredLeaf.leaf) rowIds) :
    Meets Failure.Defined ((eng.mapOrder (deletes.map Prod.fst)).foldlM (fun w leafId =>
      compactLeaf eng w leafId ((deletes.find? (·.1 == leafId)).elim [] Prod.snd)) w) fun w' =>
      ∃ L', Session eng { idx with manifest := { idx.manifest with nVectors := n } } w'
          { c with leaves := L' } ∧ Deleted eng rowIds c { c with leaves := L' } := by
  subst hdel
  have hperm := eng.mapOrder_perm
    ((leafDeletes (c.leaves.map StoredLeaf.leaf) rowIds).map Prod.fst)
  refine (hs.foldKeys (P := fun _ => Compacted eng rowIds) (hperm.nodup_iff.mpr nodup_leafDeletes)
    ?_ ?_).mono ?_
  · intro id hid l hl w₁ L H hst hLl
    have hfits := h.agrees.fits l (List.mem_of_getElem? hl)
    obtain ⟨w', l', heq, hst', hframe, hcomp⟩ := compactLeaf_spec hst hLl hpay hfits rowIds
    refine ⟨w', l', hst', hframe, hcomp.fits hfits, ?_, hcomp⟩
    rw [find_leafDeletes hl (hperm.mem_iff.mp hid)]
    exact heq
  · intro id w₁ what hmiss
    simp only [compactLeaf, hmiss, bind, Except.bind, Work.fail]
  · rintro w' ⟨L', hs', ht⟩
    refine ⟨L', hs', rfl, ht.length, fun id l hl => ?_, rfl, rfl, rfl⟩
    obtain ⟨l', hl', hin, hout⟩ := ht.leaf id l hl
    refine ⟨l', hl', ?_⟩
    by_cases hk : id ∈ (leafDeletes (c.leaves.map StoredLeaf.leaf) rowIds).map Prod.fst
    · exact hin (hperm.mem_iff.mpr hk)
    · rw [hout fun hmem => hk (hperm.mem_iff.mp hmem)]
      refine compacted_self ?_
      by_contra hne
      exact hk (List.mem_map.mpr ⟨_, mem_leafDeletes.mpr ⟨l, hl, rfl, hne⟩, rfl⟩)

lemma Deleted.refl {rowIds : List RowId}
    (h : ∀ l ∈ c.leaves, deletedSlots l.leaf rowIds = []) : Deleted eng rowIds c c :=
  ⟨rfl, rfl, fun _ l hl => ⟨l, hl, compacted_self (h l (List.mem_of_getElem? hl))⟩, rfl, rfl, rfl⟩

lemma Deleted.sameShape {rowIds : List RowId} {c₁ c₂ : Contents s} (h : Deleted eng rowIds c c₁)
    (h' : SameShape c₁ c₂) : Deleted eng rowIds c c₂ :=
  ⟨h'.shape.trans h.shape, by rw [h'.leaves, h.length], by rw [h'.leaves]; exact h.leaf,
    h'.codebook.trans h.codebook, h'.pca.trans h.pca, h'.plane.trans h.plane⟩

lemma loadAlloc_withCount (idx : Index s) (n : ℕ) :
    loadAlloc { idx with manifest := { idx.manifest with nVectors := n } } = loadAlloc idx := by
  unfold loadAlloc
  dsimp only

lemma Work.of_withCount (idx : Index s) (n : ℕ) (a : PageAllocator) :
    Work.of { idx with manifest := { idx.manifest with nVectors := n } } a = Work.of idx a := rfl

/-- **Delete.** The listed rows are deleted, or an exception is thrown. -/
theorem deleteBatch_spec (h : IndexOk eng idx c) (rowIds : List RowId) :
    Meets Failure.Defined (deleteBatch eng idx rowIds) fun idx' =>
      ∃ c', DeleteResult eng rowIds idx c idx' c' := by
  unfold deleteBatch
  by_cases hempty : rowIds.isEmpty
  · rw [if_pos hempty]
    rw [List.isEmpty_iff] at hempty
    subst hempty
    refine ⟨c, .refl fun l _ => ?_, fun _ => rfl, .inl ⟨rfl, rfl, by simp⟩⟩
    simp [deletedSlots]
  rw [if_neg hempty]
  by_cases hplane : idx.plane
  · rw [if_pos hplane]
    exact ⟨by simp, by simp⟩
  rw [if_neg hplane]
  by_cases hpay : s.hasPayload
  · rw [if_pos hpay]
    exact ⟨by simp, by simp⟩
  rw [if_neg hpay]
  by_cases hfam : eng.coder.family ≠ .globalPq
  · rw [if_pos hfam]
    exact ⟨by simp, by simp⟩
  rw [if_neg hfam, h.readLeaves]
  dsimp only
  by_cases hnone : (leafDeletes (c.leaves.map StoredLeaf.leaf) rowIds).isEmpty
  · rw [if_pos hnone]
    rw [List.isEmpty_iff] at hnone
    refine ⟨c, .refl fun l hl => ?_, fun _ => rfl, .inl ⟨rfl, rfl, fun r hr =>
      not_isStored_of_leafDeletes hnone hr⟩⟩
    by_contra hne
    obtain ⟨i, hi⟩ := List.mem_iff_getElem?.mp hl
    have hmem : (i, deletedSlots l.leaf rowIds) ∈
        leafDeletes (c.leaves.map StoredLeaf.leaf) rowIds := mem_leafDeletes.mpr ⟨l, hi, rfl, hne⟩
    rw [hnone] at hmem
    cases hmem
  rw [if_neg hnone]
  obtain ⟨a, hload, hs⟩ := h.session
  generalize hn : countAfterDelete idx.manifest.nVectors (c.leaves.map StoredLeaf.leaf) rowIds = n
  rw [loadAlloc_withCount, hload, ok_bind, Work.of_withCount]
  have hpass := compactPass_spec h (by simpa using hpay) (hs.withCount n) rowIds rfl
  refine Meets.bind hpass ?_
  rintro w₁ ⟨L₁, hs₁, hdel⟩
  refine Meets.bind (commitMutable_spec hs₁) ?_
  rintro ⟨idx₂, a₂⟩ ⟨c₂, hafter, -⟩
  exact ⟨c₂, hdel.sameShape hafter.contents.sameShape, fun hp => absurd hp hpay,
    .inr ⟨hafter.advanced.of_withCount, hafter.count.trans hn.symm⟩⟩

end SextantTree
