import SextantTree.PassSpec

/-!
The passes that commit as they go. `vacuum` and `defrag` walk over the leaf table and commit after
every so many leaves they have changed; between two commits the pass goes on with the index as it was
remapped. Wherever the commits fall, the pass ends in an index whose leaves are the old ones, each
changed as the step changes it.
-/

namespace SextantTree

open Pages Alloc AllocInv AllocRun Heap FilterHash Outcome

variable {s : Schema} {eng : Engine} {idx idx₁ idx₂ : Index s} {w : Work s} {c c₁ c₂ c₃ : Contents s}
  {P : StoredLeaf s → StoredLeaf s → Prop} {n : ℕ}

/-! ### Contents in the middle of a pass -/

/-- The first `n` leaves have been handled, the others are as they were; the tree reaches what it
reached, and the blobs of the build are in place. -/
structure Passed (P : StoredLeaf s → StoredLeaf s → Prop) (n : ℕ) (c c' : Contents s) : Prop where
  touched : Touched (List.range n) (fun _ => P) c.leaves c'.leaves
  shape : c'.shape = c.shape
  codebook : c'.codebook = c.codebook
  pca : c'.pca = c.pca
  plane : c'.plane = c.plane

namespace Passed

lemma start (P : StoredLeaf s → StoredLeaf s → Prop) (c : Contents s) : Passed P 0 c c where
  touched := ⟨by simp, rfl, fun id l hl => ⟨l, hl, by simp, fun _ => rfl⟩⟩
  shape := rfl
  codebook := rfl
  pca := rfl
  plane := rfl

lemma leaf_eq (h : Passed P n c c₁) {l : StoredLeaf s} (hl : c.leaves[n]? = some l) :
    c₁.leaves[n]? = some l := by
  obtain ⟨l', hl', -, hsame⟩ := h.touched.leaf n l hl
  rw [hl', hsame (by simp)]

lemma set (h : Passed P n c c₁) {l l' : StoredLeaf s} (hl : c.leaves[n]? = some l) (hP : P l l') :
    Passed P (n + 1) c { c₁ with leaves := c₁.leaves.set n l' } where
  touched := by
    rw [List.range_succ]
    exact (h.touched.set (by simp) hl hP).2
  shape := h.shape
  codebook := h.codebook
  pca := h.pca
  plane := h.plane

lemma skip (h : Passed P n c c₁) {l : StoredLeaf s} (hl : c.leaves[n]? = some l) (hP : P l l) :
    Passed P (n + 1) c c₁ := by
  have hset : ({ c₁ with leaves := c₁.leaves.set n l } : Contents s) = c₁ := by
    rw [set_of_getElem? (h.leaf_eq hl)]
  exact hset ▸ h.set hl hP

lemma sameShape (h : Passed P n c c₁) (h' : SameShape c₁ c₂) : Passed P n c c₂ where
  touched := h'.leaves ▸ h.touched
  shape := h'.shape.trans h.shape
  codebook := h'.codebook.trans h.codebook
  pca := h'.pca.trans h.pca
  plane := h'.plane.trans h.plane

lemma forall₂ (h : Passed P c.leaves.length c c₁) : List.Forall₂ P c.leaves c₁.leaves := by
  rw [List.forall₂_iff_get]
  refine ⟨h.touched.length.symm, fun i hi hi' => ?_⟩
  obtain ⟨l', hl', hP, -⟩ := h.touched.leaf i _ (List.getElem?_eq_getElem hi)
  have hl : c₁.leaves[i] = l' := by
    rw [List.getElem?_eq_getElem hi'] at hl'
    exact Option.some.inj hl'
  simpa [hl] using hP (List.mem_range.mpr hi)

end Passed

/-! ### The index in the middle of a pass -/

/-- The index the pass goes on with: the one it began with, or one a commit left. -/
structure Since (eng : Engine) (idx idx' : Index s) : Prop where
  count : idx'.manifest.nVectors = idx.manifest.nVectors
  moved : idx' = idx ∨ ∃ c', Advanced eng idx idx' c'

lemma Since.refl (eng : Engine) (idx : Index s) : Since eng idx idx := ⟨rfl, .inl rfl⟩

lemma Since.advanced (h : Since eng idx idx₁) (h' : Advanced eng idx₁ idx₂ c₂) :
    Advanced eng idx idx₂ c₂ := by
  obtain rfl | ⟨c', hc'⟩ := h.moved
  · exact h'
  · exact hc'.trans h'

lemma Since.commit {c' : Contents s} (h : Since eng idx idx₁)
    (h' : AfterCommit eng idx₁ c₁ idx₂ c') : Since eng idx idx₂ :=
  ⟨h'.count.trans h.count, .inr ⟨c', h.advanced h'.advanced⟩⟩

lemma Session.dropFree {a : PageAllocator} (h : Session eng idx (Work.of idx a) c) :
    Session eng idx (Work.of idx (clearFreeList a)) c where
  agrees := h.agrees
  stored := by
    obtain ⟨es, hes, hst⟩ := h.stored
    exact ⟨es, hes, hst.holds.clearFreeList, hst.table, hst.ok⟩
  root := h.root
  current := h.current
  bitmapPage := h.bitmapPage
  superPage := h.superPage
  bitmapPages := h.bitmapPages
  region := h.region
  blobs := h.blobs
  configPos := h.configPos

/-- Where a pass stands: the session goes on with the last committed index, and with no leaf pending
nothing has changed since. -/
structure Standstill (eng : Engine) (P : StoredLeaf s → StoredLeaf s → Prop) (idx : Index s)
    (c : Contents s) (n pending : ℕ) (idx₁ : Index s) (w : Work s) (c₁ : Contents s) : Prop where
  session : Session eng idx₁ w c₁
  since : Since eng idx idx₁
  passed : Passed P n c c₁
  clean : pending = 0 → IndexOk eng idx₁ c₁ ∧ (idx₁ = idx ∨ Advanced eng idx idx₁ c₁) ∧
    ∃ a, w = Work.of idx₁ a

lemma commitBatch_spec {pending : ℕ} (h : Standstill eng P idx c n pending idx₁ w c₁) :
    Meets Failure.Defined (commitBatch eng idx₁ w) fun r =>
      ∃ c₂, Standstill eng P idx c n 0 r.1 r.2 c₂ := by
  unfold commitBatch
  refine Meets.bind (commitMutable_spec h.session) ?_
  rintro ⟨idx₂, a⟩ ⟨c₂, hafter, hs⟩
  have hadv := h.since.advanced hafter.advanced
  exact ⟨c₂, hs.dropFree, h.since.commit hafter, h.passed.sameShape hafter.contents.sameShape,
    fun _ => ⟨hadv.index, .inr hadv, _, rfl⟩⟩

/-- What the step of a pass does: it leaves a leaf alone, or changes it and nothing else. -/
def StepSpec (eng : Engine) (P : StoredLeaf s → StoredLeaf s → Prop)
    (step : Work s → ℕ → Except (Failure s) (Option (Work s))) : Prop :=
  ∀ w L H id l, Stored w L H → L[id]? = some l → l.leaf.Fits eng →
    (step w id = .ok none ∧ P l l) ∨ ∃ w' l', step w id = .ok (some w') ∧
      Stored w' (L.set id l') H ∧ Frame w w' ∧ l'.leaf.Fits eng ∧ P l l'

variable {step : Work s → ℕ → Except (Failure s) (Option (Work s))}

lemma Standstill.next {pending : ℕ} (h : Standstill eng P idx c n pending idx₁ w c₁)
    (hstep : StepSpec eng P step) (hn : n < c.leaves.length) :
    (step w n = .ok none ∧ Standstill eng P idx c (n + 1) pending idx₁ w c₁) ∨
      ∃ w' c₂, step w n = .ok (some w') ∧
        Standstill eng P idx c (n + 1) (pending + 1) idx₁ w' c₂ := by
  have hl := List.getElem?_eq_getElem hn
  have hl₁ := h.passed.leaf_eq hl
  have hfits := h.session.agrees.fits _ (List.mem_of_getElem? hl₁)
  by_cases hchange : step w n = .ok none
  · refine .inl ⟨hchange, h.session, h.since, h.passed.skip hl ?_, h.clean⟩
    obtain ⟨H, hst⟩ := h.session.exists_stored
    obtain ⟨-, hP⟩ | ⟨w', l', heq, -⟩ := hstep w c₁.leaves _ n _ hst hl₁ hfits
    · exact hP
    · rw [hchange] at heq
      cases heq
  · right
    obtain ⟨w', l', hs', heq, hP⟩ := h.session.set_leaf n
      (fun w' l' => step w n = .ok (some w') ∧ P c.leaves[n] l') fun H hst => by
        obtain ⟨hnone, -⟩ | ⟨w', l', heq, hst', hframe, hfits', hP⟩ :=
          hstep w c₁.leaves H n _ hst hl₁ hfits
        · exact absurd hnone hchange
        · exact ⟨w', l', hst', hframe, hfits', heq, hP⟩
    exact ⟨w', _, heq, hs', h.since, h.passed.set hl hP, fun h0 => by omega⟩

/-- **A pass that commits as it goes.** From any leaf on, with any batch size, every leaf is handled
once and the index ends up committed. -/
theorem batchedPass_spec (hstep : StepSpec eng P step) (batchSize : ℕ) :
    ∀ (fuel n pending : ℕ) (idx₁ : Index s) (w : Work s) (c₁ : Contents s),
      Standstill eng P idx c n pending idx₁ w c₁ → n + fuel = c.leaves.length →
      Meets Failure.Defined (batchedPass eng step batchSize fuel n pending idx₁ w) fun r =>
        ∃ c', Standstill eng P idx c c.leaves.length 0 r.1 r.2 c'
  | 0, n, pending, idx₁, w, c₁, h, hn => by
    rw [batchedPass]
    obtain rfl : n = c.leaves.length := by omega
    by_cases hp : 0 < pending
    · rw [if_pos hp]
      exact commitBatch_spec h
    · rw [if_neg hp]
      obtain rfl : pending = 0 := by omega
      exact ⟨c₁, h⟩
  | fuel + 1, n, pending, idx₁, w, c₁, h, hn => by
    have ih := batchedPass_spec hstep batchSize fuel (n + 1)
    rw [batchedPass]
    obtain ⟨heq, h'⟩ | ⟨w', c₂, heq, h'⟩ := h.next hstep (by omega)
    · rw [heq, ok_bind]
      exact ih _ _ _ _ h' (by omega)
    · rw [heq, ok_bind]
      dsimp only
      split_ifs with hbatch
      · refine Meets.bind (commitBatch_spec h') ?_
        rintro ⟨idx₂, w₂⟩ ⟨c₃, h₃⟩
        exact ih _ _ _ _ h₃ (by omega)
      · exact ih _ _ _ _ h' (by omega)

structure PassResult (eng : Engine) (P : StoredLeaf s → StoredLeaf s → Prop) (idx : Index s)
    (c : Contents s) (idx' : Index s) (c' : Contents s) : Prop where
  index : IndexOk eng idx' c'
  moved : idx' = idx ∨ Advanced eng idx idx' c'
  count : idx'.manifest.nVectors = idx.manifest.nVectors
  leaves : List.Forall₂ P c.leaves c'.leaves
  shape : c'.shape = c.shape
  codebook : c'.codebook = c.codebook
  pca : c'.pca = c.pca
  plane : c'.plane = c.plane

lemma Standstill.result {c' : Contents s}
    (h : Standstill eng P idx c c.leaves.length 0 idx₁ w c') : PassResult eng P idx c idx₁ c' := by
  obtain ⟨hok, hmoved, -⟩ := h.clean rfl
  exact ⟨hok, hmoved, h.since.count, h.passed.forall₂, h.passed.shape, h.passed.codebook,
    h.passed.pca, h.passed.plane⟩

lemma IndexOk.pass (h : IndexOk eng idx c) (hstep : StepSpec eng P step) (batchSize : ℕ)
    {a : PageAllocator} (hs : Session eng idx (Work.of idx a) c) :
    Meets Failure.Defined
      (batchedPass eng step batchSize idx.leafTable.length 0 0 idx (Work.of idx a)) fun r =>
      ∃ c', Standstill eng P idx c c.leaves.length 0 r.1 r.2 c' := by
  have hlen : idx.leafTable.length = c.leaves.length := by
    rw [h.table, Contents.table, List.length_map]
  rw [hlen]
  exact batchedPass_spec hstep batchSize _ _ _ _ _ _
    ⟨hs, .refl eng idx, .start P c, fun _ => ⟨h, .inl rfl, a, rfl⟩⟩ (by omega)

/-! ### The two steps -/

/-- What `vacuum` makes of a leaf: a fresh summary if it was dirty, the rows and payloads as they
were. -/
def Vacuumed (l l' : StoredLeaf s) : Prop :=
  l'.leaf = (if l.leaf.summaryDirty then repairedLeaf l.leaf else l.leaf) ∧ l'.payloads = l.payloads

lemma repairLeaf_stepSpec (eng : Engine) : StepSpec (s := s) eng Vacuumed repairLeaf := by
  intro w L H id l hst hl hfits
  have hlok := hst.ok l (List.mem_of_getElem? hl)
  obtain ⟨hpages, hpay, -⟩ := repairedLeaf_frame l.leaf
  have hread : repairLeaf w id =
      if l.leaf.summaryDirty then .ok (some (writeLeaf w id (repairedLeaf l.leaf))) else .ok none := by
    simp only [repairLeaf, hst.valid hl, StoredLeaf.extent, reduceCtorEq, if_false, hst.leaf hl, bind,
      Except.bind]
  by_cases hd : l.leaf.summaryDirty
  · obtain ⟨page, hst', hframe⟩ := hst.writeLeaf hl (repairedLeaf l.leaf)
      (hpages ▸ hlok.pages_pos) hpay fun _ => by rw [Leaf.count, rows_repairedLeaf, Leaf.count]
    refine .inr ⟨_, _, by rw [hread, if_pos hd], hst', hframe, hfits.repaired, ?_, rfl⟩
    rw [if_pos hd]
  · refine .inl ⟨by rw [hread, if_neg hd], ?_, rfl⟩
    rw [if_neg hd]

def Relocated (l l' : StoredLeaf s) : Prop := l'.leaf = l.leaf ∧ l'.payloads = l.payloads

lemma relocateLeaf_stepSpec (eng : Engine) : StepSpec (s := s) eng Relocated relocateLeaf := by
  intro w L H id l hst hl hfits
  obtain ⟨w', page, heq, hst', hframe⟩ := relocateLeaf_spec hst hl
  exact .inr ⟨w', _, heq, hst', hframe, hfits, rfl, rfl⟩

end SextantTree
