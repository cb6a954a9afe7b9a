import SextantTree.FsckWalk

/-!
What the walk of `fsck` depends on. A walk that found no damage reads only the extents it lists,
so it comes out the same on every file that agrees with the first on those and is not shorter.
-/

namespace SextantTree.Fsck

open ByteMem Pages FileBytes Outcome StackWalk

/-! ### Buffers -/

section

attribute [local irreducible] ByteMem.word

structure SameBuf (b b' : Buf) : Prop where
  size : b'.size = b.size
  data : ∀ i < b.size, b'.data i = b.data i

namespace SameBuf

variable {b b' : Buf} (h : SameBuf b b')
include h

lemma word (w p : ℕ) : b'.word w p = b.word w p := by
  unfold Buf.word
  rw [h.size]
  split
  · rw [word_congr fun i h₁ h₂ => h.data i (by omega)]
  · rfl

lemma peek {off n : ℕ} (hn : off + n ≤ b.size) :
    ByteMem.peek b'.data off n = ByteMem.peek b.data off n := by
  refine List.map_congr_left fun i hi => ?_
  rw [List.mem_range] at hi
  exact h.data _ (by omega)

lemma bytes (off n : ℕ) : b'.bytes off n = b.bytes off n := by
  unfold Buf.bytes
  rw [h.size]
  split
  · rw [h.peek ‹_›]
  · rfl

lemma crcOk (off : ℕ) : crcOk b' off = crcOk b off := by
  unfold Fsck.crcOk
  rw [h.bytes, h.word]

lemma countLeaf (pages : ℕ) (r : TreeWalkResult) : countLeaf b' pages r = countLeaf b pages r := by
  unfold Fsck.countLeaf
  rw [h.crcOk, h.word, h.word, h.word, h.word]

end SameBuf

/-- `f'` is not shorter than `f` and has its bytes in a range. -/
structure Keeps (f f' : ByteFile) (r : PageRange) : Prop where
  size : f.size ≤ f'.size
  data : ∀ i < r.count * kPageSize, ByteFile.offset r.start + i < f.size →
    f'.data (ByteFile.offset r.start + i) = f.data (ByteFile.offset r.start + i)

lemma Keeps.readPages {f f' : ByteFile} {r : PageRange} (h : Keeps f f' r) {b : Buf}
    (hb : f.readPages r.start r.count = .ok b) :
    ∃ b', f'.readPages r.start r.count = .ok b' ∧ SameBuf b b' := by
  rcases Nat.eq_zero_or_pos r.count with hz | hpos
  · rw [ByteFile.readPages, if_pos hz] at hb ⊢
    exact ⟨b, hb, rfl, fun _ _ => rfl⟩
  · have hread : ByteFile.offset r.start + r.count * kPageSize ≤ f.size := by
      by_contra hcon
      rw [ByteFile.readPages, if_neg hpos.ne', if_neg hcon] at hb
      cases hb
    rw [readPages_ok hpos hread] at hb
    cases hb
    exact ⟨_, readPages_ok hpos (hread.trans h.size), rfl, fun i hi => h.data i hi (by dsimp only at hi; omega)⟩

/-! ### The result only grows -/

/-- What a later result of the walk keeps of an earlier one. -/
structure Grows (r r' : TreeWalkResult) : Prop where
  nodes : r.nodeRanges ⊆ r'.nodeRanges
  leaves : r.leafRanges ⊆ r'.leafRanges
  failures : r.magicFailures ≤ r'.magicFailures

namespace Grows

lemma refl (r : TreeWalkResult) : Grows r r :=
  ⟨List.Subset.refl _, List.Subset.refl _, le_rfl⟩

lemma trans {r s t : TreeWalkResult} (h : Grows r s) (h' : Grows s t) : Grows r t :=
  ⟨fun _ hx => h'.nodes (h.nodes hx), fun _ hx => h'.leaves (h.leaves hx),
    h.failures.trans h'.failures⟩

end Grows

lemma countLeaf_grows {b : Buf} {pages : ℕ} {r r' : TreeWalkResult}
    (h : countLeaf b pages r = .ok r') : Grows r r' := by
  obtain ⟨ok, -, h⟩ := bind_eq_ok.mp h
  obtain ⟨count, -, h⟩ := bind_eq_ok.mp h
  obtain ⟨off, -, h⟩ := bind_eq_ok.mp h
  obtain ⟨page, -, h⟩ := bind_eq_ok.mp h
  obtain ⟨n, -, h⟩ := bind_eq_ok.mp h
  cases h
  exact ⟨List.Subset.refl _, List.Subset.refl _, le_rfl⟩

lemma validateLeaf_grows {f : ByteFile} {l : PageRange} {r r' : TreeWalkResult}
    (h : validateLeaf f l r = .ok r') : Grows r r' ∧ l ∈ r'.leafRanges := by
  set r₀ : TreeWalkResult := { r with leafRanges := r.leafRanges ++ [l], nLeaves := r.nLeaves + 1 }
    with hr₀
  have hgrow : Grows r r₀ := ⟨List.Subset.refl _, List.subset_append_left _ _, le_rfl⟩
  have hmem : l ∈ r₀.leafRanges := List.mem_append_right _ List.mem_cons_self
  suffices hrest : Grows r₀ r' from ⟨hgrow.trans hrest, hrest.leaves hmem⟩
  rw [validateLeaf] at h
  by_cases hbad : l.start = kInvalidPage ∨ l.count = 0
  · rw [if_pos hbad] at h
    cases h
    exact ⟨List.Subset.refl _, List.Subset.refl _, Nat.le_succ _⟩
  · rw [if_neg hbad] at h
    obtain ⟨b, -, h⟩ := bind_eq_ok.mp h
    obtain ⟨magic, -, h⟩ := bind_eq_ok.mp h
    by_cases hmagic : magic ≠ kTreeLeafMagic
    · rw [if_pos hmagic] at h
      cases h
      exact ⟨List.Subset.refl _, List.Subset.refl _, Nat.le_succ _⟩
    · rw [if_neg hmagic] at h
      exact countLeaf_grows h

lemma walkChild_grows {f : ByteFile} {t : LeafTable} {b : Buf} {depth p : ℕ}
    {acc acc' : List StackEntry × TreeWalkResult} (h : walkChild f t b depth p acc = .ok acc') :
    Grows acc.2 acc'.2 := by
  obtain ⟨page, -, h⟩ := bind_eq_ok.mp h
  by_cases hinv : page = kInvalidPage
  · rw [if_pos hinv] at h
    cases h
    exact .refl _
  rw [if_neg hinv] at h
  obtain ⟨isLeaf, -, h⟩ := bind_eq_ok.mp h
  obtain ⟨pages, -, h⟩ := bind_eq_ok.mp h
  by_cases hleaf : isLeaf ≠ 0
  · rw [if_pos hleaf] at h
    obtain ⟨r, hr, h⟩ := bind_eq_ok.mp h
    cases h
    exact (validateLeaf_grows hr).1
  · rw [if_neg hleaf] at h
    cases h
    exact ⟨List.Subset.refl _, List.Subset.refl _, le_rfl⟩

lemma walkChildren_grows {f : ByteFile} {t : LeafTable} {cesize : ℕ} {b : Buf} {depth n p : ℕ}
    {acc acc' : List StackEntry × TreeWalkResult}
    (h : walkChildren f t cesize b depth n p acc = .ok acc') : Grows acc.2 acc'.2 := by
  induction n generalizing p acc with
  | zero =>
    cases h
    exact .refl _
  | succ n ih =>
    obtain ⟨acc₁, h₁, h₂⟩ := bind_eq_ok.mp h
    exact (walkChild_grows h₁).trans (ih h₂)

lemma walkNode_grows {f : ByteFile} {t : LeafTable} {cesize depth : ℕ} {b : Buf}
    {r : TreeWalkResult} {x : List StackEntry × TreeWalkResult}
    (h : walkNode f t cesize depth b r = .ok x) : Grows r x.2 := by
  obtain ⟨ok, -, h⟩ := bind_eq_ok.mp h
  obtain ⟨n, -, h⟩ := bind_eq_ok.mp h
  have := walkChildren_grows h
  exact ⟨this.nodes, this.leaves, this.failures⟩

lemma loadNode_grows {f : ByteFile} {t : LeafTable} {cesize : ℕ} {e : StackEntry}
    {r : TreeWalkResult} {x : List StackEntry × TreeWalkResult}
    (h : loadNode f t cesize e r = .ok x) : Grows r x.2 := by
  obtain ⟨b, -, h⟩ := bind_eq_ok.mp h
  obtain ⟨magic, -, h⟩ := bind_eq_ok.mp h
  by_cases hmagic : magic ≠ kTreeNodeMagic
  · rw [if_pos hmagic] at h
    cases h
    exact ⟨List.Subset.refl _, List.Subset.refl _, Nat.le_succ _⟩
  · rw [if_neg hmagic] at h
    exact walkNode_grows h

lemma visit_grows {f : ByteFile} {t : LeafTable} {cesize : ℕ} {e : StackEntry}
    {r : TreeWalkResult} {x : List StackEntry × TreeWalkResult}
    (h : visit f t cesize e r = .ok x) : Grows r x.2 := by
  rw [visit] at h
  by_cases hinv : e.page = kInvalidPage
  · rw [if_pos hinv] at h
    cases h
    exact .refl _
  rw [if_neg hinv] at h
  by_cases hin : inFile f e.page e.pages = false
  · rw [if_pos hin] at h
    cases h
    exact ⟨List.Subset.refl _, List.Subset.refl _, Nat.le_succ _⟩
  · rw [if_neg hin] at h
    have := loadNode_grows h
    exact ⟨fun y hy => this.nodes (List.mem_append_left _ hy), this.leaves, this.failures⟩

lemma run_grows {f : ByteFile} {t : LeafTable} {cesize n : ℕ} {st : List StackEntry}
    {r r' : TreeWalkResult} (h : run (visit f t cesize) n st r = some (.ok r')) : Grows r r' := by
  induction n generalizing st r with
  | zero =>
    cases st with
    | nil =>
      cases h
      exact .refl _
    | cons e st => cases h
  | succ n ih =>
    cases st with
    | nil =>
      cases h
      exact .refl _
    | cons e st =>
      rw [run] at h
      cases hv : visit f t cesize e r with
      | error e =>
        rw [hv] at h
        cases h
      | ok x =>
        rw [hv] at h
        exact (visit_grows hv).trans (ih h)

/-! ### The walk on another file -/

section Frame

variable {f f' : ByteFile} {t t' : LeafTable}

lemma validateLeaf_frame {l : PageRange} {r r' : TreeWalkResult} (hl : Keeps f f' l)
    (h : validateLeaf f l r = .ok r') : validateLeaf f' l r = .ok r' := by
  rw [validateLeaf] at h ⊢
  by_cases hbad : l.start = kInvalidPage ∨ l.count = 0
  · rwa [if_pos hbad] at h ⊢
  · rw [if_neg hbad] at h ⊢
    obtain ⟨b, hb, h⟩ := bind_eq_ok.mp h
    obtain ⟨b', hb', hsame⟩ := hl.readPages hb
    rw [hb', ok_bind, hsame.word, hsame.countLeaf]
    exact h

lemma walkChild_frame {b b' : Buf} {depth p : ℕ} {acc acc' : List StackEntry × TreeWalkResult}
    (hb : SameBuf b b') (ht : t'.resolve = t.resolve)
    (hk : ∀ l ∈ acc'.2.leafRanges, Keeps f f' l)
    (h : walkChild f t b depth p acc = .ok acc') : walkChild f' t' b' depth p acc = .ok acc' := by
  rw [walkChild, hb.word]
  obtain ⟨page, hpage, h⟩ := bind_eq_ok.mp h
  rw [hpage, ok_bind]
  by_cases hinv : page = kInvalidPage
  · rwa [if_pos hinv] at h ⊢
  rw [if_neg hinv] at h ⊢
  obtain ⟨isLeaf, hisLeaf, h⟩ := bind_eq_ok.mp h
  obtain ⟨pages, hpages, h⟩ := bind_eq_ok.mp h
  rw [hb.word, hisLeaf, ok_bind, hb.word, hpages, ok_bind]
  by_cases hleaf : isLeaf ≠ 0
  · rw [if_pos hleaf] at h ⊢
    obtain ⟨r, hr, h⟩ := bind_eq_ok.mp h
    cases h
    rw [ht, validateLeaf_frame (hk _ (validateLeaf_grows hr).2) hr, ok_bind]
  · rwa [if_neg hleaf] at h ⊢

lemma walkChildren_frame {cesize : ℕ} {b b' : Buf} {depth n p : ℕ}
    {acc acc' : List StackEntry × TreeWalkResult} (hb : SameBuf b b') (ht : t'.resolve = t.resolve)
    (hk : ∀ l ∈ acc'.2.leafRanges, Keeps f f' l)
    (h : walkChildren f t cesize b depth n p acc = .ok acc') :
    walkChildren f' t' cesize b' depth n p acc = .ok acc' := by
  induction n generalizing p acc with
  | zero => exact h
  | succ n ih =>
    obtain ⟨acc₁, h₁, h₂⟩ := bind_eq_ok.mp h
    have hk₁ : ∀ l ∈ acc₁.2.leafRanges, Keeps f f' l :=
      fun l hl => hk l ((walkChildren_grows h₂).leaves hl)
    rw [walkChildren, walkChild_frame hb ht hk₁ h₁, ok_bind, ih h₂]

lemma walkNode_frame {cesize depth : ℕ} {b b' : Buf} {r : TreeWalkResult}
    {x : List StackEntry × TreeWalkResult} (hb : SameBuf b b') (ht : t'.resolve = t.resolve)
    (hk : ∀ l ∈ x.2.leafRanges, Keeps f f' l) (h : walkNode f t cesize depth b r = .ok x) :
    walkNode f' t' cesize depth b' r = .ok x := by
  obtain ⟨ok, hok, h⟩ := bind_eq_ok.mp h
  obtain ⟨n, hn, h⟩ := bind_eq_ok.mp h
  rw [walkNode, hb.crcOk, hok, ok_bind, hb.word, hn, ok_bind]
  exact walkChildren_frame hb ht hk h

lemma loadNode_frame {cesize : ℕ} {e : StackEntry} {r : TreeWalkResult}
    {x : List StackEntry × TreeWalkResult} (he : Keeps f f' ⟨e.page, e.pages⟩)
    (ht : t'.resolve = t.resolve) (hk : ∀ l ∈ x.2.leafRanges, Keeps f f' l)
    (h : loadNode f t cesize e r = .ok x) : loadNode f' t' cesize e r = .ok x := by
  obtain ⟨b, hb, h⟩ := bind_eq_ok.mp h
  obtain ⟨b', hb', hsame⟩ := he.readPages hb
  obtain ⟨magic, hm, h⟩ := bind_eq_ok.mp h
  rw [loadNode, hb', ok_bind, hsame.word, hm, ok_bind]
  by_cases hmagic : magic ≠ kTreeNodeMagic
  · rwa [if_pos hmagic] at h ⊢
  · rw [if_neg hmagic] at h ⊢
    exact walkNode_frame hsame ht hk h

lemma mem_nodeRanges_of_visit {cesize : ℕ} {e : StackEntry} {r : TreeWalkResult}
    {x : List StackEntry × TreeWalkResult} (h : visit f t cesize e r = .ok x)
    (hinv : e.page ≠ kInvalidPage) (hin : inFile f e.page e.pages = true) :
    (⟨e.page, e.pages⟩ : PageRange) ∈ x.2.nodeRanges := by
  rw [visit, if_neg hinv, if_neg (by simp [hin])] at h
  exact (loadNode_grows h).nodes (List.mem_append_right _ List.mem_cons_self)

lemma inFile_mono (hsize : f.size ≤ f'.size) {page pages : ℕ} (h : inFile f page pages = true) :
    inFile f' page pages = true := by
  have hpages : f.numPages ≤ f'.numPages := Nat.div_le_div_right (by omega)
  simp only [inFile, Bool.and_eq_true, decide_eq_true_eq] at h ⊢
  exact ⟨h.1.trans_le hpages, h.2.trans hpages⟩

lemma visit_frame {cesize : ℕ} {e : StackEntry} {r : TreeWalkResult}
    {x : List StackEntry × TreeWalkResult} (hsize : f.size ≤ f'.size) (ht : t'.resolve = t.resolve)
    (hnode : ∀ l ∈ x.2.nodeRanges, Keeps f f' l) (hleaf : ∀ l ∈ x.2.leafRanges, Keeps f f' l)
    (hfail : x.2.magicFailures = 0) (h : visit f t cesize e r = .ok x) :
    visit f' t' cesize e r = .ok x := by
  by_cases hinv : e.page = kInvalidPage
  · rw [visit, if_pos hinv] at h ⊢
    exact h
  by_cases hin : inFile f e.page e.pages = false
  · rw [visit, if_neg hinv, if_pos hin] at h
    cases h
    simp at hfail
  rw [Bool.not_eq_false] at hin
  have hmem := mem_nodeRanges_of_visit h hinv hin
  rw [visit, if_neg hinv, if_neg (by simp [hin])] at h
  rw [visit, if_neg hinv, if_neg (by simp [inFile_mono hsize hin])]
  exact loadNode_frame (hnode _ hmem) ht hleaf h

lemma run_frame {cesize n : ℕ} {st : List StackEntry} {r walk : TreeWalkResult}
    (hsize : f.size ≤ f'.size) (ht : t'.resolve = t.resolve)
    (hnode : ∀ l ∈ walk.nodeRanges, Keeps f f' l) (hleaf : ∀ l ∈ walk.leafRanges, Keeps f f' l)
    (hfail : walk.magicFailures = 0) (h : run (visit f t cesize) n st r = some (.ok walk)) :
    run (visit f' t' cesize) n st r = some (.ok walk) := by
  induction n generalizing st r with
  | zero =>
    cases st with
    | nil =>
      rw [run] at h ⊢
      exact h
    | cons e st => cases h
  | succ n ih =>
    cases st with
    | nil =>
      rw [run] at h ⊢
      exact h
    | cons e st =>
      rw [run] at h ⊢
      cases hv : visit f t cesize e r with
      | error e =>
        rw [hv] at h
        cases h
      | ok x =>
        rw [hv] at h
        have hgrow := run_grows h
        have hx : x.2.magicFailures = 0 := Nat.le_zero.mp (hfail ▸ hgrow.failures)
        rw [visit_frame hsize ht (fun l hl => hnode l (hgrow.nodes hl))
          (fun l hl => hleaf l (hgrow.leaves hl)) hx hv]
        exact ih h

lemma copyLeafTable_frame {b b' : Buf} (hb : SameBuf b b') (h : copyLeafTable b = .ok t) :
    ∃ t', copyLeafTable b' = .ok t' ∧ t'.resolve = t.resolve := by
  obtain ⟨n, hn, h⟩ := bind_eq_ok.mp h
  rw [copyLeafTable, hb.word, hn, ok_bind, hb.size]
  by_cases hmax : maxEntries < n
  · rw [if_pos hmax] at h
    cases h
  rw [if_neg hmax] at h ⊢
  by_cases hfit : 8 + n * 12 ≤ b.size
  · rw [if_pos hfit] at h ⊢
    cases h
    refine ⟨_, rfl, ?_⟩
    funext id pages
    simp only [LeafTable.resolve]
    split
    · rw [word_congr fun i h₁ h₂ => hb.data i (by omega),
        word_congr fun i h₁ h₂ => hb.data i (by omega)]
    · rfl
  · rw [if_neg hfit] at h
    cases h

/-- `walk_tree` on a file that keeps the leaf table and the extents of the tree, from a
superblock that points to the same. -/
lemma walkTree_frame {sb sb' : Superblock} {m : Manifest} {fuel : ℕ} {walk : TreeWalkResult}
    (hsize : f.size ≤ f'.size) (hroot : rootEntry sb' = rootEntry sb)
    (htable : sb'.leafTablePage = sb.leafTablePage) (htables : sb'.leafTablePages = sb.leafTablePages)
    (hkeep : Keeps f f' ⟨sb.leafTablePage, sb.leafTablePages⟩)
    (hnode : ∀ l ∈ walk.nodeRanges, Keeps f f' l) (hleaf : ∀ l ∈ walk.leafRanges, Keeps f f' l)
    (hfail : walk.magicFailures = 0) (h : walkTree fuel f sb m = some (.ok walk)) :
    walkTree fuel f' sb' m = some (.ok walk) := by
  cases ht : loadLeafTable f sb with
  | error e =>
    rw [walkTree, ht] at h
    cases h
  | ok t =>
    rw [walkTree_eq_of_load ht] at h
    obtain ⟨t', ht', hres⟩ : ∃ t', loadLeafTable f' sb' = .ok t' ∧ t'.resolve = t.resolve := by
      rw [loadLeafTable] at ht
      rw [loadLeafTable, htable, htables]
      split
      · rename_i hmiss
        rw [if_pos hmiss] at ht
        cases ht
      · rename_i hmiss
        rw [if_neg hmiss] at ht
        obtain ⟨b, hb, ht⟩ := bind_eq_ok.mp ht
        obtain ⟨b', hb', hsame⟩ := hkeep.readPages hb
        rw [hb', ok_bind]
        exact copyLeafTable_frame hsame ht
    rw [walkTree_eq_of_load ht', hroot]
    exact run_frame hsize hres hnode hleaf hfail h

end Frame

end

end SextantTree.Fsck
