import SextantTree.WorkSpec

/-!
A mutation in progress. Between two commits the volume holds the tree and the leaves as they
are now, with the leaf table and the manifest still as the last commit left them. `Session`
ties the three together, the open index, the work and the contents: the passes over leaves
and the splits change the contents, and a commit makes them the contents of the file.
-/

namespace SextantTree

open Pages Alloc AllocInv AllocRun Heap FilterHash Outcome

variable {s : Schema}

/-- A failure the language gives a meaning to: an exception, and not an endless loop. -/
def ErrorKind.Defined (k : ErrorKind) : Prop := k ≠ .undefined ∧ k ≠ .diverged

def Failure.Defined (f : Failure s) : Prop := f.kind.Defined

/-- The manifest without the two counts that a mutation changes. -/
def Manifest.fixed (m : Manifest) : Manifest := { m with nVectors := 0, nLeaves := 0 }

def nodeChild (c : ChildEntry) : RootChild := ⟨c.childPage, c.childPages, false, c.centroid⟩

/-- The open index agrees with the contents, and the tree reaches every leaf once. -/
structure Agrees (eng : Engine) (idx : Index s) (c : Contents s) : Prop where
  manifest : idx.manifest.fixed = c.manifest.fixed
  disk : idx.nVectorsDisk = c.manifest.nVectors
  depth : c.manifest.depth = c.below + 1
  below : c.below ≤ 2
  linked : c.tree.ids.Perm (List.range c.leaves.length)
  /-- The root of a tree of depth one has no empty cluster. -/
  full : c.below = 0 → ∀ k ∈ Inner.kids c.tree, k.2.isSome
  /-- The root children in memory are those of the file where splits rely on them. -/
  children : c.below = 2 → idx.rootChildren =
    (Inner.kids c.tree).map fun k => nodeChild (Tree.entry s c.manifest.dim k)
  fits : ∀ l ∈ c.leaves, l.leaf.Fits eng

namespace Agrees

variable {eng : Engine} {idx : Index s} {c : Contents s}

lemma dim (h : Agrees eng idx c) : idx.manifest.dim = c.manifest.dim := by
  have := congrArg Manifest.dim h.manifest
  exact this

lemma depth_eq (h : Agrees eng idx c) : idx.manifest.depth = c.below + 1 := by
  have := congrArg Manifest.depth h.manifest
  exact this.trans h.depth

lemma lt_length (h : Agrees eng idx c) {i : ℕ} (hi : i ∈ c.tree.ids) : i < c.leaves.length :=
  List.mem_range.mp (h.linked.mem_iff.mp hi)

end Agrees

namespace Contents

/-- The extents besides the tree, the leaves and the leaf table. -/
def others (c : Contents s) : List (Ext (Obj s)) :=
  c.configExt ::
    (Slot.exts c.codebook ++ Slot.exts c.pca ++ Slot.exts c.cardinality ++ Slot.exts c.plane)

structure Blobs (c : Contents s) (sb : SuperblockDisk) : Prop where
  depth : sb.depth = c.below + 1
  config : sb.config = ⟨some c.configPage, pagesFor c.configBytes⟩
  codebook : Slot.Names c.codebook sb.codebook
  pca : Slot.Names c.pca sb.pca
  cardinality : Slot.Names c.cardinality sb.cardinality
  plane : Slot.Names c.plane sb.plane

end Contents

/-- An index, the work in progress on it and the contents they stand for. -/
structure Session (eng : Engine) (idx : Index s) (w : Work s) (c : Contents s) : Prop where
  agrees : Agrees eng idx c
  /-- The leaf table on disk is still the last committed one. -/
  stored : ∃ es, idx.super.leafTable = ⟨some c.tablePage, (Obj.leafTable (s := s) es).pages⟩ ∧
    Stored w c.leaves (c.tree.exts s c.manifest.dim ++
      (⟨c.tablePage, (Obj.leafTable (s := s) es).pages, some (.leafTable es)⟩ :: c.others))
  root : w.root = Inner.extent s c.manifest.dim c.tree
  current : ∃ sb, Current w.vol.file sb ∧ sb.commitSeq = idx.super.commitSeq
  bitmapPage : w.vol.alloc.bitmapPage = 2
  superPage : idx.super.bitmapPage = 2
  bitmapPages : idx.super.bitmapPages = w.vol.alloc.bitmapPages
  region : Region w.vol.alloc.bitmapPages
  blobs : c.Blobs idx.super
  configPos : 0 < c.configBytes

namespace Session

variable {eng : Engine} {idx : Index s} {w : Work s} {c : Contents s}

lemma exists_stored (h : Session eng idx w c) : ∃ H, Stored w c.leaves
    (c.tree.exts s c.manifest.dim ++ H) := by
  obtain ⟨es, -, hst⟩ := h.stored
  exact ⟨_, hst⟩

lemma of_kept (h : Session eng idx w c) {w' : Work s} {c' : Contents s} (hk : Kept w.vol w'.vol)
    (hagrees : Agrees eng idx c')
    (hstored : ∃ es, idx.super.leafTable = ⟨some c'.tablePage, (Obj.leafTable (s := s) es).pages⟩ ∧
      Stored w' c'.leaves (c'.tree.exts s c'.manifest.dim ++
        (⟨c'.tablePage, (Obj.leafTable (s := s) es).pages, some (.leafTable es)⟩ :: c'.others)))
    (hroot : w'.root = Inner.extent s c'.manifest.dim c'.tree) (hblobs : c'.Blobs idx.super)
    (hconfig : 0 < c'.configBytes) : Session eng idx w' c' where
  agrees := hagrees
  stored := hstored
  root := hroot
  current := by
    obtain ⟨sb, hsb, hseq⟩ := h.current
    refine ⟨sb, hsb.congr fun p hp => hk.pages p ?_, hseq⟩
    rw [PageAllocator.firstFree, h.bitmapPage]
    omega
  bitmapPage := hk.bitmapPage.trans h.bitmapPage
  superPage := h.superPage
  bitmapPages := h.bitmapPages.trans hk.bitmapPages.symm
  region := hk.bitmapPages ▸ h.region
  blobs := hblobs
  configPos := hconfig

lemma set_leaf (h : Session eng idx w c) (id : ℕ) (Q : Work s → StoredLeaf s → Prop)
    (hst : ∀ H, Stored w c.leaves H → ∃ w' l', Stored w' (c.leaves.set id l') H ∧ Frame w w' ∧
      l'.leaf.Fits eng ∧ Q w' l') :
    ∃ w' l', Session eng idx w' { c with leaves := c.leaves.set id l' } ∧ Q w' l' := by
  obtain ⟨es, hes, hold⟩ := h.stored
  obtain ⟨w', l', hst', hframe, hfits, hq⟩ := hst _ hold
  have hagrees : Agrees eng idx { c with leaves := c.leaves.set id l' } :=
    { manifest := h.agrees.manifest
      disk := h.agrees.disk
      depth := h.agrees.depth
      below := h.agrees.below
      linked := by
        simp only [List.length_set]
        exact h.agrees.linked
      full := h.agrees.full
      children := h.agrees.children
      fits := fun x hx => by
        rcases List.mem_or_eq_of_mem_set hx with hx | rfl
        · exact h.agrees.fits x hx
        · exact hfits }
  exact ⟨w', l', h.of_kept hframe.kept hagrees ⟨es, hes, hst'⟩ (hframe.root.trans h.root)
    ⟨h.blobs.depth, h.blobs.config, h.blobs.codebook, h.blobs.pca, h.blobs.cardinality,
      h.blobs.plane⟩ h.configPos, hq⟩

end Session

/-! ### Passes over some leaves -/

/-- The leaves named by the keys have changed as `P` says, the others have not. -/
structure Touched (keys : List ℕ) (P : ℕ → StoredLeaf s → StoredLeaf s → Prop)
    (L L' : List (StoredLeaf s)) : Prop where
  inTable : ∀ id ∈ keys, id < L.length
  length : L'.length = L.length
  leaf : ∀ id l, L[id]? = some l → ∃ l', L'[id]? = some l' ∧ (id ∈ keys → P id l l') ∧
    (id ∉ keys → l' = l)

lemma Touched.set {keys : List ℕ} {P : ℕ → StoredLeaf s → StoredLeaf s → Prop}
    {L L' : List (StoredLeaf s)} (h : Touched keys P L L') {id : ℕ} {l l' : StoredLeaf s}
    (hid : id ∉ keys) (hl : L[id]? = some l) (hP : P id l l') :
    L'[id]? = some l ∧ Touched (keys ++ [id]) P L (L'.set id l') := by
  obtain ⟨x, hx, -, hsame⟩ := h.leaf id l hl
  have hlt := (List.getElem?_eq_some_iff.mp hl).1
  refine ⟨hx.trans (congrArg some (hsame hid)), ?_, ?_, ?_⟩
  · intro i hi
    rcases List.mem_append.mp hi with hi | hi
    · exact h.inTable i hi
    · rw [List.mem_singleton.mp hi]
      exact hlt
  · rw [List.length_set, h.length]
  · intro i m hm
    by_cases hi : i = id
    · subst hi
      rw [hl] at hm
      cases hm
      refine ⟨l', by simp [h.length, hlt], fun _ => hP, fun hn => absurd ?_ hn⟩
      simp
    · obtain ⟨y, hy, hin, hout⟩ := h.leaf i m hm
      refine ⟨y, by rw [List.getElem?_set_ne (Ne.symm hi)]; exact hy, fun hk => hin ?_,
        fun hk => hout ?_⟩
      · simpa [hi] using hk
      · simpa [hi] using hk

/-- **A pass over leaves.** Each key is handled once; a key without a leaf ends the pass with an
exception. -/
theorem Session.foldKeys {eng : Engine} {idx : Index s} {w : Work s} {c : Contents s}
    (h : Session eng idx w c) {f : Work s → ℕ → Except (Failure s) (Work s)}
    {P : ℕ → StoredLeaf s → StoredLeaf s → Prop} {keys : List ℕ} (hnodup : keys.Nodup)
    (hstep : ∀ id ∈ keys, ∀ l, c.leaves[id]? = some l → ∀ w L H, Stored w L H → L[id]? = some l →
      ∃ w' l', Stored w' (L.set id l') H ∧ Frame w w' ∧ l'.leaf.Fits eng ∧
        f w id = .ok w' ∧ P id l l')
    (hmiss : ∀ id w what, w.leaf id = w.fail (.thrown what) → f w id = w.fail (.thrown what)) :
    Meets Failure.Defined (keys.foldlM f w) fun w' =>
      ∃ L', Session eng idx w' { c with leaves := L' } ∧ Touched keys P c.leaves L' := by
  refine Meets.foldlM (fun done w' =>
    ∃ L', Session eng idx w' { c with leaves := L' } ∧ Touched done P c.leaves L') ?_ ?_
  · rintro done id rest w₁ hkeys ⟨L₁, hs₁, ht₁⟩
    have hid : id ∉ done := by
      rw [hkeys, List.nodup_append'] at hnodup
      exact fun hmem => hnodup.2.2 hmem List.mem_cons_self
    have hin : id ∈ keys := by rw [hkeys]; simp
    cases hl : c.leaves[id]? with
    | none =>
      obtain ⟨H, hst⟩ := hs₁.exists_stored
      have hnone : L₁[id]? = none := by
        rw [List.getElem?_eq_none_iff] at hl ⊢
        rw [ht₁.length]
        exact hl
      obtain ⟨what, hwhat⟩ := hst.leaf_none hnone
      rw [hmiss id w₁ what hwhat]
      exact ⟨by simp, by simp⟩
    | some l =>
      obtain ⟨w', l', hs', heq, hP⟩ := hs₁.set_leaf id
        (fun w' l' => f w₁ id = .ok w' ∧ P id l l') fun H hst => by
          obtain ⟨x, hx, -, hsame⟩ := ht₁.leaf id l hl
          exact hstep id hin l hl w₁ L₁ H hst (hx.trans (congrArg some (hsame hid)))
      rw [heq]
      exact ⟨_, hs', (ht₁.set hid hl hP).2⟩
  · exact ⟨c.leaves, h, by simp, rfl, fun id l hl => ⟨l, hl, by simp, fun _ => rfl⟩⟩

end SextantTree
