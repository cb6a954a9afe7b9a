import SextantTree.RemapSpec

/-!
A commit turns the contents of a session into the contents of the file, or stops with the
exception of the allocator.
-/

namespace SextantTree

open Pages Alloc AllocInv AllocRun Heap FilterHash Outcome

variable {s : Schema} {eng : Engine} {idx : Index s} {w : Work s} {c : Contents s}

/-- An open index between two operations. -/
structure IndexOk (eng : Engine) (idx : Index s) (c : Contents s) : Prop where
  committed : Committed idx.file idx.super c
  agrees : Agrees eng idx c
  table : idx.leafTable = c.table
  count : idx.manifest.nVectors = idx.nVectorsDisk
  /-- The root children in memory are those of the file. -/
  loaded : loadRoot idx.file idx.super.root idx.leafTable = .ok idx.rootChildren

namespace Contents

lemma heap_perm (c : Contents s) : c.heap.Perm (c.leaves.flatMap StoredLeaf.exts ++
    (c.tree.exts s c.manifest.dim ++ (c.tableExt :: c.others))) := by
  rw [heap, ← List.append_assoc]
  exact List.perm_append_comm.append_right _

lemma Named.blobs {c : Contents s} {sb : SuperblockDisk} (h : c.Named sb) : c.Blobs sb :=
  ⟨h.depth, h.config, h.codebook, h.pca, h.cardinality, h.plane⟩

/-- The same contents written out by a commit: a new leaf table, and a new manifest or the old
one. -/
def recommitted (c : Contents s) (tablePage : ℕ) (m : Manifest) (configPage configBytes : ℕ) :
    Contents s :=
  { c with
    tablePage := tablePage
    manifest := m
    configPage := configPage
    configBytes := configBytes }

end Contents

lemma IndexOk.session_of (h : IndexOk eng idx c) {a : PageAllocator}
    (hold : Holds Obj.image ⟨idx.file, a⟩ c.heap) (hpage : a.bitmapPage = idx.super.bitmapPage)
    (hpages : a.bitmapPages = idx.super.bitmapPages) : Session eng idx (Work.of idx a) c where
  agrees := h.agrees
  stored := ⟨c.table, h.committed.named.table, hold.perm c.heap_perm, h.table,
    h.committed.sound.leaf⟩
  root := h.committed.named.root
  current := ⟨_, h.committed.current, rfl⟩
  bitmapPage := hpage.trans h.committed.bitmapPage
  superPage := h.committed.bitmapPage
  bitmapPages := hpages.symm
  region := hpages ▸ h.committed.bitmapPages
  blobs := h.committed.named.blobs
  configPos := h.committed.sound.config

lemma IndexOk.readLeaf (h : IndexOk eng idx c) {id : ℕ} {l : StoredLeaf s}
    (hl : c.leaves[id]? = some l) : SextantTree.readLeaf idx.file idx.leafTable id = .ok l.leaf := by
  obtain ⟨a, ha⟩ := h.committed.holds
  have hmem := List.mem_of_getElem? hl
  have hentry : idx.leafTable[id]? = some l.extent := by
    rw [h.table, Contents.table, List.getElem?_map, hl]
    rfl
  have hread := readLeaf_of_holds ha (Contents.leaf_exts_mem hmem) (h.committed.sound.leaf l hmem)
  simp only at hread
  simp only [SextantTree.readLeaf, hentry, hread]

theorem IndexOk.session (h : IndexOk eng idx c) :
    ∃ a, loadAlloc idx = .ok a ∧ Session eng idx (Work.of idx a) c := by
  obtain ⟨a, hload, hold⟩ := h.committed.alloc
  have hfields : a.bitmapPage = idx.super.bitmapPage ∧ a.bitmapPages = idx.super.bitmapPages := by
    unfold load at hload
    split at hload
    · cases hload
    · cases hload
      exact ⟨rfl, rfl⟩
  exact ⟨a, by rw [loadAlloc, hload], h.session_of hold hfields.1 hfields.2⟩

lemma Session.withCount (h : Session eng idx w c) (n : ℕ) :
    Session eng { idx with manifest := { idx.manifest with nVectors := n } } w c where
  agrees := ⟨h.agrees.manifest, h.agrees.disk, h.agrees.depth, h.agrees.below, h.agrees.linked,
    h.agrees.full, h.agrees.children, h.agrees.fits⟩
  stored := h.stored
  root := h.root
  current := h.current
  bitmapPage := h.bitmapPage
  superPage := h.superPage
  bitmapPages := h.bitmapPages
  region := h.region
  blobs := h.blobs
  configPos := h.configPos

/-! ### The two blobs a commit writes -/

lemma writeTable_of_session (h : Session eng idx w c) : ∃ page v,
    freeAt (writeObj w.vol (.leafTable w.leafTable)).2 idx.super.leafTable = v ∧
      (writeObj w.vol (.leafTable w.leafTable)).1 =
        ⟨some page, (Obj.leafTable (s := s) c.table).pages⟩ ∧
      Holds Obj.image v (c.leaves.flatMap StoredLeaf.exts ++ (c.tree.exts s c.manifest.dim ++
        (⟨page, (Obj.leafTable (s := s) c.table).pages, some (.leafTable c.table)⟩ :: c.others))) ∧
      Kept w.vol v := by
  obtain ⟨es, hes, hst⟩ := h.stored
  have htab : w.leafTable = c.table := hst.table
  have hold := hst.holds
  rw [← List.append_assoc] at hold
  obtain ⟨page, v₁, hw, h₁, hk₁⟩ := writeObj_of_holds (o := Obj.leafTable c.table) (hold.pull _)
    (pagesFor_pos (by omega))
  obtain ⟨h₂, hk₂⟩ := (h₁.perm (.swap _ _ _)).free
  refine ⟨page, _, rfl, by rw [htab, hw], ?_, ?_⟩
  · rw [htab, hw, hes]
    rw [← List.append_assoc]
    exact h₂.perm List.perm_middle.symm
  · rw [htab, hw, hes]
    exact hk₁.trans hk₂

lemma writeManifest_of_holds {v : TreeVol s} {A B : List (Ext (Obj s))} (hagree : Agrees eng idx c)
    (hconfig : idx.super.config = ⟨some c.configPage, pagesFor c.configBytes⟩)
    (hpos : 0 < c.configBytes) (h : Holds Obj.image v (A ++ (c.configExt :: B))) :
    ∃ m page bytes v', writeManifest eng idx v =
        (⟨some page, pagesFor bytes⟩, v', idx.manifest.nVectors) ∧
      Holds Obj.image v' (A ++ (⟨page, pagesFor bytes, some (.config m bytes)⟩ :: B)) ∧ Kept v v' ∧
      0 < bytes ∧ m.fixed = c.manifest.fixed ∧ m.nVectors = idx.manifest.nVectors := by
  by_cases hn : idx.manifest.nVectors = idx.nVectorsDisk
  · refine ⟨c.manifest, c.configPage, c.configBytes, v, ?_, h, .refl v, hpos, rfl, ?_⟩
    · rw [writeManifest, if_pos hn, hconfig, hn]
    · rw [hn, hagree.disk]
  · obtain ⟨page, v₁, hw, h₁, hk₁⟩ := writeObj_of_holds
      (o := Obj.config idx.manifest (eng.tomlBytes idx.manifest)) (h.pull A)
      (pagesFor_pos (eng.tomlBytes_pos _))
    obtain ⟨h₂, hk₂⟩ := (h₁.perm (.swap _ _ _)).free
    refine ⟨idx.manifest, page, eng.tomlBytes idx.manifest, _, ?_, h₂.perm List.perm_middle.symm,
      hk₁.trans hk₂, eng.tomlBytes_pos _, hagree.manifest, rfl⟩
    rw [writeManifest, if_neg hn]
    simp only [hw, hconfig, freeAt]
    rfl

/-- The contents of a session as a commit writes them out: a new leaf table, and a manifest with
the row count in memory. -/
structure Recommitted (idx : Index s) (c c' : Contents s) : Prop where
  same : ∃ tablePage configPage configBytes,
    c' = c.recommitted tablePage c'.manifest configPage configBytes
  fixed : c'.manifest.fixed = c.manifest.fixed
  count : c'.manifest.nVectors = idx.manifest.nVectors
  configPos : 0 < c'.configBytes

namespace Recommitted

variable {c' : Contents s}

lemma dim (h : Recommitted idx c c') : c'.manifest.dim = c.manifest.dim := by
  have := congrArg Manifest.dim h.fixed
  exact this

lemma depth (h : Recommitted idx c c') : c'.manifest.depth = c.manifest.depth := by
  have := congrArg Manifest.depth h.fixed
  exact this

end Recommitted

lemma writeBlobs_of_session (h : Session eng idx w c) :
    ∃ c', Recommitted idx c c' ∧ ∃ v v',
      freeAt (writeObj w.vol (.leafTable w.leafTable)).2 idx.super.leafTable = v ∧
      (writeObj w.vol (.leafTable w.leafTable)).1 =
        ⟨some c'.tablePage, (Obj.leafTable (s := s) c'.table).pages⟩ ∧
      writeManifest eng idx v =
        (⟨some c'.configPage, pagesFor c'.configBytes⟩, v', idx.manifest.nVectors) ∧
      Holds Obj.image v' c'.heap ∧ Kept w.vol v' := by
  obtain ⟨page, v₁, hv₁, htab, h₁, hk₁⟩ := writeTable_of_session h
  have hfront : Holds Obj.image v₁ ((c.leaves.flatMap StoredLeaf.exts ++
      (c.tree.exts s c.manifest.dim ++
        [⟨page, (Obj.leafTable (s := s) c.table).pages, some (.leafTable c.table)⟩])) ++
      (c.configExt :: (Slot.exts c.codebook ++ Slot.exts c.pca ++ Slot.exts c.cardinality ++
        Slot.exts c.plane))) := by
    simpa [Contents.others] using h₁
  obtain ⟨m, cfgPage, cfgBytes, v, hcfg, h₂, hk₂, hbytes, hfixed, hcount⟩ :=
    writeManifest_of_holds h.agrees h.blobs.config h.configPos hfront
  have hdim : m.dim = c.manifest.dim := by
    have := congrArg Manifest.dim hfixed
    exact this
  refine ⟨c.recommitted page m cfgPage cfgBytes, ⟨⟨page, cfgPage, cfgBytes, rfl⟩, hfixed, hcount,
    hbytes⟩, v₁, v, hv₁, htab, hcfg, ?_, hk₁.trans hk₂⟩
  refine h₂.perm (.trans ?_ (Contents.heap_perm _).symm)
  simp only [Contents.recommitted, Contents.others, Contents.tableExt, Contents.configExt, hdim,
    Contents.table]
  simp

/-! ### Commit -/

lemma committed_of_session (h : Session eng idx w c) {c' : Contents s} (hc : Recommitted idx c c')
    {v : TreeVol s} {file : TreeFile s} (hheap : Holds Obj.image v c'.heap) (hk : Kept w.vol v)
    (hflush : flushBitmap v = some (.ok file)) {sb : SuperblockDisk}
    (hsb : sb = nextSuper idx w ⟨some c'.tablePage, (Obj.leafTable (s := s) c'.table).pages⟩
      ⟨some c'.configPage, pagesFor c'.configBytes⟩ v file) :
    Committed (commitSuperblock file sb).1 (commitSuperblock file sb).2 c' := by
  obtain ⟨es, -, hst⟩ := h.stored
  have hp2 : v.alloc.bitmapPage = 2 := hk.bitmapPage.trans h.bitmapPage
  have hold : ∀ old, readCopy v.file (shadowPage sb.commitSeq) = some old →
      old.commitSeq ≤ sb.commitSeq := by
    obtain ⟨sb₀, hcur, hseq⟩ := h.current
    have hcur' : Current v.file sb₀ := hcur.congr fun p hp => hk.pages p (by
      rw [PageAllocator.firstFree, h.bitmapPage]
      omega)
    have : sb.commitSeq = sb₀.commitSeq := by rw [hsb, hseq]; rfl
    rw [this]
    exact hcur'.older
  obtain ⟨tp, cp, cb, hsame⟩ := hc.same
  have hnamed : c'.Named sb := by
    rw [hsb]
    refine ⟨?_, ?_, ?_, rfl, rfl, ?_, ?_, ?_, ?_⟩
    · rw [hc.dim, hsame]
      exact h.root
    · rw [hsame]
      exact h.blobs.depth
    · rw [hsame]
      simp only [nextSuper, Contents.recommitted, hst.table, List.length_map]
    · rw [hsame]
      exact h.blobs.codebook
    · rw [hsame]
      exact h.blobs.pca
    · rw [hsame]
      exact h.blobs.cardinality
    · rw [hsame]
      exact h.blobs.plane
  have hsound : c'.Sound := by
    refine ⟨?_, hc.configPos, ?_⟩
    · rw [hsame]
      exact hst.ok
    · rw [hc.depth, h.agrees.depth, hsame]
      rfl
  refine Committed.of_flush hheap hp2 (hk.bitmapPages ▸ h.region.1) hflush hold ?_ ?_ ?_ ?_ ?_
    hnamed hsound
  · rw [hsb, hp2]
    exact h.superPage
  · rw [hsb, hk.bitmapPages]
    exact h.bitmapPages
  · rw [hsb]
    rfl
  · rw [hsb]
    rfl
  · rw [hsb]
    rfl

/-- An index that has moved on: it is open on its contents, and what no mutation changes is as
before. A commit brings the PCA leaf table in line with the tree. -/
structure Advanced (eng : Engine) (idx idx' : Index s) (c' : Contents s) : Prop where
  index : IndexOk eng idx' c'
  fixed : idx'.manifest.fixed = idx.manifest.fixed
  plane : idx'.plane = idx.plane
  pca : ∃ bases cents, idx'.pca = { idx.pca with leafBase := bases, leafCentroids := cents }
  projects : c'.below = 1 → idx.pca.dims ≠ 0 → Projects idx'.pca c'.tree.clusters
  off : idx.pca = PcaTables.off → idx'.pca = PcaTables.off

namespace Advanced

lemma dims {idx' : Index s} {c' : Contents s} (h : Advanced eng idx idx' c') :
    idx'.pca.dims = idx.pca.dims := by
  obtain ⟨bases, cents, hp⟩ := h.pca
  rw [hp]

lemma trans {idx' idx'' : Index s} {c' c'' : Contents s} (h : Advanced eng idx idx' c')
    (h' : Advanced eng idx' idx'' c'') : Advanced eng idx idx'' c'' where
  index := h'.index
  fixed := h'.fixed.trans h.fixed
  plane := h'.plane.trans h.plane
  pca := by
    obtain ⟨b, v, hp⟩ := h.pca
    obtain ⟨b', v', hp'⟩ := h'.pca
    exact ⟨b', v', by rw [hp', hp]⟩
  projects hb hd := h'.projects hb (by rw [h.dims]; exact hd)
  off hoff := h'.off (h.off hoff)

lemma of_withCount {idx' : Index s} {c' : Contents s} {n : ℕ}
    (h : Advanced eng { idx with manifest := { idx.manifest with nVectors := n } } idx' c') :
    Advanced eng idx idx' c' where
  index := h.index
  fixed := h.fixed
  plane := h.plane
  pca := h.pca
  projects := h.projects
  off := h.off

lemma leafCapacity {idx' : Index s} {c' : Contents s} (h : Advanced eng idx idx' c') :
    idx'.manifest.leafCapacity = idx.manifest.leafCapacity := by
  have := congrArg Manifest.leafCapacity h.fixed
  exact this

end Advanced

/-- The index after a commit: the contents are those of the session. -/
structure AfterCommit (eng : Engine) (idx : Index s) (c : Contents s) (idx' : Index s)
    (c' : Contents s) : Prop where
  advanced : Advanced eng idx idx' c'
  contents : Recommitted idx c c'
  count : idx'.manifest.nVectors = idx.manifest.nVectors
  nLeaves : idx'.manifest.nLeaves = c.leaves.length

lemma remap_inv {idx₁ idx' : Index s} (h : remap idx₁ = .ok idx') :
    loadRoot idx'.file idx'.super.root idx'.leafTable = .ok idx'.rootChildren ∧
      (idx₁.pca.dims = 0 → idx'.pca = { idx₁.pca with leafBase := [], leafCentroids := [] }) := by
  -- whatever superblock and table are read, the root is read by them
  have hend : ∀ sb table, (do
      let children ← loadRoot idx₁.file sb.root table
      let r ←
        if idx₁.pca.dims = 0 ∨ idx₁.manifest.depth ≠ 2 then .ok ([], [])
        else rebuildPca idx₁.file idx₁.pca 0 children
      .ok
        { idx₁ with
          super := sb
          manifest := { idx₁.manifest with nLeaves := sb.nLeaves }
          leafTable := table
          rootChildren := children
          pca := { idx₁.pca with leafBase := r.1, leafCentroids := r.2 } } : Except ErrorKind _) =
      .ok idx' → loadRoot idx'.file idx'.super.root idx'.leafTable = .ok idx'.rootChildren ∧
        (idx₁.pca.dims = 0 → idx'.pca = { idx₁.pca with leafBase := [], leafCentroids := [] }) := by
    intro sb table h
    obtain ⟨children, hload, h⟩ := bind_eq_ok.mp h
    split_ifs at h with hoff
    · cases h
      exact ⟨hload, fun _ => rfl⟩
    · obtain ⟨r, -, h⟩ := bind_eq_ok.mp h
      cases h
      exact ⟨hload, fun h0 => absurd (.inl h0) hoff⟩
  rw [remap] at h
  cases hsb : loadSuperblock idx₁.file with
  | none =>
    rw [hsb] at h
    cases h
  | some sb =>
    rw [hsb] at h
    by_cases hvalid : sb.leafTable.page = none ∨ sb.leafTable.pages = 0
    · simp only [ok_bind, if_pos hvalid] at h
      exact hend _ _ h
    · simp only [ok_bind, if_neg hvalid] at h
      cases htable : readLeafTable idx₁.file sb.leafTable with
      | none =>
        rw [htable] at h
        cases h
      | some es =>
        rw [htable] at h
        exact hend _ _ h

lemma afterCommit_of_remapped (h : Session eng idx w c) {c' : Contents s}
    (hc : Recommitted idx c c') {idx₁ idx' : Index s} (hcom : Committed idx₁.file idx₁.super c')
    (hm : idx₁.manifest = idx.manifest) (hd : idx₁.nVectorsDisk = idx.manifest.nVectors)
    (hpl : idx₁.plane = idx.plane) (hp : idx₁.pca = idx.pca) (hremap : remap idx₁ = .ok idx')
    (hr : Remapped idx₁ idx' c') :
    AfterCommit eng idx c idx' c' := by
  obtain ⟨tp, cp, cb, hsame⟩ := hc.same
  have hbelow : c'.below = c.below := by rw [hsame]; rfl
  have hfixed : idx'.manifest.fixed = idx.manifest.fixed := by
    rw [hr.manifest, hm]
    rfl
  have hagrees : Agrees eng idx' c' := by
    refine ⟨?_, ?_, hcom.sound.depth, ?_, ?_, ?_, fun hb => hr.children (by omega), ?_⟩
    · rw [hfixed, hc.fixed]
      exact h.agrees.manifest
    · rw [hr.disk, hd, hc.count]
    · rw [hbelow]
      exact h.agrees.below
    · rw [hsame]
      exact h.agrees.linked
    · rw [hsame]
      exact h.agrees.full
    · rw [hsame]
      exact h.agrees.fits
  have hcount : idx'.manifest.nVectors = idx.manifest.nVectors := by rw [hr.manifest, hm]
  refine ⟨⟨⟨by rw [hr.file, hr.super]; exact hcom, hagrees, hr.table, ?_, (remap_inv hremap).1⟩,
    hfixed, ?_, ?_, ?_, ?_⟩, hc, hcount, ?_⟩
  · rw [hcount, hr.disk, hd]
  · rw [hr.plane, hpl]
  · rw [← hp]
    exact hr.pca
  · intro hb hdims
    exact hr.projects hb (by rw [hp]; exact hdims)
  · intro hoff
    rw [(remap_inv hremap).2 (by rw [hp, hoff]; rfl), hp, hoff]
    rfl
  · rw [hr.manifest, hsame]
    rfl

/-- **A commit.** -/
theorem commitMutable_spec (h : Session eng idx w c) :
    Meets Failure.Defined (commitMutable eng idx w) fun r =>
      ∃ c', AfterCommit eng idx c r.1 c' ∧ Session eng r.1 (Work.of r.1 r.2) c' := by
  obtain ⟨c', hc, v₁, v, hv₁, htab, hcfg, hheap, hk⟩ := writeBlobs_of_session h
  unfold commitMutable
  simp only [hv₁, hcfg, htab]
  have hregion : Region v.alloc.bitmapPages := hk.bitmapPages ▸ h.region
  obtain ⟨r, hflush⟩ := Option.ne_none_iff_exists'.mp hregion.flushBitmap_ne_none
  rw [hflush]
  cases r with
  | error e => exact ⟨by simp, by simp⟩
  | ok file =>
    dsimp only
    generalize hsb : nextSuper idx w ⟨some c'.tablePage, (Obj.leafTable (s := s) c'.table).pages⟩
      ⟨some c'.configPage, pagesFor c'.configBytes⟩ v file = sb
    have hcom := committed_of_session h hc hheap hk hflush hsb.symm
    generalize hidx : ({ idx with
      file := (commitSuperblock file sb).1
      super := (commitSuperblock file sb).2
      nVectorsDisk := idx.manifest.nVectors
      leafTable := w.leafTable } : Index s) = idx₁
    have hcom₁ : Committed idx₁.file idx₁.super c' := by
      rw [← hidx]
      exact hcom
    obtain ⟨tp, cp, cb, hsame⟩ := hc.same
    obtain ⟨idx', hremap, hr⟩ := remap_of_committed hcom₁
      (by rw [← hidx, hsame]; exact h.agrees.depth_eq)
      (by rw [hsame]; exact h.agrees.full) (by rw [hsame]; exact fun i hi => h.agrees.lt_length hi)
    have hafter := afterCommit_of_remapped h hc hcom₁ (by rw [← hidx]) (by rw [← hidx])
      (by rw [← hidx]) (by rw [← hidx]) hremap hr
    rw [hremap]
    refine ⟨c', hafter, hafter.advanced.index.session_of ?_ ?_ ?_⟩
    · -- the heap in memory after the flush and the superblock write
      obtain ⟨hfl, -⟩ := hheap.flush hregion.1 hflush
      have hlow : shadowPage (sb.commitSeq + 1) < v.alloc.firstFree := by
        have := shadowPage_lt (sb.commitSeq + 1)
        rw [PageAllocator.firstFree, hk.bitmapPage, h.bitmapPage]
        omega
      have hwr := (hfl.writeReserved hlow
        (.super { sb with commitSeq := sb.commitSeq + 1 })).clearFreeList
      rw [hr.file, ← hidx]
      exact hwr
    · rw [hr.super, ← hidx, ← hsb]
      exact (hk.bitmapPage.trans h.bitmapPage).trans h.superPage.symm
    · rw [hr.super, ← hidx, ← hsb]
      exact hk.bitmapPages.trans h.bitmapPages.symm

end SextantTree
