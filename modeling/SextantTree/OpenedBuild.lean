import SextantTree.OpenRoute
import SextantTree.PassSpec

/-!
A build, opened: the index that mutations start from. Where the tree of the build reaches every leaf
once, the index agrees with the contents of the file.
-/

namespace SextantTree

open Pages Alloc AllocInv AllocRun Heap FilterHash Outcome

variable {s : Schema} {b : BuildInput s} {eng : Engine} {st : Emission s} {F : List (Flushed s)}
  {c : Contents s} {file : TreeFile s} {sb : SuperblockDisk}

/-! ### Built leaves -/

lemma filter_stored (f : Flushed s) :
    (f.stored b).leaf.rows.map (·.filter) = f.rows.map (·.filter) := by
  have hlen : f.rows.length = (b.coder.flushLeaf (f.rows.map (·.vector))).2.length := by
    rw [b.coder.length_flushLeaf, List.length_map]
  simp only [Flushed.stored, flushedLeaf, List.map_zipWith]
  rw [← List.map_uncurry_zip_eq_zipWith]
  conv_rhs => rw [← List.map_fst_zip hlen.le, List.map_map]
  rfl

lemma fits_stored (heng : eng.coder = b.coder) (f : Flushed s) : (f.stored b).leaf.Fits eng := by
  constructor
  · rw [filter_stored, f.length_rows, heng]
    exact (Nat.le_add_right _ _).trans (le_pagesFor _)
  · intro hr hc
    refine decide_eq_true (filterColumnsBytes_pos ?_ hc)
    rw [← filter_stored]
    simpa using hr

/-! ### The tree -/

lemma ids_perm_range {ids : List ℕ} {n : ℕ} (hone : ∀ id < n, ids.count id = 1)
    (hlt : ∀ id ∈ ids, id < n) : ids.Perm (List.range n) := by
  rw [List.perm_iff_count]
  intro id
  by_cases hid : id < n
  · rw [hone id hid]
    exact (List.count_eq_one_of_mem List.nodup_range (List.mem_range.mpr hid)).symm
  · rw [List.count_eq_zero.mpr fun h => hid (hlt id h),
      List.count_eq_zero.mpr fun h => hid (List.mem_range.mp h)]

lemma openRoot_inv {mf : Manifest} {table : List LeafTableEntry} {pca : PcaTables} {idx : Index s}
    (h : openRoot file sb mf table pca = .ok idx) : ∃ children bases,
      loadRoot file sb.root table = .ok children ∧
      (if 0 < pca.dims ∧ mf.depth = 2 then openLeafBase file 0 children else .ok []) = .ok bases ∧
      idx = openedIndex file sb mf table pca children bases := by
  unfold openRoot at h
  obtain ⟨children, hload, h⟩ := bind_eq_ok.mp h
  split_ifs at h with hspecial
  · obtain ⟨bases, hbases, h⟩ := bind_eq_ok.mp h
    cases h
    exact ⟨children, bases, hload, by rw [if_pos hspecial]; exact hbases, rfl⟩
  · cases h
    exact ⟨children, [], hload, by rw [if_neg hspecial], rfl⟩

/-- The open index of a build, with the emission pass and the contents behind it. -/
structure OpenedBuild (eng : Engine) (b : BuildInput s) (old : TreeFile s) (st : Emission s)
    (F : List (Flushed s)) (idx : Index s) (c : Contents s) : Prop where
  emitted : Emitted b (formatted b old) (staged b) st F
  rows : ∀ i, (ofCluster F i).flatMap Flushed.rows = staged b i
  leavesOf : ∀ i, (ofCluster F i).length = SextantTree.leavesOf b i
  built : Built b st F c
  index : IndexOk eng idx c
  pca : ∃ bases, idx.pca = { builtPca b (c.below + 1) st.leaves with leafBase := bases }

lemma loadRoot_committed (hC : Committed file sb c) (hids : ∀ i ∈ c.tree.ids, i < c.leaves.length)
    {children : List RootChild} (hload : loadRoot file sb.root c.table = .ok children) :
    (c.below = 0 → ∀ k ∈ Inner.kids c.tree, k.2.isSome) ∧ (0 < c.below → children =
      (Inner.kids c.tree).map fun k => nodeChild (Tree.entry s c.manifest.dim k)) := by
  obtain ⟨a, ha⟩ := hC.holds
  have hmem : Inner.ext s c.manifest.dim c.tree ∈ c.heap := by
    refine List.mem_append_left _ (List.mem_append_left _ ?_)
    exact List.mem_cons_self
  rw [hC.named.root] at hload
  constructor
  · obtain ⟨below, tree⟩ := c
    rintro rfl
    exact (loadRoot_one ha hmem hload).1
  · intro hpos
    obtain ⟨cs, hcs, hkids⟩ := loadRoot_of_holds ha hmem c.table (fun h0 => by omega)
      (by simpa [Contents.table] using hids)
    cases hcs.symm.trans hload
    exact hkids hpos

/-- **A build, opened**, if the switch to depth 1 drops no leaf. -/
theorem openedBuild {old : TreeFile s} {idx : Index s} (hb : build b old = .ok file)
    (heng : eng.coder = b.coder) (hpca : PcaShaped b) (hone : OneLeafEach b)
    (hopen : openIndex eng file = .ok idx) : ∃ st F c, OpenedBuild eng b old st F idx c := by
  obtain ⟨st, F, sb, c, hE, hrows, hcount, hB, hC⟩ := build_spec hb
  have hperm := idsOf_perm hE.clusters
  have hroot : st.rootToLeaves = idsOf F := funext hE.ids
  have hlen : st.leaves.length = F.length := by rw [hE.leaves, List.length_map]
  have hlt : ∀ id ∈ c.tree.ids, id < c.leaves.length := by
    intro id hid
    obtain ⟨i, hi⟩ := hB.tree.ids_mem hid
    rw [hroot] at hi
    rw [hB.leafCount]
    exact lt_of_mem_idsOf hi
  have hlinked : c.tree.ids.Perm (List.range c.leaves.length) := by
    refine ids_perm_range ?_ hlt
    rw [hB.leafCount]
    exact (hB.tree.linked_iff hB.depth hroot hperm hcount).mpr hone
  rw [openIndex_built hC hB heng hpca hlen hE.clusters, ← hB.depth] at hopen
  obtain ⟨children, bases, hload, hbases, rfl⟩ := openRoot_inv hopen
  obtain ⟨hfull, hkids⟩ := loadRoot_committed hC hlt hload
  refine ⟨st, F, c, hE, hrows, hcount, hB, ⟨hC, ?_, rfl, rfl, hload⟩, bases, rfl⟩
  exact
    { manifest := rfl
      disk := rfl
      depth := hB.manifestDepth
      below := by
        have hplanned := b.depth_planned
        have hdepth := hB.depth
        obtain ⟨h1, -⟩ | ⟨h1, -⟩ := finalDepth_cases b F.length
        · omega
        · omega
      linked := hlinked
      full := hfull
      children := fun hb => hkids (by omega)
      fits := fun l hl => by
        rw [hB.leaves] at hl
        obtain ⟨f, -, rfl⟩ := List.mem_map.mp hl
        exact fits_stored heng f }

end SextantTree
