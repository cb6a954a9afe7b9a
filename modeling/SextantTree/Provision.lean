import SextantTree.BuildPages

/-!
How many pages of bitmap a build reserves, and how many it needs. The number is chosen from the row
count, the dimension, the code size, the leaf capacity and the payload estimate, before the pass over
the corpus; the need is the sum over leaves, nodes and blobs.
-/

namespace SextantTree

open Pages Alloc AllocInv AllocRun Heap FilterHash

variable {s : Schema} {b : BuildInput s}

/-! ### The pages above the leaves -/

lemma writeGroups_allotted {v : TreeVol s} (h : Full v) (entries : ℕ → List ChildEntry) (n : ℕ) :
    Allotted v (writeGroups b n entries v).2 (∑ i ∈ Finset.range n,
      if (entries i).isEmpty then 0 else nodeExtentPages b.dim (entries i).length s.summarySize) := by
  induction n with
  | zero => exact .refl h
  | succ n ih =>
    have hstep : writeGroups b (n + 1) entries v
        = writeGroup b entries (writeGroups b n entries v) n := by
      simp [writeGroups, List.range_succ]
    rw [hstep, Finset.sum_range_succ]
    unfold writeGroup
    split_ifs
    · exact ih
    · exact ih.trans (ih.full.obj _)

variable (b) in
/-- The pages of a node; an empty group has none. -/
def nodePages (children : ℕ) : ℕ :=
  if children = 0 then 0 else nodeExtentPages b.dim children s.summarySize

variable (b) in
/-- The clusters of a super-group that have leaves. -/
def groupSize (g : ℕ) : ℕ :=
  (List.range b.kRoot).countP fun c => b.superGroup c == g && decide (0 < leavesOf b c)

variable (b) in
def innerPages (depth : ℕ) : ℕ :=
  if depth = 1 then 0
  else ∑ c ∈ Finset.range b.kRoot, nodePages b (leavesOf b c)
    + if depth = 3 then ∑ g ∈ Finset.range b.kL1, nodePages b (groupSize b g) else 0

variable (b) in
def rootChildren (depth : ℕ) : ℕ := if depth = 3 then b.kL1 else b.kRoot

lemma sum_nodePages (entries : ℕ → List ChildEntry) (size : ℕ → ℕ) (n : ℕ)
    (h : ∀ i, i < n → (entries i).length = size i) :
    (∑ i ∈ Finset.range n,
      if (entries i).isEmpty then 0 else nodeExtentPages b.dim (entries i).length s.summarySize)
      = ∑ i ∈ Finset.range n, nodePages b (size i) := by
  refine Finset.sum_congr rfl fun i hi => ?_
  rw [nodePages, ← h i (Finset.mem_range.1 hi)]
  simp only [List.isEmpty_iff, List.length_eq_zero_iff]

lemma writeInnerNodes_allotted {st : Emission s} {H : List (Ext (Obj s))} (h : Full st.vol)
    (hh : Holds Obj.image st.vol H) (hleaves : ∀ c, (st.rootToLeaves c).length = leavesOf b c)
    (depth : ℕ) :
    Allotted st.vol (writeInnerNodes b st depth).2 (innerPages b depth) ∧
      (writeInnerNodes b st depth).1.length = rootChildren b depth := by
  have hclusters : ∀ c, c < b.kRoot → (clusterEntries st c).length = leavesOf b c :=
    fun c _ => by rw [clusterEntries, List.length_map, hleaves]
  have h₂ := writeGroups_allotted (b := b) h (clusterEntries st) b.kRoot
  rw [sum_nodePages _ _ _ hclusters] at h₂
  obtain ⟨pg, -, -, hext⟩ := writeGroups_spec (b := b) hh (clusterEntries st) b.kRoot
  have hpage : ∀ c, c < b.kRoot → ((writeGroups b b.kRoot (clusterEntries st) st.vol).1 c).page.isSome
      = decide (0 < leavesOf b c) := by
    intro c hc
    rw [hext c]
    by_cases hne : clusterEntries st c = []
    · have hzero := hclusters c hc
      rw [hne, List.length_nil] at hzero
      rw [if_neg fun h => h.2 hne, ← hzero]
      rfl
    · have hpos := List.length_pos_of_ne_nil hne
      rw [hclusters c hc] at hpos
      rw [if_pos ⟨hc, hne⟩, decide_eq_true hpos]
      rfl
  unfold writeInnerNodes innerPages rootChildren
  by_cases h1 : depth = 1
  · subst h1
    rw [if_pos rfl, if_pos rfl]
    exact ⟨.refl h, by simp⟩
  · rw [if_neg h1, if_neg h1]
    dsimp only
    by_cases h3 : depth = 3
    · rw [if_pos h3, if_pos h3, if_pos h3]
      have hgroups : ∀ g, g < b.kL1 → (groupEntries b st
          (writeGroups b b.kRoot (clusterEntries st) st.vol).1 g).length = groupSize b g := by
        intro g _
        rw [groupEntries, List.length_map, members, ← List.countP_eq_length_filter, groupSize]
        refine List.countP_congr fun c hc => ?_
        rw [hpage c (List.mem_range.1 hc)]
      have h₁ := writeGroups_allotted (b := b) h₂.full
        (groupEntries b st (writeGroups b b.kRoot (clusterEntries st) st.vol).1) b.kL1
      rw [sum_nodePages _ _ _ hgroups] at h₁
      exact ⟨h₂.trans h₁, by simp⟩
    · rw [if_neg h3, if_neg h3, if_neg h3, Nat.add_zero]
      exact ⟨h₂, by simp⟩

/-! ### The blobs -/

variable (b) in
def pcaWords (m : PcaModel) (depth nLeaves : ℕ) : ℕ :=
  m.proj.flatten.length + m.meanProj.length
    + (if 3 ≤ depth then m.superCentroids else m.rootCentroids).flatten.length
    + nLeaves * min m.proj.length m.meanProj.length

lemma length_pcaBlob (m : PcaModel) (depth : ℕ) (leaves : List LeafMeta) :
    (pcaBlob m depth leaves).length = pcaWords m depth leaves.length := by
  have hproject : ∀ v : Vec, (projectPca m.proj m.meanProj v).length
      = min m.proj.length m.meanProj.length := fun v => by simp [projectPca]
  have hleaves : (leaves.map fun l => projectPca m.proj m.meanProj l.centroid).flatten.length
      = leaves.length * min m.proj.length m.meanProj.length := by
    rw [List.length_flatten, List.map_map, List.map_congr_left fun l _ => hproject l.centroid]
    simp
  unfold pcaBlob pcaWords
  rw [List.length_append, List.length_append, List.length_append, hleaves]

variable (b) in
def blobPages (depth nLeaves : ℕ) : ℕ :=
  b.coder.serializeGlobal.elim 0 (fun g => pagesFor (codebookBlob g).length)
    + b.pca.elim 0 (fun m => pagesFor (pcaWords m depth nLeaves * 4))
    + (if s.columns.isEmpty || b.cardinality.isEmpty then 0 else pagesFor b.cardinality.length)
    + pagesFor (8 + nLeaves * 12)
    + pagesFor (b.tomlBytes (buildManifest b nLeaves depth))
    + b.plane.elim 0 (fun p => pagesFor p.2.length)

variable (b) in
/-- The volume when `write_tree_structure` flushes the bitmap. -/
def beforeFlush (st : Emission s) : TreeVol s :=
  let nLeaves := st.leaves.length
  let depth := finalDepth b nLeaves
  let inner := writeInnerNodes b st depth
  let root := writeNode b inner.2 inner.1
  let codebook := writeOpt root.2 (b.coder.serializeGlobal.map fun g => .blob (codebookBlob g))
  let pca := writeOpt codebook.2 (b.pca.map fun m => .pca (pcaBlob m depth st.leaves))
  let card := writeOpt pca.2
    (if s.columns.isEmpty || b.cardinality.isEmpty then none else some (.blob b.cardinality))
  let table := writeObj card.2 (.leafTable (st.leaves.map (·.extent)))
  let manifest := buildManifest b nLeaves depth
  let config := writeObj table.2 (.config manifest (b.tomlBytes manifest))
  (writeOpt config.2 (b.plane.map fun p => .blob p.2)).2

variable (b) in
/-- The pages a build needs: those it reserves, the leaves of every cluster, the nodes, the blobs. -/
def neededPages : ℕ :=
  let nLeaves := ((List.range b.kRoot).map (leavesOf b)).sum
  let depth := finalDepth b nLeaves
  2 + b.bitmapPages + ∑ c ∈ Finset.range b.kRoot, clusterPages b c + innerPages b depth
    + nodeExtentPages b.dim (rootChildren b depth) s.summarySize + blobPages b depth nLeaves

lemma clusterPages_le_needed {c : ℕ} (hc : c < b.kRoot) : clusterPages b c ≤ neededPages b := by
  have hle := Finset.single_le_sum (f := clusterPages b) (fun _ _ => Nat.zero_le _)
    (Finset.mem_range.mpr hc)
  unfold neededPages
  dsimp only
  omega

lemma size_foldl_bitSet (l : List ℕ) (bm : Bitmap) : (l.foldl bitSet bm).size = bm.size := by
  induction l generalizing bm with
  | nil => rfl
  | cons i l ih => rw [List.foldl_cons, ih, bitSet_size]

lemma formatted_full (old : TreeFile s) : Full (formatted b old) := by
  have hok : Ok (formatted b old) ∅ := init_ok _ rfl
  refine ⟨hok, fun p hp => hok.reserved p ?_, ?_⟩
  · simpa [formatted, init, PageAllocator.firstFree] using hp
  · simp [formatted, init, growBitmap, size_foldl_bitSet]

lemma formatted_nPages (old : TreeFile s) :
    (formatted b old).alloc.nPages = 2 + b.bitmapPages := by
  simp [formatted, init]

/-- **The build** takes what it needs. -/
theorem beforeFlush_pages (old : TreeFile s) :
    Full (beforeFlush b (runEmissionPass b (formatted b old))) ∧
      (beforeFlush b (runEmissionPass b (formatted b old))).alloc.nPages = neededPages b ∧
      (beforeFlush b (runEmissionPass b (formatted b old))).alloc.bitmapPage = 2 ∧
      (beforeFlush b (runEmissionPass b (formatted b old))).alloc.bitmapPages = b.bitmapPages := by
  obtain ⟨F, hem, -, hcount⟩ := emission_spec (b := b) (formatted b old) (formatted_holds old)
  have hpass := runEmissionPass_allotted (b := b) (formatted_full (b := b) old)
  generalize runEmissionPass b (formatted b old) = st at hem hpass ⊢
  have hids : ∀ c, (st.rootToLeaves c).length = leavesOf b c := fun c => by
    rw [hem.ids, length_idsOf, hcount]
  have hn : st.leaves.length = ((List.range b.kRoot).map (leavesOf b)).sum := by
    rw [sum_leavesOf (idsOf_perm hem.clusters) hcount, hem.leaves, List.length_map]
  obtain ⟨hinner, hchildren⟩ := writeInnerNodes_allotted (b := b) hpass.full hem.holds hids
    (finalDepth b st.leaves.length)
  unfold beforeFlush neededPages blobPages
  dsimp only
  rw [← hn]
  generalize hdepth : finalDepth b st.leaves.length = depth at hinner hchildren ⊢
  have h₁ := hpass.trans hinner
  have h₂ := h₁.trans (h₁.full.obj (.node ⟨(writeInnerNodes b st depth).1,
    nodeExtentPages b.dim (writeInnerNodes b st depth).1.length s.summarySize⟩))
  have h₃ := h₂.trans (h₂.full.opt (b.coder.serializeGlobal.map fun g => .blob (codebookBlob g)))
  have h₄ := h₃.trans (h₃.full.opt (b.pca.map fun m => .pca (pcaBlob m depth st.leaves)))
  have h₅ := h₄.trans (h₄.full.opt
    (if s.columns.isEmpty || b.cardinality.isEmpty then none else some (.blob b.cardinality)))
  have h₆ := h₅.trans (h₅.full.obj (.leafTable (st.leaves.map (·.extent))))
  have h₇ := h₆.trans (h₆.full.obj (.config (buildManifest b st.leaves.length depth)
    (b.tomlBytes (buildManifest b st.leaves.length depth))))
  have h₈ := h₇.trans (h₇.full.opt (b.plane.map fun p => .blob p.2))
  refine ⟨h₈.full, h₈.pages.trans ?_, h₈.bitmapPage, h₈.bitmapPages⟩
  rw [formatted_nPages]
  have hcodebook : (b.coder.serializeGlobal.map fun g => (.blob (codebookBlob g) : Obj s)).elim 0
      Obj.pages = b.coder.serializeGlobal.elim 0 fun g => pagesFor (codebookBlob g).length := by
    cases b.coder.serializeGlobal <;> rfl
  have hpca : (b.pca.map fun m => (.pca (pcaBlob m depth st.leaves) : Obj s)).elim 0 Obj.pages
      = b.pca.elim 0 fun m => pagesFor (pcaWords m depth st.leaves.length * 4) := by
    cases b.pca with
    | none => rfl
    | some m =>
      simp only [Option.map_some, Option.elim_some, Obj.pages, length_pcaBlob]
  have hcard : (if s.columns.isEmpty || b.cardinality.isEmpty then none
      else some (.blob b.cardinality : Obj s)).elim 0 Obj.pages
      = if s.columns.isEmpty || b.cardinality.isEmpty then 0 else pagesFor b.cardinality.length := by
    split_ifs <;> rfl
  have hplane : (b.plane.map fun p => (.blob p.2 : Obj s)).elim 0 Obj.pages
      = b.plane.elim 0 fun p => pagesFor p.2.length := by
    cases b.plane <;> rfl
  rw [hcodebook, hpca, hcard, hplane]
  simp only [Obj.pages, hchildren, List.length_map]
  omega

/-! ### The number of bitmap pages -/

/-- What the number of bitmap pages is chosen from, in the widths of the source. -/
structure Sizing where
  n : UInt64
  dim : UInt32
  codeSize : UInt32
  leafCap : UInt32
  /-- `payload_total_bytes()` of the source, an estimate. -/
  payloadTotal : UInt64
  /-- `payload_offsets[n]`, when there is a sidecar. -/
  sidecar : Option UInt64
  /-- `--bitmap-pages`, 0 when it is not given. -/
  cfgBitmapPages : UInt32

namespace Sizing

variable (z : Sizing)

def vecBytes : UInt64 := z.n * (2 * z.dim.toUInt64 + z.codeSize.toUInt64 + 512)

def nLeavesEst : UInt64 := z.n / max 1 (z.leafCap / 2).toUInt64 + 2

def leafOverhead : UInt64 := z.nLeavesEst * (4 * z.dim.toUInt64 * 17 + 8192)

def payloadBytes : UInt64 :=
  let p := z.payloadTotal + z.sidecar.getD 0
  p + p / 4

def upperPages : UInt64 := (z.vecBytes + z.leafOverhead + z.payloadBytes) / 4096 + 64

/-- The pages chosen: those asked for, else those of the estimate. -/
def bitmapPages : UInt32 :=
  if 0 < z.cfgBitmapPages then z.cfgBitmapPages else (z.upperPages / 32768 + 2).toUInt32

end Sizing

/-- A build and the numbers its bitmap pages are chosen from. -/
structure Provisioned (z : Sizing) (b : BuildInput s) : Prop where
  n : z.n.toNat = b.corpus.length
  dim : z.dim.toNat = b.dim
  leafCap : z.leafCap.toNat = b.leafCap
  pages : z.bitmapPages.toNat = b.bitmapPages

variable (b) in
/-- The flush at the end of the build succeeds, and the bitmap on disk marks every page of the
file. -/
def Covered (old : TreeFile s) : Prop :=
  ∃ flushed built,
    flushBitmap (beforeFlush b (runEmissionPass b (formatted b old))) = some (.ok flushed) ∧
      build b old = .ok built ∧
      ∀ p < built.numPages, (readBits built 2 b.bitmapPages).testBit p = true

section Flush

variable {P : Type} [PageImage P] {v : Vol P}

/-- The flush of a volume without free pages succeeds when the region holds the bitmap and its
bytes are counted in 32 bits. -/
lemma Full.flushes_iff (h : Full v) (hpos : 0 < v.alloc.bitmapPages) :
    (∃ file, flushBitmap v = some (.ok file)) ↔
      v.alloc.nPages ≤ pageBits * v.alloc.bitmapPages ∧ v.alloc.bitmapPages < 2 ^ 20 := by
  have hsize := h.size
  simp only [flushBitmap_eq_some hpos, exists_and_left, exists_eq, and_true, Region, pageBits, kPageSize]
  omega

lemma Full.marked (h : Full v) (hpos : 0 < v.alloc.bitmapPages) {file : PageFile P}
    (hflush : flushBitmap v = some (.ok file)) :
    file.numPages = v.alloc.nPages ∧ ∀ p < v.alloc.nPages,
      (readBits file v.alloc.bitmapPage v.alloc.bitmapPages).testBit p = true := by
  have hsize := h.size
  obtain ⟨-, hfit, rfl⟩ := (flushBitmap_eq_some hpos).mp hflush
  refine ⟨by rw [PageFile.writePages_numPages, h.ok.fileSize], fun p hp => ?_⟩
  have hbit : v.alloc.bitmap.bits.testBit p = true := h.taken p hp
  rw [readBits_flush, Nat.testBit_mod_two_pow, hbit, Bool.and_true, decide_eq_true]
  unfold kPageSize at hfit
  unfold pageBits kPageSize
  omega

end Flush

lemma build_of_flush (old : TreeFile s) {file : TreeFile s}
    (h : flushBitmap (beforeFlush b (runEmissionPass b (formatted b old))) = some (.ok file)) :
    ∃ sb, build b old = .ok (commitSuperblock file sb).1 := by
  unfold beforeFlush at h
  unfold build writeTreeStructure
  dsimp only at h ⊢
  rw [h]
  exact ⟨_, rfl⟩

lemma readBits_commit (file : TreeFile s) (sb : SuperblockDisk) (n : ℕ) :
    readBits (commitSuperblock file sb).1 2 n = readBits file 2 n := by
  refine readBits_congr fun p h1 _ => ?_
  have hlow := shadowPage_lt (sb.commitSeq + 1)
  simp only [commitSuperblock]
  rw [PageFile.writePage_pages, Function.update_of_ne (by omega)]

/-- The region covers the file exactly when it holds the pages the build needs, and its bytes are
counted in 32 bits. -/
lemma bitmap_covers_iff (z : Sizing) (b : BuildInput s) (old : TreeFile s)
    (h : Provisioned z b) : Covered b old ↔
      neededPages b ≤ 32768 * z.bitmapPages.toNat ∧ z.bitmapPages.toNat < 2 ^ 20 := by
  obtain ⟨hfull, hpages, hpage, hregion⟩ := beforeFlush_pages (b := b) old
  have hpos := b.bitmapPages_pos
  have hiff := hfull.flushes_iff (by omega)
  rw [hpages, hregion] at hiff
  rw [h.pages]
  refine Iff.trans ⟨?_, ?_⟩ hiff
  · rintro ⟨flushed, -, hflush, -⟩
    exact ⟨flushed, hflush⟩
  · rintro ⟨flushed, hflush⟩
    obtain ⟨hnum, hmarks⟩ := hfull.marked (by omega) hflush
    obtain ⟨sb, hbuild⟩ := build_of_flush old hflush
    refine ⟨flushed, _, hflush, hbuild, fun p hp => ?_⟩
    rw [hpage, hregion] at hmarks
    rw [readBits_commit]
    refine hmarks p ?_
    rwa [← hnum]

/-! ### Rows with one long string -/

def textSchema : Schema := { columns := [{ name := "body", type := .string }] }

def textRow (id : RowId) (text : Bytes) : BuildRow textSchema :=
  ⟨id, [0], ⟨[some (.string text)], .cons rfl .nil⟩, []⟩

/-- The rows in one cluster, with so many pages of bitmap. -/
def textBuild (cap pages : ℕ) (rows : List (BuildRow textSchema)) (h : 0 < pages) :
    BuildInput textSchema :=
  { lineBuild textSchema 1 cap rows with bitmapPages := pages, bitmapPages_pos := h }

def textSizing (n leafCap : ℕ) : Sizing :=
  ⟨.ofNat n, 1, 1, .ofNat leafCap, 0, none, 0⟩

/-- The long rows: 5000 of 65535 bytes each. -/
def longRows : List (BuildRow textSchema) :=
  (List.range 5000).map fun i => textRow i (List.replicate 65535 120)

lemma textBuild_staged {cap pages : ℕ} {rows : List (BuildRow textSchema)} {h : 0 < pages}
    (hv : ∀ r ∈ rows, r.vector = [0]) : staged (textBuild cap pages rows h) 0 = rows := by
  have htarget : ∀ r ∈ rows, (textBuild cap pages rows h).isTarget r.vector 0 = true := by
    intro r hr
    rw [hv r hr]
    simp [BuildInput.isTarget, BuildInput.minDist, textBuild, lineBuild]
  have hcorpus : (textBuild cap pages rows h).corpus = rows := List.flatten_singleton
  have hone : 0 < (textBuild cap pages rows h).kRoot := Nat.one_pos
  rw [staged, if_pos hone, hcorpus, List.filter_eq_self]
  exact htarget

lemma dataBytes_le_columnEnd (col : FilterColumn) (h : col.type = .string)
    (cells : List (Option Cell)) (total : ℕ) :
    (cells.map fun c => c.elim 0 Cell.dataBytes).sum ≤ columnEnd col cells total := by
  simp only [columnEnd, h, align4]
  split_ifs <;> omega

lemma dataBytes_textRow (id : RowId) (text : Bytes) :
    ((textRow id text).filter.get 0).elim 0 Cell.dataBytes = text.length := rfl

lemma leafCost_textBuild {cap pages : ℕ} {rows leaf : List (BuildRow textSchema)} {h : 0 < pages}
    (hbytes : 327675000 ≤ filterColumnsBytes (leaf.map (·.filter))) :
    79999 ≤ leafCost (textBuild cap pages rows h) leaf := by
  unfold leafCost leafPages pagesFor kPageSize
  omega

lemma long_needed : 65536 < neededPages (textBuild 4999 2 longRows (by decide)) := by
  have hstaged : staged (textBuild 4999 2 longRows (by decide)) 0 = longRows :=
    textBuild_staged fun r hr => by
      obtain ⟨i, -, rfl⟩ := List.mem_map.1 hr
      rfl
  have hlen : longRows.length = 5000 := by rw [longRows, List.length_map, List.length_range]
  have hbytes : 327675000 ≤ filterColumnsBytes (longRows.map (·.filter)) := by
    have hdata : ((longRows.map (·.filter)).map (·.get 0)).map (fun c => c.elim 0 Cell.dataBytes)
        = List.replicate 5000 65535 := by
      rw [longRows, List.map_map, List.map_map, List.map_map, List.eq_replicate_iff]
      refine ⟨by rw [List.length_map, List.length_range], fun n hn => ?_⟩
      obtain ⟨i, -, rfl⟩ := List.mem_map.1 hn
      rw [Function.comp_apply, Function.comp_apply, Function.comp_apply, dataBytes_textRow,
        List.length_replicate]
    have hend : ∀ rows : List (FilterRow textSchema), filterColumnsBytes rows
        = columnEnd { name := "body", type := .string } (rows.map (·.get 0)) 0 := fun _ => rfl
    have hall := dataBytes_le_columnEnd { name := "body", type := .string } rfl
      ((longRows.map (·.filter)).map (·.get 0)) 0
    rw [hdata, List.sum_replicate] at hall
    rw [hend]
    exact hall
  have hcluster : 79999 ≤ clusterPages (textBuild 4999 2 longRows (by decide)) 0 := by
    have hone : leavesOf (textBuild 4999 2 longRows (by decide)) 0 = 1 := by
      rw [leavesOf, hstaged, hlen]
      rfl
    have hpiece : piece (textBuild 4999 2 longRows (by decide)) longRows 0 = longRows :=
      List.take_of_length_le (by rw [Nat.mul_zero, List.drop_zero, hlen]; exact le_refl 5000)
    rw [clusterPages, hstaged, hone, piecesCost, Finset.sum_range_one, hpiece]
    exact leafCost_textBuild hbytes
  have hone : 0 < (textBuild 4999 2 longRows (by decide)).kRoot := Nat.one_pos
  exact lt_of_lt_of_le (by decide) (hcluster.trans (clusterPages_le_needed hone))

/-- The estimate counts no filter column: two pages are chosen, and the one leaf alone needs more
than they address. -/
theorem bitmap_misses_long :
    Provisioned (textSizing 5000 5000) (textBuild 4999 2 longRows (by decide)) ∧
      ¬ Covered (textBuild 4999 2 longRows (by decide)) (emptyFile _) := by
  have hcorpus : (textBuild 4999 2 longRows (by decide)).corpus.length = 5000 := by
    show ([longRows].flatten).length = 5000
    rw [List.flatten_singleton, longRows, List.length_map, List.length_range]
  have hp : Provisioned (textSizing 5000 5000) (textBuild 4999 2 longRows (by decide)) :=
    ⟨by rw [hcorpus]; decide, rfl, rfl, by decide⟩
  refine ⟨hp, fun hcov => ?_⟩
  have hiff := (bitmap_covers_iff _ _ _ hp).1 hcov
  have hneed := long_needed
  have hchosen : (textSizing 5000 5000).bitmapPages.toNat = 2 := by decide
  omega

end SextantTree
