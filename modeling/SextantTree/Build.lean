import SextantTree.TreeShape

/-!
The streaming build after training: the emission pass stages every row under its target
clusters and flushes a leaf whenever a cluster has `leaf_cap` rows, then
`write_tree_structure` writes the nodes above the leaves, the blobs and the superblock.
-/

namespace SextantTree

open Pages Alloc FilterHash

structure BuildRow (s : Schema) where
  rowId : RowId
  vector : Vec
  filter : FilterRow s
  payload : Bytes

/-- What training leaves for the search side when PCA routing is on. -/
structure PcaModel where
  /-- `pca_dims` rows of the rotation. -/
  proj : List Vec
  meanProj : Vec
  rootCentroids : List Vec
  superCentroids : List Vec

/-- `proj[k] · v - mean_proj[k]` for every `k`. -/
def projectPca (proj : List Vec) (meanProj : Vec) (v : Vec) : Vec :=
  List.zipWith (fun row m => (List.zipWith (· * ·) row v).sum - m) proj meanProj

structure BuildInput (s : Schema) where
  coder : LeafCoder
  dim : ℕ
  leafCap : ℕ
  kRoot : ℕ
  kL1 : ℕ
  /-- The depth planned from the estimates: 3 with super-clusters, else 2. -/
  depth : ℕ
  /-- The distance the router computes to a cluster; `none` is not a number. -/
  dist : Vec → ℕ → Option ℚ
  /-- `per_cluster_eps`. -/
  eps : ℕ → ℚ
  superGroup : ℕ → ℕ
  rootCentroid : ℕ → Vec
  superCentroid : ℕ → Vec
  /-- `compute_centroid_spherical`, cast to fp16. -/
  leafCentroid : List Vec → Vec
  pca : Option PcaModel
  /-- Bytes of the routing-plane rows of a leaf, and the plane header, with plane layout 1. -/
  plane : Option ((ℕ → ℕ) × Bytes)
  /-- The serialized cardinality table, empty when there is none. -/
  cardinality : Bytes
  /-- The length of `manifest_to_toml`. -/
  tomlBytes : Manifest → ℕ
  bitmapPages : ℕ
  chunks : List (List (BuildRow s))
  leafCap_pos : 0 < leafCap
  bitmapPages_pos : 0 < bitmapPages
  depth_planned : depth = 2 ∨ depth = 3
  superGroup_lt : depth = 3 → ∀ c < kRoot, superGroup c < kL1
  tomlBytes_pos : ∀ m, 0 < tomlBytes m

namespace BuildInput

variable {s : Schema} (b : BuildInput s)

def corpus : List (BuildRow s) := b.chunks.flatten

/-- The smallest of the distances that are numbers. -/
def minDist (v : Vec) : Option ℚ :=
  (List.range b.kRoot).foldl (fun acc c =>
    match b.dist v c, acc with
    | some d, some m => if d < m then some d else acc
    | some d, none => some d
    | none, _ => acc) none

/-- `fabs(d - min_d) <= eps`, false when a side is not a number. -/
def isTarget (v : Vec) (c : ℕ) : Bool :=
  match b.dist v c, b.minDist v with
  | some d, some m => decide (|d - m| ≤ b.eps c)
  | _, _ => false

def targets (v : Vec) : List ℕ := (List.range b.kRoot).filter (b.isTarget v)

def planeBytes (count : ℕ) : ℕ := b.plane.elim 0 fun p => p.1 count

end BuildInput

/-! ### The emission pass -/

structure LeafMeta where
  extent : Extent
  centroid : Vec
  summary : Summary

instance : Inhabited LeafMeta := ⟨⟨Extent.invalid, [], Summary.zero⟩⟩

structure Emission (s : Schema) where
  vol : TreeVol s
  /-- The rows staged for each cluster since its last flush. -/
  buffers : ℕ → List (BuildRow s)
  leaves : List LeafMeta
  /-- The leaves of each cluster, by position in `leaves`. -/
  rootToLeaves : ℕ → List ℕ

section

variable {s : Schema} (b : BuildInput s)

def leafPages (rows : List (BuildRow s)) : ℕ :=
  pagesFor (b.coder.extentBytes rows.length + filterColumnsBytes (rows.map (·.filter)) +
    b.planeBytes rows.length)

/-- The leaf `flush_buffer` builds, given the page of its payload extent. -/
def flushedLeaf (rows : List (BuildRow s)) (payloadPage : Option ℕ) : Leaf s :=
  let enc := b.coder.flushLeaf (rows.map (·.vector))
  { rows := List.zipWith (fun r code => ⟨r.rowId, code, r.filter⟩) rows enc.2
    summary := writeFilterSummary .zero (rows.map (·.filter))
    summaryDirty := false
    hasFilterColumns := decide (0 < filterColumnsBytes (rows.map (·.filter)))
    extentPages := leafPages b rows
    payload :=
      if s.hasPayload then ⟨payloadPage, pagesFor (payloadImage (rows.map (·.payload))).length⟩
      else Extent.invalid
    state := enc.1 }

/-- `flush_buffer`: the staged rows of a cluster become a leaf. Both extents are allocated
before either is written. -/
def flushBuffer (st : Emission s) (c : ℕ) : Emission s :=
  let rows := st.buffers c
  if rows.isEmpty then st
  else
    let a := allocExtent st.vol (leafPages b rows)
    let image := payloadImage (rows.map (·.payload))
    let q := if s.hasPayload then allocExtent a.2 (pagesFor image.length) else (none, a.2)
    let leaf := flushedLeaf b rows q.1
    let v := writeAt q.2 a.1 (.leaf leaf)
    { vol := writeAt v q.1 (.payload image)
      buffers := Function.update st.buffers c []
      leaves := st.leaves ++
        [⟨⟨a.1, leafPages b rows⟩, b.leafCentroid (rows.map (·.vector)), leaf.summary⟩]
      rootToLeaves := Function.update st.rootToLeaves c (st.rootToLeaves c ++ [st.leaves.length]) }

def stageRow (c : ℕ) (st : Emission s) (r : BuildRow s) : Emission s :=
  let st := { st with buffers := Function.update st.buffers c (st.buffers c ++ [r]) }
  if b.leafCap ≤ (st.buffers c).length then flushBuffer b st c else st

/-- The rows of a chunk that go to cluster `c`, in source order. -/
def mergeCluster (chunk : List (BuildRow s)) (st : Emission s) (c : ℕ) : Emission s :=
  (chunk.filter fun r => b.isTarget r.vector c).foldl (stageRow b c) st

def emitChunk (st : Emission s) (chunk : List (BuildRow s)) : Emission s :=
  (List.range b.kRoot).foldl (mergeCluster b chunk) st

/-- `run_emission_pass` on a formatted volume. -/
def runEmissionPass (v : TreeVol s) : Emission s :=
  let st := b.chunks.foldl (emitChunk b) ⟨v, fun _ => [], [], fun _ => []⟩
  (List.range b.kRoot).foldl (flushBuffer b) st

/-! ### The tree above the leaves -/

/-- The entry for a leaf: its position in the leaf table, not its page. -/
def leafEntry (leaves : List LeafMeta) (li : ℕ) : ChildEntry :=
  let m := leaves.getD li default
  ⟨some li, m.extent.pages, true, m.centroid, m.summary⟩

/-- A node with these children, in an extent of its own. -/
def writeNode (v : TreeVol s) (children : List ChildEntry) : Extent × TreeVol s :=
  writeObj v (.node ⟨children, nodeExtentPages b.dim children.length s.summarySize⟩)

/-- The summary of a node: the empty one with those of its children merged in. -/
def mergeAll (sums : List Summary) : Summary := sums.foldl mergeFilterSummary (initEmptySummary s)

/-- The depth, decided late: the root points to leaves when they are no more than `k_root`. -/
def finalDepth (nLeaves : ℕ) : ℕ := if nLeaves ≤ b.kRoot then 1 else b.depth

/-- The node over one group of entries; an empty group has none. -/
def writeGroup (entries : ℕ → List ChildEntry) (acc : (ℕ → Extent) × TreeVol s) (i : ℕ) :
    (ℕ → Extent) × TreeVol s :=
  if (entries i).isEmpty then acc
  else
    let r := writeNode b acc.2 (entries i)
    (Function.update acc.1 i r.1, r.2)

/-- One node for each of the first `n` groups. -/
def writeGroups (n : ℕ) (entries : ℕ → List ChildEntry) (v : TreeVol s) :
    (ℕ → Extent) × TreeVol s :=
  (List.range n).foldl (writeGroup b entries) (fun _ => Extent.invalid, v)

def clusterEntries (st : Emission s) (c : ℕ) : List ChildEntry :=
  (st.rootToLeaves c).map (leafEntry st.leaves)

/-- `l2_summaries[c]`, a zeroed buffer for an empty cluster. -/
def l2Summary (st : Emission s) (c : ℕ) : Summary :=
  if (st.rootToLeaves c).isEmpty then .zero
  else mergeAll (s := s) ((st.rootToLeaves c).map fun li => (st.leaves.getD li default).summary)

def l2Entry (st : Emission s) (l2 : ℕ → Extent) (c : ℕ) : ChildEntry :=
  ⟨(l2 c).page, (l2 c).pages, false, b.rootCentroid c, l2Summary st c⟩

/-- The clusters of a super-group that have a node, in ascending order. -/
def members (l2 : ℕ → Extent) (g : ℕ) : List ℕ :=
  (List.range b.kRoot).filter fun c => b.superGroup c == g && (l2 c).page.isSome

def groupEntries (st : Emission s) (l2 : ℕ → Extent) (g : ℕ) : List ChildEntry :=
  (members b l2 g).map (l2Entry b st l2)

/-- `l1_summaries[g]`. -/
def l1Summary (st : Emission s) (l2 : ℕ → Extent) (g : ℕ) : Summary :=
  if (members b l2 g).isEmpty then .zero
  else mergeAll (s := s) ((members b l2 g).map (l2Summary st))

def l1Entry (st : Emission s) (l2 l1 : ℕ → Extent) (g : ℕ) : ChildEntry :=
  ⟨(l1 g).page, (l1 g).pages, false, b.superCentroid g, l1Summary b st l2 g⟩

/-- A root child of a depth-1 tree: the first leaf of the cluster. -/
def rootLeafEntry (st : Emission s) (c : ℕ) : ChildEntry :=
  match st.rootToLeaves c with
  | [] => ⟨none, 0, true, b.rootCentroid c, .zero⟩
  | li :: _ =>
    let m := st.leaves.getD li default
    ⟨some li, m.extent.pages, true, b.rootCentroid c, m.summary⟩

/-- The nodes below the root and the children of the root. -/
def writeInnerNodes (st : Emission s) (depth : ℕ) : List ChildEntry × TreeVol s :=
  if depth = 1 then ((List.range b.kRoot).map (rootLeafEntry b st), st.vol)
  else
    let l2 := writeGroups b b.kRoot (clusterEntries st) st.vol
    if depth = 3 then
      let l1 := writeGroups b b.kL1 (groupEntries b st l2.1) l2.2
      ((List.range b.kL1).map (l1Entry b st l2.1 l1.1), l1.2)
    else ((List.range b.kRoot).map (l2Entry b st l2.1), l2.2)

/-- The PCA routing blob: projection, mean, root centroids, leaf centroids by leaf id. -/
def pcaBlob (m : PcaModel) (depth : ℕ) (leaves : List LeafMeta) : List ℚ :=
  m.proj.flatten ++ m.meanProj ++
    (if 3 ≤ depth then m.superCentroids else m.rootCentroids).flatten ++
    (leaves.map fun l => projectPca m.proj m.meanProj l.centroid).flatten

def buildManifest (nLeaves depth : ℕ) : Manifest where
  dim := b.dim
  depth := depth
  kRoot := b.kRoot
  kL1 := b.kL1
  leafCapacity := b.leafCap
  nVectors := b.corpus.length
  nLeaves := nLeaves
  pcaDims := b.pca.elim 0 fun m => m.proj.length

/-- An optional blob: nothing is allocated or written for an absent one. -/
def writeOpt (v : TreeVol s) (o : Option (Obj s)) : Extent × TreeVol s :=
  o.elim (Extent.invalid, v) (writeObj v)

/-- `init_fresh`: the fields it does not name are zero bytes. -/
def initFresh (bitmapPage bitmapPages : ℕ) : SuperblockDisk where
  commitSeq := 0
  root := Extent.invalid
  depth := 0
  nLeaves := 0
  nPages := bitmapPage + bitmapPages
  freeListHead := none
  nFreePages := 0
  bitmapPage := bitmapPage
  bitmapPages := bitmapPages
  codebook := Extent.invalid
  config := Extent.invalid
  pca := Extent.invalid
  cardinality := ⟨some 0, 0⟩
  leafTable := ⟨some 0, 0⟩
  plane := ⟨some 0, 0⟩

/-- The codebook blob: its length in eight bytes, then the bytes. -/
def codebookBlob (bytes : Bytes) : Bytes :=
  u32le bytes.length ++ u32le (bytes.length / 2 ^ 32) ++ bytes

/-- `write_tree_structure`. -/
def writeTreeStructure (st : Emission s) : Except (Failure s) (TreeFile s) :=
  let nLeaves := st.leaves.length
  let depth := finalDepth b nLeaves
  let inner := writeInnerNodes b st depth
  let root := writeNode b inner.2 inner.1
  let codebook := writeOpt root.2 (b.coder.serializeGlobal.map fun g => .blob (codebookBlob g))
  let pca := writeOpt codebook.2 (b.pca.map fun m => .pca (pcaBlob m depth st.leaves))
  let card := writeOpt pca.2
    (if s.columns.isEmpty || b.cardinality.isEmpty then none else some (.blob b.cardinality))
  let table := writeObj card.2 (.leafTable (st.leaves.map (·.extent)))
  let manifest := buildManifest b nLeaves depth
  let config := writeObj table.2 (.config manifest (b.tomlBytes manifest))
  let plane := writeOpt config.2 (b.plane.map fun p => .blob p.2)
  match flushBitmap plane.2 with
  | none => .error ⟨.undefined, plane.2.file⟩
  | some (.error e) => .error ⟨.alloc e, plane.2.file⟩
  | some (.ok file) =>
    let alloc := plane.2.alloc
    let fresh := initFresh alloc.bitmapPage alloc.bitmapPages
    let sb : SuperblockDisk :=
      { fresh with
        root := root.1
        depth := depth
        nLeaves := nLeaves
        nPages := file.numPages
        freeListHead := alloc.freeListHead
        nFreePages := alloc.nFreePages
        codebook := codebook.1
        config := config.1
        pca := pca.1
        cardinality := card.1
        leafTable := table.1
        plane := if b.plane.isSome then plane.1 else fresh.plane }
    .ok (commitSuperblock file sb).1

/-- The volume of a build before its first leaf: superblock copies wiped, file cut to the
reserved pages. `old` is whatever the path held. -/
def formatted (old : TreeFile s) : TreeVol s :=
  let file := (old.writePages 0 2 fun _ => .zero).truncate (2 + b.bitmapPages)
  ⟨file, init file 2 b.bitmapPages⟩

/-- `build_streaming_pca` from the emission pass on. -/
def build (old : TreeFile s) : Except (Failure s) (TreeFile s) :=
  writeTreeStructure b (runEmissionPass b (formatted b old))

end

end SextantTree
