import SextantTree.Build
import SextantTree.Committed

/-!
An open index: what `open` reads from a file, how `remap_` refreshes it after a commit, and
how an inserted vector is routed to a leaf.

Routing compares floats only with `<`, so a distance is a rational, or nothing when it is not
a number or not below the largest float.
-/

namespace SextantTree

open Pages Alloc FilterHash

/-- What the engine around a tree supplies: the coder, the distance kernels, the length of a
serialized manifest, and the order in which its hash maps are walked. -/
structure Engine where
  coder : LeafCoder
  /-- `dist_f16` of a query and a stored centroid. -/
  dist : Vec → Vec → Option ℚ
  /-- The squared distance in PCA space. -/
  pcaDist : Vec → Vec → Option ℚ
  tomlBytes : Manifest → ℕ
  tomlBytes_pos : ∀ m, 0 < tomlBytes m
  /-- The iteration order of an `unordered_map` whose keys were inserted in this order. -/
  mapOrder : List ℕ → List ℕ
  mapOrder_perm : ∀ ks, (mapOrder ks).Perm ks

structure RootChild where
  page : Option ℕ
  pages : ℕ
  isLeaf : Bool
  centroid : Vec
deriving DecidableEq

/-- The PCA side of an open index. -/
structure PcaTables where
  dims : ℕ
  proj : List Vec
  meanProj : Vec
  rootCentroids : List Vec
  leafCentroids : List Vec
  /-- Where the leaves of each root child start; `none` is the sentinel. -/
  leafBase : List (Option ℕ)
deriving DecidableEq

def PcaTables.off : PcaTables := ⟨0, [], [], [], [], []⟩

structure Index (s : Schema) where
  file : TreeFile s
  super : SuperblockDisk
  manifest : Manifest
  /-- `n_vectors_disk_`: the row count of the manifest on disk. -/
  nVectorsDisk : ℕ
  leafTable : List LeafTableEntry
  rootChildren : List RootChild
  pca : PcaTables
  /-- A routing plane is attached. -/
  plane : Bool

section

variable {s : Schema}

/-! ### The root and the PCA tables -/

/-- The root child of an entry; a leaf id outside the table is read out of bounds. -/
def rootChild (table : List LeafTableEntry) (c : ChildEntry) : Except ErrorKind RootChild :=
  if c.isLeaf then
    match c.childPage.bind (table[·]?) with
    | some e => .ok ⟨e.page, e.pages, true, c.centroid⟩
    | none => .error .undefined
  else .ok ⟨c.childPage, c.childPages, false, c.centroid⟩

/-- The node in an extent, where the engine reads it unchecked. -/
def nodeAt (file : TreeFile s) (e : Extent) : Except ErrorKind Node :=
  match readNode file e with
  | some n => .ok n
  | none => .error .undefined

/-- `load_root_from_mmap`. -/
def loadRoot (file : TreeFile s) (root : Extent) (table : List LeafTableEntry) :
    Except ErrorKind (List RootChild) :=
  if root.page = none then .error (.thrown "IVFTreeIndex: superblock has no root node")
  else do
    let n ← nodeAt file root
    n.children.mapM (rootChild table)

/-- Row `i` of a matrix of `width` columns stored flat. -/
def rowOf (width : ℕ) (fs : List ℚ) (i : ℕ) : Vec := (fs.drop (i * width)).take width

/-- The PCA part of `open`: the blob is read with the counts of the manifest, and what lies
between its end and the end of its last page is zero. -/
def loadPca (fs : List ℚ) (m : Manifest) : Except ErrorKind PcaTables :=
  let pd := m.pcaDims
  let kr := if 3 ≤ m.depth ∧ 0 < m.kL1 then m.kL1 else m.kRoot
  let words := pagesFor (fs.length * 4) * (kPageSize / 4)
  let buf := fs ++ List.replicate (words - fs.length) 0
  if words < pd * m.dim + pd + kr * pd + m.nLeaves * pd then .error .undefined
  else
    let afterProj := buf.drop (pd * m.dim)
    let afterMean := afterProj.drop pd
    .ok
      { dims := pd
        proj := (List.range pd).map (rowOf m.dim buf)
        meanProj := afterProj.take pd
        rootCentroids := (List.range kr).map (rowOf pd afterMean)
        leafCentroids := (List.range m.nLeaves).map (rowOf pd (afterMean.drop (kr * pd)))
        leafBase := [] }

/-- The leaf bases of `open`: every child of a node counts. -/
def openLeafBase (file : TreeFile s) : (globalId : ℕ) → List RootChild →
    Except ErrorKind (List (Option ℕ))
  | _, [] => .ok []
  | globalId, rc :: rest =>
    if rc.isLeaf || rc.page.isNone then do
      let bases ← openLeafBase file globalId rest
      .ok (none :: bases)
    else do
      let n ← nodeAt file ⟨rc.page, rc.pages⟩
      let bases ← openLeafBase file (globalId + n.children.length) rest
      .ok (some globalId :: bases)

/-- `rebuild_pca_leaf_centroids_`: bases and projected centroids in tree order. -/
def rebuildPca (file : TreeFile s) (t : PcaTables) : (globalId : ℕ) → List RootChild →
    Except ErrorKind (List (Option ℕ) × List Vec)
  | _, [] => .ok ([], [])
  | globalId, rc :: rest =>
    if rc.isLeaf || rc.page.isNone then do
      let r ← rebuildPca file t globalId rest
      .ok (none :: r.1, r.2)
    else do
      let n ← nodeAt file ⟨rc.page, rc.pages⟩
      let cents := (n.children.filter (·.isLeaf)).map fun c =>
        projectPca t.proj t.meanProj c.centroid
      let r ← rebuildPca file t (globalId + cents.length) rest
      .ok (some globalId :: r.1, cents ++ r.2)

/-! ### Opening -/

/-- `open` for writing. -/
def openIndex (eng : Engine) (file : TreeFile s) : Except ErrorKind (Index s) := do
  let sb ← match loadSuperblock file with
    | some sb => .ok sb
    | none => .error (.thrown "Superblock::load: neither copy has valid magic")
  if sb.config.page = none then
    .error (.thrown "IVFTreeIndex::open: no config blob in superblock")
  let m ← match readConfig file sb.config with
    | some m => .ok m
    | none => .error .undefined
  if eng.coder.serializeGlobal.isSome ∧ (sb.codebook.page = none ∨ sb.codebook.pages = 0) then
    .error (.thrown "IVFTreeIndex::open: no codebook in superblock")
  let pca ←
    if 0 < m.pcaDims ∧ sb.pca.page ≠ none then
      match readPca file sb.pca with
      | some fs => loadPca fs m
      | none => .error .undefined
    else .ok PcaTables.off
  if sb.leafTable.page = none ∨ sb.leafTable.pages = 0 then
    .error (.thrown "tree index is missing the leaf extent table")
  let table ← match readLeafTable file sb.leafTable with
    | some es => .ok es
    | none => .error .undefined
  let children ← loadRoot file sb.root table
  let bases ←
    if 0 < pca.dims ∧ m.depth = 2 then openLeafBase file 0 children else .ok []
  .ok
    { file := file
      super := sb
      manifest := m
      nVectorsDisk := m.nVectors
      leafTable := table
      rootChildren := children
      pca := { pca with leafBase := bases }
      plane := decide (sb.plane.page ≠ none ∧ 0 < sb.plane.pages) }

/-- `remap_`: everything read from the file is read again, the PCA leaf table is rebuilt; the
manifest and the other PCA tables stay as they are in memory. -/
def remap (idx : Index s) : Except ErrorKind (Index s) := do
  let sb ← match loadSuperblock idx.file with
    | some sb => .ok sb
    | none => .error (.thrown "Superblock::load: neither copy has valid magic")
  let table ←
    if sb.leafTable.page = none ∨ sb.leafTable.pages = 0 then .ok idx.leafTable
    else
      match readLeafTable idx.file sb.leafTable with
      | some es => .ok es
      | none => .error .undefined
  let children ← loadRoot idx.file sb.root table
  let r ←
    if idx.pca.dims = 0 ∨ idx.manifest.depth ≠ 2 then .ok ([], [])
    else rebuildPca idx.file idx.pca 0 children
  .ok
    { idx with
      super := sb
      manifest := { idx.manifest with nLeaves := sb.nLeaves }
      leafTable := table
      rootChildren := children
      pca := { idx.pca with leafBase := r.1, leafCentroids := r.2 } }

/-! ### Routing -/

/-- The position of the first smallest distance, `0` when there is none. -/
def nearest (ds : List (Option ℚ)) : ℕ :=
  (ds.zipIdx.foldl (fun (acc : ℕ × Option ℚ) x =>
    match x.1, acc.2 with
    | some d, some m => if d < m then (x.2, some d) else acc
    | some d, none => (x.2, some d)
    | none, _ => acc) (0, none)).1

/-- A read of element `i` of a vector, without a bounds check. -/
def elemAt {α : Type} (l : List α) (i : ℕ) : Except ErrorKind α :=
  match l[i]? with
  | some a => .ok a
  | none => .error .undefined

/-- The distances to the root children in PCA space, one centroid row each. -/
def rootPcaDists (eng : Engine) (idx : Index s) (q : Vec) : Except ErrorKind (List (Option ℚ)) :=
  (List.range idx.rootChildren.length).mapM fun c => do
    let cent ← elemAt idx.pca.rootCentroids c
    .ok (eng.pcaDist q cent)

/-- `route_to_leaf_id_depth2_pca_`. A child that is skipped has no distance. -/
def routeDepth2Pca (eng : Engine) (idx : Index s) (q : Vec) : Except ErrorKind ℕ := do
  let ds ← rootPcaDists eng idx q
  let best := nearest ds
  let rc ← elemAt idx.rootChildren best
  if rc.isLeaf then .ok (rc.page.getD (2 ^ 32 - 1))
  else do
    let n ← nodeAt idx.file ⟨rc.page, rc.pages⟩
    let base ← match (idx.pca.leafBase[best]?).join with
      | some base => .ok base
      | none => .error .undefined
    let ds ← n.children.zipIdx.mapM fun x =>
      if x.1.isLeaf = false ∨ x.1.childPage = none then .ok none
      else do
        let cent ← elemAt idx.pca.leafCentroids (base + x.2)
        .ok (eng.pcaDist q cent)
    if ds.all Option.isNone then .ok 0
    else do
      let c ← elemAt n.children (nearest ds)
      .ok (c.childPage.getD 0)

/-- The descent through internal levels, `fuel` of them left. -/
def routeDescend (eng : Engine) (file : TreeFile s) (q : Vec) : (fuel : ℕ) → Extent →
    Except ErrorKind ℕ
  | 0, _ => .error (.thrown "route_to_leaf_id_: tree descent did not reach a leaf")
  | fuel + 1, e => do
    let n ← nodeAt file e
    let ds := n.children.map fun c => if c.childPage = none then none else eng.dist q c.centroid
    let c ← elemAt n.children (nearest ds)
    if c.isLeaf then .ok (c.childPage.getD (2 ^ 32 - 1))
    else routeDescend eng file q fuel ⟨c.childPage, c.childPages⟩

/-- `route_to_leaf_id_`. -/
def routeToLeafId (eng : Engine) (idx : Index s) (v : Vec) : Except ErrorKind ℕ :=
  if 0 < idx.pca.dims ∧ idx.manifest.depth = 2 then
    routeDepth2Pca eng idx (projectPca idx.pca.proj idx.pca.meanProj v)
  else do
    let ds ←
      if 0 < idx.pca.dims then
        rootPcaDists eng idx (projectPca idx.pca.proj idx.pca.meanProj v)
      else .ok (idx.rootChildren.map fun rc => eng.dist v rc.centroid)
    let best := nearest ds
    let rc ← elemAt idx.rootChildren best
    if rc.isLeaf then do
      -- the leaf id is read from the root node, the root child has the page
      let n ← nodeAt idx.file idx.super.root
      let c ← elemAt n.children best
      .ok (c.childPage.getD (2 ^ 32 - 1))
    else routeDescend eng idx.file v (idx.manifest.depth - 1) ⟨rc.page, rc.pages⟩

end

end SextantTree
