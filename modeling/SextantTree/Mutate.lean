import SextantTree.Index

/-!
Mutations of an open index: insert with the splits it triggers, delete, vacuum and defrag, and
the commit they share.

An operation works on a volume, the leaf table in memory and the root extent. It either
returns or fails; a failure carries the file as the failing call left it.
-/

namespace SextantTree

open Pages Alloc FilterHash

variable {s : Schema}

/-- What changes between two commits. -/
structure Work (s : Schema) where
  vol : TreeVol s
  leafTable : List LeafTableEntry
  root : Extent

def Work.fail {α : Type} (w : Work s) (k : ErrorKind) : Except (Failure s) α :=
  .error ⟨k, w.vol.file⟩

/-- A failure of a read, with the file it read. -/
def Work.lift {α : Type} (w : Work s) (x : Except ErrorKind α) : Except (Failure s) α :=
  match x with
  | .ok a => .ok a
  | .error k => w.fail k

/-- The work on an index and a loaded allocator. -/
def Work.of (idx : Index s) (alloc : PageAllocator) : Work s :=
  ⟨⟨idx.file, alloc⟩, idx.leafTable, idx.super.root⟩

/-- `PageAllocator::load` from the superblock of the index. -/
def loadAlloc (idx : Index s) : Except (Failure s) PageAllocator :=
  match load idx.file idx.super.bitmapPage idx.super.bitmapPages idx.super.nPages
      idx.super.freeListHead idx.super.nFreePages with
  | .ok a => .ok a
  | .error e => .error ⟨.alloc e, idx.file⟩

/-! ### Leaves -/

/-- `read_leaf_`. -/
def readLeaf (file : TreeFile s) (table : List LeafTableEntry) (leafId : ℕ) :
    Except ErrorKind (Leaf s) :=
  match table[leafId]? with
  | none => .error (.thrown ("read_leaf_: leaf_id " ++ toString leafId ++
      " out of range (table size " ++ toString table.length ++ ")"))
  | some e =>
    match readLeafExtent file e with
    | some l => .ok l
    | none => .error .undefined

def Work.leaf (w : Work s) (leafId : ℕ) : Except (Failure s) (Leaf s) :=
  w.lift (readLeaf w.vol.file w.leafTable leafId)

/-- `write_leaf_`: in place when the extent is long enough, its tail freed; else a new extent,
and the old one freed after the write. -/
def writeLeaf (w : Work s) (leafId : ℕ) (l : Leaf s) : Work s :=
  match w.leafTable[leafId]? with
  | none => w
  | some old =>
    if l.extentPages ≤ old.pages then
      let v := writeAt w.vol old.page (.leaf l)
      let tail : Extent := ⟨old.page.map (· + l.extentPages), old.pages - l.extentPages⟩
      { w with
        vol := if l.extentPages < old.pages then freeAt v tail else v
        leafTable := w.leafTable.set leafId ⟨old.page, l.extentPages⟩ }
    else
      let r := writeObj w.vol (.leaf l)
      { w with
        vol := freeAt r.2 old
        leafTable := w.leafTable.set leafId r.1 }

/-! ### Commit -/

/-- The manifest part of `commit_mutable_`: a new blob and the old one freed, if the row count
is not the one on disk. -/
def writeManifest (eng : Engine) (idx : Index s) (v : TreeVol s) : Extent × TreeVol s × ℕ :=
  if idx.manifest.nVectors = idx.nVectorsDisk then (idx.super.config, v, idx.nVectorsDisk)
  else
    let r := writeObj v (.config idx.manifest (eng.tomlBytes idx.manifest))
    (r.1, freeAt r.2 idx.super.config, idx.manifest.nVectors)

/-- The superblock a commit writes, but for its sequence number. -/
def nextSuper (idx : Index s) (w : Work s) (leafTable config : Extent) (v : TreeVol s)
    (file : TreeFile s) : SuperblockDisk :=
  { idx.super with
    root := w.root
    config := config
    leafTable := leafTable
    nPages := file.numPages
    freeListHead := v.alloc.freeListHead
    nFreePages := v.alloc.nFreePages
    nLeaves := w.leafTable.length }

/-- `commit_mutable_`: the new leaf table, the manifest, the bitmap, the superblock; then
`remap_`. -/
def commitMutable (eng : Engine) (idx : Index s) (w : Work s) :
    Except (Failure s) (Index s × PageAllocator) :=
  let table := writeObj w.vol (.leafTable w.leafTable)
  let v := freeAt table.2 idx.super.leafTable
  let cfg := writeManifest eng idx v
  let v := cfg.2.1
  match flushBitmap v with
  | none => .error ⟨.undefined, v.file⟩
  | some (.error e) => .error ⟨.alloc e, v.file⟩
  | some (.ok file) =>
    let committed := commitSuperblock file (nextSuper idx w table.1 cfg.1 v file)
    let idx' := { idx with
      file := committed.1
      super := committed.2
      nVectorsDisk := cfg.2.2
      leafTable := w.leafTable }
    match remap idx' with
    | .error k => .error ⟨k, committed.1⟩
    | .ok idx'' => .ok (idx'', clearFreeList v.alloc)

/-! ### The parent of a split leaf -/

def slotOf (n : Node) (leafId : ℕ) : Option ℕ :=
  n.children.findIdx? fun c => c.isLeaf && c.childPage == some leafId

/-- Where the entry for a leaf is: the parent node, the slot in it, and the node and slot that
point to the parent. -/
structure ParentLoc where
  parent : Extent
  slot : ℕ
  grandparent : Option (Extent × ℕ)

def scanChildren (file : TreeFile s) (leafId : ℕ) (node : Extent) :
    List (ChildEntry × ℕ) → Except ErrorKind (Option ParentLoc)
  | [] => .ok none
  | (c, i) :: rest =>
    if c.isLeaf || c.childPage.isNone then scanChildren file leafId node rest
    else do
      let n ← nodeAt file ⟨c.childPage, c.childPages⟩
      match slotOf n leafId with
      | some slot => .ok (some ⟨⟨c.childPage, c.childPages⟩, slot, some (node, i)⟩)
      | none => scanChildren file leafId node rest

/-- The scan of a depth-3 tree, over the root children in memory. -/
def scanRootChildren (file : TreeFile s) (leafId : ℕ) :
    List RootChild → Except ErrorKind (Option ParentLoc)
  | [] => .ok none
  | rc :: rest =>
    if rc.isLeaf || rc.page.isNone then scanRootChildren file leafId rest
    else do
      let n ← nodeAt file ⟨rc.page, rc.pages⟩
      let found ← scanChildren file leafId ⟨rc.page, rc.pages⟩ n.children.zipIdx
      match found with
      | some loc => .ok (some loc)
      | none => scanRootChildren file leafId rest

/-- The search of `add_child_to_parent_`, by depth. -/
def findParent (idx : Index s) (w : Work s) (leafId : ℕ) : Except ErrorKind (Option ParentLoc) :=
  if idx.manifest.depth = 1 then do
    let n ← nodeAt w.vol.file w.root
    .ok ((slotOf n leafId).map fun slot => ⟨w.root, slot, none⟩)
  else if idx.manifest.depth = 2 then do
    let n ← nodeAt w.vol.file w.root
    scanChildren w.vol.file leafId w.root n.children.zipIdx
  else scanRootChildren w.vol.file leafId idx.rootChildren

/-- `update_internal_child_`. -/
def updateInternalChild (w : Work s) (node : Extent) (slot : ℕ) (child : Extent) :
    Except (Failure s) (Work s) := do
  let n ← w.lift (nodeAt w.vol.file node)
  let children := n.children.modify slot fun c =>
    { c with childPage := child.page, childPages := child.pages }
  .ok { w with vol := writeAt w.vol node.page (.node { n with children := children }) }

/-- `add_child_to_parent_` once the parent is found: the entry of the split leaf takes the new
centroid, an entry with a zeroed summary is appended, and a node that outgrows its extent
moves. -/
def addChildAt (idx : Index s) (w : Work s) (loc : ParentLoc) (leafId newLeafId : ℕ)
    (cent0 cent1 : Vec) (newLeafPages : ℕ) : Except (Failure s) (Work s) := do
  let n ← w.lift (nodeAt w.vol.file loc.parent)
  let pages := (w.leafTable.getD leafId Extent.invalid).pages
  let children := n.children.modify loc.slot (fun c =>
    { c with childPages := pages, centroid := cent0 }) ++
    [⟨some newLeafId, newLeafPages, true, cent1, Summary.zero⟩]
  let node : Node := ⟨children, nodeExtentPages idx.manifest.dim children.length s.summarySize⟩
  if node.extentPages ≤ loc.parent.pages then
    .ok { w with vol := writeAt w.vol loc.parent.page (.node node) }
  else
    let r := writeObj w.vol (.node node)
    let w := { w with vol := freeAt r.2 loc.parent }
    if idx.manifest.depth = 1 then .ok { w with root := r.1 }
    else
      match loc.grandparent with
      | some (gp, gslot) => updateInternalChild w gp gslot r.1
      | none => .ok w

/-- `add_child_to_parent_`; a parent that is not found is only logged. -/
def addChildToParent (idx : Index s) (w : Work s) (leafId newLeafId : ℕ) (cent0 cent1 : Vec)
    (newLeafPages : ℕ) : Except (Failure s) (Work s) := do
  let found ← w.lift (findParent idx w leafId)
  match found with
  | none => .ok w
  | some loc => addChildAt idx w loc leafId newLeafId cent0 cent1 newLeafPages

/-! ### Split -/

/-- The two groups of a split plan, by slot. -/
def splitGroups (eng : Engine) (l : Leaf s) (leafId : ℕ) : List ℕ × List ℕ :=
  let assign := eng.coder.splitAssign l.state (l.rows.map (·.code)) leafId
  let g0 := (List.range l.count).filter fun i => !assign i
  let g1 := (List.range l.count).filter fun i => assign i
  if g0.isEmpty || g1.isEmpty then
    ((List.range l.count).filter fun i => decide (i < l.count / 2),
      (List.range l.count).filter fun i => !decide (i < l.count / 2))
  else (g0, g1)

/-- The leaf `write_leaf_from_group` writes: header and summary of the split leaf, the rows of
the group re-encoded by the family. -/
def groupLeaf (eng : Engine) (l : Leaf s) (group : List ℕ) : Leaf s :=
  let rows := group.filterMap (l.rows[·]?)
  let enc := eng.coder.encodeGroup l.state (rows.map (·.code))
  let fcb := filterColumnsBytes (rows.map (·.filter))
  { l with
    rows := List.zipWith (fun (r : LeafRow s) code => { r with code := code }) rows enc.2
    hasFilterColumns := decide (0 < fcb)
    extentPages := pagesFor (eng.coder.extentBytes rows.length + fcb)
    state := enc.1 }

/-- `split_leaf_`. -/
def splitLeaf (eng : Engine) (idx : Index s) (w : Work s) (leafId : ℕ) :
    Except (Failure s) (Work s) := do
  let l ← w.leaf leafId
  let groups := splitGroups eng l leafId
  let e0 := writeObj w.vol (.leaf (groupLeaf eng l groups.1))
  let e1 := writeObj e0.2 (.leaf (groupLeaf eng l groups.2))
  let old := w.leafTable.getD leafId Extent.invalid
  let w' := { w with
    vol := freeAt e1.2 old
    leafTable := w.leafTable.set leafId e0.1 ++ [e1.1] }
  let cent := eng.coder.splitCentroid l.state (l.rows.map (·.code)) leafId
  addChildToParent idx w' leafId w.leafTable.length (cent false) (cent true) e1.1.pages

/-- `2u * leaf_cap`, in 32 bits. -/
def splitThreshold (leafCap : ℕ) : ℕ := 2 * leafCap % 2 ^ 32

/-- The loop that splits until a whole pass finds no oversized leaf. `lid` is the position of
the pass, `did` whether it has split, `any` whether any pass has. -/
def splitLoop (eng : Engine) (idx : Index s) :
    (fuel : ℕ) → (lid : ℕ) → (did any : Bool) → Work s → Except (Failure s) (Bool × Work s)
  | 0, _, _, _, w => w.fail .diverged
  | fuel + 1, lid, did, any, w =>
    match w.leafTable[lid]? with
    | none => if did then splitLoop eng idx fuel 0 false any w else .ok (any, w)
    | some e =>
      if e.page = none then splitLoop eng idx fuel (lid + 1) did any w
      else
        match readLeafExtent w.vol.file e with
        | none => w.fail .undefined
        | some l =>
          if splitThreshold idx.manifest.leafCapacity < l.count then do
            let w' ← splitLeaf eng idx w lid
            splitLoop eng idx fuel (lid + 1) true true w'
          else splitLoop eng idx fuel (lid + 1) did any w

/-- Rows in excess of one, over all leaves: each split uses up at least one. -/
def splitBudget (w : Work s) : ℕ :=
  (w.leafTable.map fun e => ((readLeafExtent w.vol.file e).elim 0 Leaf.count) - 1).sum

/-- Steps enough for the loop: as many passes as splits and one more, each over a table that
grows by one entry a split. -/
def splitFuel (w : Work s) : ℕ :=
  (splitBudget w + 2) * (w.leafTable.length + splitBudget w + 2)

/-! ### Insert -/

/-- A point to insert. The number of its filter values is checked, their types are the
caller's business. -/
structure InsertPoint (s : Schema) where
  rowId : RowId
  vector : Vec
  filterValues : List (Option Cell)
  payload : Bytes
  typed : filterValues.length = s.columns.length →
    List.Forall₂ FilterColumn.Admits s.columns filterValues

/-- The filter row of a point; the values are ignored without filter columns. A point without
a value for a column is read out of bounds. -/
def InsertPoint.row (p : InsertPoint s) : Option (FilterRow s) :=
  let cells := if s.columns.isEmpty then [] else p.filterValues
  if h : List.Forall₂ FilterColumn.Admits s.columns cells then some ⟨cells, h⟩ else none

/-- The filter region of a leaf, up to the end of its last page. -/
def oldFilterBytes (eng : Engine) (l : Leaf s) : ℕ :=
  if l.hasFilterColumns then l.extentPages * kPageSize - eng.coder.extentBytes l.count else 0

/-- What `insert_batch` counts for one value. -/
def cellInsertBytes (col : FilterColumn) (c : Option Cell) : ℕ :=
  match col.type with
  | .string => 4 + 2 + 4 + c.elim 0 Cell.dataBytes
  | .set => 1 + 4 + c.elim 0 Cell.elements * 4 + c.elim 0 Cell.dataBytes
  | t => t.width

/-- What `insert_batch` counts for one row. -/
def rowInsertBytes (r : FilterRow s) : ℕ := (List.zipWith cellInsertBytes s.columns r.cells).sum

/-- The filter bytes `insert_batch` provides for. -/
def newFilterBytes (eng : Engine) (l : Leaf s) (rs : List (FilterRow s)) : ℕ :=
  oldFilterBytes eng l + (rs.map rowInsertBytes).sum

def insertPages (eng : Engine) (l : Leaf s) (rs : List (FilterRow s)) : ℕ :=
  pagesFor (eng.coder.extentBytes (l.count + rs.length) + newFilterBytes eng l rs)

/-- The payloads in an extent laid out for `count` rows. -/
def oldPayloads (bytes : Bytes) (count : ℕ) : Option (List Bytes) := do
  let buf := padded bytes
  let offs ← (List.range count).mapM (u32At buf)
  let lens ← (List.range count).mapM fun i => u32At buf (count + i)
  let data ← slice buf (8 * count) (lens.sum % 2 ^ 32)
  (offs.zip lens).mapM fun x => slice data x.1 x.2

/-- The payloads of the rows of a leaf before an insert. -/
def leafPayloads (w : Work s) (l : Leaf s) : Except (Failure s) (List Bytes) :=
  if l.payload.page ≠ none ∧ 0 < l.payload.pages ∧ 0 < l.count then
    match (readPayload w.vol.file l.payload).bind (oldPayloads · l.count) with
    | some ps => .ok ps
    | none => w.fail .undefined
  else .ok (List.replicate l.count [])

/-- The payload part of an insert: a new extent for all rows, then the old one freed. -/
def rebuildPayload (w : Work s) (l : Leaf s) (new : List Bytes) :
    Except (Failure s) (Extent × Work s) := do
  let old ← leafPayloads w l
  if l.count + new.length = 0 then .ok (Extent.invalid, w)
  else
    let r := writeObj w.vol (.payload (payloadImage (old ++ new)))
    .ok (r.1, { w with vol := freeAt r.2 l.payload })

def appendedLeaf (eng : Engine) (l : Leaf s) (pts : List (InsertPoint s)) (rs : List (FilterRow s))
    (payload : Extent) : Leaf s :=
  { l with
    rows := l.rows ++ List.zipWith (fun (p : InsertPoint s) r =>
      ⟨p.rowId, eng.coder.appendEncode l.state p.vector, r⟩) pts rs
    summary :=
      if s.columns.isEmpty then l.summary
      else mergeFilterSummary l.summary (writeFilterSummary Summary.zero rs)
    hasFilterColumns := decide (¬ s.columns.isEmpty ∧ 0 < newFilterBytes eng l rs)
    extentPages := insertPages eng l rs
    payload := payload }

/-- The rebuilt filter columns stay inside the buffer of the extended leaf. -/
def FiltersFit (eng : Engine) (l : Leaf s) (rs : List (FilterRow s)) : Prop :=
  s.columns.isEmpty ∨ ((0 < l.count → 0 < oldFilterBytes eng l) ∧
    eng.coder.extentBytes (l.count + rs.length) +
      filterColumnsBytes (l.rows.map (·.filter) ++ rs) ≤ insertPages eng l rs * kPageSize)

instance (eng : Engine) (l : Leaf s) (rs : List (FilterRow s)) : Decidable (FiltersFit eng l rs) :=
  inferInstanceAs (Decidable (_ ∨ _))

/-- One leaf of `insert_batch`. -/
def appendToLeaf (eng : Engine) (w : Work s) (leafId : ℕ) (pts : List (InsertPoint s)) :
    Except (Failure s) (Work s) := do
  let l ← w.leaf leafId
  match pts.mapM InsertPoint.row with
  | none => w.fail .undefined
  | some rs =>
    if FiltersFit eng l rs then do
      let (payload, w) ←
        if s.hasPayload then rebuildPayload w l (pts.map (·.payload)) else .ok (l.payload, w)
      .ok (writeLeaf w leafId (appendedLeaf eng l pts rs payload))
    else w.fail .undefined

/-- The points routed to a leaf, in batch order. -/
def pointsFor (pts : List (InsertPoint s)) (ids : List ℕ) (leafId : ℕ) : List (InsertPoint s) :=
  ((pts.zip ids).filter fun x => x.2 == leafId).map Prod.fst

def insertBatch (eng : Engine) (idx : Index s) (pts : List (InsertPoint s)) :
    Except (Failure s) (Index s) :=
  if pts.isEmpty then .ok idx
  else if idx.plane then
    .error ⟨.thrown "insert_batch not supported while a routing plane is attached (v1 planes are immutable)",
      idx.file⟩
  else
    match (if s.columns.isEmpty then none
      else pts.find? fun p => p.filterValues.length != s.columns.length) with
    | some p => .error ⟨.thrown ("insert_batch: filter_values size mismatch (got " ++
        toString p.filterValues.length ++ ", expected " ++ toString s.columns.length ++ ")"), idx.file⟩
    | none =>
      match pts.mapM fun p => routeToLeafId eng idx p.vector with
      | .error k => .error ⟨k, idx.file⟩
      | .ok ids => do
        let alloc ← loadAlloc idx
        let w ← (eng.mapOrder ids.eraseDups).foldlM
          (fun w leafId => appendToLeaf eng w leafId (pointsFor pts ids leafId)) (Work.of idx alloc)
        let idx := { idx with
          manifest := { idx.manifest with nVectors := (idx.manifest.nVectors + pts.length) % 2 ^ 64 } }
        let (idx, alloc) ← commitMutable eng idx w
        let w := Work.of idx alloc
        let (any, w) ← splitLoop eng idx (splitFuel w) 0 false false w
        if any then do
          let (idx, _) ← commitMutable eng idx w
          .ok idx
        else .ok idx

/-! ### Delete -/

/-- The slots of a leaf that hold one of the ids. -/
def deletedSlots (l : Leaf s) (rowIds : List RowId) : List ℕ :=
  (List.range l.count).filter fun i => (l.rows[i]?).any fun r => rowIds.contains r.rowId

/-- The leaf without the slots: the filter region keeps the bytes it had, the summary is kept
and marked stale. -/
def compactedLeaf (eng : Engine) (l : Leaf s) (slots : List ℕ) : Leaf s :=
  let survivors := (List.range l.count).filter fun i => !slots.contains i
  let rows := survivors.filterMap (l.rows[·]?)
  { l with
    rows := rows
    summaryDirty := true
    extentPages := pagesFor (eng.coder.extentBytes rows.length + oldFilterBytes eng l) }

/-- The rebuilt filter columns stay inside the buffer of the compacted leaf. -/
def CompactFits (eng : Engine) (l : Leaf s) (l' : Leaf s) : Prop :=
  oldFilterBytes eng l = 0 ∨ eng.coder.extentBytes l'.count +
    filterColumnsBytes (l'.rows.map (·.filter)) ≤ l'.extentPages * kPageSize

instance (eng : Engine) (l l' : Leaf s) : Decidable (CompactFits eng l l') :=
  inferInstanceAs (Decidable (_ ∨ _))

/-- One leaf of `delete_batch`. -/
def compactLeaf (eng : Engine) (w : Work s) (leafId : ℕ) (slots : List ℕ) :
    Except (Failure s) (Work s) := do
  let l ← w.leaf leafId
  let l' := compactedLeaf eng l slots
  if l'.count = l.count then .ok w
  else if CompactFits eng l l' then .ok (writeLeaf w leafId l')
  else w.fail .undefined

/-- The slots to delete, for every leaf that has one. -/
def leafDeletes (leaves : List (Leaf s)) (rowIds : List RowId) : List (ℕ × List ℕ) :=
  (leaves.zipIdx.map fun x => (x.2, deletedSlots x.1 rowIds)).filter fun x => !x.2.isEmpty

def isStored (leaves : List (Leaf s)) (rowId : RowId) : Bool :=
  leaves.any fun l => l.rows.any (·.rowId == rowId)

/-- The row count after a delete: it drops by the length of the request less the requested ids
not found, in 64 bits; those not found are counted in 32. -/
def countAfterDelete (nVectors : ℕ) (leaves : List (Leaf s)) (rowIds : List RowId) : ℕ :=
  let notFound := (rowIds.countP fun r => !isStored leaves r) % 2 ^ 32
  (nVectors + 2 ^ 64 - (rowIds.length - notFound)) % 2 ^ 64

/-- `delete_batch`. -/
def deleteBatch (eng : Engine) (idx : Index s) (rowIds : List RowId) :
    Except (Failure s) (Index s) :=
  if rowIds.isEmpty then .ok idx
  else if idx.plane then
    .error ⟨.thrown "delete_batch not supported while a routing plane is attached (v1 planes are immutable)",
      idx.file⟩
  else if s.hasPayload then
    .error ⟨.thrown "delete_batch not supported on payload-bearing indexes (payload extent remapping not implemented)",
      idx.file⟩
  else if eng.coder.family ≠ .globalPq then
    .error ⟨.thrown ("delete_batch not supported for quantizer '" ++ eng.coder.familyName ++
      "' (requires global PQ/PRQ codebook)"), idx.file⟩
  else
    match (List.range idx.leafTable.length).mapM (readLeaf idx.file idx.leafTable) with
    | .error k => .error ⟨k, idx.file⟩
    | .ok leaves =>
      let deletes := leafDeletes leaves rowIds
      if deletes.isEmpty then .ok idx
      else do
        let idx := { idx with
          manifest := { idx.manifest with
            nVectors := countAfterDelete idx.manifest.nVectors leaves rowIds } }
        let alloc ← loadAlloc idx
        let slots := fun leafId => (deletes.find? (·.1 == leafId)).elim [] Prod.snd
        let w ← (eng.mapOrder (deletes.map Prod.fst)).foldlM
          (fun w leafId => compactLeaf eng w leafId (slots leafId)) (Work.of idx alloc)
        let (idx, _) ← commitMutable eng idx w
        .ok idx

/-! ### Vacuum and defrag -/

/-- A commit in the middle of a pass: the pass goes on with the index as committed. -/
def commitBatch (eng : Engine) (idx : Index s) (w : Work s) :
    Except (Failure s) (Index s × Work s) := do
  let (idx, alloc) ← commitMutable eng idx w
  .ok (idx, Work.of idx (clearFreeList alloc))

/-- The leaf with a fresh summary, written over the old one. -/
def repairedLeaf (l : Leaf s) : Leaf s :=
  if s.columns.isEmpty || l.rows.isEmpty then { l with summaryDirty := false }
  else
    { l with
      summary := writeFilterSummary l.summary (l.rows.map (·.filter))
      summaryDirty := false }

/-- A pass over the leaf table that commits after every `batchSize` leaves it has changed.
`step` changes a leaf or leaves it alone. -/
def batchedPass (eng : Engine) (step : Work s → ℕ → Except (Failure s) (Option (Work s)))
    (batchSize : ℕ) : (fuel : ℕ) → (lid pending : ℕ) → Index s → Work s →
    Except (Failure s) (Index s × Work s)
  | 0, _, pending, idx, w => if 0 < pending then commitBatch eng idx w else .ok (idx, w)
  | fuel + 1, lid, pending, idx, w => do
    match ← step w lid with
    | none => batchedPass eng step batchSize fuel (lid + 1) pending idx w
    | some w =>
      if batchSize ≤ pending + 1 then do
        let (idx, w) ← commitBatch eng idx w
        batchedPass eng step batchSize fuel (lid + 1) 0 idx w
      else batchedPass eng step batchSize fuel (lid + 1) (pending + 1) idx w

/-- One leaf of the first pass of `vacuum`. -/
def repairLeaf (w : Work s) (lid : ℕ) : Except (Failure s) (Option (Work s)) :=
  if (w.leafTable.getD lid Extent.invalid).page = none then .ok none
  else do
    let l ← w.leaf lid
    if l.summaryDirty then .ok (some (writeLeaf w lid (repairedLeaf l))) else .ok none

/-- The second pass of `vacuum`: a new cardinality blob, the old one freed. `card` serializes
the table built from the rows. -/
def rebuildCardinality (eng : Engine) (card : List (FilterRow s) → Bytes) (idx : Index s)
    (w : Work s) : Except (Failure s) (Index s × Work s) := do
  let leaves ← (List.range w.leafTable.length).mapM fun lid =>
    if (w.leafTable.getD lid Extent.invalid).page = none then .ok [] else do
      let l ← w.leaf lid
      .ok (l.rows.map (·.filter))
  let bytes := card leaves.flatten
  let r := writeOpt w.vol (if bytes.isEmpty then none else some (.blob bytes))
  let old := idx.super.cardinality
  let v := if 0 < old.pages then freeAt r.2 old else r.2
  commitBatch eng { idx with super := { idx.super with cardinality := r.1 } } { w with vol := v }

structure VacuumConfig where
  batchSize : ℕ
  rebuildCardinality : Bool

def vacuum (eng : Engine) (card : List (FilterRow s) → Bytes) (cfg : VacuumConfig)
    (idx : Index s) : Except (Failure s) (Index s) :=
  if idx.plane then
    .error ⟨.thrown "vacuum not supported while a routing plane is attached (v1 planes are immutable)",
      idx.file⟩
  else do
    let alloc ← loadAlloc idx
    let (idx, w) ← batchedPass eng repairLeaf (max cfg.batchSize 1) idx.leafTable.length 0 0 idx
      (Work.of idx alloc)
    if cfg.rebuildCardinality ∧ ¬ s.columns.isEmpty then do
      let (idx, _) ← rebuildCardinality eng card idx w
      .ok idx
    else .ok idx

/-- One leaf of `defrag`: a new extent, then the old one freed. -/
def relocateLeaf (w : Work s) (lid : ℕ) : Except (Failure s) (Option (Work s)) :=
  let e := w.leafTable.getD lid Extent.invalid
  if e.page = none ∨ e.pages = 0 then .ok none
  else do
    let l ← w.leaf lid
    let r := writeObj w.vol (.leaf l)
    .ok (some { w with vol := freeAt r.2 e, leafTable := w.leafTable.set lid r.1 })

structure DefragConfig where
  batchSize : ℕ
  shrinkFile : Bool

/-- The end of the last page the shrink looks at: leaves and the extents in the superblock,
the nodes below the root and the payloads not among them. -/
def maxEnd (idx : Index s) : ℕ :=
  let sb := idx.super
  (idx.leafTable ++ [⟨some sb.bitmapPage, sb.bitmapPages⟩, sb.root, sb.codebook, sb.config, sb.pca,
    sb.cardinality, sb.leafTable]).foldl (fun acc e =>
      match e.page with
      | some p => if 0 < e.pages then max acc (p + e.pages) else acc
      | none => acc) 0

/-- The shrink of `defrag`: cut the file after the last page it knows of, flush the bitmap,
commit the superblock with the new page count and the old free list. -/
def shrinkFile (idx : Index s) (alloc : PageAllocator) : Except (Failure s) (Index s) :=
  if maxEnd idx < idx.file.numPages then
    let v : TreeVol s := ⟨idx.file.truncate (maxEnd idx), alloc⟩
    match flushBitmap v with
    | none => .error ⟨.undefined, v.file⟩
    | some (.error e) => .error ⟨.alloc e, v.file⟩
    | some (.ok file) =>
      let committed := commitSuperblock file { idx.super with nPages := maxEnd idx }
      match remap { idx with file := committed.1, super := committed.2 } with
      | .error k => .error ⟨k, committed.1⟩
      | .ok idx => .ok idx
  else .ok idx

def defrag (eng : Engine) (cfg : DefragConfig) (idx : Index s) : Except (Failure s) (Index s) :=
  if idx.plane then
    .error ⟨.thrown "defrag not supported while a routing plane is attached (v1 planes are immutable)",
      idx.file⟩
  else do
    let alloc ← loadAlloc idx
    let (idx, w) ← batchedPass eng relocateLeaf (max cfg.batchSize 1) idx.leafTable.length 0 0 idx
      (Work.of idx alloc)
    if cfg.shrinkFile then shrinkFile idx w.vol.alloc else .ok idx

end SextantTree
