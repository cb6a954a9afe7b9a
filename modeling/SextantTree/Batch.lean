import Mathlib.Data.List.Destutter
import SextantTree.Search

/-!
The search of a batch: every query is routed, the leaves they share are scanned once each by
several workers in page order, and a query is finished from what was kept of its leaves while
they were at hand.
-/

namespace SextantTree

open BoundedHeap

/-- A query of a batch with its own predicates and its own probe fraction; no predicates and a
fraction of zero leave those of the base config. -/
structure BatchQuery where
  query : Vec
  predicates : List Predicate := []
  probeFraction : ℚ := 0

def BatchQuery.effective (cfg : SearchConfig) (b : BatchQuery) : List Predicate :=
  if b.predicates.isEmpty then cfg.predicates else b.predicates

/-- The base config with what the query overrides. -/
def queryConfig (cfg : SearchConfig) (b : BatchQuery) : SearchConfig :=
  if 0 < b.probeFraction then
    { cfg with predicates := b.effective cfg, probeFraction := b.probeFraction, nProbe := 0 }
  else { cfg with predicates := b.effective cfg }

structure QueryState where
  candidates : List LeafCandidate
  preds : List Resolved
  w : ℕ
  /-- The query is searched by itself. -/
  fallback : Bool

structure ProbeRef where
  page : ℕ
  qidx : ℕ
  slot : ℕ
deriving DecidableEq

def ProbeRef.key (r : ProbeRef) : ℕ ×ₗ ℕ ×ₗ ℕ := toLex (r.page, toLex (r.qidx, r.slot))

structure UniqueLeaf (s : Schema) where
  page : ℕ
  leaf : Leaf s
  refs : List ProbeRef

/-- What is kept of a scanned row until its query is finished. -/
structure PoolEntry where
  entry : HeapEntry
  rowId : RowId
  dist : ℚ
  reranked : Bool
  predOk : Bool

def PoolEntry.sentinel : PoolEntry := ⟨.sentinel, 0, 0, false, false⟩

structure Partial where
  heap : ScanHeap
  pool : ℕ → PoolEntry

def Partial.init : Partial := ⟨heapInit, fun _ => .sentinel⟩

/-- Which chunks of leaves each worker claims, the workers in the order in which they hand in. -/
structure Sharing where
  share : ℕ → List (List ℕ)
  perm : ∀ n, (share n).flatten.Perm (List.range n)

def Sharing.single : Sharing := ⟨fun n => [List.range n], fun n => by simp⟩

def kChunk : ℕ := 32

section

variable {s : Schema} (eng : SearchEngine s) (idx : Index s)

/-! ### Routing -/

/-- Routing of one query. The plane is swept for the whole batch with the base config. -/
def routeBatch (cfg : SearchConfig) (k : ℕ) (b : BatchQuery) : Except ErrorKind QueryState :=
  let qcfg := queryConfig cfg b
  if planeActive idx cfg then do
    let cands := planeRoute eng idx cfg b.probeFraction b.query
    let preds ← resolvePredicates s qcfg.predicates
    let sel := planeSelectivity eng preds
    if !preds.isEmpty && isExtreme sel then
      .ok ⟨cands, preds, scanWidth eng cfg k sel false, true⟩
    else do
      let cands ← pruneLeaves eng idx preds cands
      .ok ⟨cands, preds, scanWidth eng cfg k sel (!preds.isEmpty), false⟩
  else do
    match ← routeQuery eng idx b.query qcfg with
    | .empty => .ok ⟨[], [], 0, false⟩
    | .fallbackFiltered _ => .ok ⟨[], [], 0, true⟩
    | .ok cands sel preds => .ok ⟨cands, preds, scanWidth eng cfg k sel (!preds.isEmpty), false⟩

/-- The probed leaves of all queries, sorted by page. -/
def probeRefs (states : List QueryState) : List ProbeRef :=
  (states.zipIdx.flatMap fun x => x.1.candidates.zipIdx.map fun c => ⟨c.1.page, x.2, c.2⟩).insertionSort
    fun a b => a.key ≤ b.key

/-- The leaves of the sweep, each read once. -/
def uniqueLeaves (refs : List ProbeRef) : Except ErrorKind (List (UniqueLeaf s)) :=
  ((refs.map (·.page)).destutter (· ≠ ·)).mapM fun p => do
    let l ← leafAtPage idx.file p
    .ok ⟨p, l, refs.filter (·.page = p)⟩

/-! ### The sweep -/

def harvested (cfg : SearchConfig) (q : Vec) (preds : List Resolved) (l : Leaf s) (row : LeafRow s)
    (e : HeapEntry) : PoolEntry :=
  let eager := cfg.rerank && cfg.exactRerankBase.isNone
  { entry := e
    rowId := row.rowId
    dist := if eager then eng.rerank q l e.localIdx else 0
    reranked := eager
    predOk := evalAllPredicates eng.platform row.filter preds }

/-- The entries of a leaf that are in the heap when its scan is over go to the pool. -/
def harvest (cfg : SearchConfig) (w : ℕ) (q : Vec) (preds : List Resolved) (h : ScanHeap)
    (pool : ℕ → PoolEntry) (p : Probe s) : ℕ → PoolEntry :=
  (slots w h).foldl (fun pool e =>
    if e.leafSlot = p.slot then
      match p.leaf.rows[e.localIdx]? with
      | some row => offer PoolEntry.entry w pool (harvested eng cfg q preds p.leaf row e)
      | none => pool
    else pool) pool

/-- The refs of a leaf are scanned in groups; the rows are harvested after each group. -/
def scanGroup (cfg : SearchConfig) (w : ℕ) (q : Vec) (preds : List Resolved) (pt : Partial)
    (group : List (Probe s)) : Partial :=
  let h := group.foldl (scanLeaf eng w q) pt.heap
  ⟨h, group.foldl (harvest eng cfg w q preds h) pt.pool⟩

/-- The groups of the leaves of one worker, as far as they concern query `i`. -/
def queryGroups (i : ℕ) (leaves : List (UniqueLeaf s)) : List (List (Probe s)) :=
  leaves.flatMap fun u => (slices (if eng.batchScan then 4 else 1) u.refs).map fun g =>
    (g.filter (·.qidx = i)).map fun r => ⟨r.slot, u.page, u.leaf⟩

/-- The leaves of the chunks a worker claimed. -/
def claimedLeaves (leaves : List (UniqueLeaf s)) (claimed : List ℕ) : List (UniqueLeaf s) :=
  claimed.flatMap fun c => ((slices kChunk leaves)[c]?).getD []

/-- What a worker has for query `i`, if it met the query at all. -/
def workerPartial (cfg : SearchConfig) (q : Vec) (st : QueryState) (i : ℕ) (leaves : List (UniqueLeaf s))
    (claimed : List ℕ) : Option Partial :=
  let groups := queryGroups eng i (claimedLeaves leaves claimed)
  if groups.flatten.isEmpty then none
  else some (groups.foldl (scanGroup eng cfg st.w q st.preds) .init)

/-! ### Finishing -/

/-- The first pool entry that is not before a scan entry, in a pool sorted by slot and position. -/
def poolLookup (pool : List PoolEntry) (e : HeapEntry) : Option PoolEntry :=
  let at' (x : HeapEntry) : ℕ ×ₗ ℕ := (ofLex x).2
  (((pool.insertionSort fun a b => at' a.entry ≤ at' b.entry).dropWhile fun p =>
    at' p.entry < at' e).head?).filter fun p => at' p.entry = at' e

/-- `finalize_pool_query_`. -/
def finalizePoolQuery (cfg : SearchConfig) (k : ℕ) (q : Vec) (pool : List PoolEntry)
    (es : List HeapEntry) : Except ErrorKind (List Candidate) :=
  cutTopk cfg k ((es.filterMap fun e => (poolLookup pool e).map fun p => (e, p)).filterMap fun x =>
    if x.2.predOk then
      some ⟨x.2.rowId,
        if x.2.reranked then x.2.dist
        else match (if cfg.rerank then cfg.exactRerankBase else none) with
          | some base => eng.exactDist q (base x.2.rowId)
          | none => Rounding.roundBits 24 x.1.pqDist⟩
    else none)

/-- The last phase for query `i`: a query of the fallback is searched with the base config. -/
def finishQuery (lib : DistanceCut) (ord : ScanOrder s) (shr : Sharing) (cfg : SearchConfig) (k : ℕ)
    (leaves : List (UniqueLeaf s)) (i : ℕ) (b : BatchQuery) (st : QueryState) :
    Except ErrorKind (List Candidate) :=
  if st.fallback then search eng idx lib ord cfg k b.query
  else
    let partials := (shr.share (slices kChunk leaves).length).filterMap
      (workerPartial eng cfg b.query st i leaves)
    let heap := mergeHeaps st.w ((partials.flatMap fun pt => slots st.w pt.heap).filter (HeapEntry.IsReal ·))
    let pool := (partials.flatMap fun pt => slots st.w pt.pool).filter (HeapEntry.IsReal ·.entry)
    if st.candidates.isEmpty || heap.isEmpty || partials.isEmpty then .ok []
    else finalizePoolQuery eng cfg k b.query pool heap

/-- `search_batch` with feedback probing off. -/
def searchBatch (lib : DistanceCut) (ord : ScanOrder s) (shr : Sharing) (cfg : SearchConfig) (k : ℕ)
    (bs : List BatchQuery) : Except ErrorKind (List (List Candidate)) := do
  let states ← bs.mapM (routeBatch eng idx cfg k)
  let leaves ← uniqueLeaves idx (probeRefs states)
  (bs.zip states).zipIdx.mapM fun x =>
    finishQuery eng idx lib ord shr cfg k leaves x.2 x.1.1 x.1.2

end

end SextantTree
