import SextantTree.BoundedHeap
import SextantTree.Route
import SextantTree.StackWalk

/-!
The search of one query: the candidate leaves are scanned into a heap of the `W` best entries, by
one thread or by several with a heap each; the survivors are filtered by the predicates, measured
again where asked, and cut to the best `k` distinct rows. When very few rows can match, every leaf
is scanned instead.
-/

namespace SextantTree

open Pages FilterHash BoundedHeap

/-- Consecutive pieces of `g` elements, the last one possibly shorter. -/
def slices {β : Type} (g : ℕ) (l : List β) : List (List β) :=
  (List.range ((l.length + g - 1) / g)).map fun i => (l.drop (i * g)).take g

/-! ### Scan entries -/

/-- Scan key, candidate slot and position in the leaf, ordered as `heap_entry_less` does. -/
abbrev HeapEntry : Type := ℕ ×ₗ ℕ ×ₗ ℕ

namespace HeapEntry

def make (pqDist leafSlot localIdx : ℕ) : HeapEntry := toLex (pqDist, toLex (leafSlot, localIdx))

def pqDist (e : HeapEntry) : ℕ := (ofLex e).1

def leafSlot (e : HeapEntry) : ℕ := (ofLex (ofLex e).2).1

def localIdx (e : HeapEntry) : ℕ := (ofLex (ofLex e).2).2

def sentinel : HeapEntry := make (2 ^ 32 - 1) (2 ^ 32 - 1) (2 ^ 32 - 1)

def IsReal (e : HeapEntry) : Prop := e.pqDist ≠ 2 ^ 32 - 1

instance : DecidablePred IsReal := fun _ => inferInstanceAs (Decidable (_ ≠ _))

end HeapEntry

/-- A heap of scan entries. -/
abbrev ScanHeap : Type := ℕ → HeapEntry

def heapInit : ScanHeap := fun _ => .sentinel

/-- A candidate leaf with its place among the candidates. -/
structure Probe (s : Schema) where
  slot : ℕ
  page : ℕ
  leaf : Leaf s

/-- A result row. -/
structure Candidate where
  rowId : RowId
  dist : ℚ
deriving DecidableEq

section

variable {s : Schema} (eng : SearchEngine s) (idx : Index s)

/-! ### The scan -/

def leafEntries (q : Vec) (p : Probe s) : List HeapEntry :=
  (List.range p.leaf.count).map fun i => .make (eng.scanKey q p.leaf i) p.slot i

/-- Sixteen candidates of the AVX-512 flush: keys below the threshold read at its start replace
the front whatever it is by then, only equal keys are compared with it. -/
def flushBlock (w thr : ℕ) (h : ScanHeap) (block : List HeapEntry) : ScanHeap :=
  if block.length = 16 then
    let h := (block.filter (·.pqDist < thr)).foldl (replaceTop id w) h
    (block.filter (·.pqDist = thr)).foldl (offer id w) h
  else block.foldl (offer id w) h

/-- `scan_leaf`: every row is offered to the heap. -/
def scanLeaf (w : ℕ) (q : Vec) (h : ScanHeap) (p : Probe s) : ScanHeap :=
  if eng.unguardedFlush then (slices 16 (leafEntries eng q p)).foldl (flushBlock w (h 0).pqDist) h
  else (leafEntries eng q p).foldl (offer id w) h

def scanAll (w : ℕ) (q : Vec) (ps : List (Probe s)) : ScanHeap :=
  ps.foldl (scanLeaf eng w q) heapInit

/-- The order in which one thread comes to the leaves, or several share them: candidate order, or
page order with the leaf cache. -/
structure ScanOrder (s : Schema) where
  order : List (Probe s) → List (Probe s)
  perm : ∀ ps, (order ps).Perm ps

def ScanOrder.candidate : ScanOrder s := ⟨id, fun _ => .refl _⟩

def ScanOrder.paged : ScanOrder s :=
  ⟨fun ps => ps.insertionSort fun a b => a.page ≤ b.page, fun _ => List.perm_insertionSort _ _⟩

/-- The merged heaps of the threads, cut to the `w` smallest. -/
def mergeHeaps (w : ℕ) (es : List HeapEntry) : List HeapEntry :=
  if w < es.length then (es.insertionSort (· ≤ ·)).take w else es

def scanCandidates (ord : ScanOrder s) (threads w : ℕ) (q : Vec) (ps : List (Probe s)) :
    List HeapEntry :=
  let es :=
    if 1 < threads ∧ 2 ≤ ps.length then
      let t := min threads ps.length
      let per := (ps.length + t - 1) / t
      mergeHeaps w ((slices per (ord.order ps)).flatMap fun shard => slots w (scanAll eng w q shard))
    else slots w (scanAll eng w q (ord.order ps))
  es.filter (HeapEntry.IsReal ·)

def readProbes (cands : List LeafCandidate) : Except ErrorKind (List (Probe s)) :=
  cands.zipIdx.mapM fun x => do
    let l ← leafAtPage idx.file x.1.page
    .ok ⟨x.2, x.1.page, l⟩

/-! ### The width -/

/-- `static_cast<uint32_t>`. -/
def toU32 (x : ℚ) : ℕ := if x < 2 ^ 32 then ⌊x⌋₊ else eng.u32Out x

def scanWidth (cfg : SearchConfig) (k : ℕ) (sel : ℚ) (filtered : Bool) : ℕ :=
  let w := max (if 0 < cfg.fastscanW then cfg.fastscanW else 1000) k
  if filtered then
    let adaptive := if 1 / 1000 < sel then toU32 eng (k / sel * 2) else k * 200 % 2 ^ 32
    max (max w adaptive) (k * 10 % 2 ^ 32)
  else w

/-! ### The cut -/

/-- Sorted by row id, then distance: the order in which replicas of a row become neighbours. -/
def rowLe (a b : Candidate) : Prop := toLex (a.rowId, a.dist) ≤ toLex (b.rowId, b.dist)

def totalLe (a b : Candidate) : Prop :=
  toLex (a.dist, OrderDual.toDual a.rowId) ≤ toLex (b.dist, OrderDual.toDual b.rowId)

instance : DecidableRel rowLe := fun _ _ => inferInstanceAs (Decidable (_ ≤ _))

instance : DecidableRel totalLe := fun _ _ => inferInstanceAs (Decidable (_ ≤ _))

def uniqueRows (results : List Candidate) : List Candidate :=
  (results.insertionSort rowLe).destutter fun a b => a.rowId ≠ b.rowId

/-- How many of the sorted results are kept: `k`, or up to the first gap past `k` that is wide
for the distances before it. With `k = 1` the typical gap is `0 / 0` and no gap is wider. -/
def keepCount (cfg : SearchConfig) (k : ℕ) (sorted : List Candidate) : Except ErrorKind ℕ :=
  if 0 < cfg.adaptiveWGap ∧ cfg.rerank = true ∧ k < sorted.length then
    if k = 0 then .error .undefined
    else if k = 1 then .ok sorted.length
    else do
      let first ← elemAt sorted 0
      let last ← elemAt sorted (k - 1)
      let g := (last.dist - first.dist) / (k - 1)
      let scale := max g (1 / 10 ^ 12)
      .ok (k + ((sorted.drop k).takeWhile fun c =>
        !decide (cfg.adaptiveWGap * scale < c.dist - last.dist)).length)
  else .ok k

/-- `cut_topk_results_`. -/
def cutTopk (cfg : SearchConfig) (k : ℕ) (results : List Candidate) :
    Except ErrorKind (List Candidate) := do
  let sorted := (uniqueRows results).insertionSort totalLe
  let keep ← keepCount cfg k sorted
  .ok (sorted.take keep)

/-! ### Finishing -/

def finalDist (cfg : SearchConfig) (q : Vec) (l : Leaf s) (rowId : RowId) (e : HeapEntry) : ℚ :=
  if cfg.rerank then
    match cfg.exactRerankBase with
    | some base => eng.exactDist q (base rowId)
    | none => eng.rerank q l e.localIdx
  else Rounding.roundBits 24 e.pqDist

def materialize (ps : List (Probe s)) (e : HeapEntry) : Except ErrorKind (Probe s × LeafRow s) := do
  let p ← elemAt ps e.leafSlot
  let row ← elemAt p.leaf.rows e.localIdx
  .ok (p, row)

/-- `finalize_query_`. -/
def finalizeQuery (cfg : SearchConfig) (k : ℕ) (q : Vec) (preds : List Resolved) (ps : List (Probe s))
    (es : List HeapEntry) : Except ErrorKind (List Candidate) := do
  let full ← es.mapM fun e => do
    let x ← materialize ps e
    .ok (e, x)
  let kept := full.filter fun x => evalAllPredicates eng.platform x.2.2.filter preds
  cutTopk cfg k (kept.map fun x =>
    ⟨x.2.2.rowId, finalDist eng cfg q x.2.1.leaf x.2.2.rowId x.1⟩)

/-! ### Scanning every leaf -/

/-- One node of the walk over the tree: its leaves, and the nodes to visit next. -/
def bruteExpand (page : ℕ) (found : List LeafTableEntry) :
    Except ErrorKind (List ℕ × List LeafTableEntry) :=
  match idx.file.pages page with
  | .part (.node n) 0 => do
    let leaves ← (n.children.filterMap fun c => if c.isLeaf then c.childPage else none).mapM
      (elemAt idx.leafTable)
    let nodes := n.children.filterMap fun c => if c.isLeaf then none else c.childPage
    .ok (nodes.reverse, found ++ leaves)
  | _ => .error .undefined

/-- The leaves of the tree in the order of the walk. -/
def allLeaves : Except ErrorKind (List LeafTableEntry) :=
  match StackWalk.run (bruteExpand idx) (idx.file.numPages + 1) idx.super.root.page.toList [] with
  | some r => r
  | none => .error .diverged

def bruteLeaf (cfg : SearchConfig) (q : Vec) (preds : List Resolved) (l : Leaf s) : List Candidate :=
  if summaryMayMatch eng.platform s l.summary preds then
    (l.rows.zipIdx.filter fun x => evalAllPredicates eng.platform x.1.filter preds).map fun x =>
      ⟨x.1.rowId, match cfg.exactRerankBase with
        | some base => eng.exactDist q (base x.1.rowId)
        | none => eng.rerankDecoded q l x.2⟩
  else []

/-- `nth_element`, `resize` and `sort` by distance alone; which of equal ones come first is the
library's choice. -/
structure DistanceCut where
  cut : ℕ → List Candidate → List Candidate
  perm : ∀ k l, ∃ rest, (cut k l ++ rest).Perm l ∧ ∀ a ∈ cut k l, ∀ b ∈ rest, a.dist ≤ b.dist
  sorted : ∀ k l, (cut k l).Pairwise fun a b => a.dist ≤ b.dist
  length : ∀ k l, (cut k l).length = min k l.length

/-- `search_brute_force_filtered`. -/
def searchBruteForceFiltered (lib : DistanceCut) (cfg : SearchConfig) (k : ℕ) (q : Vec)
    (preds : List Resolved) : Except ErrorKind (List Candidate) := do
  let table ← allLeaves idx
  let leaves ← table.mapM fun e =>
    match e.page with
    | some p => leafAtPage idx.file p
    | none => .error .undefined
  .ok (lib.cut k (leaves.flatMap (bruteLeaf eng cfg q preds)))

/-! ### Search -/

/-- `search` with neither payload locations nor a sweep of widths. -/
def search (lib : DistanceCut) (ord : ScanOrder s) (cfg : SearchConfig) (k : ℕ) (q : Vec) :
    Except ErrorKind (List Candidate) := do
  match ← routeSearch eng idx q cfg with
  | .empty => .ok []
  | .fallbackFiltered preds => searchBruteForceFiltered eng idx lib cfg k q preds
  | .ok cands sel preds => do
    let ps ← readProbes idx cands
    let w := scanWidth eng cfg k sel (!preds.isEmpty)
    finalizeQuery eng cfg k q preds ps (scanCandidates eng ord cfg.searchThreads w q ps)

end

end SextantTree
