import SextantTree.Index

/-!
Routing of a query: the leaves to scan, by descent from the root or by the scores of the routing
plane, with pruning by filter summaries and the decision to scan every leaf instead when very few
rows can match.

Distances and scores are exact rationals. Feedback probing is off.
-/

namespace SextantTree

open Pages FilterHash

/-- The probe settings a build bakes into its manifest. -/
structure ProbeDefaults where
  nProbeL0 : ℕ
  nProbeLn : ℕ
  adaptiveProbeGap : ℚ
  probeFraction : ℚ

structure SearchConfig where
  nProbe : ℕ := 0
  nProbeLn : ℕ := 0
  probeFraction : ℚ := 0
  usePlane : Bool := true
  planePrePrune : ℚ := 1 / 4
  fastscanW : ℕ := 0
  adaptiveProbeGap : ℚ := 0
  rerank : Bool := false
  /-- The caller's original vectors. -/
  exactRerankBase : Option (RowId → Vec) := none
  adaptiveWGap : ℚ := 0
  predicates : List Predicate := []
  searchThreads : ℕ := 1

/-- `UINT32_MAX`: probe everything. -/
def kProbeAll : ℕ := 2 ^ 32 - 1

/-- What a search uses besides the tree: the distance kernels, the coder's scan and rerank, the
cardinality table, the scan of the plane rows of a leaf, and the library's sort where its
comparator leaves ties open. -/
structure SearchEngine (s : Schema) where
  platform : Platform
  defaults : ProbeDefaults
  /-- `dist_f16` of a query and a stored centroid. -/
  dist : Vec → Vec → ℚ
  /-- `selectivity_combined`, where the index has a table. -/
  cardTable : Option (List Resolved → ℚ)
  /-- `scan_leaf_max` for a query and a leaf. -/
  planeScore : Vec → ℕ → ℚ
  /-- `std::sort` of positions by descending score. -/
  sortDesc : List (WithBot ℚ) → List ℕ
  sortDesc_perm : ∀ ss, (sortDesc ss).Perm (List.range ss.length)
  sortDesc_sorted : ∀ ss, (sortDesc ss).Pairwise fun a b => ss.getD b ⊥ ≤ ss.getD a ⊥
  /-- The key `scan_leaf` computes for a row, a `uint32_t`. -/
  scanKey : Vec → Leaf s → ℕ → ℕ
  scanKey_lt : ∀ q l i, scanKey q l i < 2 ^ 32
  /-- The coder is a scalar one, compiled for AVX-512. -/
  unguardedFlush : Bool
  /-- `supports_batch_scan`. -/
  batchScan : Bool
  /-- `rerank` with a scan setup, and without. -/
  rerank : Vec → Leaf s → ℕ → ℚ
  rerankDecoded : Vec → Leaf s → ℕ → ℚ
  /-- The distance of a query and an original vector. -/
  exactDist : Vec → Vec → ℚ
  /-- A cast to `uint32_t` of a float that is too large for it. -/
  u32Out : ℚ → ℕ

section

variable {s : Schema} (eng : SearchEngine s) (idx : Index s)

/-! ### Walks over sorted lists -/

/-- `std::sort` of pairs. -/
def sortPairs (ds : List (ℚ × ℕ)) : List (ℚ × ℕ) := ds.insertionSort fun a b => toLex a ≤ toLex b

/-- The rest of a sorted list up to the first gap. -/
def takeGapFrom (gap prev : ℚ) : List (ℚ × ℕ) → List (ℚ × ℕ)
  | [] => []
  | a :: l => if 0 < gap ∧ prev * gap < a.1 then [] else a :: takeGapFrom gap a.1 l

def takeGap (gap : ℚ) : List (ℚ × ℕ) → List (ℚ × ℕ)
  | [] => []
  | a :: l => a :: takeGapFrom gap a.1 l

/-- Elements until their weights add up to enough, the one that completes them included. -/
def takeBudget {β : Type} (weight : β → ℕ) (enough : ℕ → Bool) : (cum : ℕ) → List β → List β
  | _, [] => []
  | cum, b :: l =>
    if enough (cum + weight b) then [b] else b :: takeBudget weight enough (cum + weight b) l

def sqDist (a b : Vec) : ℚ := (List.zipWith (fun x y => (x - y) * (x - y)) a b).sum

/-! ### Selectivity -/

/-- The values that satisfy a range predicate. -/
def matchingRange (p : Predicate) : Option (ℚ × ℚ) :=
  match p.op with
  | .eq => some (p.value, p.value)
  | .gt | .ge => some (p.value, dblMax)
  | .lt | .le => some (-dblMax, p.value)
  | .between => some (p.value, p.value2)
  | _ => none

/-- `estimate_numeric_selectivity`. -/
def estimateNumericSelectivity (sums : List Summary) (p : Predicate) (col : ℕ) : ℚ :=
  if sums = [] ∨ s.summarySize = 0 then 1
  else
    match matchingRange p with
    | none => 1
    | some (lo, hi) =>
      (sums.countP fun sum => (sum.numeric.find? (·.1 == col)).any fun e =>
        decide (e.2.min ≤ hi) && decide (lo ≤ e.2.max) : ℕ) / sums.length

/-- The estimate from the summaries of the root children. -/
def estimateSelectivity (sums : List Summary) (preds : List Resolved) : ℚ :=
  min 1 (preds.map fun r =>
    max (1 / 10000) (if (s.columns[r.col]?).any (·.type.isNumeric) then
      estimateNumericSelectivity (s := s) sums r.pred r.col else 1)).prod

/-- So few rows match that every leaf is scanned. -/
def isExtreme (sel : ℚ) : Bool := decide (0 < sel) && decide (sel < 1 / 100)

/-! ### The outcome -/

/-- A leaf to scan; the mapped file is read from its first page on. -/
structure LeafCandidate where
  page : ℕ
  pages : ℕ
deriving DecidableEq

inductive Route
  | empty
  | fallbackFiltered (preds : List Resolved)
  | ok (candidates : List LeafCandidate) (selectivity : ℚ) (preds : List Resolved)

def leafAtPage (file : TreeFile s) (page : ℕ) : Except ErrorKind (Leaf s) :=
  match file.pages page with
  | .part (.leaf l) 0 => .ok l
  | _ => .error .undefined

/-- `resolve_pred_columns_` with its exceptions. -/
def resolvePredicates (s : Schema) (preds : List Predicate) : Except ErrorKind (List Resolved) :=
  (resolvePredColumns s preds).mapError .thrown

/-- The candidates whose own summary does not rule out a match. -/
def pruneLeaves (preds : List Resolved) (cands : List LeafCandidate) :
    Except ErrorKind (List LeafCandidate) :=
  if preds.isEmpty then .ok cands
  else
    cands.filterM fun c => do
      let l ← leafAtPage idx.file c.page
      .ok (summaryMayMatch eng.platform s l.summary preds)

/-! ### The descent -/

structure ProbeEntry where
  page : Option ℕ
  pages : ℕ
  isLeaf : Bool
deriving DecidableEq

structure Descent where
  query : Vec
  queryPca : Vec
  preds : List Resolved
  gap : ℚ
  nProbeLn : ℕ

/-- The distance to child `j` of a node below root child `c`. -/
def childDist (d : Descent) (c j : ℕ) (ce : ChildEntry) : Except ErrorKind ℚ :=
  match if 0 < idx.pca.dims ∧ idx.manifest.depth = 2 then (idx.pca.leafBase[c]?).join else none with
  | some base => do
    let cent ← elemAt idx.pca.leafCentroids ((base + j) % 2 ^ 32)
    .ok (sqDist d.queryPca cent)
  | none => .ok (eng.dist d.query ce.centroid)

/-- The probe entry of a child; a leaf id is looked up in the leaf table. -/
def probeChild (n : Node) (j : ℕ) : Except ErrorKind (Option ProbeEntry) := do
  let ce ← elemAt n.children j
  match ce.childPage with
  | none => .ok none
  | some p =>
    if ce.isLeaf then do
      let e ← elemAt idx.leafTable p
      .ok (some ⟨e.page, e.pages, true⟩)
    else .ok (some ⟨some p, ce.childPages, false⟩)

/-- `expand_probe_`. -/
def expandProbe (d : Descent) (c : ℕ) (e : ProbeEntry) : Except ErrorKind (List ProbeEntry) := do
  let n ← nodeAt idx.file ⟨e.page, e.pages⟩
  let ds ← (n.children.zipIdx.filter fun x =>
    summaryMayMatch eng.platform s x.1.summary d.preds).mapM fun x => do
      let dist ← childDist eng idx d c x.2 x.1
      .ok (dist, x.2)
  let es ← (takeGap d.gap ((sortPairs ds).take d.nProbeLn)).mapM fun x => probeChild idx n x.2
  .ok es.reduceOption

/-- One level down; each entry remembers its root child. -/
def expandLevel (d : Descent) (frontier : List (ℕ × ProbeEntry)) :
    Except ErrorKind (List (ℕ × ProbeEntry)) := do
  let next ← frontier.mapM fun x =>
    if x.2.isLeaf then .ok [x]
    else if x.2.page = none then .ok []
    else do
      let es ← expandProbe eng idx d x.1 x.2
      .ok (es.map fun e => (x.1, e))
  .ok next.flatten

def descend (d : Descent) : (levels : ℕ) → List (ℕ × ProbeEntry) →
    Except ErrorKind (List (ℕ × ProbeEntry))
  | 0, frontier => .ok frontier
  | levels + 1, frontier => do
    let next ← expandLevel eng idx d frontier
    if next.isEmpty then .ok frontier else descend d levels next

/-- The root children with their distances, nearest first. -/
def scoreRoot (d : Descent) (root : Node) : Except ErrorKind (List (ℚ × ℕ)) := do
  let ds ← (root.children.zipIdx.filter fun x =>
    summaryMayMatch eng.platform s x.1.summary d.preds).mapM fun x => do
      if 0 < idx.pca.dims then
        let cent ← elemAt idx.pca.rootCentroids x.2
        .ok (sqDist d.queryPca cent, x.2)
      else
        let rc ← elemAt idx.rootChildren x.2
        .ok (eng.dist d.query rc.centroid, x.2)
  .ok (sortPairs ds)

/-- `route_query_`. -/
def routeQuery (q : Vec) (cfg : SearchConfig) : Except ErrorKind Route := do
  let preds ← resolvePredicates s cfg.predicates
  let gap := if cfg.adaptiveProbeGap < 0 then 0
    else if 0 < cfg.adaptiveProbeGap then cfg.adaptiveProbeGap else eng.defaults.adaptiveProbeGap
  let frac := if cfg.probeFraction ≤ 0 ∧ cfg.nProbe = 0 then eng.defaults.probeFraction
    else cfg.probeFraction
  let byFraction := 0 < frac ∧ cfg.nProbe = 0
  let root ← nodeAt idx.file idx.super.root
  let sel := if preds.isEmpty then 1 else
    match eng.cardTable with
    | some f => f preds
    | none => estimateSelectivity (s := s) (root.children.map (·.summary)) preds
  if !preds.isEmpty && isExtreme sel then .ok (.fallbackFiltered preds)
  else do
    let d : Descent :=
      { query := q
        queryPca := projectPca idx.pca.proj idx.pca.meanProj q
        preds := preds
        gap := gap
        nProbeLn := if byFraction then kProbeAll
          else if 0 < cfg.nProbeLn then cfg.nProbeLn
          else if 0 < eng.defaults.nProbeLn then eng.defaults.nProbeLn else 4 }
    let ds ← scoreRoot eng idx d root
    let entries ← ds.mapM fun x => do
      let rc ← elemAt idx.rootChildren x.2
      .ok (x, rc)
    -- at low selectivity every child that may match is probed
    let directed := !preds.isEmpty && decide (sel ≤ 1 / 5)
    let nProbeL0 := min (if 0 < cfg.nProbe then cfg.nProbe else eng.defaults.nProbeL0)
      root.children.length
    let chosen :=
      if directed then entries
      else if byFraction then
        let budget := ⌊frac * (entries.map fun x => (x.2.pages : ℚ)).sum⌋₊
        takeBudget (fun x => x.2.pages) (fun cum => decide (budget ≤ cum)) 0 entries
      else
        let kept := takeGap gap (ds.take nProbeL0)
        entries.take kept.length
    let frontier ← descend eng idx d (idx.manifest.depth - 1)
      (chosen.map fun x => (x.1.2, ⟨x.2.page, x.2.pages, x.2.isLeaf⟩))
    let cands := frontier.filterMap fun x =>
      if x.2.isLeaf then x.2.page.map fun p => ⟨p, x.2.pages⟩ else none
    let cands ← pruneLeaves eng idx preds cands
    .ok (if cands.isEmpty then .empty else .ok cands sel preds)

/-! ### The plane -/

/-- The valid leaves of the table at these positions. -/
def tableLeaves (ls : List ℕ) : List (ℕ × LeafCandidate) :=
  ls.filterMap fun l => (idx.leafTable[l]?).bind fun e => e.page.map fun p => (l, ⟨p, e.pages⟩)

/-- The leaves whose centroids are nearest, up to a share of the pages. -/
def planeSurvivors (share : ℚ) (total : ℕ) (q : Vec) : List ℕ :=
  let qp := projectPca idx.pca.proj idx.pca.meanProj q
  let order := sortPairs ((List.range idx.leafTable.length).map fun l =>
    (sqDist qp (idx.pca.leafCentroids.getD l []), l))
  (takeBudget (fun x => x.2.pages) (fun cum => decide (share * total ≤ cum)) 0
    (tableLeaves idx (order.map (·.2)))).map (·.1)

/-- `plane_route_batch_` for one query; `frac` is its own probe fraction, if positive. -/
def planeRoute (cfg : SearchConfig) (frac : ℚ) (q : Vec) : List LeafCandidate :=
  let n := idx.leafTable.length
  let total := ((tableLeaves idx (List.range n)).map fun x => x.2.pages).sum
  let prune := 0 < cfg.planePrePrune ∧ 0 < idx.pca.dims ∧ idx.manifest.depth = 2 ∧
    cfg.nProbe ≠ kProbeAll ∧ idx.pca.leafCentroids.length = n
  let survivors := planeSurvivors idx cfg.planePrePrune total q
  let scores : List (WithBot ℚ) := (List.range n).map fun l =>
    if (idx.leafTable[l]?).all (·.page.isNone) then ↑(0 : ℚ)
    else if prune ∧ l ∉ survivors then ⊥
    else ↑(eng.planeScore q l)
  let f := if cfg.nProbe = kProbeAll then 1
    else if 0 < frac then frac
    else if 0 < cfg.probeFraction then cfg.probeFraction
    else if 0 < eng.defaults.probeFraction then eng.defaults.probeFraction
    else 1 / 2
  (takeBudget (fun x => x.2.pages) (fun cum => decide (f * total - 1 / 2 ≤ cum)) 0
    (tableLeaves idx (eng.sortDesc scores))).map (·.2)

/-- The selectivity that plane routing asks for. -/
def planeSelectivity (preds : List Resolved) : ℚ :=
  if preds.isEmpty then 1 else eng.cardTable.elim 1 fun f => f preds

def planeActive (cfg : SearchConfig) : Bool := idx.plane && cfg.usePlane

/-- The routing stage of `search`. -/
def routeSearch (q : Vec) (cfg : SearchConfig) : Except ErrorKind Route :=
  if planeActive idx cfg then do
    let preds ← resolvePredicates s cfg.predicates
    let sel := planeSelectivity eng preds
    if !preds.isEmpty && isExtreme sel then .ok (.fallbackFiltered preds)
    else do
      let cands ← pruneLeaves eng idx preds (planeRoute eng idx cfg 0 q)
      .ok (if cands.isEmpty then .empty else .ok cands sel preds)
  else routeQuery eng idx q cfg

end

end SextantTree
