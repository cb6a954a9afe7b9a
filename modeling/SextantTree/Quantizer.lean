import SextantTree.LocalPq
import SextantTree.SegmentedVec

/-!
The quantizers of the global coders over exact numbers. `PqQuantizer` keeps a codebook for each
segment of a vector, rotated or not; `ProductResidualQuantizer` keeps several for each split, whose
codewords are added up. Arrays are functions on positions, laid out as in the source.
-/

namespace SextantTree.Quant

open ByteMem SegmentedVec LocalPq

inductive MetricKind
  | l2Sq
  | innerProduct
deriving DecidableEq

variable {α : Type} [CommRing α]

/-- The distance of a metric: squared Euclidean, or the negated product. -/
def MetricKind.distance (metric : MetricKind) (n : ℕ) (x y : ℕ → α) : α :=
  match metric with
  | .l2Sq => sqDist n x y
  | .innerProduct => -dot n x y

/-! ### Product quantizers -/

structure PqQuantizer (α : Type) where
  metric : MetricKind
  dim : ℕ
  m : ℕ
  bits : ℕ
  rotation : Option (ℕ → α)
  /-- `m` segments of `K` centroids. -/
  codebook : ℕ → α
  centroidSqnorms : ℕ → α
  /-- `m` tables of `K × K` distances; `none` when it has not been built. -/
  crossDistanceTable : Option (ℕ → α) := none

namespace PqQuantizer

variable (q : PqQuantizer α)

def K : ℕ := 2 ^ q.bits

def subDim : ℕ := q.dim / q.m

omit [CommRing α] in
/-- Centroid `c` of segment `s`. -/
def centroid (s c : ℕ) : ℕ → α := shift (s * q.K * q.subDim + c * q.subDim) q.codebook

def computeCentroidSqnorms : PqQuantizer α :=
  { q with
    centroidSqnorms := fun k =>
      let cen := q.centroid (k / q.K) (k % q.K)
      dot q.subDim cen cen }

/-- Always squared distances, whatever the metric; computed for one half of a table and copied to
the other. -/
def buildCrossDistanceTable : PqQuantizer α :=
  { q with
    crossDistanceTable := some fun k =>
      let s := k / (q.K * q.K)
      let a := k / q.K % q.K
      let b := k % q.K
      if a = b then 0 else sqDist q.subDim (q.centroid s (min a b)) (q.centroid s (max a b)) }

def rotated (query : ℕ → α) : ℕ → α :=
  match q.rotation with
  | none => query
  | some R => mulVec q.dim R query

/-- `preprocess_query_as`: the products at once where there is no rotation, else entry by entry. -/
def preprocessQueryAs (metric : MetricKind) (query : ℕ → α) : ℕ → α := fun k =>
  let s := k / q.K
  let c := k % q.K
  let qSub := shift (s * q.subDim) (q.rotated query)
  let cen := q.centroid s c
  if q.rotation.isNone && q.m * q.K * q.subDim != 0 then
    match metric with
    | .innerProduct => -dot q.subDim qSub cen
    | .l2Sq => dot q.subDim qSub qSub - 2 * dot q.subDim qSub cen + q.centroidSqnorms (s * q.K + c)
  else
    match metric with
    | .l2Sq => sqDist q.subDim qSub cen
    | .innerProduct => -dot q.subDim qSub cen

def preprocessQuery (query : ℕ → α) : ℕ → α := q.preprocessQueryAs q.metric query

def lutDistance (code : Mem) (lut : ℕ → α) : α :=
  ∑ s ∈ Finset.range q.m, lut (s * q.K + readCode code q.bits s)

def gather (code : Mem) : ℕ → α := concat q.subDim fun s => q.centroid s (readCode code q.bits s)

def decodeCode (code : Mem) : ℕ → α :=
  match q.rotation with
  | none => q.gather code
  | some R => mulVecT q.dim R (q.gather code)

/-- From the table where there is one, else from the codebook under the metric. -/
def codeDistance (a b : Mem) : α :=
  match q.crossDistanceTable with
  | none => ∑ s ∈ Finset.range q.m, q.metric.distance q.subDim (q.centroid s (readCode a q.bits s))
      (q.centroid s (readCode b q.bits s))
  | some table => ∑ s ∈ Finset.range q.m,
      table (s * q.K * q.K + readCode a q.bits s * q.K + readCode b q.bits s)

def codeDistanceBatch4 (anchor : Mem) (codes : Fin 4 → Mem) : Fin 4 → α :=
  match q.crossDistanceTable with
  | none => fun i => q.codeDistance anchor (codes i)
  | some table =>
    let ac := fun s => readCode anchor q.bits s
    fun i => ∑ s ∈ Finset.range q.m,
      table (s * (q.K * q.K) + ac s * q.K + readCode (codes i) q.bits s)

end PqQuantizer

structure PqShape where
  metric : MetricKind
  dim : ℕ
  m : ℕ
  bits : ℕ
  m_pos : 0 < m
  divides : dim % m = 0
  bits_ok : bits = 2 ∨ bits = 4 ∨ bits = 8

/-- `train` once the centroids are found: the tables. The rotation is there with OPQ alone. -/
def PqQuantizer.trained (sh : PqShape) (rotation : Option (ℕ → α)) (centroids : ℕ → α) :
    PqQuantizer α :=
  let q : PqQuantizer α :=
    { metric := sh.metric, dim := sh.dim, m := sh.m, bits := sh.bits, rotation := rotation
      codebook := centroids, centroidSqnorms := fun _ => 0 }
  q.buildCrossDistanceTable.computeCentroidSqnorms

structure PqBlob (α : Type) where
  size : ℕ
  metric : MetricKind
  m : ℕ
  bits : ℕ
  dim : ℕ
  codebook : ℕ → α
  hasRotation : Bool
  rotation : ℕ → α

def PqQuantizer.deserialize (blob : PqBlob α) : Except String (PqQuantizer α) :=
  let header := 8
  if blob.size < header then .error "PQ deserialize: blob too small"
  else if blob.m = 0 ∨ blob.dim % blob.m ≠ 0 ∨ (blob.bits ≠ 2 ∧ blob.bits ≠ 4 ∧ blob.bits ≠ 8) then
    .error "PQ deserialize: invalid header"
  else
    let q : PqQuantizer α :=
      { metric := blob.metric, dim := blob.dim, m := blob.m, bits := blob.bits
        rotation := if blob.hasRotation then some blob.rotation else none
        codebook := blob.codebook, centroidSqnorms := fun _ => 0 }
    let trailerMin := header + q.m * q.K * q.subDim * 4 + 1
    if blob.size < trailerMin then .error "PQ deserialize: size mismatch"
    else if blob.hasRotation then
      if blob.size ≠ trailerMin + blob.dim * blob.dim * 4 then
        .error "PQ deserialize: rotation size mismatch"
      else .ok q.buildCrossDistanceTable.computeCentroidSqnorms
    else if blob.size ≠ trailerMin then
      .error "PQ deserialize: size mismatch (no rotation, trailing bytes)"
    else .ok q.buildCrossDistanceTable.computeCentroidSqnorms

/-- A state that `train` or `deserialize` leaves. -/
def PqQuantizer.Made (q : PqQuantizer α) : Prop :=
  (∃ sh rotation centroids, q = trained sh rotation centroids) ∨ ∃ blob, deserialize blob = .ok q

/-! ### Residual quantizers -/

/-- The fields of the base class are there too: its codebook is the zeros the constructor filled it
with, and there is no table. -/
structure ProductResidualQuantizer (α : Type) extends PqQuantizer α where
  nsplits : ℕ
  /-- Levels per split. -/
  mSub : ℕ
  subDimPrq : ℕ
  /-- `nsplits` splits of `mSub` levels of `K` centroids. -/
  rqCodebooks : ℕ → α
  rqCentroidSqnorms : ℕ → α

namespace ProductResidualQuantizer

variable (q : ProductResidualQuantizer α)

omit [CommRing α] in
/-- Centroid `c` of a level of a split. -/
def levelCentroid (split level c : ℕ) : ℕ → α :=
  shift ((split * q.mSub + level) * q.K * q.subDimPrq + c * q.subDimPrq) q.rqCodebooks

def computeRqCentroidSqnorms : ProductResidualQuantizer α :=
  { q with
    rqCentroidSqnorms := fun k =>
      let seg := k / q.K
      let cen := q.levelCentroid (seg / q.mSub) (seg % q.mSub) (k % q.K)
      dot q.subDimPrq cen cen }

/-- The rows of all levels of all splits into a zeroed buffer of `lut_size` entries; `none` when they
go past its end. -/
def preprocessQueryAs (metric : MetricKind) (query : ℕ → α) : Option (ℕ → α) :=
  if q.m * q.K < q.nsplits * q.mSub * q.K then none
  else some fun k =>
    let seg := k / q.K
    let c := k % q.K
    if seg < q.nsplits * q.mSub then
      let qSub := shift (seg / q.mSub * q.subDimPrq) query
      let cen := q.levelCentroid (seg / q.mSub) (seg % q.mSub) c
      match metric with
      | .innerProduct => -dot q.subDimPrq qSub cen
      | .l2Sq => dot q.subDimPrq qSub qSub - 2 * dot q.subDimPrq qSub cen
          + q.rqCentroidSqnorms (seg * q.K + c)
    else 0

def preprocessQuery (query : ℕ → α) : Option (ℕ → α) := q.preprocessQueryAs q.metric query

/-- The centroids of all levels of a split, added up. -/
def decodeCode (code : Mem) : ℕ → α :=
  concat q.subDimPrq fun s d =>
    if s < q.nsplits then
      ∑ lev ∈ Finset.range q.mSub, q.levelCentroid s lev (readCode code q.bits (s * q.mSub + lev)) d
    else 0

end ProductResidualQuantizer

structure PrqShape extends PqShape where
  nsplits : ℕ
  nsplits_pos : 0 < nsplits
  m_divides : m % nsplits = 0
  dim_divides : dim % nsplits = 0
  four : bits = 4

/-- `train` once the centroids of all levels are found. -/
def ProductResidualQuantizer.trained (sh : PrqShape) (centroids : ℕ → α) :
    ProductResidualQuantizer α :=
  let q : ProductResidualQuantizer α :=
    { metric := sh.metric, dim := sh.dim, m := sh.m, bits := sh.bits, rotation := none
      codebook := fun _ => 0, centroidSqnorms := fun _ => 0, nsplits := sh.nsplits
      mSub := sh.m / sh.nsplits, subDimPrq := sh.dim / sh.nsplits, rqCodebooks := centroids
      rqCentroidSqnorms := fun _ => 0 }
  q.computeRqCentroidSqnorms

structure PrqBlob (α : Type) where
  size : ℕ
  magic : ℕ
  metric : MetricKind
  m : ℕ
  bits : ℕ
  dim : ℕ
  nsplits : ℕ
  mSub : ℕ
  codebooks : ℕ → α

/-- The number of levels is taken as it stands in the blob. -/
def ProductResidualQuantizer.deserialize (blob : PrqBlob α) :
    Except String (ProductResidualQuantizer α) :=
  let header := 21
  if blob.size < header then .error "PRQ deserialize: blob too small"
  else if blob.magic ≠ 0xA5 then .error "PRQ deserialize: bad magic byte"
  else if blob.m = 0 ∨ blob.nsplits = 0 ∨ blob.mSub = 0 ∨ blob.dim = 0 ∨ blob.m % blob.nsplits ≠ 0 ∨
      blob.dim % blob.nsplits ≠ 0 ∨ blob.bits ≠ 4 then
    .error "PRQ deserialize: invalid header"
  else
    let q : ProductResidualQuantizer α :=
      { metric := blob.metric, dim := blob.dim, m := blob.m, bits := blob.bits, rotation := none
        codebook := fun _ => 0, centroidSqnorms := fun _ => 0, nsplits := blob.nsplits
        mSub := blob.mSub, subDimPrq := blob.dim / blob.nsplits, rqCodebooks := blob.codebooks
        rqCentroidSqnorms := fun _ => 0 }
    if blob.size ≠ header + q.nsplits * q.mSub * q.K * q.subDimPrq * 4 then
      .error "PRQ deserialize: size mismatch"
    else .ok q.computeRqCentroidSqnorms

def ProductResidualQuantizer.Made (q : ProductResidualQuantizer α) : Prop :=
  (∃ sh centroids, q = trained sh centroids) ∨ ∃ blob, deserialize blob = .ok q

/-! ### The kinds -/

/-- The quantizer of a global coder by its kind. The anisotropic one differs in how its centroids are
found. -/
inductive Quantizer (α : Type)
  | pq (q : PqQuantizer α)
  | anisotropic (q : PqQuantizer α)
  | prq (q : ProductResidualQuantizer α)

namespace Quantizer

def base : Quantizer α → PqQuantizer α
  | pq q | anisotropic q => q
  | prq q => q.toPqQuantizer

def preprocessQuery (z : Quantizer α) (query : ℕ → α) : Option (ℕ → α) :=
  match z with
  | pq q | anisotropic q => some (q.preprocessQuery query)
  | prq q => q.preprocessQuery query

def decodeCode (z : Quantizer α) (code : Mem) : ℕ → α :=
  match z with
  | pq q | anisotropic q => q.decodeCode code
  | prq q => q.decodeCode code

def Made : Quantizer α → Prop
  | pq q | anisotropic q => q.Made
  | prq q => q.Made

end Quantizer

end SextantTree.Quant
