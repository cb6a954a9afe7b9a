import SextantTree.PrqEncode
import SextantTree.ScalarLloydMaxImage

/-!
The quantizer objects and their blobs: `serialize`, and `deserialize` into an object that is already
there, field by field as the source assigns them. Arrays have their sizes; an access outside ends a
call as `outOfRange`, and a `std::vector` that cannot be that long throws.
-/

namespace SextantTree.QuantObjects

open ByteMem SegmentedVec LocalPq LloydMax Quant ScalarLloydMax

variable {α : Type} [Field α] [LinearOrder α]

/-- No `std::vector<float>` is longer. -/
def maxFloats : ℕ := 2 ^ 61

def tooLong : Fault := .thrown "vector"

/-- The byte that a code of a segment stands in. -/
def codeByte (bits s : ℕ) : ℕ := if bits = 8 then s else if bits = 2 then s / 4 else s / 2

/-! ### Product quantizers -/

structure PqHeader where
  metric : UInt8
  m : ℕ
  bits : ℕ
  dim : ℕ
deriving DecidableEq

/-- What `encode` and `decode_code` read. -/
structure PqCoder (α : Type) extends PqHeader where
  K : ℕ
  subDim : ℕ
  codebook : List α
  hasRotation : Bool
  rotation : List α

structure PqObject (α : Type) extends PqCoder α where
  opqEnabled : Bool
  centroidSqnorms : List α
  crossDistanceTable : List α

/-- What the constructor checks, and what `deserialize` does. -/
def PqHeader.Valid (h : PqHeader) : Prop :=
  ¬ (h.m = 0 ∨ h.dim % h.m ≠ 0 ∨ (h.bits ≠ 2 ∧ h.bits ≠ 4 ∧ h.bits ≠ 8))

instance (h : PqHeader) : Decidable h.Valid := inferInstanceAs (Decidable (¬ _))

namespace PqCoder

variable (q : PqCoder α)

def codeSize : ℕ := (q.m * q.bits + 7) / 8

/-- Where a number of a centroid stands; the centroid by a 32-bit product. -/
def bookAt (s c d : ℕ) : ℕ := s * q.K * q.subDim + c * q.subDim % 2 ^ 32 + d

def centroid (s c : ℕ) : ℕ → α := fun d => entry q.codebook (q.bookAt s c d)

def rotated (vec : ℕ → α) : ℕ → α :=
  if q.hasRotation then fun r => dot q.dim (fun c => entry q.rotation (r * q.dim % 2 ^ 32 + c)) vec
  else vec

/-- `write_code`. -/
def writeCode (code : Mem) (bits s cid : ℕ) : Mem :=
  if bits = 2 then
    let byte := (code (s / 4)).toNat
    let unit := 2 ^ (2 * (s % 4))
    Function.update code (s / 4) (UInt8.ofNat
      (byte / (4 * unit) * (4 * unit) + cid % 4 * unit + byte % unit))
  else Prq.writeCode code bits s cid

def encode (vec : ℕ → α) : Mem :=
  (List.range q.m).foldl (fun code s => writeCode code q.bits s
    (Prq.nearestCentroidL2 (q.centroid s) (shift (s * q.subDim) (q.rotated vec)) q.K q.subDim))
    fun _ => 0

def decodeCode (code : Mem) : ℕ → α :=
  let gathered := concat q.subDim fun s d =>
    entry q.codebook (s * q.K * q.subDim + readCode code q.bits s * q.subDim + d)
  if q.hasRotation then fun c =>
    ∑ r ∈ Finset.range q.dim, entry q.rotation ((r * q.dim + c) % 2 ^ 32) * gathered r
  else gathered

end PqCoder

namespace PqObject

variable (q : PqObject α)

def make (metric : MetricKind) (dim : UInt32) (m : UInt16) (bits : UInt8) :
    Except Fault (PqObject α) :=
  if m.toNat = 0 then .error (.thrown "PQ 'm' must be > 0")
  else if dim.toNat % m.toNat ≠ 0 then .error (.thrown "PQ requires dim divisible by m")
  else if bits.toNat ≠ 2 ∧ bits.toNat ≠ 4 ∧ bits.toNat ≠ 8 then
    .error (.thrown "PQ 'bits' must be 2, 4 or 8")
  else
    let K := 2 ^ bits.toNat
    let subDim := dim.toNat / m.toNat
    .ok { metric := metricByte metric, m := m.toNat, bits := bits.toNat, dim := dim.toNat
          K := K, subDim := subDim, codebook := List.replicate (m.toNat * K * subDim) 0
          hasRotation := false, rotation := [], opqEnabled := false
          centroidSqnorms := [], crossDistanceTable := [] }

def enableOpq : PqObject α := { q with opqEnabled := true }

def computeCentroidSqnorms : PqObject α :=
  { q with
    centroidSqnorms := (List.range (q.m * q.K)).map fun k =>
      dot q.subDim (q.centroid (k / q.K) (k % q.K)) (q.centroid (k / q.K) (k % q.K)) }

def buildCrossDistanceTable : PqObject α :=
  { q with
    crossDistanceTable := (List.range (q.m * q.K * q.K)).map fun k =>
      let s := k / (q.K * q.K)
      let a := k / q.K % q.K
      let b := k % q.K
      if a = b then 0 else sqDist q.subDim (q.centroid s (min a b)) (q.centroid s (max a b)) }

/-- `train` on `n` samples: the rotation of `compute_pca_rotation` where there is one to find, then
the centroids that the segments end with. -/
def train (n : ℕ) (pca : Option (ℕ → α)) (centroids : ℕ → α) : PqObject α × Except Fault Unit :=
  if n = 0 then (q, .error (.thrown "PQ train: no samples provided"))
  else
    let books := q.m * q.K * q.subDim
    let q := { q with codebook := List.replicate books 0 }
    let finds := q.opqEnabled = true ∧ q.hasRotation = false ∧ 2 ≤ n ∧ q.dim ≠ 0
    if finds ∧ maxFloats ≤ 2 * (q.dim * q.dim) then (q, .error tooLong)
    else
      let q := if finds then
          match pca with
          | some R => { q with hasRotation := true, rotation := (List.range (q.dim * q.dim)).map R }
          | none => { q with hasRotation := false, rotation := [] }
        else q
      let q := { q with codebook := (List.range books).map centroids }
      (q.buildCrossDistanceTable.computeCentroidSqnorms, .ok ())

def serialize : Image α :=
  let header := 8
  let flagOff := header + q.codebook.length * 4
  { size := flagOff + 1 + if q.hasRotation then q.dim * q.dim * 4 else 0
    bytes := poke (poke (poke (poke (poke (fun _ => 0) 0 [q.metric]) 1 (leBytes 2 q.m))
      3 [UInt8.ofNat q.bits]) 4 (leBytes 4 q.dim)) flagOff [if q.hasRotation then 1 else 0]
    floats := fun pos =>
      if pos < flagOff then entry q.codebook ((pos - header) / 4)
      else entry q.rotation ((pos - (flagOff + 1)) / 4) }

def headerOf (img : Image α) : PqHeader :=
  { metric := img.bytes 0, m := word img.bytes 2 1, bits := (img.bytes 3).toNat
    dim := word img.bytes 4 4 }

/-- The fields are assigned as they are read; products are of 64 bits. -/
def deserialize (img : Image α) : PqObject α × Except Fault Unit :=
  let header := 8
  if img.size < header then (q, .error (.thrown "PQ deserialize: blob too small"))
  else
    let q := { q with toPqHeader := headerOf img }
    if ¬ q.Valid then (q, .error (.thrown "PQ deserialize: invalid header"))
    else
      let q := { q with K := 2 ^ q.bits, subDim := q.dim / q.m }
      let bookFloats := q.m * q.K * q.subDim
      let q := { q with hasRotation := false, rotation := [], opqEnabled := false }
      let trailerMin := header + bookFloats * 4 + 1
      if img.size < trailerMin then (q, .error (.thrown "PQ deserialize: size mismatch"))
      else
        let load := fun q : PqObject α =>
          { q with codebook := img.numbers header bookFloats
            }.buildCrossDistanceTable.computeCentroidSqnorms
        if img.bytes (header + bookFloats * 4) ≠ 0 then
          if img.size ≠ (trailerMin + q.dim * q.dim * 4) % 2 ^ 64 then
            (q, .error (.thrown "PQ deserialize: rotation size mismatch"))
          else if maxFloats ≤ q.dim * q.dim then (q, .error tooLong)
          else
            let q := { q with
              hasRotation := true, rotation := img.numbers trailerMin (q.dim * q.dim) }
            (load q, .ok ())
        else if img.size ≠ trailerMin then
          (q, .error (.thrown "PQ deserialize: size mismatch (no rotation, trailing bytes)"))
        else (load q, .ok ())

end PqObject

/-! ### Residual quantizers -/

structure PrqHeader where
  metric : UInt8
  m : ℕ
  bits : ℕ
  dim : ℕ
  nsplits : ℕ
  mSub : ℕ
  beamSize : ℕ
deriving DecidableEq

/-- What `encode` and `decode_code` read. -/
structure PrqCoder (α : Type) extends PrqHeader where
  K : ℕ
  subDimPrq : ℕ
  rqCodebooks : List α
  seed : ℕ
  encodeMode : String
  icmIters : ℕ
  ilsIters : ℕ
  ilsPerturb : ℕ

/-- `subDim` is the base class's. -/
structure PrqObject (α : Type) extends PrqCoder α where
  subDim : ℕ
  rqCentroidSqnorms : List α

/-- What `deserialize` checks. -/
def PrqHeader.Valid (h : PrqHeader) : Prop :=
  ¬ (h.m = 0 ∨ h.nsplits = 0 ∨ h.mSub = 0 ∨ h.dim = 0 ∨ h.m % h.nsplits ≠ 0 ∨
    h.dim % h.nsplits ≠ 0 ∨ h.bits ≠ 4)

instance (h : PrqHeader) : Decidable h.Valid := inferInstanceAs (Decidable (¬ _))

namespace PrqCoder

variable (q : PrqCoder α)

def codeSize : ℕ := (q.m * q.bits + 7) / 8

def bookAt (s lev c d : ℕ) : ℕ :=
  (s * q.mSub + lev) * q.K * q.subDimPrq % 2 ^ 64 + c * q.subDimPrq % 2 ^ 32 + d

def globalSeg (s lev : ℕ) : ℕ := (s * q.mSub + lev) % 2 ^ 32

def levelCentroid (s lev c : ℕ) : ℕ → α := fun d => entry q.rqCodebooks (q.bookAt s lev c d)

def BooksInside : Prop :=
  ∀ s < q.nsplits, ∀ lev < q.mSub, ∀ c < q.K, ∀ d < q.subDimPrq,
    q.bookAt s lev c d < q.rqCodebooks.length

instance : Decidable q.BooksInside := inferInstanceAs (Decidable (∀ _, _))

/-- The encoder of the vectors, with its codebooks by position. -/
def encoder : Prq.PrqEncoder α :=
  { metric := metricOf q.metric, dim := q.dim, m := q.m, bits := q.bits, rotation := none
    codebook := fun _ => 0, centroidSqnorms := fun _ => 0, nsplits := q.nsplits, mSub := q.mSub
    subDimPrq := q.subDimPrq, rqCodebooks := entry q.rqCodebooks, rqCentroidSqnorms := fun _ => 0
    beamSize := q.beamSize, seed := q.seed, encodeMode := q.encodeMode, icmIters := q.icmIters
    ilsIters := q.ilsIters, ilsPerturb := q.ilsPerturb }

end PrqCoder

namespace PrqObject

variable (q : PrqObject α)

/-- The constructor: that of the base class first. -/
def make (metric : MetricKind) (dim : UInt32) (m : UInt16) (bits : UInt8)
    (nsplits beamSize : UInt32) (seed : UInt64) (encodeMode : String)
    (icmIters ilsIters ilsPerturb : UInt32) : Except Fault (PrqObject α) := do
  let pq ← PqObject.make (α := α) metric dim m bits
  if nsplits.toNat = 0 then .error (.thrown "PRQ: nsplits must be > 0")
  else if pq.m % nsplits.toNat ≠ 0 then .error (.thrown "PRQ: m must be divisible by nsplits")
  else if pq.dim % nsplits.toNat ≠ 0 then .error (.thrown "PRQ: dim must be divisible by nsplits")
  else if pq.bits ≠ 4 then
    .error (.thrown "PRQ: only bits=4 is supported (4-bit scan path)")
  else if pq.m / nsplits.toNat = 0 then
    .error (.thrown "PRQ: M_sub = m/nsplits must be > 0")
  else
    .ok { metric := pq.metric, m := pq.m, bits := pq.bits, dim := pq.dim
          nsplits := nsplits.toNat, mSub := pq.m / nsplits.toNat, beamSize := beamSize.toNat
          K := pq.K, subDimPrq := pq.dim / nsplits.toNat, subDim := pq.subDim
          rqCodebooks := List.replicate
            (nsplits.toNat * (pq.m / nsplits.toNat) * pq.K * (pq.dim / nsplits.toNat)) 0
          rqCentroidSqnorms := []
          seed := seed.toNat, encodeMode := encodeMode, icmIters := icmIters.toNat
          ilsIters := ilsIters.toNat, ilsPerturb := ilsPerturb.toNat }

def computeRqCentroidSqnorms : PrqObject α :=
  { q with
    rqCentroidSqnorms := (List.range (q.nsplits * q.mSub * q.K)).map fun k =>
      let cen := q.levelCentroid (k / q.K / q.mSub) (k / q.K % q.mSub) (k % q.K)
      dot q.subDimPrq cen cen }

/-- `train` on `n` samples, with the centroids that the levels end with. -/
def train (n : ℕ) (centroids : ℕ → α) : PrqObject α × Except Fault Unit :=
  if n = 0 then (q, .error (.thrown "PRQ train: no samples provided"))
  else
    ({ q with rqCodebooks :=
        (List.range (q.nsplits * q.mSub * q.K * q.subDimPrq)).map centroids
      }.computeRqCentroidSqnorms, .ok ())

def kMagic : UInt8 := 0xA5

def serialize : Image α :=
  let header := 21
  { size := header + q.rqCodebooks.length * 4
    bytes := poke (poke (poke (poke (poke (poke (poke (poke (fun _ => 0) 0 [kMagic]) 1 [q.metric])
      2 (leBytes 2 q.m)) 4 [UInt8.ofNat q.bits]) 5 (leBytes 4 q.dim)) 9 (leBytes 4 q.nsplits))
      13 (leBytes 4 q.mSub)) 17 (leBytes 4 q.beamSize)
    floats := fun pos => entry q.rqCodebooks ((pos - header) / 4) }

def headerOf (img : Image α) : PrqHeader :=
  { metric := img.bytes 1, m := word img.bytes 2 2, bits := (img.bytes 4).toNat
    dim := word img.bytes 4 5, nsplits := word img.bytes 4 9, mSub := word img.bytes 4 13
    beamSize := word img.bytes 4 17 }

/-- Four fields are assigned before the header is checked, the others before the size is. -/
def deserialize (img : Image α) : PrqObject α × Except Fault Unit :=
  let header := 21
  if img.size < header then (q, .error (.thrown "PRQ deserialize: blob too small"))
  else if img.bytes 0 ≠ kMagic then (q, .error (.thrown "PRQ deserialize: bad magic byte"))
  else
    let h := headerOf img
    let q := { q with metric := h.metric, m := h.m, bits := h.bits, dim := h.dim }
    if ¬ h.Valid then (q, .error (.thrown "PRQ deserialize: invalid header"))
    else
      let q := { q with
        K := 2 ^ q.bits, subDim := q.dim / q.m, nsplits := h.nsplits, mSub := h.mSub
        subDimPrq := q.dim / h.nsplits, beamSize := h.beamSize }
      let bookFloats := q.nsplits * q.mSub * q.K * q.subDimPrq % 2 ^ 64
      if img.size ≠ (header + bookFloats * 4 % 2 ^ 64) % 2 ^ 64 then
        (q, .error (.thrown "PRQ deserialize: size mismatch"))
      else if maxFloats ≤ bookFloats then (q, .error tooLong)
      else
        let q := { q with rqCodebooks := img.numbers header bookFloats }
        if q.BooksInside then (q.computeRqCentroidSqnorms, .ok ())
        else (q, .error .outOfRange)

end PrqObject

/-! ### Scalar quantizers -/

structure ScalarObject (α : Type) where
  quantizer : ScalarLloydMaxQuantizer α
  metric : UInt8

namespace ScalarObject

/-- An object whose metric is one of the two. -/
def of (q : ScalarLloydMaxQuantizer α) : ScalarObject α := ⟨q, metricByte q.metric⟩

/-- The header is read once its magic number is right. -/
def HeaderRead (img : Image α) : Prop :=
  ¬ img.size < 10 ∧ word img.bytes 4 0 = kScalarLloydMaxMagic

instance (img : Image α) : Decidable (HeaderRead img) := inferInstanceAs (Decidable (_ ∧ _))

def deserialize (o : ScalarObject α) (img : Image α) : ScalarObject α × Except Fault Unit :=
  let r := o.quantizer.deserialize img
  (⟨r.1, if HeaderRead img then img.bytes 4 else o.metric⟩, r.2)

end ScalarObject

end SextantTree.QuantObjects
