import SextantTree.LloydMax
import SextantTree.LutRank

/-!
`ScalarLloydMaxQuantizer` over exact numbers: levels for each dimension, trained in one of three ways,
with the bounds that encoding searches. Arrays have the size the source gives them; an access outside
ends a call as `outOfRange`. The table of bytes for the scan kernels is left out.
-/

namespace SextantTree.ScalarLloydMax

open ByteMem MidpointCells LloydMax Quant LocalPq

variable {α : Type} [Field α] [LinearOrder α]

structure ScalarLloydMaxQuantizer (α : Type) where
  metric : MetricKind
  dim : ℕ
  bits : ℕ
  K : ℕ
  /-- `K` levels for each dimension. -/
  levels : List α
  /-- `K - 1` bounds for each dimension. -/
  bounds : List α
  mode : ℕ
  f : List α
  steps : List α

/-- How a call can fail. -/
inductive Fault
  | thrown (what : String)
  | outOfRange
deriving DecidableEq

/-- The object after a call, and how the call ended. -/
abbrev Result (α : Type) := ScalarLloydMaxQuantizer α × Except Fault Unit

def setAt (xs : List α) (i : ℕ) (v : α) : Option (List α) :=
  if i < xs.length then some (xs.set i v) else none

def make (metric : MetricKind) (dim : UInt32) (bits : UInt8) :
    Except Fault (ScalarLloydMaxQuantizer α) :=
  if bits ≠ 4 ∧ bits ≠ 8 then .error (.thrown "ScalarLloydMaxQuantizer: bits must be 4 or 8")
  else
    let K := 2 ^ bits.toNat
    .ok { metric := metric, dim := dim.toNat, bits := bits.toNat, K := K
          levels := List.replicate (dim.toNat * K) 0
          bounds := List.replicate (dim.toNat * (K - 1)) 0
          mode := 0, f := [], steps := [] }

namespace ScalarLloydMaxQuantizer

variable (q : ScalarLloydMaxQuantizer α)

/-- Level `k` of dimension `d`. -/
def level (d k : ℕ) : α := entry q.levels (d * q.K + k)

def codeSize : ℕ := (q.dim * q.bits + 7) / 8

/-! ### Bounds -/

def computeBound (d : ℕ) (bounds : List α) (i : ℕ) : Option (List α) := do
  let lo ← q.levels[d * q.K + i]?
  let hi ← q.levels[d * q.K + (i + 1)]?
  setAt bounds (d * (q.K - 1) + i) ((lo + hi) / 2)

/-- `compute_bounds_`: into the array there is. -/
def computeBounds : Result α :=
  match (List.range q.dim).foldlM
      (fun bounds d => (List.range (q.K - 1)).foldlM (q.computeBound d) bounds) q.bounds with
  | some bounds => ({ q with bounds := bounds }, .ok ())
  | none => (q, .error .outOfRange)

/-! ### Training -/

def column (samples : ℕ → α) (n d : ℕ) : List α :=
  sorted ((List.range n).map fun i => samples (i * q.dim + d))

def levelsAt (col : List α) (place : ℕ → ℕ) : List α :=
  (List.range q.K).map fun k => entry col (place k)

/-- The levels of a dimension; `drawn r k` is the place that restart `r` draws for level `k`. -/
def trainDim (col : List α) (nRestarts lloydIters : ℕ) (drawn : ℕ → ℕ → ℕ) : List α :=
  let best := lloydMax1d col q.K lloydIters
    (q.levelsAt col fun k => k * (col.length - 1) / (q.K - 1))
  ((List.range' 1 (nRestarts - 1)).foldl (fun best r =>
    let cand := lloydMax1d col q.K lloydIters (q.levelsAt col (drawn r))
    let mse := quantizerMse col cand
    if mse < best.2 then (cand, mse) else best) (best, quantizerMse col best)).1

def train (samples : ℕ → α) (n nRestarts lloydIters : ℕ) (drawn : ℕ → ℕ → ℕ → ℕ) : Result α :=
  if n < q.K then
    (q, .error (.thrown ("ScalarLloydMaxQuantizer::train: n=" ++ toString n ++ " < K=" ++
      toString q.K)))
  else
    { q with levels := (List.range q.dim).flatMap fun d =>
        q.trainDim (q.column samples n d) nRestarts lloydIters (drawn d) }.computeBounds

/-- The ruler of a dimension: its lower end and its step. -/
def ruler (sqrt : α → α) (samples : ℕ → α) (n d : ℕ) : α × α :=
  let mean := (∑ i ∈ Finset.range n, samples (i * q.dim + d)) / n
  let var := (∑ i ∈ Finset.range n,
    (samples (i * q.dim + d) - mean) * (samples (i * q.dim + d) - mean)) / n
  let sigma := sqrt var
  let lo := if 1 / 10 ^ 12 < sigma then mean - 27 / 10 * sigma else mean
  let hi := if 1 / 10 ^ 12 < sigma then mean + 27 / 10 * sigma else mean
  (lo, if 1 < q.K then (hi - lo) / ((q.K - 1 : ℕ) : α) else 0)

def trainUniform (sqrt : α → α) (samples : ℕ → α) (n : ℕ) : Result α :=
  if n < 2 then
    (q, .error (.thrown "ScalarLloydMaxQuantizer::train_uniform: need n >= 2"))
  else
    let levels := (List.range q.dim).flatMap fun d => (List.range q.K).map fun k : ℕ =>
      (q.ruler sqrt samples n d).1 + (q.ruler sqrt samples n d).2 * (k : α)
    let q := { q with levels := levels, mode := 1 }
    { q with steps := (List.range q.dim).map fun d =>
        if 1 < q.K then q.level d 1 - q.level d 0 else 0 }.computeBounds

/-- `lm_d[k] ≈ lo_d + step_d · f[k]`. -/
structure Shape (α : Type) where
  f : ℕ → α
  lo : ℕ → α
  st : ℕ → α

/-- The step of a dimension by least squares. -/
def fitStep (f : ℕ → α) (d : ℕ) : α :=
  let sf := ∑ k ∈ Finset.range q.K, f k
  let sf2 := ∑ k ∈ Finset.range q.K, f k * f k
  let s1 := ∑ k ∈ Finset.range q.K, q.level d k
  let sfx := ∑ k ∈ Finset.range q.K, f k * q.level d k
  let denom := q.K * sf2 - sf * sf
  if denom ≠ 0 then (q.K * sfx - sf * s1) / denom else 0

def fitLo (f : ℕ → α) (d : ℕ) : α :=
  ((∑ k ∈ Finset.range q.K, q.level d k) - q.fitStep f d * ∑ k ∈ Finset.range q.K, f k) / q.K

/-- `if (f[k] < f[k - 1]) f[k] = f[k - 1]`, from the second on. -/
def monotone (f : ℕ → α) : ℕ → α
  | 0 => f 0
  | k + 1 => if f (k + 1) < monotone f k then monotone f k else f (k + 1)

/-- One round: the fits of the dimensions, then the mean shape. -/
def fitRound (s : Shape α) : Shape α :=
  let lo := q.fitLo s.f
  let st := q.fitStep s.f
  { lo := lo, st := st
    f := monotone fun k =>
      (∑ d ∈ Finset.range q.dim, (q.level d k - lo d) / (st d + 1 / 10 ^ 30)) / q.dim }

def fitShape : Shape α := q.fitRound^[8] ⟨fun k => k, fun _ => 0, fun _ => 0⟩

def trainShape (samples : ℕ → α) (n nRestarts lloydIters : ℕ) (drawn : ℕ → ℕ → ℕ → ℕ) : Result α :=
  match q.train samples n nRestarts lloydIters drawn with
  | (q, .error e) => (q, .error e)
  | (q, .ok ()) =>
    let s := q.fitShape
    { q with
      f := (List.range q.K).map s.f
      steps := (List.range q.dim).map s.st
      levels := (List.range q.dim).flatMap fun d => (List.range q.K).map fun k =>
        s.lo d + s.st d * s.f k
      mode := 2 }.computeBounds

/-! ### Codes -/

/-- The level that `std::upper_bound` finds. -/
def index (vec : ℕ → α) (d : ℕ) : ℕ :=
  upperBound (fun i => entry q.bounds (d * (q.K - 1) + i)) (vec d) 0 (q.K - 1)

def encode (vec : ℕ → α) : Mem :=
  if q.bits = 4 then packNibbles fun d => if d < q.dim then q.index vec d % 16 else 0
  else fun d => UInt8.ofNat (q.index vec d)

def decode (code : Mem) (d : ℕ) : α :=
  if q.bits = 4 then
    let byte := (code (d / 2)).toNat
    q.level d (if d % 2 = 0 then byte % 16 else byte / 16 % 16)
  else q.level d (code d).toNat

end ScalarLloydMaxQuantizer

/-! ### Blobs -/

/-- A blob: its bytes, and the number that the four bytes from a position on stand for. -/
structure Image (α : Type) where
  size : ℕ
  bytes : Mem
  floats : ℕ → α

/-- `n` numbers from a position on. -/
def Image.numbers (img : Image α) (pos n : ℕ) : List α :=
  (List.range n).map fun i => img.floats (pos + 4 * i)

def kScalarLloydMaxMagic : ℕ := 0x534C4D58

def metricByte : MetricKind → UInt8
  | .l2Sq => 0
  | .innerProduct => 1

/-- Whatever is not the inner product is treated as the other metric. -/
def metricOf (b : UInt8) : MetricKind := if b = 1 then .innerProduct else .l2Sq

namespace ScalarLloydMaxQuantizer

variable (q : ScalarLloydMaxQuantizer α)

def serialize : Image α :=
  let header := 10
  let tailOff := header + q.levels.length * 4
  { size := tailOff + 1 + if q.mode = 2 then (q.f.length + q.steps.length) * 4 else 0
    bytes := poke (poke (poke (poke (poke (fun _ => 0) 0 (leBytes 4 kScalarLloydMaxMagic))
      4 [metricByte q.metric]) 5 [UInt8.ofNat q.bits]) 6 (leBytes 4 q.dim)) tailOff
      [UInt8.ofNat q.mode]
    floats := fun pos =>
      if pos < tailOff then entry q.levels ((pos - header) / 4)
      else entry (q.f ++ q.steps) ((pos - (tailOff + 1)) / 4) }

/-- The fields are assigned as they are read. -/
def deserialize (img : Image α) : Result α :=
  let header := 10
  if img.size < header then
    (q, .error (.thrown "ScalarLloydMax deserialize: blob too small"))
  else if word img.bytes 4 0 ≠ kScalarLloydMaxMagic then
    (q, .error (.thrown "ScalarLloydMax deserialize: magic mismatch"))
  else
    let bits := (img.bytes 5).toNat
    -- a shift by the low five bits of the count
    let q := { q with
      metric := metricOf (img.bytes 4), bits := bits, dim := word img.bytes 4 6
      K := 2 ^ (bits % 32) }
    let tailOff := header + q.dim * q.K * 4
    if q.bits ≠ 4 ∧ q.bits ≠ 8 then
      (q, .error (.thrown "ScalarLloydMax deserialize: invalid bits"))
    else if img.size < tailOff then
      (q, .error (.thrown "ScalarLloydMax deserialize: levels truncated"))
    else
      let q := { q with levels := img.numbers header (q.dim * q.K) }
      if img.size = tailOff then { q with mode := 0 }.computeBounds
      else
        let q := { q with mode := (img.bytes tailOff).toNat }
        if 2 < q.mode then
          (q, .error (.thrown "ScalarLloydMax deserialize: invalid mode"))
        else if q.mode = 2 then
          if img.size < tailOff + 1 + (q.K + q.dim) * 4 then
            (q, .error (.thrown "ScalarLloydMax deserialize: shape tail truncated"))
          else
            { q with
              f := img.numbers (tailOff + 1) q.K
              steps := img.numbers (tailOff + 1 + q.K * 4) q.dim }.computeBounds
        else if q.mode = 1 then
          { q with steps := (List.range q.dim).map fun d =>
              if 1 < q.K then q.level d 1 - q.level d 0 else 0 }.computeBounds
        else q.computeBounds

end ScalarLloydMaxQuantizer

end SextantTree.ScalarLloydMax
