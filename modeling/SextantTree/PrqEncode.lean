import SextantTree.Argmin
import SextantTree.Quantizer

/-!
Encoding of `ProductResidualQuantizer` over exact numbers: greedy, by a beam, and by coordinate
descent with perturbations (`encode_icm_`). A code is the centroid of each level of each split; the
generator and `std::partial_sort` are parameters.
-/

namespace SextantTree.Prq

open ByteMem SegmentedVec LocalPq Quant Argmin

variable {α : Type} [CommRing α] [LinearOrder α]

/-- `write_code`. -/
def writeCode (code : Mem) (bits s cid : ℕ) : Mem :=
  if bits = 8 then Function.update code s (UInt8.ofNat (cid % 256))
  else
    let byte := (code (s / 2)).toNat
    Function.update code (s / 2) (UInt8.ofNat
      (if s % 2 = 0 then byte / 16 * 16 + cid % 16 else byte % 16 + cid % 16 * 16))

/-- `nearest_centroid_l2`: the first centroid that is nearest. -/
def nearestCentroidL2 (book : ℕ → ℕ → α) (sub : ℕ → α) (K dim : ℕ) : ℕ :=
  (scanMin (fun c => ((sqDist dim sub (book c) : α) : WithTop α)) (List.range K)).2

structure EncodeParams where
  beamSize : ℕ
  seed : ℕ
  encodeMode : String
  icmIters : ℕ
  ilsIters : ℕ
  ilsPerturb : ℕ

structure PrqEncoder (α : Type) extends ProductResidualQuantizer α, EncodeParams

/-- An object as constructed with its parameters, and trained. -/
def PrqEncoder.trained (sh : PrqShape) (p : EncodeParams) (centroids : ℕ → α) : PrqEncoder α :=
  { ProductResidualQuantizer.trained sh centroids, p with }

/-- A hypothesis with one more centroid. -/
structure Candidate (α : Type) where
  hypIdx : ℕ
  cid : ℕ
  newResNormSq : α

structure Hypothesis (α : Type) where
  residual : ℕ → α
  codes : List ℕ
  resNormSq : α

structure Greedy (α : Type) where
  residual : ℕ → α
  codes : ℕ → ℕ

structure IcmState (α : Type) where
  codes : ℕ → ℕ
  reconstruction : ℕ → α
  bestCodes : ℕ → ℕ
  bestErr : α
  /-- The draws still to come. -/
  rng : ℕ → ℕ

/-- What the loops of `encode_icm_` do to a split, one after the other. -/
inductive Move
  | perturb
  | sweep (lev : ℕ)
  | settle

namespace PrqEncoder

variable (q : PrqEncoder α)

/-- The part of a vector that a split encodes. -/
def subVec (vec : ℕ → α) (s : ℕ) : ℕ → α := shift (s * q.subDimPrq) vec

def nearest (s lev : ℕ) (residual : ℕ → α) : ℕ :=
  nearestCentroidL2 (q.levelCentroid s lev) residual q.K q.subDimPrq

/-- `||x||²` within a split. -/
def normSq (x : ℕ → α) : α := dot q.subDimPrq x x

/-- The codes of all splits into a zeroed buffer. -/
def writeCodes (codes : ℕ → ℕ → ℕ) : Mem :=
  (List.range q.nsplits).foldl (fun code s => (List.range q.mSub).foldl (fun code lev =>
    writeCode code q.bits (s * q.mSub + lev) (codes s lev)) code) fun _ => 0

/-! ### Greedy -/

def greedyLevel (s : ℕ) (g : Greedy α) (lev : ℕ) : Greedy α :=
  let cid := q.nearest s lev g.residual
  { residual := fun d => g.residual d - q.levelCentroid s lev cid d
    codes := Function.update g.codes lev cid }

def greedyLevels (s : ℕ) (sub : ℕ → α) (levels : ℕ) : Greedy α :=
  (List.range levels).foldl (q.greedyLevel s) ⟨sub, fun _ => 0⟩

def encodeGreedy (vec : ℕ → α) : Mem :=
  q.writeCodes fun s => (q.greedyLevels s (q.subVec vec s) q.mSub).codes

/-! ### Beam -/

def candidates (s lev : ℕ) (beam : List (Hypothesis α)) : List (Candidate α) :=
  beam.zipIdx.flatMap fun h => (List.range q.K).map fun c =>
    ⟨h.2, c, q.normSq fun d => h.1.residual d - q.levelCentroid s lev c d⟩

def extend (s lev : ℕ) (beam : List (Hypothesis α)) (cand : Candidate α) : Option (Hypothesis α) :=
  beam[cand.hypIdx]?.map fun h =>
    { residual := fun d => h.residual d - q.levelCentroid s lev cand.cid d
      codes := h.codes ++ [cand.cid]
      resNormSq := cand.newResNormSq }

def beamLevel (partialSort : ℕ → List (Candidate α) → List (Candidate α)) (s : ℕ)
    (beam : List (Hypothesis α)) (lev : ℕ) : List (Hypothesis α) :=
  let cands := q.candidates s lev beam
  let nKeep := min q.beamSize cands.length
  ((partialSort nKeep cands).take nKeep).filterMap (q.extend s lev beam)

def beamSplit (partialSort : ℕ → List (Candidate α) → List (Candidate α)) (s : ℕ) (sub : ℕ → α) :
    List (Hypothesis α) :=
  (List.range q.mSub).foldl (q.beamLevel partialSort s) [⟨sub, [], q.normSq sub⟩]

def encodeBeam (partialSort : ℕ → List (Candidate α) → List (Candidate α)) (vec : ℕ → α) : Mem :=
  q.writeCodes fun s lev =>
    (((q.beamSplit partialSort s (q.subVec vec s)).head?.map Hypothesis.codes).getD []).getD lev 0

/-! ### Coordinate descent -/

/-- Greedy, with the reconstruction beside it. -/
def icmInit (s : ℕ) (sub : ℕ → α) (levels : ℕ) : Greedy α × (ℕ → α) :=
  (List.range levels).foldl (fun st lev =>
    let g := q.greedyLevel s st.1 lev
    (g, fun d => st.2 d + q.levelCentroid s lev (g.codes lev) d)) (⟨sub, fun _ => 0⟩, fun _ => 0)

def reassign (s lev newCid : ℕ) (st : IcmState α) : IcmState α :=
  { st with
    codes := Function.update st.codes lev newCid
    reconstruction := fun d => st.reconstruction d +
      (q.levelCentroid s lev newCid d - q.levelCentroid s lev (st.codes lev) d) }

def perturb (s : ℕ) (st : IcmState α) : IcmState α :=
  let lev := st.rng 0 % q.mSub
  let newCid := st.rng 1 % q.K
  { q.reassign s lev newCid st with rng := fun i => st.rng (i + 2) }

def sweep (s : ℕ) (sub : ℕ → α) (lev : ℕ) (st : IcmState α) : IcmState α :=
  let oldCid := st.codes lev
  let newCid := q.nearest s lev fun d =>
    sub d - st.reconstruction d + q.levelCentroid s lev oldCid d
  if newCid ≠ oldCid then q.reassign s lev newCid st else st

def rebuild (s : ℕ) (codes : ℕ → ℕ) : ℕ → α :=
  (List.range q.mSub).foldl (fun r lev d => r d + q.levelCentroid s lev (codes lev) d) fun _ => 0

def settle (s : ℕ) (sub : ℕ → α) (st : IcmState α) : IcmState α :=
  let err := q.normSq fun d => sub d - st.reconstruction d
  if err < st.bestErr then { st with bestErr := err, bestCodes := st.codes }
  else { st with codes := st.bestCodes, reconstruction := q.rebuild s st.bestCodes }

def move (s : ℕ) (sub : ℕ → α) (st : IcmState α) : Move → IcmState α
  | .perturb => q.perturb s st
  | .sweep lev => q.sweep s sub lev st
  | .settle => q.settle s sub st

def turn (ils : ℕ) : List Move :=
  (if 0 < ils ∧ 0 < q.ilsPerturb ∧ 1 < q.mSub then
      List.replicate (min q.ilsPerturb q.mSub) .perturb
    else []) ++
    (List.replicate q.icmIters ((List.range q.mSub).map .sweep)).flatten ++ [.settle]

def moves : List Move := (List.range q.ilsIters).flatMap q.turn

/-- A split before the loop: the residual of the greedy code has the error. -/
def icmStart (s : ℕ) (sub : ℕ → α) (rng : ℕ → ℕ) : IcmState α :=
  let init := q.icmInit s sub q.mSub
  { codes := init.1.codes, reconstruction := init.2, bestCodes := init.1.codes
    bestErr := q.normSq init.1.residual, rng := rng }

def icmSplit (s : ℕ) (sub : ℕ → α) (rng : ℕ → ℕ) : IcmState α :=
  q.moves.foldl (q.move s sub) (q.icmStart s sub rng)

/-- The draws that a split starts with: those the splits before it have left. -/
def rngBefore (vec : ℕ → α) (rng : ℕ → ℕ) : ℕ → ℕ → ℕ
  | 0 => rng
  | s + 1 => (q.icmSplit s (q.subVec vec s) (rngBefore vec rng s)).rng

def encodeIcm (rng : ℕ → ℕ) (vec : ℕ → α) : Mem :=
  q.writeCodes fun s => (q.icmSplit s (q.subVec vec s) (q.rngBefore vec rng s)).bestCodes

/-- `encode` of the vector in the buffer at an address; `mt19937` is the generator by its seed. -/
def encode (mt19937 : ℕ → ℕ → ℕ) (partialSort : ℕ → List (Candidate α) → List (Candidate α))
    (address : ℕ) (vec : ℕ → α) : Mem :=
  if q.encodeMode = "icm" then q.encodeIcm (mt19937 ((q.seed ^^^ address) % 2 ^ 32)) vec
  else if q.beamSize ≤ 1 then q.encodeGreedy vec
  else q.encodeBeam partialSort vec

end PrqEncoder

end SextantTree.Prq
