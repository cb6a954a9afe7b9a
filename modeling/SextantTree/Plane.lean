import Mathlib.Algebra.Order.Field.Rat
import Mathlib.Data.Fin.Basic
import SextantTree.BlockKernels
import SextantTree.ByteMem
import SextantTree.Pages

/-!
The routing plane: four-bit codes of every member of a leaf, in blocks of 32, and for one encoding
a factor for each member. The writer packs the codes of a leaf; layout v1 has the blocks and the
factors of all leaves in one blob, layout v2 has those of a leaf in the extent of the leaf. The
sweep scores a leaf by the largest score of its members.

Floats are exact rationals; a half float is its bit pattern.
-/

namespace SextantTree.Plane

open ByteMem Pages
open BlockKernels (Target pq4ScanMany)

inductive PlaneEncoding where
  | u4lm | b1g | u4lmPv
deriving DecidableEq

structure PlaneMeta where
  encoding : PlaneEncoding
  /-- A `uint16_t` that the header check wants positive. -/
  rank : ℕ
  rank_pos : 0 < rank
  rank_lt : rank < 2 ^ 16

def kVecsPerBlock : ℕ := 32

namespace PlaneMeta

variable (pm : PlaneMeta)

/-- `fs_segments`. -/
def segments : ℕ := if pm.encoding = .b1g then pm.rank / 4 else pm.rank

/-- `block_bytes_for`. -/
def blockBytes : ℕ := pm.segments * 16

/-- `U4LM_PV`: every member has a factor of its own. -/
def pv : Bool := decide (pm.encoding = .u4lmPv)

end PlaneMeta

/-! ### The writer -/

/-- A member projected to the plane. -/
abbrev Proj := ℕ → ℚ

/-- What training leaves the writer with, and the conversions of half floats. -/
structure Codec where
  /-- Centroid `c` of dimension `e`. -/
  centroid : ℕ → ℕ → ℚ
  toHalf : ℚ → UInt16
  ofHalf : UInt16 → ℚ

def encodeDim (k : Codec) (v : ℚ) (e : ℕ) : ℕ :=
  (List.range 16).foldl (fun best c => if |v - k.centroid e c| < |v - k.centroid e best| then c else best) 0

/-- The nibble of segment `g`: four signs, or the code of one dimension. -/
def nibble (k : Codec) (pm : PlaneMeta) (pr : Proj) (g : ℕ) : ℕ :=
  if pm.encoding = .b1g then
    ((List.range 4).map fun t => if 0 ≤ pr (4 * g + t) then 2 ^ t else 0).sum
  else encodeDim k (pr g) g

/-- The factor that fits the codes of a member to the member best. -/
def alpha (k : Codec) (pm : PlaneMeta) (pr : Proj) (code : ℕ → ℕ) : UInt16 :=
  let dvc := ((List.range pm.rank).map fun e => pr e * k.centroid e (code e)).sum
  let dcc := ((List.range pm.rank).map fun e => k.centroid e (code e) * k.centroid e (code e)).sum
  k.toHalf (if 1 / 10 ^ 12 < dcc then dvc / dcc else 1)

/-- The nibble of lane `lane` in a byte that two lanes share. -/
def laneNibble (lane : ℕ) (byte : UInt8) : ℕ :=
  if 16 ≤ lane then byte.toNat / 16 else byte.toNat % 16

/-- The byte with the nibble of a lane replaced. -/
def setLaneNibble (lane nib : ℕ) (byte : UInt8) : UInt8 :=
  if 16 ≤ lane then UInt8.ofNat (byte.toNat % 16 + nib * 16)
  else UInt8.ofNat (byte.toNat / 16 * 16 + nib)

/-- The blocks and factors of a leaf in the making; what is not written is zero. -/
structure LeafState where
  blocks : Mem
  nBlocks : ℕ
  alphas : ℕ → UInt16
  nAlphas : ℕ

def LeafState.empty : LeafState := ⟨fun _ => 0, 0, fun _ => 0, 0⟩

/-- The position of the byte with segment `g` of a slot. -/
def bytePos (pm : PlaneMeta) (slot g : ℕ) : ℕ :=
  slot / kVecsPerBlock * pm.blockBytes + (g * 16 + slot % kVecsPerBlock % 16)

/-- The nibble of segment `g` of a slot. -/
def nibbleAt (pm : PlaneMeta) (blocks : Mem) (slot g : ℕ) : ℕ :=
  laneNibble (slot % kVecsPerBlock) (blocks (bytePos pm slot g))

def setNibble (pm : PlaneMeta) (slot : ℕ) (nib : ℕ → ℕ) (blocks : Mem) (g : ℕ) : Mem :=
  Function.update blocks (bytePos pm slot g)
    (setLaneNibble (slot % kVecsPerBlock) (nib g) (blocks (bytePos pm slot g)))

/-- `encode_into_`. The factor is computed from the nibbles just written. -/
def encodeInto (k : Codec) (pm : PlaneMeta) (ls : LeafState) (w : ℕ × Proj) : LeafState :=
  let blocks := (List.range pm.segments).foldl (setNibble pm w.1 (nibble k pm w.2)) ls.blocks
  { blocks := blocks
    nBlocks := max ls.nBlocks (w.1 / kVecsPerBlock + 1)
    alphas :=
      if pm.pv then Function.update ls.alphas w.1 (alpha k pm w.2 (nibbleAt pm blocks w.1))
      else ls.alphas
    nAlphas := if pm.pv then max ls.nAlphas (w.1 + 1) else ls.nAlphas }

/-- The leaf with these members in its slots. -/
def encodeLeaf (k : Codec) (pm : PlaneMeta) (members : List Proj) : LeafState :=
  (members.zipIdx.map Prod.swap).foldl (encodeInto k pm) .empty

/-- The blocks for `count` members. -/
def blocksFor (count : ℕ) : ℕ := (count + kVecsPerBlock - 1) / kVecsPerBlock

/-- The first blocks of a leaf, or nothing but zeros if it has too few. -/
def leafBlocks (pm : PlaneMeta) (ls : LeafState) (count : ℕ) : List UInt8 :=
  if blocksFor count ≤ ls.nBlocks then peek ls.blocks 0 (blocksFor count * pm.blockBytes)
  else List.replicate (blocksFor count * pm.blockBytes) 0

def leafAlphas (ls : LeafState) (count : ℕ) : List UInt8 :=
  (List.range count).flatMap fun i => leBytes 2 (ls.alphas i).toNat

/-- `finalize`: the factors and the blocks behind `pre`, the header, the basis, the mean and the
codebook; `none` when a leaf lacks factors. -/
def finalize (pm : PlaneMeta) (pre : List UInt8) (n : ℕ) (leaves : ℕ → LeafState) (counts : ℕ → ℕ) :
    Option (List UInt8) :=
  if pm.pv ∧ ∃ l < n, (leaves l).nAlphas < counts l then none
  else some (pre ++ ((if pm.pv then (List.range n).flatMap fun l => leafAlphas (leaves l) (counts l)
    else []) ++ (List.range n).flatMap fun l => leafBlocks pm (leaves l) (counts l)))

/-- `detach_leaf_blocks`: the blocks of a leaf and its factors. -/
def detachLeafBlocks (pm : PlaneMeta) (ls : LeafState) (count : ℕ) : Option (List UInt8) :=
  if ls.nBlocks < blocksFor count ∨ pm.pv ∧ ls.nAlphas < count then none
  else some (leafBlocks pm ls count ++ if pm.pv then leafAlphas ls count else [])

/-! ### The scan -/

/-- A pointer, as the bytes behind it. -/
abbrev Ptr := ℕ → UInt8

def Ptr.add (p : Ptr) (n : ℕ) : Ptr := fun i => p (n + i)

def kSentinel : ℕ := 2 ^ 32 - 1

/-- The lanes of block `b` that have a member. -/
def validLanes (count b : ℕ) : ℕ := min kVecsPerBlock (count - b * kVecsPerBlock)

/-- The mask of those lanes, `(1u << valid) - 1u` unless all are valid. -/
def laneMask (count b : ℕ) : UInt32 :=
  if validLanes count b = 32 then 0xFFFFFFFF else UInt32.ofNat (2 ^ validLanes count b - 1)

/-- The running maximum starts at the lowest float. -/
def lowestFloat : ℚ := -((2 ^ 24 - 1) * 2 ^ 104)

/-- Factor `i` of an array. -/
def alphaAt (k : Codec) (p : Ptr) (i : ℕ) : ℚ := k.ofHalf (UInt16.ofNat (word p 2 (2 * i)))

/-- `scan_leaf_max_u8_at` for a leaf of `count` members. -/
def scanLeafMaxU8At (t : Target) (k : Codec) (pm : PlaneMeta) (count : ℕ) (blk : Ptr) (lut : ℕ → UInt8) (shift : ℚ)
    (alphas : Option Ptr) : ℚ :=
  let nb := blocksFor count
  let sums b j := (pq4ScanMany t blk lut pm.segments (laneMask count) b j).toNat
  match alphas with
  | none =>
    (((List.range nb).foldl (fun best b => (List.range 32).foldl (fun best j =>
      if sums b j ≠ kSentinel then max best (sums b j) else best) best) 0 : ℕ) : ℚ)
  | some p =>
    ((List.range nb).foldl (fun acc b => (List.range (validLanes count b)).foldl
      (fun (acc : ℚ × ℕ) j => (max acc.1 (alphaAt k p acc.2 * (sums b j + shift)), acc.2 + 1)) acc)
      (lowestFloat, 0)).1

/-! ### The plane cache -/

structure Entry where
  page : ℕ
  data : List UInt8

/-- What the policy and the other threads decide during a pin: whether a short incumbent is not
pinned, how many pages another thread has filled under the key meanwhile, whether the fill is
admitted, and which entries are evicted after it. -/
structure Admission where
  unpinned : Bool
  filledMeanwhile : Option ℕ
  admitted : Bool
  evicted : List ℕ

abbrev Cache := List Entry

def cached (c : Cache) (page : ℕ) : Option Entry := c.find? (·.page == page)

def Entry.covers (e : Entry) (pages : ℕ) : Bool := decide (pages * kPageSize ≤ e.data.length)

def Entry.ptr (e : Entry) : Ptr := fun i => e.data.getD i 0

/-- `new_entry`: the pages are read from the file. -/
def fill (file : Mem) (page pages : ℕ) : Entry := ⟨page, peek file (page * kPageSize) (pages * kPageSize)⟩

/-- `LeafExtentCache::pin`: the pages, from an entry or from the file, or the fallback. -/
def pin (file : Mem) (c : Cache) (adm : Admission) (page pages : ℕ) (fallback : Ptr) : Ptr × Cache :=
  match (cached c page).filter (·.covers pages) with
  | some e => (e.ptr, c.filter fun x => !adm.evicted.contains x.page)
  | none =>
    -- a short incumbent that nobody has pinned makes way
    let c := if adm.unpinned then c.filter (·.page != page) else c
    match adm.filledMeanwhile.filter fun m => decide (pages ≤ m) with
    | some m => ((fill file page m).ptr, c)
    | none =>
      if adm.admitted then
        let e := fill file page pages
        (e.ptr, (if (cached c page).isSome then c else e :: c).filter fun x => !adm.evicted.contains x.page)
      else (fallback, c)

/-! ### The sweep -/

structure PlaneFile where
  pm : PlaneMeta
  v2 : Bool
  /-- The number of leaves and of the members of each. -/
  n : ℕ
  counts : ℕ → ℕ
  planePage : ℕ
  /-- The length of the header, the basis, the mean and the codebook. -/
  preBytes : ℕ
  leafPage : ℕ → ℕ
  leafPlaneOffset : ℕ → ℕ

namespace PlaneFile

variable (f : PlaneFile)

def alphaBytes : ℕ := if f.pm.pv then total (fun l => 2 * f.counts l) f.n else 0

/-- The blocks of leaf `l` in the blob, as `bind` computes them. -/
def blockOff (l : ℕ) : ℕ := total (fun j => blocksFor (f.counts j) * f.pm.blockBytes) l

def blocksOffsetInBlob : ℕ := f.preBytes + f.alphaBytes

/-- The position of the blocks of a leaf in the file, layout v1. -/
def fbyte (l : ℕ) : ℕ := f.planePage * kPageSize + f.blocksOffsetInBlob + f.blockOff l

def pgoff (l : ℕ) : ℕ := f.fbyte l % kPageSize

def rowPages (l : ℕ) : ℕ :=
  (f.pgoff l + blocksFor (f.counts l) * f.pm.blockBytes + kPageSize - 1) / kPageSize

/-- The factors of the blob: those of the first member of the first leaf come first. -/
def blobAlpha (mem : Mem) : Option Ptr :=
  if f.pm.pv then some (Ptr.add mem (f.planePage * kPageSize + f.preBytes)) else none

/-- The score of a leaf in the sweep; `cache` is the plane cache, if there is one, and what it
decides. -/
def sweepLeaf (t : Target) (k : Codec) (mem : Mem) (cache : Option (Cache × Admission)) (lut : ℕ → UInt8) (shift : ℚ)
    (l : ℕ) : ℚ :=
  if f.v2 then
    let blk := Ptr.add mem (f.leafPage l * kPageSize + f.leafPlaneOffset l)
    scanLeafMaxU8At t k f.pm (f.counts l) blk lut shift
      (if f.pm.pv then some (blk.add (blocksFor (f.counts l) * f.pm.blockBytes)) else none)
  else
    match cache with
    | some (c, adm) =>
      let p := (pin mem c adm (f.fbyte l / kPageSize) (f.rowPages l) (Ptr.add mem (f.fbyte l))).1
      scanLeafMaxU8At t k f.pm (f.counts l) (p.add (f.pgoff l)) lut shift (f.blobAlpha mem)
    | none =>
      scanLeafMaxU8At t k f.pm (f.counts l) (Ptr.add mem (f.fbyte l)) lut shift (f.blobAlpha mem)

end PlaneFile

end SextantTree.Plane
