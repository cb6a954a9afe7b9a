import Mathlib.Algebra.Field.Defs
import SextantTree.BlockKernels
import SextantTree.SignedLanes

/-!
The integer dot kernels of the scalar coders: `scalar_i8_dots4` for one query, `scalar_i8_dots4_q4`
for four, `scalar_i8_dots4_q4_expanded` over the rows of `scalar_expand_codes`, in every form they are
compiled to, and the reference. Sums in 32 bits wrap and remember that they did; floats are numbers
of a field, so that they do not round. Memory and registers are functions on positions.
-/

namespace SextantTree.DotKernels

open BlockKernels SignedLanes

/-- What the kernels are compiled for: `SEXTANT_HAS_AVX512_SCAN`, `SEXTANT_HAS_NEON_DOTSCAN` with and
without `__ARM_FEATURE_MATMUL_INT8`, or neither. -/
inductive DotTarget
  | avx512
  | neon (i8mm : Bool)
  | portable
deriving DecidableEq

abbrev Signed : Type := ℕ → Int8

abbrev Lanes : Type := ℕ → Lane

/-! ### Instructions -/

/-- `_mm_loadl_epi64`. -/
def loadl (p : Bytes) (o : ℕ) : Bytes := fun k => if k < 8 then p (o + k) else 0

/-- `_mm_maskz_loadu_epi8`, of bytes with or without a sign. -/
def maskzLoad {β : Type*} [OfNat β 0] (mask : UInt16) (p : ℕ → β) (o : ℕ) : ℕ → β := fun k =>
  if mask.toNat.testBit k then p (o + k) else 0

def loadSigned (a : Signed) (o : ℕ) : Signed := fun k => a (o + k)

/-- `_mm_srli_si128` by four bytes. -/
def srliSi128 (x : Bytes) : Bytes := fun k => if k + 4 < 16 then x (k + 4) else 0

/-- `_mm_unpacklo_epi8`. -/
def unpackloEpi8 (x y : Bytes) : Bytes := fun k => if k % 2 = 0 then x (k / 2) else y (k / 2)

/-- `_mm_unpacklo_epi64`. -/
def unpackloEpi64 (x y : Bytes) : Bytes := fun k => if k < 8 then x k else y (k - 8)

/-- `_mm512_inserti32x4`. -/
def inserti32x4 (x y : Bytes) (imm : ℕ) : Bytes := fun k => if k / 16 = imm then y (k % 16) else x k

/-- `_mm512_broadcast_i32x4`. -/
def broadcast {β : Type*} (x : ℕ → β) : ℕ → β := fun k => x (k % 16)

/-- `_mm512_shuffle_epi8`: in each quarter a table of its own. -/
def shuffle512 (table idx : Bytes) : Bytes := fun k =>
  if idx k &&& 0x80 ≠ 0 then 0 else table (k / 16 * 16 + (idx k &&& 0x0F).toNat)

/-- `_mm512_dpbusd_epi32`, and `vusdotq_s32` of four lanes. -/
def dpbusd (src : Lanes) (u : Bytes) (s : Signed) : Lanes := fun j =>
  (src j).acc (∑ k ∈ Finset.range 4, ((u (4 * j + k)).toNat : ℤ) * (s (4 * j + k)).toInt)

/-- `_MM_SHUFFLE`: which lane of its quarter each lane takes. -/
def mmShuffle (z y x w : ℕ) : ℕ → ℕ
  | 0 => w
  | 1 => x
  | 2 => y
  | _ => z

/-- `_mm512_shuffle_epi32`. -/
def shuffleEpi32 (v : Lanes) (sel : ℕ → ℕ) : Lanes := fun j => v (j / 4 * 4 + sel (j % 4))

/-- `_mm512_add_epi32`, `vaddq_s32`. -/
def addLanes (x y : Lanes) : Lanes := fun j => (x j).add (y j)

/-- `_mm512_setzero_si512`, `vdupq_n_s32(0)`. -/
def zeroLanes : Lanes := fun _ => .zero

/-- `vzip_u8`. -/
def vzip (x y : Bytes) : Bytes × Bytes :=
  (fun k => if k % 2 = 0 then x (k / 2) else y (k / 2),
    fun k => if k % 2 = 0 then x (4 + k / 2) else y (4 + k / 2))

/-- `vcombine_u8`. -/
def vcombine (x y : Bytes) : Bytes := fun k => if k < 8 then x k else y (k - 8)

/-- `vdotq_s32`. -/
def vdotq (acc : Lanes) (x y : Signed) : Lanes := fun j =>
  (acc j).acc (∑ k ∈ Finset.range 4, (x (4 * j + k)).toInt * (y (4 * j + k)).toInt)

/-- `vaddvq_s32`. -/
def vaddvq (v : Lanes) : Lane := ((v 0).add (v 1)).add ((v 2).add (v 3))

/-! ### Contexts -/

/-- What the kernels read of `ScalarScanCtx`. -/
structure ScanCtx (α : Type*) where
  cs : ℕ
  dim : UInt16
  i8Mode : ℤ
  a8 : Signed
  a8Lo : Option Signed
  i8Inv : α
  slmShaped : Bool
  shapeU8 : Bytes

/-- Four rows of codes, or of one byte for each dimension. -/
abbrev Rows : Type := ℕ → Bytes

/-- What a kernel returns for a row, with the integers it is made of: the sums over `a8` and over
`a8_lo`, and whether a lane or a fold overflowed on the way to them. -/
@[ext]
structure RowDot (α : Type*) where
  acc : ℤ
  accLo : ℤ
  overflow : Bool
  dot : α

section Kernels

variable {α : Type*} [Field α] (c : ScanCtx α)

namespace ScanCtx

/-- `a8_lo`, where the mode asks for it. -/
def lo : Option Signed := if 2 ≤ c.i8Mode then c.a8Lo else none

def padded : ℕ := (c.dim.toNat + 15) / 16 * 16

def fullyPadded : Bool := c.padded / 2 ≤ c.cs

/-- `d16i`: the dimensions that are taken in whole chunks. -/
def d16i : ℕ := if c.fullyPadded then c.padded else c.dim.toNat / 16 * 16

/-- What stands for a nibble: an entry of the shared table, or the nibble. -/
def level (nib : UInt8) : UInt8 := if c.slmShaped then c.shapeU8 nib.toNat else nib

end ScanCtx

/-- The nibble of dimension `d`. -/
def nibbleAt (row : Bytes) (d : ℕ) : UInt8 :=
  if d % 2 = 0 then row (d / 2) &&& 0x0F else row (d / 2) >>> 4

def epilogue (hasLo : Bool) (inv : α) (acc accLo : ℤ) : α :=
  ((acc : α) + (if hasLo then (accLo : α) / 127 else 0)) * inv

/-- The loop of the reference over one operand. -/
def refSum (c : ScanCtx α) (row : Bytes) (a : Signed) : ℤ :=
  (List.range c.dim.toNat).foldl
    (fun acc d => acc + (a d).toInt * ((c.level (nibbleAt row d)).toNat : ℤ)) 0

/-- The sum over `a8_lo`, if it is used. -/
def refLo (c : ScanCtx α) (row : Bytes) : ℤ := c.lo.elim 0 (refSum c row)

/-- `scalar_i8_dots4_ref`. -/
def scalarI8Dots4Ref (cp : Rows) (v : ℕ) : RowDot α where
  acc := refSum c (cp v) c.a8
  accLo := refLo c (cp v)
  overflow := false
  dot := epilogue c.lo.isSome c.i8Inv (refSum c (cp v) c.a8) (refLo c (cp v))

/-! ### AVX-512 -/

/-- The nibbles of eight bytes in the order of the dimensions. -/
def avx512Spread (b : Bytes) : Bytes :=
  let lo : Bytes := fun k => b k &&& 0x0F
  let hi : Bytes := fun k => srli16 4 b k &&& 0x0F
  unpackloEpi64 (unpackloEpi8 lo hi) (unpackloEpi8 (srliSi128 lo) (srliSi128 hi))

/-- `avx512_row_nibbles`. -/
def avx512RowNibbles (row : Bytes) (d : ℕ) : Bytes := avx512Spread (loadl row (d / 2))

def avx512Quarters (n : Rows) : Bytes :=
  inserti32x4 (inserti32x4 (inserti32x4 (n 0) (n 1) 1) (n 2) 2) (n 3) 3

/-- `avx512_nibbles4`. -/
def avx512Nibbles4 (cp : Rows) (d : ℕ) : Bytes := avx512Quarters fun v => avx512RowNibbles (cp v) d

/-- The nibbles looked up in the shared table. -/
def avx512Levels (nibs : Bytes) : Bytes :=
  if c.slmShaped then shuffle512 (broadcast (load c.shapeU8 0)) nibs else nibs

def avx512Chunk (cp : Rows) (a : Signed) (acc : Lanes) (d : ℕ) : Lanes :=
  dpbusd acc (avx512Levels c (avx512Nibbles4 cp d)) (broadcast (loadSigned a d))

/-- The vector loop of the kernel for one query. -/
def avx512Loop (cp : Rows) (a : Signed) : Lanes :=
  (List.range (c.d16i / 16)).foldl (fun acc i => avx512Chunk c cp a acc (16 * i)) zeroLanes

/-- The lanes of row `v` in 64 bits. -/
def laneTotal (lanes : Lanes) (v : ℕ) : ℤ := ∑ t ∈ Finset.range 4, (lanes (4 * v + t)).value.toInt

def laneOverflow (lanes : Lanes) (v : ℕ) : Bool := (List.range 4).any fun t => (lanes (4 * v + t)).overflow

/-- One dimension of the tail; it is added up in floats. -/
def avx512TailStep (cp : Rows) (v : ℕ) (r : RowDot α) (d : ℕ) : RowDot α :=
  let a8d : α := ((c.a8 d).toInt : α) + c.lo.elim 0 fun lo => ((lo d).toInt : α) / 127
  let g : ℕ := (c.level (nibbleAt (cp v) d)).toNat
  { acc := r.acc + (c.a8 d).toInt * g
    accLo := r.accLo + c.lo.elim 0 fun lo => (lo d).toInt * g
    overflow := r.overflow
    dot := r.dot + a8d * g * c.i8Inv }

/-- `scalar_i8_dots4`, AVX-512. -/
def scalarI8Dots4Avx512 (cp : Rows) (v : ℕ) : RowDot α :=
  let lanes := avx512Loop c cp c.a8
  let lanesLo := c.lo.elim zeroLanes (avx512Loop c cp)
  let s := laneTotal lanes v
  let sl := laneTotal lanesLo v
  let r : RowDot α :=
    { acc := s
      accLo := sl
      overflow := laneOverflow lanes v || laneOverflow lanesLo v
      dot := epilogue c.lo.isSome c.i8Inv s sl }
  if c.fullyPadded then r
  else (List.range' c.d16i (c.dim.toNat - c.d16i)).foldl (avx512TailStep c cp v) r

/-- The vector loops of the kernel for four queries: two chunks at a time into two accumulators, then
the chunk that is left. -/
def avx512LoopQ4 (cp : Rows) (a : Signed) : Lanes :=
  let pairs := (List.range (c.d16i / 32)).foldl (fun (acc : Lanes × Lanes) i =>
    (avx512Chunk c cp a acc.1 (32 * i), avx512Chunk c cp a acc.2 (32 * i + 16))) (zeroLanes, zeroLanes)
  let d := c.d16i / 32 * 32
  let acc := (List.range ((c.d16i - d) / 16)).foldl (fun acc i =>
    avx512Chunk c cp a acc (d + 16 * i)) pairs.1
  addLanes acc pairs.2

/-- The fold: each lane of a quarter ends as the sum of the quarter. -/
def avx512Fold (v : Lanes) : Lanes :=
  let t := addLanes v (shuffleEpi32 v (mmShuffle 2 3 0 1))
  addLanes t (shuffleEpi32 t (mmShuffle 1 0 3 2))

/-- `row_masked`. -/
def avx512RowMasked (nbytes d : ℕ) (row : Bytes) : Bytes :=
  avx512Spread (maskzLoad (UInt16.ofNat (2 ^ nbytes - 1)) row (d / 2))

def avx512TailQ4 (cp : Rows) (a : Signed) : Lanes :=
  let rem := c.dim.toNat - c.d16i
  let nibs := avx512Quarters fun v => avx512RowMasked ((rem + 1) / 2) c.d16i (cp v)
  let ma := UInt16.ofNat (2 ^ rem - 1)
  avx512Fold (dpbusd zeroLanes (avx512Levels c nibs) (broadcast (maskzLoad ma a c.d16i)))

/-- The folded lanes of row `v`, through the epilogue. -/
def avx512Finish (hasLo : Bool) (inv : α) (sums sumsLo : Lanes) (v : ℕ) : RowDot α where
  acc := (sums (4 * v)).value.toInt
  accLo := (sumsLo (4 * v)).value.toInt
  overflow := laneOverflow sums v || laneOverflow sumsLo v
  dot := epilogue hasLo inv (sums (4 * v)).value.toInt (sumsLo (4 * v)).value.toInt

/-- `scalar_i8_dots4_q4`, AVX-512: the first query stands for the leaf. -/
def scalarI8Dots4Q4Avx512 (c4 : ℕ → ScanCtx α) (cp : Rows) (q v : ℕ) : RowDot α :=
  let c0 := c4 0
  let cq := c4 q
  let sumsOf (a : Signed) := avx512Fold (avx512LoopQ4 c0 cp a)
  let r := avx512Finish cq.lo.isSome cq.i8Inv (sumsOf cq.a8) (cq.lo.elim zeroLanes sumsOf) v
  if c0.fullyPadded then r
  else
    let tail := avx512Finish cq.lo.isSome cq.i8Inv (avx512TailQ4 c0 cp cq.a8)
      (cq.lo.elim zeroLanes (avx512TailQ4 c0 cp)) v
    { acc := r.acc + tail.acc
      accLo := r.accLo + tail.accLo
      overflow := r.overflow || tail.overflow
      dot := r.dot + tail.dot }

/-! ### NEON -/

/-- The nibbles of eight bytes in the order of the dimensions. -/
def neonSpread (b : Bytes) : Bytes :=
  let z := vzip (fun k => b k &&& 0x0F) fun k => b k >>> 4
  vcombine z.1 z.2

/-- `neon_row_nibbles`. -/
def neonRowNibbles (row : Bytes) (d : ℕ) : Bytes := neonSpread (load row (d / 2))

/-- `neon_row_nibbles_tail`: the bytes there are, and zeros behind them. -/
def neonRowNibblesTail (row : Bytes) (d rem : ℕ) : Bytes :=
  let nbytes := (rem + 1) / 2
  neonSpread fun k => if k < nbytes then row (d / 2 + k) else 0

/-- `neon_tail_mask`. -/
def neonTailMask (rem : ℕ) : Bytes := fun k => if UInt8.ofNat k < UInt8.ofNat rem then 0xFF else 0

/-- `vandq_u8`. -/
def vandq (x y : Bytes) : Bytes := fun k => x k &&& y k

/-- `vreinterpretq_s8_u8`. -/
def reinterpret (x : Bytes) : Signed := fun k => (x k).toInt8

/-- `neon_nibdot_s32`. -/
def neonNibdot (acc : Lanes) (nib : Bytes) (a : Signed) : Lanes := vdotq acc (reinterpret nib) a

/-- `neon_gdot_s32`. -/
def neonGdot (i8mm : Bool) (acc : Lanes) (g : Bytes) (a : Signed) : Lanes :=
  if i8mm then dpbusd acc g a
  else
    let gl := reinterpret fun k => g k &&& 0x7F
    let gh := reinterpret fun k => g k >>> 7
    let lo := vdotq acc gl a
    let hi := vdotq zeroLanes gh a
    addLanes lo fun j => (hi j).shl 7

/-- One chunk of levels against one operand. -/
def neonChunk (i8mm : Bool) (acc : Lanes) (g : Bytes) (a : Signed) : Lanes :=
  if c.slmShaped then neonGdot i8mm acc g a else neonNibdot acc g a

/-- `vqtbl1q_u8` with the shared table, where there is one. -/
def neonLevels (nib : Bytes) : Bytes := if c.slmShaped then tbl1 (load c.shapeU8 0) nib else nib

/-- The tail chunk of a row; the mask comes after the table. -/
def neonTail (row : Bytes) : Bytes :=
  let rem := c.dim.toNat - c.d16i
  vandq (neonLevels c (neonRowNibblesTail row c.d16i rem)) (neonTailMask rem)

/-- The accumulator of one row against one operand. -/
def neonLoop (i8mm : Bool) (row : Bytes) (a : Signed) : Lanes :=
  let acc := (List.range (c.d16i / 16)).foldl (fun acc i =>
    neonChunk c i8mm acc (neonLevels c (neonRowNibbles row (16 * i))) (loadSigned a (16 * i))) zeroLanes
  if c.fullyPadded then acc else neonChunk c i8mm acc (neonTail c row) (loadSigned a c.d16i)

/-- `neon_i8_finish`. -/
def neonI8Finish (hasLo : Bool) (inv : α) (s sLo : Lanes) : RowDot α :=
  let t := vaddvq s
  let lo := vaddvq sLo
  { acc := t.value.toInt
    accLo := lo.value.toInt
    overflow := t.overflow || lo.overflow
    dot := epilogue hasLo inv t.value.toInt lo.value.toInt }

/-- `scalar_i8_dots4` and `scalar_i8_dots4_q4`, NEON: the context `c` of the leaf, and `cq` of the
query. -/
def scalarI8Dots4Neon (i8mm : Bool) (cq : ScanCtx α) (cp : Rows) (v : ℕ) : RowDot α :=
  neonI8Finish cq.lo.isSome cq.i8Inv (neonLoop c i8mm (cp v) cq.a8)
    (cq.lo.elim zeroLanes (neonLoop c i8mm (cp v)))

/-! ### Expanded rows -/

/-- One row of `scalar_expand_codes`, in the padded width. -/
def expandRow (t : DotTarget) (row : Bytes) : Bytes := fun d =>
  match t with
  | .neon _ =>
    let d16i := c.dim.toNat / 16 * 16
    let rem := c.dim.toNat - d16i
    if d < d16i then neonLevels c (neonRowNibbles row (d / 16 * 16)) (d % 16)
    else vandq (neonLevels c (neonRowNibblesTail row d16i rem)) (neonTailMask rem) (d - d16i)
  | _ => if d < c.dim.toNat then c.level (nibbleAt row d) else 0

/-- `scalar_expand_codes`: the buffer `out` after it. -/
def scalarExpandCodes (t : DotTarget) (codes : Bytes) (count : ℕ) (out : Bytes) : Bytes := fun p =>
  if p < count * c.padded then expandRow c t (load codes (p / c.padded * c.cs)) (p % c.padded)
  else out p

/-- The accumulator of one expanded row against one operand. -/
def neonLoopExpanded (i8mm : Bool) (row : Bytes) (a : Signed) : Lanes :=
  (List.range (c.padded / 16)).foldl (fun acc i =>
    neonChunk c i8mm acc (load row (16 * i)) (loadSigned a (16 * i))) zeroLanes

/-- The loop of the portable twin over one operand. -/
def expandedSum (row : Bytes) (a : Signed) : ℤ :=
  (List.range c.dim.toNat).foldl (fun acc d => acc + (a d).toInt * ((row d).toNat : ℤ)) 0

/-- `scalar_i8_dots4_q4_expanded`; there is no form of its own for AVX-512. -/
def scalarI8Dots4Q4Expanded (t : DotTarget) (c4 : ℕ → ScanCtx α) (cp : Rows) (q v : ℕ) : RowDot α :=
  let cq := c4 q
  match t with
  | .neon i8mm =>
    neonI8Finish cq.lo.isSome cq.i8Inv (neonLoopExpanded (c4 0) i8mm (cp v) cq.a8)
      (cq.lo.elim zeroLanes (neonLoopExpanded (c4 0) i8mm (cp v)))
  | _ =>
    let acc := expandedSum cq (cp v) cq.a8
    let accLo := cq.lo.elim 0 (expandedSum cq (cp v))
    { acc, accLo, overflow := false, dot := epilogue cq.lo.isSome cq.i8Inv acc accLo }

/-! ### By target -/

/-- `scalar_i8_dots4`: row `v`. -/
def scalarI8Dots4 (t : DotTarget) (cp : Rows) (v : ℕ) : RowDot α :=
  match t with
  | .avx512 => scalarI8Dots4Avx512 c cp v
  | .neon i8mm => scalarI8Dots4Neon c i8mm c cp v
  | .portable => scalarI8Dots4Ref c cp v

/-- `scalar_i8_dots4_q4`: query `q`, row `v`. -/
def scalarI8Dots4Q4 (t : DotTarget) (c4 : ℕ → ScanCtx α) (cp : Rows) (q v : ℕ) : RowDot α :=
  match t with
  | .avx512 => scalarI8Dots4Q4Avx512 c4 cp q v
  | .neon i8mm => scalarI8Dots4Neon (c4 0) i8mm (c4 q) cp v
  | .portable => scalarI8Dots4Ref (c4 q) cp v

end Kernels

end SextantTree.DotKernels
