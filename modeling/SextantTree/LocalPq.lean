import SextantTree.LeafGeometry
import SextantTree.Schema

/-!
`LocalPqCoder`: leaves that keep a centroid and a codebook of their own. Floats are bit patterns; how
they are added is up to the platform.
-/

namespace SextantTree.LocalPq

open ByteMem LeafCodes

/-! ### Shapes -/

/-- `Schema::summary_size`: bloom filters for 150 values have 180 bytes. -/
def summarySize (s : Schema) : ℕ :=
  if s.columns.isEmpty then 0
  else
    let nNumeric := s.columns.countP fun col =>
      col.type == .int32 || col.type == .int64 || col.type == .float
    let nBloom := s.columns.countP fun col => col.type == .string || col.type == .set
    3 + nNumeric * (1 + 8 + 8) + nBloom * (1 + 2 + 180)

/-- The parameters of a coder, with what the constructor of its quantizers checks. -/
structure LocalPqCoder where
  dim : ℕ
  m4 : ℕ
  bits : ℕ
  schema : Schema
  innerProduct : Bool
  dim_pos : 0 < dim
  dim_lt : dim < 2 ^ 16
  m4_pos : 0 < m4
  divides : dim % m4 = 0
  bitsOk : BitsOk bits

/-- Addition of floats, of which only sums with zero are used: `0.0 + 0.0` and `1.0 + 0.0`. -/
structure FloatUnit where
  add : ℕ → ℕ → ℕ
  zero_add_zero : add 0 0 = 0
  one_add_zero : add 0x3F800000 0 = 0x3F800000

/-- Float `d` of an array at `pos`. -/
def floatAt (m : Mem) (pos d : ℕ) : ℕ := word m 4 (pos + 4 * d)

/-! ### Quantizers -/

structure PqQuantizer where
  dim : ℕ
  m : ℕ
  bits : ℕ
  codebook : List ℕ := []
deriving DecidableEq

namespace PqQuantizer

variable (q : PqQuantizer)

def K : ℕ := 2 ^ q.bits

def subDim : ℕ := q.dim / q.m

/-- `set_codebook_data`. -/
def setCodebookData (m : Mem) (pos : ℕ) : PqQuantizer :=
  { q with codebook := (List.range (q.m * q.K * q.subDim)).map (floatAt m pos) }

end PqQuantizer

/-- `read_code`. -/
def readCode (code : Mem) (bits s : ℕ) : ℕ :=
  if bits = 8 then (code s).toNat
  else if bits = 2 then (code (s / 4)).toNat / 2 ^ (2 * (s % 4)) % 4
  else (code (s / 2)).toNat / 2 ^ (s % 2 * 4) % 16

/-- `decode_code`, without a rotation. -/
def PqQuantizer.decodeCode (q : PqQuantizer) (code : Mem) : List ℕ :=
  (List.range q.m).flatMap fun s => (List.range q.subDim).map fun e =>
    q.codebook.getD (s * q.K * q.subDim + readCode code q.bits s * q.subDim + e) 0

/-! ### The coder -/

namespace LocalPqCoder

variable (c : LocalPqCoder)

def addCentroid (fl : FloatUnit) (dec : List ℕ) (leaf : Mem) : List ℕ :=
  (List.range c.dim).map fun d => fl.add (dec.getD d 0) (floatAt leaf (word leaf 4 92) d)

def codesOff (leaf : Mem) : ℕ :=
  localCodesOffset (word leaf 4 48) c.dim (word leaf 2 24) (word leaf 1 26)

/-- `LocalPqCoder::decode_one`. The code is packed with four bits a segment whatever the header
says. -/
def decodeOne (fl : FloatUnit) (leaf : Mem) (localIdx : ℕ) : List ℕ :=
  let m4 := word leaf 2 24
  let bits := word leaf 1 26
  let cpb := codesPerBlockRead bits
  let blk := c.codesOff leaf + localIdx / cpb * (m4 * 16)
  let slot := localIdx % cpb
  let code := (List.range m4).foldl (fun code sg =>
    let cid := if bits = 8 then leaf (blk + (sg * 16 + slot)) else readNibble leaf blk slot sg
    putNibble 0 code sg (cid &&& 0x0F)) fun _ => 0
  let leafQ : PqQuantizer := { dim := c.dim, m := c.m4, bits := bits }
  c.addCentroid fl ((leafQ.setCodebookData leaf (word leaf 4 96)).decodeCode code) leaf

/-- The sums of `pq4_block32`, before the vector forms cut them to 16 bits. -/
def pq4Block32 (leaf : Mem) (blk : ℕ) (lut : ℕ → ℕ) (m j : ℕ) : ℕ :=
  if j < 16 then
    ((List.range m).map fun s => lut (s * 16 + (leaf (blk + (s * 16 + j)) &&& 0x0F).toNat)).sum
  else
    ((List.range m).map fun s => lut (s * 16 + (leaf (blk + (s * 16 + (j - 16))) >>> 4).toNat)).sum

/-- The sums of `fastscan_block16`. -/
def fastscanBlock16 (leaf : Mem) (blk : ℕ) (lut : ℕ → ℕ) (m j : ℕ) : ℕ :=
  ((List.range m).map fun s => lut (s * 256 + (leaf (blk + (s * 16 + j))).toNat)).sum

/-- What `scan_leaf` scores: the slots of the valid lanes with their sums, in order. The blocks are
counted in 32 bits. -/
def scanLeaf (lut : ℕ → ℕ) (leaf : Mem) : List (ℕ × ℕ) :=
  let count := word leaf 8 8 % 2 ^ 32
  let m := word leaf 2 24
  let bits := word leaf 1 26
  let cpb := codesPerBlockRead bits
  let nBlocks := (count + cpb - 1) % 2 ^ 32 / cpb
  let tailCount := count - count / cpb * cpb
  (List.range nBlocks).flatMap fun b =>
    let blk := c.codesOff leaf + b * (m * 16)
    ((List.range cpb).filter fun j => b + 1 < nBlocks || tailCount == 0 || j < tailCount).map fun j =>
      (b * cpb + j,
        if bits = 8 then fastscanBlock16 leaf blk lut m j else pq4Block32 leaf blk lut m j)

/-! ### What a leaf stands for -/

/-- The vector of a code: the centroid plus the entries of the codebook that the code selects. -/
def vectorOf (fl : FloatUnit) (centroid codebook : Mem) (code : ℕ → UInt8) : List ℕ :=
  (List.range c.m4).flatMap fun s => (List.range (c.dim / c.m4)).map fun e =>
    fl.add (floatAt codebook 0 ((s * 2 ^ c.bits + (code s).toNat) * (c.dim / c.m4) + e))
      (floatAt centroid 0 (s * (c.dim / c.m4) + e))

def scoreOf (lut : ℕ → ℕ) (code : ℕ → UInt8) : ℕ :=
  ((List.range c.m4).map fun s => lut (s * 2 ^ c.bits + (code s).toNat)).sum

/-- The fields of the header that the callers of the writers fill in. -/
structure Header (m : Mem) (count : ℕ) : Prop where
  count : word m 8 8 = count
  m4 : word m 2 24 = c.m4
  bits : word m 1 26 = c.bits
  summarySize : word m 4 48 = summarySize c.schema

/-- The rows of the blocks that the writers fill. -/
def storedRows (count : ℕ) : ℕ := min count (blockCount c.bits count * codesPerBlock c.bits)

/-- A leaf with its number of rows and, of the first `rows`, the codes that were handed to
`write_code_to_fs_block`: flushed or encoded as a group, then appended to. An append counts the old
blocks in 32 bits, and gets a clear buffer with a copy of the header. -/
inductive LocalLeaf : Mem → (count rows : ℕ) → (stored : ℕ → ℕ → UInt8) →
    (centroid codebook : Mem) → Prop
  | flushed (centroid codebook codes m : Mem) (count : ℕ) (hcount : count < 2 ^ 32)
      (header : c.Header m count) :
      LocalLeaf (localFlush c.dim c.m4 c.bits (summarySize c.schema) count centroid codebook codes m).1
        count (c.storedRows count) (flushSegments c.bits c.m4 codes) centroid codebook
  | grouped (centroid codebook codes rowIds m : Mem) (count : ℕ) (hcount : count < 2 ^ 32)
      (header : c.Header m count) :
      LocalLeaf
        (localGroup c.dim c.m4 c.bits (summarySize c.schema) count centroid codebook codes rowIds m)
        count (c.storedRows count) (flushSegments c.bits c.m4 codes) centroid codebook
  | appended {old : Mem} {count rows : ℕ} {stored : ℕ → ℕ → UInt8} {centroid codebook : Mem}
      (hold : LocalLeaf old count rows stored centroid codebook) (n : ℕ) (new : ℕ → Mem) (m : Mem)
      (hcount : count + n < 2 ^ 32) (hfits : count + codesPerBlock c.bits - 1 < 2 ^ 32)
      (header : c.Header m (count + n)) (hcopy : ∀ p, 88 ≤ p → p < 100 → m p = old p)
      (hclear : ClearBlocks c.bits c.m4 (localCodesOffset (summarySize c.schema) c.dim c.m4 c.bits) m
        (count + n)) :
      LocalLeaf (localAppend c.dim c.m4 c.bits (summarySize c.schema) count n old new m) (count + n)
        (count + n) (fun i => if i < count then stored i
          else segmentOf c.bits (codeSize c.m4 c.bits) (new (i - count))) centroid codebook

end LocalPqCoder

end SextantTree.LocalPq
