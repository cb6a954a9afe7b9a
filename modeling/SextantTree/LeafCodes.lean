import SextantTree.PackedCells

/-!
The code region of a leaf with product-quantized codes. Codes are kept in blocks: a block has the
codes of 32 rows of 4-bit segments, or of 16 rows of 8-bit segments, sixteen bytes for each segment.
With 4 bits the first sixteen rows of a block have the low halves of these bytes and the other
sixteen the high halves.
-/

namespace SextantTree.LeafCodes

open ByteMem PackedCells

/-! ### Layout -/

/-- `leaf_codes_offset`: behind the header and the summary, on a multiple of 8. -/
def leafCodesOffset (summarySize : ℕ) : ℕ := (112 + summarySize + 7) / 8 * 8

/-- `leaf_rowids_offset`. -/
def leafRowidsOffset (summarySize nBlocks blockBytes : ℕ) : ℕ :=
  leafCodesOffset summarySize + nBlocks * blockBytes

def codeSize (m4 bits : ℕ) : ℕ := (m4 * bits + 7) / 8

/-- The rows of a block as the writers have it. -/
def codesPerBlock (bits : ℕ) : ℕ := if bits = 4 then 32 else 16

/-- The rows of a block as the readers have it. -/
def codesPerBlockRead (bits : ℕ) : ℕ := if bits = 8 then 16 else 32

/-- The blocks for `count` rows, in 32 bits. -/
def blockCount (bits count : ℕ) : ℕ := (count + codesPerBlock bits - 1) % 2 ^ 32 / codesPerBlock bits

/-! ### One code -/

/-- The part of a packed code that goes to segment `s`. -/
def segmentOf (bits codeSize : ℕ) (code : Mem) (s : ℕ) : UInt8 :=
  if bits = 4 then
    if s / 2 < codeSize then
      if s % 2 = 0 then code (s / 2) &&& 0x0F else code (s / 2) >>> 4
    else 0
  else if s < codeSize then code s else 0

/-- One round of `write_code_to_fs_block`: with 4 bits the half byte is or-ed in. -/
def writeSegment (blk j bits codeSize : ℕ) (code : Mem) (m : Mem) (s : ℕ) : Mem :=
  let v := segmentOf bits codeSize code s
  if bits = 4 then
    let p := blk + (s * 16 + j % 16)
    if 16 ≤ j then Function.update m p (m p ||| (v <<< 4)) else Function.update m p (m p ||| v)
  else Function.update m (blk + (s * 16 + j)) v

/-- `write_code_to_fs_block`: a packed code into lane `j` of the block at `blk`. -/
def writeCodeToFsBlock (m : Mem) (blk j m4 bits codeSize : ℕ) (code : Mem) : Mem :=
  (List.range m4).foldl (writeSegment blk j bits codeSize code) m

def readNibble (leaf : Mem) (blk slot s : ℕ) : UInt8 :=
  if 16 ≤ slot then leaf (blk + (s * 16 + slot % 16)) >>> 4
  else leaf (blk + (s * 16 + slot % 16)) &&& 0x0F

/-- A half byte into place `s` of a packed code at `out`. -/
def putNibble (out : ℕ) (m : Mem) (s : ℕ) (nib : UInt8) : Mem :=
  let p := out + s / 2
  Function.update m p
    (if s % 2 = 0 then (m p &&& (0xF0 : UInt8)) ||| nib else (m p &&& (0x0F : UInt8)) ||| (nib <<< 4))

/-- One round of `extract_code_from_leaf`. -/
def extractSegment (leaf : Mem) (blk slot bits out : ℕ) (m : Mem) (s : ℕ) : Mem :=
  if bits = 8 then Function.update m (out + s) (leaf (blk + (s * 16 + slot)))
  else putNibble out m s (readNibble leaf blk slot s)

/-- `extract_code_from_leaf`: the code of a row, packed, to `out`. -/
def extractCodeFromLeaf (leaf : Mem) (localIdx m4 bits base out : ℕ) (m : Mem) : Mem :=
  let cpb := codesPerBlockRead bits
  let blk := base + localIdx / cpb * (m4 * 16)
  (List.range m4).foldl (extractSegment leaf blk (localIdx % cpb) bits out) m

/-! ### The operations of the global coder -/

/-- `extract_codes`, into the buffer `codes`. -/
def extractCodes (leaf : Mem) (base count m4 bits : ℕ) (codes : Mem) : Mem :=
  (List.range count).foldl
    (fun m i => extractCodeFromLeaf leaf i m4 bits base (i * codeSize m4 bits) m) codes

/-- `memset` of `n` bytes to zero. -/
def memzero (m : Mem) (pos n : ℕ) : Mem := fun i => if pos ≤ i ∧ i < pos + n then 0 else m i

/-- One block of `flush_leaf`: cleared, then its rows; where a code starts is computed in 32 bits. -/
def flushBlock (codes : Mem) (base count m4 bits : ℕ) (m : Mem) (b : ℕ) : Mem :=
  let cpb := codesPerBlock bits
  let cs := codeSize m4 bits
  let blk := base + b * (m4 * 16)
  (List.range cpb).foldl (fun m j =>
    let gi := b * cpb + j
    if gi < count then
      writeCodeToFsBlock m blk j m4 bits cs (fun k => codes (gi * cs % 2 ^ 32 + k))
    else m) (memzero m blk (m4 * 16))

/-- The block loop of `flush_leaf`. -/
def flushCodes (codes : Mem) (base count m4 bits : ℕ) (m : Mem) : Mem :=
  (List.range (blockCount bits count)).foldl (flushBlock codes base count m4 bits) m

/-- The row loop of `encode_group`. -/
def groupCodes (codes : Mem) (base count m4 bits : ℕ) (m : Mem) : Mem :=
  let cpb := codesPerBlock bits
  let cs := codeSize m4 bits
  (List.range count).foldl (fun m i =>
    writeCodeToFsBlock m (base + i / cpb * (m4 * 16)) (i % cpb) m4 bits cs
      (fun k => codes (i * cs + k))) m

/-- The code part of `append_encode`: the old blocks, then the codes of `n` new vectors. Row numbers
have 32 bits. -/
def appendCodes (old : Mem) (oldCount base m4 bits n : ℕ) (new : ℕ → Mem) (m : Mem) : Mem :=
  let cpb := codesPerBlock bits
  let copied := poke m base (peek old base (blockCount bits oldCount * (m4 * 16)))
  (List.range n).foldl (fun m ai =>
    let gi := (oldCount + ai) % 2 ^ 32
    writeCodeToFsBlock m (base + gi / cpb * (m4 * 16)) (gi % cpb) m4 bits (codeSize m4 bits) (new ai))
    copied

/-- One segment of a row moved by `compact`. -/
def moveSegment (old : Mem) (oldBlk oldJ blk j bits : ℕ) (m : Mem) (s : ℕ) : Mem :=
  if bits = 8 then Function.update m (blk + (s * 16 + j)) (old (oldBlk + (s * 16 + oldJ)))
  else
    let nib := readNibble old oldBlk oldJ s
    let p := blk + (s * 16 + j % 16)
    if 16 ≤ j then Function.update m p (m p ||| (nib <<< 4)) else Function.update m p (m p ||| nib)

/-- `compact`: the codes of the rows in `keep`, in their order. -/
def compactCodes (old : Mem) (base m4 bits : ℕ) (keep : List ℕ) (m : Mem) : Mem :=
  let cpb := codesPerBlock bits
  (List.range keep.length).foldl (fun m i =>
    let src := keep.getD i 0
    (List.range m4).foldl (moveSegment old (base + src / cpb * (m4 * 16)) (src % cpb)
      (base + i / cpb * (m4 * 16)) (i % cpb) bits) m) m

end SextantTree.LeafCodes
