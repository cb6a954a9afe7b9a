import SextantTree.LeafCodes

/-!
The bytes of a leaf as the four families of coders lay them out and write them: header, summary, what
a leaf keeps for itself, codes, biases, row ids and filter columns.
-/

namespace SextantTree.LeafCodes

open ByteMem

/-! ### Offsets -/

/-- `scalar_bias_bytes`: two bytes a row. -/
def scalarBiasBytes (count : ℕ) (hasIpBias : Bool) : ℕ := if hasIpBias then count * 2 else 0

/-- `scalar_rowids_offset`. -/
def scalarRowidsOffset (summarySize count codeSize : ℕ) (hasIpBias : Bool) : ℕ :=
  leafCodesOffset summarySize + count * codeSize + scalarBiasBytes count hasIpBias

/-- `lsc_levels_offset`. -/
def lscLevelsOffset (summarySize : ℕ) : ℕ := leafCodesOffset summarySize

/-- `lsc_codes_offset`: behind two half-precision numbers for each dimension. -/
def lscCodesOffset (summarySize dim : ℕ) : ℕ := leafCodesOffset summarySize + 2 * dim * 2

/-- `local_codebook_bytes`. -/
def localCodebookBytes (m4 dim bits : ℕ) : ℕ := m4 * (if bits = 4 then 16 else 256) * (dim / m4) * 4

/-- `local_centroid_bytes`. -/
def localCentroidBytes (dim : ℕ) : ℕ := dim * 4

/-- `local_centroid_offset`. -/
def localCentroidOffset (summarySize : ℕ) : ℕ := (112 + summarySize + 15) / 16 * 16

/-- `local_codebook_offset`. -/
def localCodebookOffset (summarySize dim : ℕ) : ℕ :=
  (localCentroidOffset summarySize + localCentroidBytes dim + 15) / 16 * 16

/-- `local_codes_offset`. -/
def localCodesOffset (summarySize dim m4 bits : ℕ) : ℕ :=
  (localCodebookOffset summarySize dim + localCodebookBytes m4 dim bits + 7) / 8 * 8

/-- `local_rowids_offset`. -/
def localRowidsOffset (summarySize dim m4 bits nBlocks blockBytes : ℕ) : ℕ :=
  localCodesOffset summarySize dim m4 bits + nBlocks * blockBytes

/-- `leaf_extent_bytes`; the number of blocks is computed in 64 bits, then kept in 32. -/
def leafExtentBytes (count m4 bits summarySize filterColsBytes : ℕ) : ℕ :=
  leafCodesOffset summarySize +
    (count + codesPerBlock bits - 1) / codesPerBlock bits % 2 ^ 32 * (m4 * 16) + count * 8 +
    filterColsBytes

/-- `local_coded_extent_bytes`. -/
def localCodedExtentBytes (count dim m4 bits summarySize filterColsBytes : ℕ) : ℕ :=
  localCodesOffset summarySize dim m4 bits +
    (count + codesPerBlock bits - 1) / codesPerBlock bits % 2 ^ 32 * (m4 * 16) + count * 8 +
    filterColsBytes

/-! ### Families -/

/-- The families of coders with what their layout depends on. -/
inductive Family where
  | globalPq (m4 bits : ℕ)
  | localPq (dim m4 bits : ℕ)
  | scalarLm (codeSize : ℕ) (hasIpBias : Bool)
  | localScalar (dim : ℕ) (hasIpBias : Bool)
deriving DecidableEq

/-- `LeafGeometry`. -/
structure LeafGeometry where
  codesOffset : ℕ
  rowidsOffset : ℕ
  filterOffset : ℕ
  extentBytes : ℕ
deriving DecidableEq

/-- The bytes of a code of `LocalScalarCoder`. -/
def lscCodeSize (dim : ℕ) : ℕ := (dim + 1) / 2

/-- `geometry`, from the number of rows and the summary size in the header. -/
def Family.geometry (summarySize count : ℕ) : Family → LeafGeometry
  | .globalPq m4 bits =>
    let nBlocks := (count + codesPerBlock bits - 1) / codesPerBlock bits
    let rowids := leafRowidsOffset summarySize nBlocks (m4 * 16)
    ⟨leafCodesOffset summarySize, rowids, rowids + count * 8,
      leafExtentBytes count m4 bits summarySize 0⟩
  | .localPq dim m4 bits =>
    let nBlocks := (count + codesPerBlock bits - 1) / codesPerBlock bits
    let rowids := localRowidsOffset summarySize dim m4 bits nBlocks (m4 * 16)
    ⟨localCodesOffset summarySize dim m4 bits, rowids, rowids + count * 8,
      localCodedExtentBytes count dim m4 bits summarySize 0⟩
  | .scalarLm cs hasIpBias =>
    let rowids := scalarRowidsOffset summarySize count cs hasIpBias
    ⟨leafCodesOffset summarySize, rowids, rowids + count * 8, rowids + count * 8⟩
  | .localScalar dim hasIpBias =>
    let codes := lscCodesOffset summarySize dim
    let rowids := codes + count * lscCodeSize dim + scalarBiasBytes count hasIpBias
    ⟨codes, rowids, rowids + count * 8, rowids + count * 8⟩

/-- `extent_bytes`. -/
def Family.extentBytes (count summarySize filterColsBytes : ℕ) : Family → ℕ
  | .globalPq m4 bits => leafExtentBytes count m4 bits summarySize filterColsBytes
  | .localPq dim m4 bits => localCodedExtentBytes count dim m4 bits summarySize filterColsBytes
  | .scalarLm cs hasIpBias =>
    leafCodesOffset summarySize + count * cs + scalarBiasBytes count hasIpBias + count * 8 +
      filterColsBytes
  | .localScalar dim hasIpBias =>
    lscCodesOffset summarySize dim + count * lscCodeSize dim + scalarBiasBytes count hasIpBias +
      count * 8 + filterColsBytes

/-! ### Global product quantization -/

/-- `GlobalPqCoder::flush_leaf`, with the offset it returns. -/
def globalFlush (m4 bits summarySize count : ℕ) (codes m : Mem) : Mem × ℕ :=
  (flushCodes codes (leafCodesOffset summarySize) count m4 bits m,
    leafRowidsOffset summarySize (blockCount bits count) (m4 * 16))

/-- `GlobalPqCoder::encode_group`. -/
def globalGroup (m4 bits summarySize count : ℕ) (codes rowIds m : Mem) : Mem :=
  poke (groupCodes codes (leafCodesOffset summarySize) count m4 bits m)
    (leafRowidsOffset summarySize (blockCount bits count) (m4 * 16)) (peek rowIds 0 (count * 8))

/-- `GlobalPqCoder::append_encode`. -/
def globalAppend (m4 bits summarySize oldCount n : ℕ) (old : Mem) (new : ℕ → Mem) (m : Mem) : Mem :=
  appendCodes old oldCount (leafCodesOffset summarySize) m4 bits n new m

/-- `GlobalPqCoder::compact`. -/
def globalCompact (m4 bits summarySize : ℕ) (old : Mem) (keep : List ℕ) (m : Mem) : Mem :=
  compactCodes old (leafCodesOffset summarySize) m4 bits keep m

/-! ### Product quantization of a leaf -/

/-- The header fields, the centroid and the codebook, as `flush_leaf` and `encode_group` write
them. -/
def localState (dim m4 bits summarySize : ℕ) (centroid codebook m : Mem) : Mem :=
  let m := poke m 88 [2]
  let m := poke m 92 (leBytes 4 (localCentroidOffset summarySize))
  let m := poke m 96 (leBytes 4 (localCodebookOffset summarySize dim))
  let m := poke m (localCentroidOffset summarySize) (peek centroid 0 (dim * 4))
  poke m (localCodebookOffset summarySize dim) (peek codebook 0 (m4 * 2 ^ bits * (dim / m4) * 4))

/-- `LocalPqCoder::flush_leaf`, with the offset it returns. -/
def localFlush (dim m4 bits summarySize count : ℕ) (centroid codebook codes m : Mem) : Mem × ℕ :=
  (flushCodes codes (localCodesOffset summarySize dim m4 bits) count m4 bits
    (localState dim m4 bits summarySize centroid codebook m),
    localRowidsOffset summarySize dim m4 bits (blockCount bits count) (m4 * 16))

/-- `LocalPqCoder::encode_group`. -/
def localGroup (dim m4 bits summarySize count : ℕ) (centroid codebook codes rowIds m : Mem) : Mem :=
  poke (flushCodes codes (localCodesOffset summarySize dim m4 bits) count m4 bits
    (localState dim m4 bits summarySize centroid codebook m))
    (localRowidsOffset summarySize dim m4 bits (blockCount bits count) (m4 * 16))
    (peek rowIds 0 (count * 8))

/-- `LocalPqCoder::append_encode`: centroid and codebook are copied as one. -/
def localAppend (dim m4 bits summarySize oldCount n : ℕ) (old : Mem) (new : ℕ → Mem) (m : Mem) :
    Mem :=
  let codesOff := localCodesOffset summarySize dim m4 bits
  let centroidOff := localCentroidOffset summarySize
  appendCodes old oldCount codesOff m4 bits n new
    (poke m centroidOff (peek old centroidOff (codesOff - centroidOff)))

/-! ### Scalar quantization -/

/-- Biases behind the codes, if the coder has them and the caller gives them. -/
def putBiases (hasIpBias : Bool) (pos count : ℕ) (biases : Option Mem) (m : Mem) : Mem :=
  match biases with
  | some b => if hasIpBias then poke m pos (peek b 0 (count * 2)) else m
  | none => m

/-- `ScalarLmCoder::flush_leaf`, with the offset it returns. -/
def slmFlush (cs : ℕ) (hasIpBias : Bool) (summarySize count : ℕ) (codes : Mem) (biases : Option Mem)
    (m : Mem) : Mem × ℕ :=
  let base := leafCodesOffset summarySize
  let m := poke m base (peek codes 0 (count * cs))
  (putBiases hasIpBias (base + count * cs) count biases m,
    scalarRowidsOffset summarySize count cs hasIpBias)

/-- `ScalarLmCoder::encode_group`. -/
def slmGroup (cs : ℕ) (hasIpBias : Bool) (summarySize count : ℕ) (codes : Mem) (biases : Option Mem)
    (rowIds m : Mem) : Mem :=
  let base := leafCodesOffset summarySize
  let m := poke m base (peek codes 0 (count * cs))
  let m := putBiases hasIpBias (base + count * cs) count biases m
  poke m (scalarRowidsOffset summarySize count cs hasIpBias) (peek rowIds 0 (count * 8))

/-- The copies of the old codes and biases that `append_encode` starts with. -/
def copyRows (cs : ℕ) (hasIpBias : Bool) (base oldCount newCount : ℕ) (old m : Mem) : Mem :=
  let m := poke m base (peek old base (oldCount * cs))
  if hasIpBias then
    poke m (base + newCount * cs) (peek old (base + oldCount * cs) (oldCount * 2))
  else m

/-- `ScalarLmCoder::append_encode`; row numbers have 32 bits. -/
def slmAppend (cs : ℕ) (hasIpBias : Bool) (summarySize oldCount newCount n : ℕ) (old : Mem)
    (code bias : ℕ → Mem) (m : Mem) : Mem :=
  let base := leafCodesOffset summarySize
  (List.range n).foldl (fun m ai =>
    let gi := (oldCount + ai) % 2 ^ 32
    let m := poke m (base + gi * cs) (peek (code ai) 0 cs)
    if hasIpBias then poke m (base + newCount * cs + gi * 2) (peek (bias ai) 0 2) else m)
    (copyRows cs hasIpBias base oldCount newCount old m)

/-! ### Scalar quantization of a leaf -/

/-- The codes of `LocalScalarCoder::encode_one`, put into place half byte by half byte. -/
def encodeOne (dim : ℕ) (level : ℕ → UInt8) (out : ℕ) (m : Mem) : Mem :=
  (List.range dim).foldl (fun m d => putNibble out m d (level d &&& 0x0F)) m

def putLevels (dim summarySize : ℕ) (lo steps m : Mem) : Mem :=
  let m := poke m (lscLevelsOffset summarySize) (peek lo 0 (dim * 2))
  poke m (lscLevelsOffset summarySize + dim * 2) (peek steps 0 (dim * 2))

/-- `LocalScalarCoder::flush_leaf`, with the offset it returns: the codes are made in a cleared
buffer. -/
def lscFlush (dim : ℕ) (hasIpBias : Bool) (summarySize count : ℕ) (lo steps : Mem)
    (level : ℕ → ℕ → UInt8) (biases m : Mem) : Mem × ℕ :=
  let cs := lscCodeSize dim
  let codes := (List.range count).foldl (fun b i => encodeOne dim (level i) (i * cs) b) fun _ => 0
  let m := putLevels dim summarySize lo steps (poke m 88 [3])
  let m := poke m (lscCodesOffset summarySize dim) (peek codes 0 (count * cs))
  (putBiases hasIpBias (lscCodesOffset summarySize dim + count * cs) count (some biases) m,
    lscCodesOffset summarySize dim + count * cs + scalarBiasBytes count hasIpBias)

/-- `LocalScalarCoder::encode_group`. -/
def lscGroup (dim : ℕ) (hasIpBias : Bool) (summarySize count : ℕ) (lo steps : Mem)
    (level : ℕ → ℕ → UInt8) (biases : Option Mem) (rowIds m : Mem) : Mem :=
  let cs := lscCodeSize dim
  let base := lscCodesOffset summarySize dim
  let m := (List.range count).foldl (fun m i => encodeOne dim (level i) (base + i * cs) m) m
  let m := putBiases hasIpBias (base + count * cs) count biases m
  let m := poke m (base + count * cs + scalarBiasBytes count hasIpBias) (peek rowIds 0 (count * 8))
  putLevels dim summarySize lo steps (poke m 88 [3])

/-- `LocalScalarCoder::append_encode`; row numbers have 32 bits. -/
def lscAppend (dim : ℕ) (hasIpBias : Bool) (summarySize oldCount newCount n : ℕ) (old : Mem)
    (level : ℕ → ℕ → UInt8) (bias : ℕ → Mem) (m : Mem) : Mem :=
  let cs := lscCodeSize dim
  let base := lscCodesOffset summarySize dim
  let levels := lscLevelsOffset summarySize
  let m := poke m levels (peek old levels (base - levels))
  (List.range n).foldl (fun m ai =>
    let gi := (oldCount + ai) % 2 ^ 32
    let m := encodeOne dim (level ai) (base + gi * cs) m
    if hasIpBias then poke m (base + newCount * cs + gi * 2) (peek (bias ai) 0 2) else m)
    (copyRows cs hasIpBias base oldCount newCount old m)

end SextantTree.LeafCodes
