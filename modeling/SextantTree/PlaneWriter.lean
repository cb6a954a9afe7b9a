import SextantTree.ByteReader
import SextantTree.Plane
import SextantTree.Slice

/-!
`PlaneWriter`: the ways in which the routing plane of an index is put together. Members are encoded
under their leaf, or under their cluster until the leaf of the cluster is flushed; a flushed leaf
is kept in memory, appended to a spill file, or detached for the extent of the leaf. `finalize`
lays out the blob from what was kept, or replays the spill file into it.

Leaf ids, slots and counts are `uint32_t`; what the source computes in 32 bits wraps here.
-/

namespace SextantTree.Plane

open ByteMem

/-- What training leaves; the arrays of floats are the bytes stored for them. -/
structure Trained where
  pm : PlaneMeta
  dim : ℕ
  codec : Codec
  /-- `basis_t_`. -/
  basis : List UInt8
  mean : List UInt8
  codebook : List UInt8
  dim_lt : dim < 2 ^ 32
  basis_length : basis.length = dim * pm.rank * 4
  mean_length : mean.length = dim * 4
  codebook_length : codebook.length = (if pm.encoding = .b1g then pm.rank else pm.rank * 16) * 4

/-- The spill file, the bytes that wait for the next write to it, and the records so far. -/
structure Spill where
  wbuf : List UInt8 := []
  file : List UInt8 := []
  nRecs : ℕ := 0

structure PlaneWriter where
  leaves : List LeafState := []
  stage : List LeafState := []
  spill : Option Spill := none

inductive WriterError where
  | what (msg : String)
  /-- A copy leaves the blob. -/
  | outside
deriving DecidableEq

variable (T : Trained)

/-- A write into a leaf of the table, or into a stage. -/
abbrev SlotWrite := ℕ × Proj

/-- The states up to `n`, new ones empty. -/
def growTo (ls : List LeafState) (n : ℕ) : List LeafState :=
  ls ++ List.replicate (n - ls.length) .empty

/-- `prepare`. -/
def prepare (n : ℕ) (w : PlaneWriter) : PlaneWriter :=
  { w with leaves := (growTo w.leaves n).take n }

/-- `encode_from_proj`. -/
def encodeFromProj (w : PlaneWriter) (leaf : ℕ) (x : SlotWrite) : PlaneWriter :=
  { w with leaves := (growTo w.leaves (leaf + 1)).modify leaf (encodeInto T.codec T.pm · x) }

/-- `encode_staged`. -/
def encodeStaged (w : PlaneWriter) (cluster : ℕ) (x : SlotWrite) : PlaneWriter :=
  { w with stage := (growTo w.stage (cluster + 1)).modify cluster (encodeInto T.codec T.pm · x) }

/-! ### The spill file -/

/-- The size of `spill_wbuf_`. -/
def kSpillBuf : ℕ := 2 ^ 20

/-- `spill_flush`. -/
def Spill.flush (sp : Spill) : Spill := { sp with wbuf := [], file := sp.file ++ sp.wbuf }

def Spill.makeRoom (sp : Spill) : Spill := if kSpillBuf ≤ sp.wbuf.length then sp.flush else sp

lemma Spill.length_makeRoom (sp : Spill) : sp.makeRoom.wbuf.length < kSpillBuf := by
  unfold Spill.makeRoom
  split
  · simp [Spill.flush, kSpillBuf]
  · omega

/-- `spill_put`: as many bytes as there is room for, then the rest. -/
def Spill.put (sp : Spill) : List UInt8 → Spill
  | [] => sp
  | x :: b =>
    let room := kSpillBuf - sp.makeRoom.wbuf.length
    put { sp.makeRoom with wbuf := sp.makeRoom.wbuf ++ (x :: b).take room } ((x :: b).drop room)
termination_by b => b.length
decreasing_by
  have hroom := sp.length_makeRoom
  rw [List.length_drop, List.length_cons]
  omega

def LeafState.blockBytes (ls : LeafState) : List UInt8 := peek ls.blocks 0 (ls.nBlocks * T.pm.blockBytes)

def spillRecord (leaf : ℕ) (ls : LeafState) : List (List UInt8) :=
  [leBytes 4 leaf, leBytes 4 ls.nBlocks, leBytes 4 ls.nAlphas, ls.blockBytes T,
    leafAlphas ls ls.nAlphas]

/-- `transfer_leaf`. Without a spill file the stage of the cluster and the leaf change places. -/
def transferLeaf (w : PlaneWriter) (cluster leaf : ℕ) : Except WriterError PlaneWriter :=
  match w.spill with
  | some sp =>
    match w.stage[cluster]? with
    | none => .error (.what "plane: spill transfer of unstaged cluster")
    | some ls =>
      let sp := (spillRecord T leaf ls).foldl Spill.put sp
      .ok { w with
        stage := w.stage.set cluster .empty
        spill := some { sp with nRecs := sp.nRecs + 1 } }
  | none =>
    let leaves := growTo w.leaves (leaf + 1)
    match w.stage[cluster]? with
    | none => .ok { w with leaves }
    | some ls =>
      .ok { w with
        leaves := leaves.set leaf ls
        stage := w.stage.set cluster (leaves.getD leaf .empty) }

/-! ### The blob -/

def blocks32 (count : ℕ) : ℕ := (count + kVecsPerBlock - 1) % 2 ^ 32 / kVecsPerBlock

def kPlaneMagic : ℕ := 0x314C5053
def kPlaneVersion : ℕ := 1
def kFlagAlpha : ℕ := 1

/-- `sizeof(PlaneHeaderDisk)`. -/
def kPlaneHeader : ℕ := 128

def PlaneEncoding.code : PlaneEncoding → ℕ
  | .u4lm => 1
  | .b1g => 2
  | .u4lmPv => 3

/-- `PlaneHeaderDisk`, without what is fixed. -/
structure PlaneHeader where
  encoding : ℕ
  flags : ℕ
  rank : ℕ
  dim : ℕ
  basisOff : ℕ
  basisBytes : ℕ
  meanOff : ℕ
  meanBytes : ℕ
  codebookOff : ℕ
  codebookBytes : ℕ
  alphaOff : ℕ
  alphaBytes : ℕ
  blocksOff : ℕ
  blocksBytes : ℕ
  nBlocks : ℕ

def PlaneHeader.bytes (h : PlaneHeader) : List UInt8 :=
  leBytes 4 kPlaneMagic ++ leBytes 4 kPlaneVersion ++ leBytes 1 h.encoding ++ leBytes 1 h.flags ++
    leBytes 2 h.rank ++ leBytes 4 h.dim ++ leBytes 8 h.basisOff ++ leBytes 8 h.basisBytes ++
    leBytes 8 h.meanOff ++ leBytes 8 h.meanBytes ++ leBytes 8 h.codebookOff ++
    leBytes 8 h.codebookBytes ++ leBytes 8 h.alphaOff ++ leBytes 8 h.alphaBytes ++
    leBytes 8 h.blocksOff ++ leBytes 8 h.blocksBytes ++ leBytes 8 h.nBlocks ++
    List.replicate 24 0

def alphaBytesOf (counts : List ℕ) : ℕ := if T.pm.pv then (counts.map (· * 2)).sum else 0

def nBlocksOf (counts : List ℕ) : ℕ := (counts.map blocks32).sum

/-- The header of a blob with the blocks of these leaves in it. -/
def blobHeader (counts : List ℕ) : PlaneHeader :=
  let basisBytes := T.dim * T.pm.rank * 4
  let meanBytes := T.dim * 4
  let cbBytes := T.codebook.length
  { encoding := T.pm.encoding.code
    flags := if T.pm.pv then kFlagAlpha else 0
    rank := T.pm.rank
    dim := T.dim
    basisOff := kPlaneHeader
    basisBytes := basisBytes
    meanOff := kPlaneHeader + basisBytes
    meanBytes := meanBytes
    codebookOff := kPlaneHeader + basisBytes + meanBytes
    codebookBytes := cbBytes
    alphaOff := kPlaneHeader + basisBytes + meanBytes + cbBytes
    alphaBytes := alphaBytesOf T counts
    blocksOff := kPlaneHeader + basisBytes + meanBytes + cbBytes + alphaBytesOf T counts
    blocksBytes := nBlocksOf counts * T.pm.blockBytes
    nBlocks := nBlocksOf counts }

/-- The header, the basis, the mean and the codebook. -/
def blobFront (counts : List ℕ) : List UInt8 :=
  (blobHeader T counts).bytes ++ T.basis ++ T.mean ++ T.codebook

/-- The blocks of a kept leaf; they stay zero when it has too few. -/
def keptBlocks (ls : LeafState) (count : ℕ) : List UInt8 :=
  if blocks32 count ≤ ls.nBlocks then peek ls.blocks 0 (blocks32 count * T.pm.blockBytes)
  else List.replicate (blocks32 count * T.pm.blockBytes) 0

/-- The loop over the kept leaves: their factors and their blocks. -/
def keptLeaves : List (LeafState × ℕ) → Except WriterError (List UInt8 × List UInt8)
  | [] => .ok ([], [])
  | (ls, count) :: rest =>
    if T.pm.pv ∧ ls.nAlphas < count then
      .error (.what "plane: alphas shorter than leaf count")
    else
      match keptLeaves rest with
      | .ok (alphas, blocks) =>
        .ok ((if T.pm.pv then leafAlphas ls count else []) ++ alphas,
          keptBlocks T ls count ++ blocks)
      | .error e => .error e

/-- A `memcpy` into the blob. -/
def copyInto (blob : List UInt8) (off : ℕ) (b : List UInt8) : Except WriterError (List UInt8) :=
  if off + b.length ≤ blob.length then .ok (Slice.overwrite 0 blob off b) else .error .outside

/-- `blocks_prefix`: the run of a leaf is counted in 32 bits. -/
def blocksPrefix (counts : List ℕ) (l : ℕ) : ℕ :=
  ((counts.take l).map fun c => blocks32 c * T.pm.blockBytes % 2 ^ 32).sum

/-- `alpha_prefix`. -/
def alphaPrefix (counts : List ℕ) (l : ℕ) : ℕ := alphaBytesOf T (counts.take l)

def shortRead : WriterError := .what "plane: short spill read at offset"

def fail {α : Type} (msg : String) : Reader WriterError α := fun _ => .error (.what msg)

def liftCopy {α : Type} (x : Except WriterError α) : Reader WriterError α := fun s =>
  match x with
  | .ok a => .ok (a, s)
  | .error e => .error e

/-- One turn of the replay: the record of leaf `expected` goes to its places in the blob. -/
def replayRecord (counts : List ℕ) (blocksOff alphaOff expected : ℕ) (blob : List UInt8) :
    Reader WriterError (List UInt8) := do
  let leaf ← Reader.word shortRead 4
  let nBlocks ← Reader.word shortRead 4
  let nAlphas ← Reader.word shortRead 4
  if leaf ≠ expected then fail "plane: spill records out of leaf order"
  else
    match counts[leaf]? with
    | none => fail "plane: spill leaf beyond leaf_counts"
    | some count =>
      if nBlocks < blocks32 count ∨ ¬ T.pm.pv ∧ nAlphas ≠ 0 ∨ T.pm.pv ∧ nAlphas < count then
        fail "plane: spill record shorter than leaf count"
      else do
        let rec_ ← Reader.take shortRead (nBlocks * T.pm.blockBytes + nAlphas * 2)
        let bb := nBlocks * T.pm.blockBytes
        let blob ← liftCopy (copyInto blob (blocksOff + blocksPrefix T counts leaf) (rec_.take bb))
        if T.pm.pv then
          liftCopy (copyInto blob (alphaOff + alphaPrefix T counts leaf)
            ((rec_.drop bb).take (count * 2)))
        else pure blob

/-- `finalize_from_spill`. -/
def replay (counts : List ℕ) (blocksOff alphaOff : ℕ) : (n expected : ℕ) → (blob : List UInt8) →
    Reader WriterError (List UInt8)
  | 0, expected, blob =>
    if expected ≠ counts.length then fail "plane: spill holds fewer leaves than leaf_counts"
    else pure blob
  | n + 1, expected, blob => do
    let blob ← replayRecord T counts blocksOff alphaOff expected blob
    replay counts blocksOff alphaOff n (expected + 1) blob

/-- `finalize`. -/
def finalizeBlob (w : PlaneWriter) (counts : List ℕ) : Except WriterError (List UInt8) :=
  let h := blobHeader T counts
  match w.spill with
  | none =>
    if w.leaves.length ≠ counts.length then .error (.what "plane: leaf_counts != prepared leaves")
    else
      match keptLeaves T (w.leaves.zip counts) with
      | .ok (alphas, blocks) => .ok (blobFront T counts ++ (alphas ++ blocks))
      | .error e => .error e
  | some sp =>
    let blob := blobFront T counts ++ List.replicate (h.alphaBytes + h.blocksBytes) 0
    match replay T counts h.blocksOff h.alphaOff sp.nRecs 0 blob sp.flush.file with
    | .ok (blob, _) => .ok blob
    | .error e => .error e

/-- `detach_leaf_blocks`: the staged rows of a leaf, and the writer with the stage reset. -/
def detachLeaf (w : PlaneWriter) (cluster count : ℕ) :
    Except WriterError (List UInt8 × PlaneWriter) :=
  match w.stage[cluster]? with
  | none => .error (.what "plane: detach of unstaged cluster")
  | some ls =>
    let nb := blocks32 count
    if ls.nBlocks * T.pm.blockBytes < nb * T.pm.blockBytes then
      .error (.what "plane: staging shorter than leaf count")
    else if T.pm.pv ∧ ls.nAlphas < count then
      .error (.what "plane: staging alphas shorter than leaf count")
    else
      .ok (peek ls.blocks 0 (nb * T.pm.blockBytes) ++
          (if T.pm.pv then leafAlphas ls count else []),
        { w with stage := w.stage.set cluster .empty })

/-! ### Runs -/

/-- A call during the emission pass. -/
inductive PlaneEvent where
  | encode (cluster : ℕ) (x : SlotWrite)
  /-- The buffer of a cluster becomes a leaf. -/
  | flush (cluster leaf : ℕ)

/-- The calls with `transfer_leaf` at every flush. -/
def transferRun (w : PlaneWriter) : List PlaneEvent → Except WriterError PlaneWriter
  | [] => .ok w
  | .encode cluster x :: es => transferRun (encodeStaged T w cluster x) es
  | .flush cluster leaf :: es =>
    match transferLeaf T w cluster leaf with
    | .ok w => transferRun w es
    | .error e => .error e

/-- The calls with `detach_leaf_blocks` at every flush: the rows of the leaves. -/
def detachRun (counts : List ℕ) (w : PlaneWriter) : List PlaneEvent → Except WriterError (List (List UInt8))
  | [] => .ok []
  | .encode cluster x :: es => detachRun counts (encodeStaged T w cluster x) es
  | .flush cluster leaf :: es =>
    match detachLeaf T w cluster (counts.getD leaf 0) with
    | .ok (rows, w) =>
      match detachRun counts w es with
      | .ok more => .ok (rows :: more)
      | .error e => .error e
    | .error e => .error e

/-- `encode_from_proj` for some members of some leaves. -/
def directRun (w : PlaneWriter) (writes : List (ℕ × SlotWrite)) : PlaneWriter :=
  writes.foldl (fun w x => encodeFromProj T w x.1 x.2) w

end SextantTree.Plane
