import SextantTree.Schema
import SextantTree.ByteReader

/-!
The push build: rows that a caller hands over in batches are staged in chunks, which go to a spill
file when they outgrow the budget, and are streamed back in passes.

Floats are their bit patterns. The caller's arrays are functions of the position; a pointer to values
of another type than the column's is outside of the interface and reads as no values.
-/

namespace SextantTree.PushStage

open FilterHash ByteMem

def kChunkRows : ℕ := 32768

def kDefaultStagingBytes : ℕ := 256 * 2 ^ 20

/-- `StagedChunk::Column`. -/
structure Column where
  fixed : Bytes := []
  strOffsets : List UInt32 := []
  strLengths : List UInt16 := []
  strData : Bytes := []
  setCounts : List UInt8 := []
  setOffsets : List UInt32 := []
  setElemLengths : List UInt16 := []
  setElemData : Bytes := []
  nulls : Bytes := []
deriving DecidableEq

@[ext]
structure StagedChunk where
  count : ℕ := 0
  vectors : List UInt32 := []
  rowIds : List UInt64 := []
  cols : List Column := []
  payloadData : Bytes := []
  payloadOffsets : List UInt32 := []
deriving DecidableEq

structure PushStager where
  dim : ℕ
  schema : Schema
  hasPayload : Bool
  stagingBytes : ℕ
  rows : ℕ := 0
  payloadBytes : ℕ := 0
  /-- The chunk that takes rows. -/
  current : StagedChunk
  memoryChunks : List StagedChunk := []
  spilledChunks : ℕ := 0
  /-- The spill file, once there is one. -/
  spill : Option Bytes := none

def StagedChunk.empty (s : Schema) : StagedChunk :=
  { cols := List.replicate s.columns.length {}, payloadOffsets := [0] }

def PushStager.new (dim : ℕ) (schema : Schema) (hasPayload : Bool) (stagingBytes : ℕ) :
    PushStager where
  dim := dim
  schema := schema
  hasPayload := hasPayload
  stagingBytes := if stagingBytes = 0 then kDefaultStagingBytes else stagingBytes
  current := .empty schema

/-! ### Appending a row -/

/-- What is pushed for a row in a column. -/
inductive Value
  | null
  | fixed (b : Bytes)
  | str (b : Bytes)
  | set (elems : List Bytes)
deriving DecidableEq, Repr

/-- `std::vector::resize` with zeros. -/
def resize (l : Bytes) (n : ℕ) : Bytes := l.take n ++ List.replicate (n - l.length) 0

namespace Column

/-- `append_fixed`, `append_string`, `append_set_row` and, in row `n`, `append_null`. -/
def append (c : Column) (type : ColumnType) (n : ℕ) : Value → Column
  | .fixed b => { c with fixed := c.fixed ++ b }
  | .str b =>
    { c with
      strOffsets := c.strOffsets ++ [UInt32.ofNat c.strData.length]
      strLengths := c.strLengths ++ [UInt16.ofNat b.length]
      strData := c.strData ++ b }
  | .set elems =>
    { c with
      setCounts := c.setCounts ++ [UInt8.ofNat elems.length]
      setOffsets := c.setOffsets ++ [UInt32.ofNat c.setElemLengths.length]
      setElemLengths := c.setElemLengths ++ elems.map fun b => UInt16.ofNat b.length
      setElemData := c.setElemData ++ elems.flatten }
  | .null =>
    let c := { c with nulls := resize c.nulls n ++ [1] }
    match type with
    | .string =>
      { c with
        strOffsets := c.strOffsets ++ [UInt32.ofNat c.strData.length]
        strLengths := c.strLengths ++ [0] }
    | .set =>
      { c with
        setCounts := c.setCounts ++ [0]
        setOffsets := c.setOffsets ++ [UInt32.ofNat c.setElemLengths.length] }
    | t => { c with fixed := c.fixed ++ List.replicate t.width 0 }

end Column

namespace PushStager

def appendVector (st : PushStager) (v : List UInt32) (id : UInt64) : PushStager :=
  { st with
    current :=
      { st.current with
        vectors := st.current.vectors ++ v
        rowIds := st.current.rowIds ++ [id] } }

/-- The append for column `c`. Its caller has checked a NULL against the column. -/
def appendValue (st : PushStager) (c : ℕ) (type : ColumnType) (v : Value) : PushStager :=
  { st with
    current :=
      { st.current with
        cols := st.current.cols.modify c fun col =>
          col.append type (st.current.rowIds.length - 1) v } }

def appendPayload (st : PushStager) (b : Bytes) : PushStager :=
  { st with
    current := { st.current with payloadData := st.current.payloadData ++ b }
    payloadBytes := st.payloadBytes + b.length }

end PushStager

/-! ### The spill file -/

def u16s (l : List UInt16) : Bytes := l.flatMap fun x => leBytes 2 x.toNat

def u32s (l : List UInt32) : Bytes := l.flatMap fun x => leBytes 4 x.toNat

def u64s (l : List UInt64) : Bytes := l.flatMap fun x => leBytes 8 x.toNat

def sized (b : Bytes) : Bytes := leBytes 8 b.length ++ b

def Column.blob (c : Column) : Bytes :=
  sized c.fixed ++ sized c.strData
    ++ (leBytes 8 c.strOffsets.length ++ (u32s c.strOffsets ++ u16s c.strLengths))
    ++ sized c.setElemData
    ++ (leBytes 8 c.setElemLengths.length ++ u16s c.setElemLengths)
    ++ sized c.setCounts
    ++ (leBytes 8 c.setOffsets.length ++ u32s c.setOffsets)
    ++ sized c.nulls

/-- `write_chunk`. -/
def StagedChunk.write (c : StagedChunk) (s : Schema) : Bytes :=
  leBytes 4 c.count ++ u32s c.vectors ++ u64s c.rowIds
    ++ (if s.columns.isEmpty then [] else sized (c.cols.flatMap Column.blob))
    ++ (leBytes 8 c.payloadData.length ++ u32s c.payloadOffsets ++ c.payloadData)

/-- Why a read of the spill file stops. -/
inductive Fault
  /-- `push staging: spill truncated` -/
  | truncated
  /-- A read past the end of the blob. -/
  | outOfBounds
deriving DecidableEq

open Reader

def readU16 (e : Fault) : Reader Fault UInt16 := do
  let n ← word e 2
  pure (UInt16.ofNat n)

def readU32 (e : Fault) : Reader Fault UInt32 := do
  let n ← word e 4
  pure (UInt32.ofNat n)

def readU64 (e : Fault) : Reader Fault UInt64 := do
  let n ← word e 8
  pure (UInt64.ofNat n)

def readSized (e : Fault) : Reader Fault Bytes := do
  let n ← word e 8
  take e n

/-- The column as the reader parses it from the blob. -/
def Column.read : Reader Fault Column := do
  let fixed ← readSized .outOfBounds
  let strData ← readSized .outOfBounds
  let n ← word .outOfBounds 8
  let strOffsets ← many (readU32 .outOfBounds) n
  let strLengths ← many (readU16 .outOfBounds) n
  let setElemData ← readSized .outOfBounds
  let n ← word .outOfBounds 8
  let setElemLengths ← many (readU16 .outOfBounds) n
  let setCounts ← readSized .outOfBounds
  let n ← word .outOfBounds 8
  let setOffsets ← many (readU32 .outOfBounds) n
  let nulls ← readSized .outOfBounds
  pure
    { fixed := fixed, strOffsets := strOffsets, strLengths := strLengths, strData := strData,
      setCounts := setCounts, setOffsets := setOffsets, setElemLengths := setElemLengths,
      setElemData := setElemData, nulls := nulls }

/-- The filter columns of a chunk; a pass for the vectors seeks past them. -/
def readCols (s : Schema) (vectorOnly : Bool) : Reader Fault (List Column) :=
  if s.columns.isEmpty then pure []
  else do
    let n ← word .truncated 8
    if vectorOnly then do
      skip n
      pure []
    else do
      let blob ← take .truncated n
      within (many Column.read s.columns.length) blob

def readPayload (count : ℕ) (vectorOnly : Bool) : Reader Fault (Bytes × List UInt32) := do
  let n ← word .truncated 8
  if vectorOnly then do
    skip (n + (count + 1) * 4)
    pure ([], [])
  else do
    let offsets ← many (readU32 .truncated) (count + 1)
    let data ← take .truncated n
    pure (data, offsets)

/-- `read_chunk`. -/
def StagedChunk.read (dim : ℕ) (s : Schema) (vectorOnly : Bool) : Reader Fault StagedChunk := do
  let count ← word .truncated 4
  let vectors ← many (readU32 .truncated) (count * dim)
  let rowIds ← many (readU64 .truncated) count
  let cols ← readCols s vectorOnly
  let payload ← readPayload count vectorOnly
  pure
    { count := count, vectors := vectors, rowIds := rowIds, cols := cols,
      payloadData := payload.1, payloadOffsets := payload.2 }

namespace PushStager

/-- The bytes that `maybe_spill` counts for a chunk. -/
def stagedBytes (c : StagedChunk) : ℕ :=
  c.vectors.length * 4 + c.rowIds.length * 8 + c.payloadData.length
    + (c.cols.map fun col =>
        col.fixed.length + col.strData.length + col.setElemData.length).sum

def maybeSpill (st : PushStager) : PushStager :=
  if (st.memoryChunks.map stagedBytes).sum ≤ st.stagingBytes then st
  else
    { st with
      spill := some (st.spill.getD [] ++ st.memoryChunks.flatMap fun c => c.write st.schema)
      spilledChunks := st.spilledChunks + st.memoryChunks.length
      memoryChunks := [] }

/-- The current chunk as `end_row` closes its row. -/
def closeRow (st : PushStager) : StagedChunk :=
  let n := st.current.rowIds.length
  { st.current with
    count := n
    payloadOffsets := st.current.payloadOffsets ++ [UInt32.ofNat st.current.payloadData.length]
    cols := st.schema.columns.zipWith (fun col c =>
      if col.nullable then { c with nulls := resize c.nulls n } else c) st.current.cols }

def endRow (st : PushStager) : PushStager :=
  let chunk := st.closeRow
  if kChunkRows ≤ chunk.count then
    maybeSpill
      { st with
        rows := st.rows + 1
        memoryChunks := st.memoryChunks ++ [chunk]
        current := .empty st.schema }
  else { st with rows := st.rows + 1, current := chunk }

/-- What `build_source` leaves for the passes. -/
def buildSource (st : PushStager) : PushStager :=
  if 0 < st.current.count then
    maybeSpill { st with memoryChunks := st.memoryChunks ++ [st.current], current := {} }
  else st.maybeSpill

end PushStager

/-! ### Passes -/

/-- What an entry of `filter_columns` points at. -/
inductive View
  | fixed (data : Bytes)
  | str (offsets : List UInt32) (lengths : List UInt16) (data : Bytes) (totalDataBytes : UInt32)
  | set (counts : List UInt8) (offsets : List UInt32) (elemLengths : List UInt16)
      (elemData : Bytes) (totalElements totalDataBytes : UInt32)
deriving DecidableEq

structure Chunk where
  vectors : List UInt32
  rowIds : List UInt64
  count : ℕ
  filterColumns : Option (List View) := none
  /-- For each column its NULL flags, if it has any. -/
  filterNulls : Option (List (Option Bytes)) := none
  /-- The bytes and the offsets. -/
  payload : Option (Bytes × List UInt32) := none
deriving DecidableEq

def Column.view (c : Column) : ColumnType → View
  | .string => .str c.strOffsets c.strLengths c.strData (UInt32.ofNat c.strData.length)
  | .set =>
    .set c.setCounts c.setOffsets c.setElemLengths c.setElemData
      (UInt32.ofNat c.setElemLengths.length) (UInt32.ofNat c.setElemData.length)
  | _ => .fixed c.fixed

/-- The flags of a column, when it is nullable and has one for each row. -/
def Column.flags (c : Column) (count : ℕ) (col : FilterColumn) : Option Bytes :=
  if col.nullable && c.nulls.length == count then some c.nulls else none

/-- The body of `next`. A chunk read for its vectors carries no columns. -/
def StagedChunk.deliver (c : StagedChunk) (s : Schema) (hasPayload : Bool) : Chunk :=
  let flags := s.columns.zipWith (fun col d => d.flags c.count col) c.cols
  let filters := !s.columns.isEmpty && c.cols.length == s.columns.length
  { vectors := c.vectors
    rowIds := c.rowIds
    count := c.count
    filterColumns :=
      if filters then some (s.columns.zipWith (fun col d => d.view col.type) c.cols) else none
    filterNulls := if filters && flags.any Option.isSome then some flags else none
    payload := if hasPayload then some (c.payloadData, c.payloadOffsets) else none }

/-- `StagedPushSource`: where a pass stands. -/
structure Source where
  stager : PushStager
  vectorOnly : Bool := false
  memIdx : ℕ := 0
  remainingSpill : ℕ := 0
  /-- What the read handle has before it. -/
  stream : Bytes := []

namespace Source

def reset (src : Source) : Source :=
  { src with
    memIdx := 0
    stream := src.stager.spill.getD src.stream
    remainingSpill := src.stager.spilledChunks }

def nextStaged (src : Source) : Except Fault (Option StagedChunk × Source) :=
  if 0 < src.remainingSpill then
    match StagedChunk.read src.stager.dim src.stager.schema src.vectorOnly src.stream with
    | .ok (c, rest) =>
      .ok (some c, { src with remainingSpill := src.remainingSpill - 1, stream := rest })
    | .error e => .error e
  else
    match src.stager.memoryChunks[src.memIdx]? with
    | some c => .ok (some c, { src with memIdx := src.memIdx + 1 })
    | none => .ok (none, src)

def next (src : Source) : Except Fault (Option Chunk × Source) :=
  match src.nextStaged with
  | .ok (some c, src') => .ok (some (c.deliver src.stager.schema src.stager.hasPayload), src')
  | .ok (none, src') => .ok (none, src')
  | .error e => .error e

/-- `next` until it has nothing, at most `fuel` times; `none` when that was not enough. -/
def drain : ℕ → Source → Except Fault (Option (List Chunk) × Source)
  | 0, src => .ok (none, src)
  | fuel + 1, src =>
    match src.next with
    | .ok (some c, src') =>
      match drain fuel src' with
      | .ok (some cs, src'') => .ok (some (c :: cs), src'')
      | .ok (none, src'') => .ok (none, src'')
      | .error e => .error e
    | .ok (none, src') => .ok (some [], src')
    | .error e => .error e

end Source

/-! ### The push call -/

/-- `sextant_set_values`. -/
structure SetValues where
  counts : Option (ℕ → UInt32) := none
  offsets : Option (ℕ → UInt32) := none
  elemData : Option (ℕ → ℕ → UInt8) := none
  elemLengths : Option (ℕ → UInt32) := none

/-- What an entry of `filter_values` points at. -/
inductive FilterValues
  | int32 (v : ℕ → UInt32)
  | int64 (v : ℕ → UInt64)
  | float (v : ℕ → UInt32)
  | bool (v : ℕ → UInt8)
  | str (data : Option (ℕ → ℕ → UInt8)) (lengths : Option (ℕ → UInt32))
  | set (sv : SetValues)

/-- The arguments of `sextant_build_push_validity`. -/
structure PushCall where
  vectors : Option (ℕ → UInt32)
  nRows : ℕ
  filterValues : Option (ℕ → Option FilterValues) := none
  filterNulls : Option (ℕ → Option (ℕ → UInt8)) := none
  payloadOffsets : Option (ℕ → UInt64) := none
  payloadData : ℕ → UInt8 := fun _ => 0

/-- Why the call returns `-1`. -/
inductive PushError
  | nullArgument
  | payloadOffsetsRequired
  | nullNotAllowed
  | stringTooLong
  | setCountMismatch
  | setTooLarge
  | setElementsMissing
  | setElementTooLong
  | payloadNotMonotone
  | payloadTooLarge
deriving DecidableEq, Repr

/-- The text that the call leaves for its caller. -/
def PushError.what : PushError → String
  | nullArgument => "sextant_build_push: null/zero argument"
  | payloadOffsetsRequired => "sextant_build_push: payload_offsets required (has_payload)"
  | nullNotAllowed => "sextant_build_push: NULL pushed for non-nullable column"
  | stringTooLong => "sextant_build_push: string length exceeds 65535"
  | setCountMismatch => "sextant_build_push: set count mismatches offset run"
  | setTooLarge => "sextant_build_push: set element count exceeds 255"
  | setElementsMissing => "sextant_build_push: set elements require elem_data/elem_lengths"
  | setElementTooLong => "sextant_build_push: set element length exceeds 65535"
  | payloadNotMonotone => "sextant_build_push: payload offsets not monotone"
  | payloadTooLarge => "sextant_build_push: payload blob exceeds 4GB"

/-- `n` bytes at a pointer. -/
def bytesAt (p : ℕ → UInt8) (n : ℕ) : Bytes := (List.range n).map p

namespace SetValues

/-- The run of elements of row `r`, in 32 bits. -/
def run (sv : SetValues) (r : ℕ) : UInt32 × UInt32 :=
  match sv.offsets with
  | some offsets => (offsets r, offsets (r + 1))
  | none =>
    match sv.counts with
    | some counts => (0, (List.range r).foldl (fun acc i => acc + counts i) 0)
    | none => (0, 0)

/-- The elements from position `a` on. -/
def elems (sv : SetValues) (a n : ℕ) : List Bytes :=
  (List.range n).map fun i =>
    bytesAt (sv.elemData.getD (fun _ _ => 0) (a + i)) (sv.elemLengths.getD (fun _ => 0) (a + i)).toNat

/-- The set that the call appends for row `r`. -/
def value (sv : SetValues) (r : ℕ) : Except PushError (List Bytes) :=
  let a := (sv.run r).1
  let b := (sv.run r).2
  if sv.counts.any fun counts => counts r ≠ b - a then .error .setCountMismatch
  else if 255 < b - a then .error .setTooLarge
  else if b - a ≠ 0 then
    if sv.elemData.isNone || sv.elemLengths.isNone then .error .setElementsMissing
    -- the loop runs from `begin` up to `end`, also when the difference has wrapped
    else if (List.range (b.toNat - a.toNat)).any fun i =>
        65535 < (sv.elemLengths.getD (fun _ => 0) (a.toNat + i)).toNat then
      .error .setElementTooLong
    else .ok (sv.elems a.toNat (b - a).toNat)
  else .ok []

end SetValues

namespace PushCall

def values (call : PushCall) (c : ℕ) : Option FilterValues := call.filterValues.bind (· c)

def isNull (call : PushCall) (c r : ℕ) : Bool :=
  match call.filterNulls.bind (· c) with
  | some flags => flags r ≠ 0
  | none => false

/-- What row `r` appends to column `c`, or the check it fails. -/
def value (call : PushCall) (col : FilterColumn) (c r : ℕ) : Except PushError Value :=
  if call.isNull c r then
    if col.nullable then .ok .null else .error .nullNotAllowed
  else
    match col.type, call.values c with
    | .int32, some (.int32 v) => .ok (.fixed (leBytes 4 (v r).toNat))
    | .int32, _ => .ok (.fixed (leBytes 4 0))
    | .int64, some (.int64 v) => .ok (.fixed (leBytes 8 (v r).toNat))
    | .int64, _ => .ok (.fixed (leBytes 8 0))
    | .float, some (.float v) => .ok (.fixed (leBytes 4 (v r).toNat))
    | .float, _ => .ok (.fixed (leBytes 4 0))
    | .bool, some (.bool v) => .ok (.fixed [if v r ≠ 0 then 1 else 0])
    | .bool, _ => .ok (.fixed [0])
    | .string, some (.str (some data) (some lengths)) =>
      if 65535 < lengths r then .error .stringTooLong
      else .ok (.str (bytesAt (data r) (lengths r).toNat))
    | .string, _ => .ok (.str [])
    | .set, some (.set sv) =>
      match sv.value r with
      | .ok elems => .ok (.set elems)
      | .error e => .error e
    | .set, _ => .ok (.set [])

/-- The payload of row `r`. -/
def payload (call : PushCall) (r : ℕ) : Except PushError Bytes :=
  let offsets := call.payloadOffsets.getD fun _ => 0
  let p0 := (offsets r).toNat
  let p1 := (offsets (r + 1)).toNat
  if p1 < p0 then .error .payloadNotMonotone
  else if 0xFFFFFFFF < p1 - p0 then .error .payloadTooLarge
  else .ok (bytesAt (fun i => call.payloadData (p0 + i)) (p1 - p0))

/-- The vector of row `r`. -/
def vector (call : PushCall) (dim r : ℕ) : List UInt32 :=
  (List.range dim).map fun i => (call.vectors.getD fun _ => 0) (r * dim + i)

end PushCall

structure PushBuilder where
  rows : ℕ := 0
  stager : PushStager

namespace PushBuilder

/-- The columns of a row, each checked right before it is appended. -/
def pushValues (call : PushCall) (r : ℕ) :
    List (FilterColumn × ℕ) → PushStager → PushStager × Option PushError
  | [], st => (st, none)
  | (col, c) :: rest, st =>
    match call.value col c r with
    | .ok v => pushValues call r rest (st.appendValue c col.type v)
    | .error e => (st, some e)

def pushRow (b : PushBuilder) (call : PushCall) (r : ℕ) (st : PushStager) :
    PushStager × Option PushError :=
  let st := st.appendVector (call.vector st.dim r) (UInt64.ofNat (b.rows + r))
  match pushValues call r st.schema.columns.zipIdx st with
  | (st, some e) => (st, some e)
  | (st, none) =>
    if st.hasPayload then
      match call.payload r with
      | .ok p => ((st.appendPayload p).endRow, none)
      | .error e => (st, some e)
    else (st.endRow, none)

def pushRows (b : PushBuilder) (call : PushCall) :
    List ℕ → PushStager → PushStager × Option PushError
  | [], st => (st, none)
  | r :: rs, st =>
    match b.pushRow call r st with
    | (st, some e) => (st, some e)
    | (st, none) => pushRows b call rs st

def refused (b : PushBuilder) (call : PushCall) : Option PushError :=
  if call.vectors.isNone || call.nRows == 0 then some .nullArgument
  else if b.stager.hasPayload && call.payloadOffsets.isNone then some .payloadOffsetsRequired
  else none

/-- `sextant_build_push_validity`: the builder after the call, and why it was rejected. -/
def push (b : PushBuilder) (call : PushCall) : PushBuilder × Option PushError :=
  match b.refused call with
  | some e => (b, some e)
  | none =>
    match b.pushRows call (List.range call.nRows) b.stager with
    | (st, some e) => ({ b with stager := st }, some e)
    | (st, none) => ({ b with rows := b.rows + call.nRows, stager := st }, none)

end PushBuilder

end SextantTree.PushStage
