import SextantTree.ColumnBytes
import SextantTree.ByteReader

/-!
Staged records of the emission pass (`cluster_stage.hpp`): a row is serialized with the sections
its flags name, handed to the stage with a 32-bit length, and parsed again when its leaf is
flushed; the cells of its filter section go to the ends of the columns of the leaf.

A reader stands at `p` with the bytes up to `end` before it. The checks of the parser are steps
of their own: a read that no check covers would leave the record, and is `Fault.outside`. The
length of a record is a `uint32_t`, so `end - p` is not cut by the casts in the checks.
-/

namespace SextantTree.Staged

open ByteMem FilterHash ColumnBytes

/-! ### The row -/

/-- A leaf keeps the codes of its rows, or their vectors for a codebook of its own. -/
inductive VectorPart where
  | code (b : Bytes)
  | fp16 (v : List UInt16)

structure Row where
  rowId : UInt64
  vector : VectorPart
  ipBias : Option UInt16
  payload : Option Bytes
  /-- `chunk_has_filter`: the columns come with the chunk, else from the configuration. -/
  chunkHasFilter : Bool
  localIdx : ℕ
  /-- The columns of the chunk, or those of the configuration. -/
  cols : List ColumnData

def Row.place (row : Row) : ℕ := if row.chunkHasFilter then row.localIdx else row.rowId.toNat

/-- Where the serializer looks: row ids are cut to 32 bits. -/
def Row.index (row : Row) : ℕ :=
  if row.chunkHasFilter then row.localIdx else row.rowId.toNat % 2 ^ 32

/-! ### Serializing -/

/-- The elements `k`, `k + 1`, … of a set column, from `byteOff` on in its data. -/
def serializeElems (d : ColumnData) : (n k byteOff : ℕ) → Bytes
  | 0, _, _ => []
  | n + 1, k, byteOff =>
    let elen := d.elemLen k
    leBytes 2 elen ++ ((d.setElemData.drop byteOff).take elen ++
      serializeElems d n ((k + 1) % 2 ^ 32) ((byteOff + elen) % 2 ^ 32))

def serializeValue (type : ColumnType) (d : ColumnData) (i : ℕ) : Bytes :=
  match type with
  | .string => leBytes 2 (d.strLen i) ++ d.str i
  | .set =>
    [UInt8.ofNat (d.setCount i)] ++
      serializeElems d (d.setCount i) (d.setOff i) (d.elemStart (d.setOff i) % 2 ^ 32)
  | t => (d.fixedData.drop (i * t.width)).take t.width

/-- One turn of `serialize_filter_row`: a flag for a nullable column, then the value. -/
def serializeCell (col : FilterColumn) (d : ColumnData) (i : ℕ) : Bytes :=
  let isNull := d.isNull col i
  (if col.nullable then [if isNull then 1 else 0] else []) ++
    if isNull then [] else serializeValue col.type d i

/-- `serialize_filter_row`. -/
def serializeFilterRow (s : Schema) (row : Row) : Bytes :=
  (s.columns.zip row.cols).flatMap fun x => serializeCell x.1 x.2 row.index

def kStagedHasCode : ℕ := 1
def kStagedHasFp16 : ℕ := 2
def kStagedHasIpBias : ℕ := 4
def kStagedHasPayload : ℕ := 8
def kStagedHasFilter : ℕ := 16

/-- The sections of a record: `has_filter` is that the schema has columns. -/
def flags (s : Schema) (row : Row) : ℕ :=
  (match row.vector with
    | .code _ => kStagedHasCode
    | .fp16 _ => kStagedHasFp16) |||
  (if row.ipBias.isSome then kStagedHasIpBias else 0) |||
  (if s.columns.isEmpty then 0 else kStagedHasFilter) |||
  (if row.payload.isSome then kStagedHasPayload else 0)

def sized (b : Bytes) : Bytes := leBytes 4 b.length ++ b

def VectorPart.bytes : VectorPart → Bytes
  | .code b => b
  | .fp16 v => v.flatMap fun h => leBytes 2 h.toNat

def record (s : Schema) (row : Row) : Bytes :=
  leBytes 8 row.rowId.toNat ++ leBytes 2 (flags s row) ++ sized row.vector.bytes ++
    (row.ipBias.map fun h => leBytes 2 h.toNat).getD [] ++
    (if s.columns.isEmpty then [] else sized (serializeFilterRow s row)) ++
    row.payload.getD []

/-- What the stage gets: as many bytes as the 32-bit length says. -/
def staged (s : Schema) (row : Row) : Bytes :=
  (record s row).take ((record s row).length % 2 ^ 32)

/-! ### Parsing -/

inductive Fault where
  | rejected (err : String)
  | outside
deriving DecidableEq

def reject {α : Type} (err : String) : Reader Fault α := fun _ => .error (.rejected err)

/-- `need`, and the checks of the same shape. -/
def need (err : String) (n : ℕ) : Reader Fault Unit := fun b =>
  if b.length < n then .error (.rejected err) else .ok ((), b)

/-- Some bytes behind a check of their number. -/
def checked (err : String) (n : ℕ) : Reader Fault Bytes := do
  need err n
  Reader.take .outside n

def checkedWord (err : String) (w : ℕ) : Reader Fault ℕ := do
  need err w
  Reader.word .outside w

def atEnd (err : String) : Reader Fault Unit := fun b =>
  if b.length ≠ 0 then .error (.rejected err) else .ok ((), b)

def optional {α : Type} (on : Bool) (r : Reader Fault α) : Reader Fault (Option α) :=
  if on then do
    let a ← r
    pure (some a)
  else pure none

/-- `StagedRow`. -/
structure StagedRow where
  rowId : ℕ
  flags : ℕ
  code : Option Bytes
  fp16Vec : Option Bytes
  ipBias : Option ℕ
  filterRow : Option Bytes
  payload : Option Bytes
deriving DecidableEq

def lengthSection : Reader Fault Bytes := do
  let n ← checkedWord "record truncated" 4
  checked "record truncated" n

def fp16Section : Reader Fault Bytes := do
  let n ← checkedWord "record truncated" 4
  if n % 2 ≠ 0 then reject "fp16 vector has odd byte length"
  else checked "record truncated" n

def restOf : Reader Fault Bytes := fun b => .ok (b, [])

/-- `staged_parse`. -/
def stagedParse : Reader Fault StagedRow := do
  need "record too short for header" 10
  let rowId ← Reader.word .outside 8
  let flags ← Reader.word .outside 2
  let code ← optional (flags &&& kStagedHasCode != 0) lengthSection
  let fp16Vec ← optional (flags &&& kStagedHasFp16 != 0) fp16Section
  let ipBias ← optional (flags &&& kStagedHasIpBias != 0) (checkedWord "record truncated" 2)
  let filterRow ← optional (flags &&& kStagedHasFilter != 0) lengthSection
  let payload ← optional (flags &&& kStagedHasPayload != 0) restOf
  atEnd "record has trailing bytes"
  pure { rowId, flags, code, fp16Vec, ipBias, filterRow, payload }

/-! ### Appending a filter row -/

/-- A NULL row has a zero value, an empty string or an empty set. -/
def pushNull (d : ColumnData) : ColumnData :=
  match d.type with
  | .string =>
    { d with
      strOffsets := d.strOffsets ++ [UInt32.ofNat d.strData.length]
      strLengths := d.strLengths ++ [0] }
  | .set =>
    { d with
      setCounts := d.setCounts ++ [0]
      setOffsets := d.setOffsets ++ [UInt32.ofNat d.setElemLengths.length] }
  | t => { d with fixedData := d.fixedData ++ List.replicate t.width 0 }

/-- `n` elements go to the end of the element arrays. -/
def appendElems : (n : ℕ) → ColumnData → Reader Fault ColumnData
  | 0, d => pure d
  | n + 1, d => do
    let elen ← checkedWord "set element length truncated" 2
    let b ← checked "set element bytes truncated" elen
    appendElems n
      { d with
        setElemLengths := d.setElemLengths ++ [UInt16.ofNat elen]
        setElemData := d.setElemData ++ b }

def appendValue (d : ColumnData) : Reader Fault ColumnData :=
  match d.type with
  | .string => do
    let len ← checkedWord "string length truncated" 2
    let b ← checked "string bytes truncated" len
    pure
      { d with
        strOffsets := d.strOffsets ++ [UInt32.ofNat d.strData.length]
        strLengths := d.strLengths ++ [UInt16.ofNat len]
        strData := d.strData ++ b }
  | .set => do
    let ec ← checkedWord "set count truncated" 1
    appendElems ec
      { d with
        setCounts := d.setCounts ++ [UInt8.ofNat ec]
        setOffsets := d.setOffsets ++ [UInt32.ofNat d.setElemLengths.length] }
  | t => do
    let b ← checked "fixed-width value truncated" t.width
    pure { d with fixedData := d.fixedData ++ b }

/-- One turn of `staged_append_filter_row`. -/
def appendCell (col : FilterColumn) (d : ColumnData) : Reader Fault ColumnData :=
  if col.nullable then do
    let flag ← checkedWord "null flag truncated" 1
    if flag ≠ 0 then pure (pushNull { d with nullMask := d.nullMask ++ [1] })
    else appendValue { d with nullMask := d.nullMask ++ [0] }
  else appendValue d

def appendCells : List (FilterColumn × ColumnData) → Reader Fault (List ColumnData)
  | [] => pure []
  | (col, d) :: rest => do
    let d' ← appendCell col d
    let ds ← appendCells rest
    pure (d' :: ds)

/-- `staged_append_filter_row`: the columns of the leaf with the row. -/
def stagedAppendFilterRow (s : Schema) (dst : List ColumnData) : Reader Fault (List ColumnData) :=
  if dst.length < s.columns.length then reject "destination ColumnData smaller than schema"
  else do
    let ds ← appendCells (s.columns.zip dst)
    atEnd "filter row has trailing bytes"
    pure (ds ++ dst.drop s.columns.length)

end SextantTree.Staged
