import SextantTree.ByteReader
import SextantTree.ColumnPick

/-!
`.fdat` files (`filter_data_io.cpp`): filter columns and payloads beside the vectors. A name is its
bytes. Sizes the source holds in 64 bits are plain numbers; what it counts in 32 bits wraps. The part
of the stream a read does not find is zero, as the buffers are that it reads into.
-/

namespace SextantTree.FilterData

open FilterHash ByteMem ColumnBytes

/-- The enumerators of `ColumnType`. -/
def typeCode : ColumnType → ℕ
  | .int32 => 0
  | .int64 => 1
  | .float => 2
  | .bool => 3
  | .string => 4
  | .set => 5

def ofTypeCode (t : ℕ) : Option ColumnType :=
  [ColumnType.int32, .int64, .float, .bool, .string, .set][t]?

structure FileColumn where
  name : Bytes
  type : ColumnType
  nullable : Bool := false
deriving DecidableEq

structure FileSchema where
  columns : List FileColumn
  hasPayload : Bool := false
deriving DecidableEq

def kFilterDataMagic : ℕ := 0x46444154

/-! ### Writer -/

def rowCount (s : FileSchema) (cols : List ColumnData) : ℕ :=
  if s.columns.isEmpty then 0
  else
    let first := cols.headD {}
    match first.type with
    | .string | .set => first.strOffsets.length
    | t => first.fixedData.length / t.width

def nameBytes (col : FileColumn) : Bytes :=
  let len := col.name.length % 2 ^ 16
  leBytes 2 len ++ col.name.take len

/-- Payload offsets and data, where there are data. -/
def payloadBytes (data : Bytes) (offsets : List UInt32) : Bytes :=
  if data.isEmpty then [0]
  else 1 :: (offsets.flatMap fun o => leBytes 4 o.toNat) ++ data

def columnBytes (d : ColumnData) : Bytes :=
  match d.type with
  | .string =>
    (d.strOffsets.flatMap fun o => leBytes 4 o.toNat) ++
      (d.strLengths.flatMap fun l => leBytes 2 l.toNat) ++ d.strData
  | .set =>
    d.setCounts ++ (d.setOffsets.flatMap fun o => leBytes 4 o.toNat) ++
      (d.setElemLengths.flatMap fun l => leBytes 2 l.toNat) ++ d.setElemData
  | _ => d.fixedData

def headerBytes (s : FileSchema) (cols : List ColumnData) : Bytes :=
  leBytes 4 kFilterDataMagic ++ leBytes 8 (rowCount s cols) ++
    leBytes 4 (s.columns.length % 2 ^ 32) ++
    (s.columns.map fun col => UInt8.ofNat (typeCode col.type)) ++ s.columns.flatMap nameBytes

def writeFilterData (s : FileSchema) (cols : List ColumnData) (payloadData : Bytes)
    (payloadOffsets : List UInt32) : Bytes :=
  headerBytes s cols ++ payloadBytes payloadData payloadOffsets ++
    (cols.take (s.columns.length % 2 ^ 32)).flatMap columnBytes

/-! ### Reader -/

structure FilterDataFile where
  schema : FileSchema
  cols : List ColumnData
  payloadData : Bytes
  payloadOffsets : List UInt32
  nRows : ℕ
  hasPayload : Bool

inductive Fault
  | thrown (msg : String)
  /-- A byte that is no enumerator of `ColumnType`; the writer never leaves one. -/
  | noType (t : ℕ)
  /-- A loop that does not end. -/
  | endless
deriving DecidableEq

/-- `f.read`. -/
def get (n : ℕ) : Reader Fault Bytes := fun s =>
  .ok (s.take n ++ List.replicate (n - s.length) 0, s.drop n)

def num (w : ℕ) : Reader Fault ℕ := do
  let b ← get w
  pure (leNat b)

def fail {α : Type} (e : Fault) : Reader Fault α := fun _ => .error e

def u32 : Reader Fault UInt32 := do
  let n ← num 4
  pure (UInt32.ofNat n)

def u16 : Reader Fault UInt16 := do
  let n ← num 2
  pure (UInt16.ofNat n)

def readType : Reader Fault ColumnType := do
  let t ← num 1
  match ofTypeCode t with
  | some t => pure t
  | none => fail (.noType t)

def readName : Reader Fault Bytes := do
  let len ← num 2
  get len

/-- `has_payload`, the offsets and the data. -/
def readPayload (nRows : ℕ) : Reader Fault (Bool × List UInt32 × Bytes) := do
  let has ← num 1
  if has = 0 then pure (false, [], [])
  else
    let offsets ← Reader.many u32 (nRows + 1)
    let data ← get (offsets.getLastD 0).toNat
    pure (true, offsets, data)

def readStrings (nRows : ℕ) : Reader Fault ColumnData := do
  let offsets ← Reader.many u32 nRows
  let lengths ← Reader.many u16 nRows
  let size :=
    if 0 < nRows then ((offsets.getLastD 0).toNat + (lengths.getLastD 0).toNat) % 2 ^ 32 else 0
  let data ← get size
  pure { type := .string, strOffsets := offsets, strLengths := lengths, strData := data }

/-- The loop over the rows counts in 32 bits. The bytes of the lengths are counted there too; what is
not read stays zero. -/
def readSets (nRows : ℕ) : Reader Fault ColumnData := do
  let counts ← get nRows
  let offsets ← Reader.many u32 nRows
  if 2 ^ 32 ≤ nRows then fail .endless
  else
    let totalElems := (counts.map UInt8.toNat).sum % 2 ^ 32
    let found ← Reader.many u16 (totalElems * 2 % 2 ^ 32 / 2)
    let lengths := found ++ List.replicate (totalElems - found.length) 0
    let size := (lengths.map UInt16.toNat).sum % 2 ^ 32
    let data ← get size
    pure { type := .set, setCounts := counts, setOffsets := offsets, setElemLengths := lengths,
           setElemData := data }

def readColumn (nRows : ℕ) : ColumnType → Reader Fault ColumnData
  | .string => readStrings nRows
  | .set => readSets nRows
  | t => do
    let data ← get (nRows * t.width)
    pure { type := t, fixedData := data }

def readColumns (nRows : ℕ) : List ColumnType → Reader Fault (List ColumnData)
  | [] => pure []
  | t :: ts => do
    let d ← readColumn nRows t
    let ds ← readColumns nRows ts
    pure (d :: ds)

structure Header where
  nRows : ℕ
  types : List ColumnType
  names : List Bytes

def readHeader (path : String) : Reader Fault Header := do
  let magic ← num 4
  if magic ≠ kFilterDataMagic then fail (.thrown ("Bad filter data magic in " ++ path))
  else
    let nRows ← num 8
    let nCols ← num 4
    let types ← Reader.many readType nCols
    let names ← Reader.many readName nCols
    pure ⟨nRows, types, names⟩

/-- What is behind the header. A column of the schema has its name and type set. -/
def readBody (h : Header) : Reader Fault FilterDataFile := do
  let payload ← readPayload h.nRows
  let cols ← readColumns h.nRows h.types
  pure { schema := ⟨List.zipWith (fun name type => ⟨name, type, false⟩) h.names h.types, false⟩
         cols, payloadData := payload.2.2, payloadOffsets := payload.2.1, nRows := h.nRows
         hasPayload := payload.1 }

/-- `read_filter_data` of a file with these bytes. -/
def readFilterData (path : String) (bytes : Bytes) : Except Fault FilterDataFile :=
  ((readHeader path >>= readBody) bytes).map Prod.fst

/-! ### Rows -/

def Fits (t : ColumnType) : RawCell → Prop
  | .fixed b => t ≠ .string ∧ t ≠ .set ∧ b.length = t.width
  | .string b => t = .string ∧ b.length < 2 ^ 16
  | .set es => t = .set ∧ es.length < 2 ^ 8 ∧ ∀ e ∈ es, e.length < 2 ^ 16

def strOf : Option RawCell → Bytes
  | some (.string b) => b
  | _ => []

def elemsOf : Option RawCell → List Bytes
  | some (.set es) => es
  | _ => []

def bytesOf (w : ℕ) : Option RawCell → Bytes
  | some (.fixed b) => b
  | _ => List.replicate w 0

/-- A filter column with its cells, one a row; the arrays of the writer can hold them, that is, what
starts a row is below `2 ^ 32`. -/
structure RowColumn (n : ℕ) extends FileColumn where
  cells : List (Option RawCell)
  length_eq : cells.length = n
  fits : ∀ v, some v ∈ cells → Fits type v
  nulls : none ∈ cells → nullable = true
  starts : ∀ i < n, ((cells.map strOf).take i).flatten.length < 2 ^ 32 ∧
    ((cells.map elemsOf).take i).flatten.length < 2 ^ 32

namespace RowColumn

variable {n : ℕ} (c : RowColumn n)

def strRows : List Bytes := c.cells.map strOf

def setRows : List (List Bytes) := c.cells.map elemsOf

def fixedRows : List Bytes := c.cells.map (bytesOf c.type.width)

def toData : ColumnData :=
  let d : ColumnData :=
    { type := c.type
      nullMask := if c.nullable then c.cells.map fun v => if v.isNone then 1 else 0 else [] }
  match c.type with
  | .string => d.withStrings c.strRows
  | .set => d.withSets c.setRows
  | _ => d.withFixed c.fixedRows

/-- How the cells of a column are looked up. -/
def filterColumn (col : FileColumn) : FilterColumn := ⟨"", col.type, col.nullable⟩

end RowColumn

/-- A declared schema, rows of it, and a payload for each row or none at all. -/
structure Table where
  n : ℕ
  n_lt : n < 2 ^ 64
  columns : List (RowColumn n)
  hasPayload : Bool := false
  payloads : Option (List Bytes) := none
  payloads_length : ∀ ps ∈ payloads, ps.length = n
  payloads_lt : ∀ ps ∈ payloads, ps.flatten.length < 2 ^ 32

namespace Table

variable (t : Table)

def schema : FileSchema := ⟨t.columns.map RowColumn.toFileColumn, t.hasPayload⟩

def payloadData : Bytes := (t.payloads.getD []).flatten

def payloadOffsets : List UInt32 :=
  (t.payloads.map fun ps => offsetsOf ps ++ [UInt32.ofNat ps.flatten.length]).getD []

def file : Bytes :=
  writeFilterData t.schema (t.columns.map RowColumn.toData) t.payloadData t.payloadOffsets

end Table

/-- The payload of a row; without payloads it has no bytes. -/
def FilterDataFile.payload (f : FilterDataFile) (i : ℕ) : Option Bytes :=
  if f.hasPayload then do
    let first ← f.payloadOffsets[i]?
    let last ← f.payloadOffsets[i + 1]?
    slice f.payloadData first.toNat (last.toNat - first.toNat)
  else some []

structure Says (t : Table) (f : FilterDataFile) : Prop where
  rows : f.nRows = t.n
  schema : f.schema = t.schema
  cells : List.Forall₂ (fun (c : RowColumn t.n) d =>
    ∀ i < t.n, d.cell (RowColumn.filterColumn c.toFileColumn) i = c.cells[i]?) t.columns f.cols
  payload : ∀ i < t.n, f.payload i = some ((t.payloads.getD []).getD i [])

/-- The file of a table is read, and says the same. -/
def Table.RoundTrips (t : Table) (path : String) : Prop :=
  ∃ f, readFilterData path t.file = .ok f ∧ Says t f

end SextantTree.FilterData
