import SextantTree.Disk
import SextantTree.ByteMem

/-!
The byte layout of a leaf's filter columns (`filter_column_write.hpp`, `filter_column_read.hpp`,
`parse_filter_columns`): the size calculator, the writer, the copying reader and the zero-copy
views. Positions count from the start of the region. Sizes the source holds in 64 bits are
plain numbers (they stay far below `2 ^ 64`); what it holds in 32 bits wraps.
-/

namespace SextantTree.ColumnBytes

open FilterHash ByteMem

/-- `ColumnData`: a column in memory. -/
structure ColumnData where
  type : ColumnType := .int32
  nullMask : Bytes := []
  fixedData : Bytes := []
  strOffsets : List UInt32 := []
  strLengths : List UInt16 := []
  strData : Bytes := []
  setCounts : List UInt8 := []
  setOffsets : List UInt32 := []
  setElemLengths : List UInt16 := []
  setElemData : Bytes := []

namespace ColumnData

variable (d : ColumnData)

def strOff (i : ℕ) : ℕ := (d.strOffsets.getD i 0).toNat

def strLen (i : ℕ) : ℕ := (d.strLengths.getD i 0).toNat

/-- The bytes of string `i`. -/
def str (i : ℕ) : Bytes := (d.strData.drop (d.strOff i)).take (d.strLen i)

def setCount (i : ℕ) : ℕ := (d.setCounts.getD i 0).toNat

def setOff (i : ℕ) : ℕ := (d.setOffsets.getD i 0).toNat

def elemLen (k : ℕ) : ℕ := (d.setElemLengths.getD k 0).toNat

/-- Where element `k` starts in `set_elem_data`: the elements are packed. -/
def elemStart (k : ℕ) : ℕ := ((d.setElemLengths.take k).map UInt16.toNat).sum

/-- `set_byte_offs`: the same, accumulated in 32 bits. -/
def elemByteOff (k : ℕ) : ℕ := d.elemStart k % 2 ^ 32

end ColumnData

/-! ### Size -/

/-- The end of a column that starts at `total`. -/
def columnBytes (count : ℕ) (col : FilterColumn) (d : ColumnData) (total : ℕ) : ℕ :=
  let total :=
    match col.type with
    | .string =>
      align4 (total + count * (4 + 2)) + count * 4 + ((List.range count).map d.strLen).sum
    | .set =>
      let nElem := ((List.range count).map d.setCount).sum
      let dataBytes := ((List.range count).map fun i =>
        ((List.range (d.setCount i)).map fun e => 2 + d.elemLen ((d.setOff i + e) % 2 ^ 32)).sum).sum
      align4 (total + count * 1) + count * 4 + nElem * 4 + dataBytes
    | t => total + count * t.width
  align4 (if col.nullable then total + count else total)

/-- `filter_columns_bytes`. -/
def filterColumnsBytes (count : ℕ) (s : Schema) (cols : List ColumnData) : ℕ :=
  if s.columns.isEmpty || cols.isEmpty then 0
  else (s.columns.zip cols).foldl (fun total x => columnBytes count x.1 x.2 total) 0

/-! ### Writer -/

/-- The string loop over some rows: an offset, a length, a hash and the bytes each. -/
def writeStrings (d : ColumnData) (offsets lengths hashes : ℕ) :
    List ℕ → (acc : ℕ) → Mem × ℕ → Mem × ℕ
  | [], _, st => st
  | i :: is, acc, (m, p) =>
    let len := d.strLen i
    let str := d.str i
    let m := poke m (offsets + 4 * i) (leBytes 4 acc)
    let m := poke m (lengths + 2 * i) (leBytes 2 len)
    let m := poke m (hashes + 4 * i) (leBytes 4 (filterHash str).toNat)
    let m := poke m p str
    writeStrings d offsets lengths hashes is ((acc + len) % 2 ^ 32) (m, p + len)

/-- The element loop of a set: a hash each, and behind the hashes a length and the bytes. -/
def writeElems (d : ColumnData) (hashes off elemAcc : ℕ) : List ℕ → Mem × ℕ → Mem × ℕ
  | [], st => st
  | e :: es, (m, p) =>
    let k := (off + e) % 2 ^ 32
    let elen := d.elemLen k
    let str := (d.setElemData.drop (d.elemByteOff k)).take elen
    let m := poke m (hashes + 4 * ((elemAcc + e) % 2 ^ 32)) (leBytes 4 (filterHash str).toNat)
    let m := poke m p (leBytes 2 elen)
    let m := poke m (p + 2) str
    writeElems d hashes off elemAcc es (m, p + 2 + elen)

def writeSets (d : ColumnData) (counts offsets hashes : ℕ) :
    List ℕ → (elemAcc : ℕ) → Mem × ℕ → Mem × ℕ
  | [], _, st => st
  | i :: is, elemAcc, (m, p) =>
    let ec := d.setCount i
    let m := poke m (counts + i) [UInt8.ofNat ec]
    let m := poke m (offsets + 4 * i) (leBytes 4 elemAcc)
    writeSets d counts offsets hashes is ((elemAcc + ec) % 2 ^ 32)
      (writeElems d hashes (d.setOff i) elemAcc (List.range ec) (m, p))

def writeData (count : ℕ) (col : FilterColumn) (d : ColumnData) (st : Mem × ℕ) : Mem × ℕ :=
  let (m, p) := st
  match col.type with
  | .string =>
    let lengths := p + count * 4
    let hashes := align4 (lengths + count * 2)
    writeStrings d p lengths hashes (List.range count) 0 (m, hashes + count * 4)
  | .set =>
    let offsets := align4 (p + count * 1)
    let hashes := offsets + count * 4
    let totalElem := ((List.range count).map d.setCount).sum % 2 ^ 32
    writeSets d p offsets hashes (List.range count) 0 (m, hashes + totalElem * 4)
  | t => (poke m p (d.fixedData.take (count * t.width)), p + count * t.width)

/-- The validity bytes the writer stores for a nullable column. -/
def maskBytes (count : ℕ) (d : ColumnData) : Bytes :=
  if d.nullMask.isEmpty then List.replicate count 0 else d.nullMask.take count

/-- One column: data, validity bytes, padding. -/
def writeColumn (count : ℕ) (st : Mem × ℕ) (x : FilterColumn × ColumnData) : Mem × ℕ :=
  let (m, p) := writeData count x.1 x.2 st
  if x.1.nullable then (poke m p (maskBytes count x.2), align4 (p + count)) else (m, align4 p)

/-- `write_filter_columns`: the memory after it and the bytes written. -/
def writeFilterColumns (m : Mem) (count : ℕ) (s : Schema) (cols : List ColumnData) : Mem × ℕ :=
  if s.columns.isEmpty || cols.isEmpty then (m, 0)
  else (s.columns.zip cols).foldl (writeColumn count) (m, 0)

/-! ### Copying reader -/

/-- Running 32-bit offsets of strings of these lengths, and the final offset. -/
def runOffsets : (acc : ℕ) → List ℕ → List UInt32 × ℕ
  | acc, [] => ([], acc)
  | acc, len :: lens =>
    let (offs, total) := runOffsets ((acc + len) % 2 ^ 32) lens
    (UInt32.ofNat acc :: offs, total)

/-- `n` elements from `p` on: their lengths, their bytes, and the position behind them. -/
def readElems (m : Mem) : (n : ℕ) → (p : ℕ) → List UInt16 × Bytes × ℕ
  | 0, p => ([], [], p)
  | n + 1, p =>
    let elen := word m 2 p
    let (lens, data, q) := readElems m n (p + 2 + elen)
    (UInt16.ofNat elen :: lens, peek m (p + 2) elen ++ data, q)

def readData (m : Mem) (count : ℕ) (col : FilterColumn) (p : ℕ) : ColumnData × ℕ :=
  match col.type with
  | .string =>
    let lengths := p + count * 4
    let data := align4 (lengths + count * 2) + count * 4
    let lens := (List.range count).map fun i => word m 2 (lengths + 2 * i)
    let (offs, total) := runOffsets 0 lens
    ({ type := .string, strOffsets := offs, strLengths := lens.map UInt16.ofNat,
       strData := peek m data total }, data + total)
  | .set =>
    let counts := peek m p count
    let offsets := align4 (p + count * 1)
    let totalElem := (counts.map UInt8.toNat).sum % 2 ^ 32
    let data := offsets + count * 4 + totalElem * 4
    let nElem := (counts.map UInt8.toNat).sum
    let (lens, bytes, q) := readElems m nElem data
    ({ type := .set, setCounts := counts,
       setOffsets := (runOffsets 0 (counts.map UInt8.toNat)).1, setElemLengths := lens,
       setElemData := bytes }, q)
  | t => ({ type := t, fixedData := peek m p (count * t.width) }, p + count * t.width)

/-- One column and the position behind its padding. -/
def readColumn (m : Mem) (count : ℕ) (col : FilterColumn) (p : ℕ) : ColumnData × ℕ :=
  let (d, q) := readData m count col p
  if col.nullable then ({ d with nullMask := peek m q count }, align4 (q + count))
  else (d, align4 q)

/-- The columns of a schema from `p` on. -/
def readColumns (m : Mem) (count : ℕ) : List FilterColumn → ℕ → List ColumnData × ℕ
  | [], p => ([], p)
  | col :: rest, p =>
    let (d, q) := readColumn m count col p
    let (ds, r) := readColumns m count rest q
    (d :: ds, r)

/-- `read_filter_columns`: the columns and the bytes consumed. -/
def readFilterColumns (m : Mem) (count : ℕ) (s : Schema) : List ColumnData × ℕ :=
  readColumns m count s.columns 0

/-! ### Zero-copy views -/

/-- `ColumnView`: where the arrays of a column are. -/
structure ColumnView where
  type : ColumnType := .int32
  nulls : Option ℕ := none
  fixedBase : ℕ := 0
  fixedWidth : ℕ := 0
  strOffsets : ℕ := 0
  strLengths : ℕ := 0
  strHashes : ℕ := 0
  strData : ℕ := 0
  setCounts : ℕ := 0
  setOffsets : ℕ := 0
  setHashes : ℕ := 0
  setData : ℕ := 0

/-- The position behind `n` element records. -/
def skipElems (m : Mem) : (n : ℕ) → (p : ℕ) → ℕ
  | 0, p => p
  | n + 1, p => skipElems m n (p + 2 + word m 2 p)

def parseData (m : Mem) (count : ℕ) (col : FilterColumn) (p : ℕ) : ColumnView × ℕ :=
  match col.type with
  | .string =>
    let lengths := p + count * 4
    let hashes := align4 (lengths + count * 2)
    let data := hashes + count * 4
    let skip := if count = 0 then 0
      else (word m 4 (p + 4 * (count - 1)) + word m 2 (lengths + 2 * (count - 1))) % 2 ^ 32
    ({ type := .string, strOffsets := p, strLengths := lengths, strHashes := hashes,
       strData := data }, data + skip)
  | .set =>
    let offsets := align4 (p + count * 1)
    let hashes := offsets + count * 4
    let totalElem := ((peek m p count).map UInt8.toNat).sum % 2 ^ 32
    let data := hashes + totalElem * 4
    ({ type := .set, setCounts := p, setOffsets := offsets, setHashes := hashes,
       setData := data }, skipElems m totalElem data)
  | t => ({ type := t, fixedBase := p, fixedWidth := t.width }, p + count * t.width)

def parseColumn (m : Mem) (count : ℕ) (col : FilterColumn) (p : ℕ) : ColumnView × ℕ :=
  let (v, q) := parseData m count col p
  if col.nullable then ({ v with nulls := some q }, align4 (q + count)) else (v, align4 q)

def parseColumns (m : Mem) (count : ℕ) : List FilterColumn → ℕ → List ColumnView × ℕ
  | [], p => ([], p)
  | col :: rest, p =>
    let (v, q) := parseColumn m count col p
    let (vs, r) := parseColumns m count rest q
    (v :: vs, r)

/-- `parse_filter_columns`: the views, and where the last one ends. -/
def parseFilterColumns (m : Mem) (count : ℕ) (s : Schema) : List ColumnView × ℕ :=
  parseColumns m count s.columns 0

/-! ### What a column says of a row -/

/-- The stored value of a cell: raw bytes, a string, or the elements of a set. -/
inductive RawCell
  | fixed (b : Bytes)
  | string (b : Bytes)
  | set (elems : List Bytes)
deriving DecidableEq

def RawCell.hashes : RawCell → List ℕ
  | fixed _ => []
  | string b => [(filterHash b).toNat]
  | set elems => elems.map fun b => (filterHash b).toNat

namespace ColumnData

/-- The stored value of row `i`; `none` where the arrays do not have it. -/
def raw (d : ColumnData) (col : FilterColumn) (i : ℕ) : Option RawCell :=
  match col.type with
  | .string => (slice d.strData (d.strOff i) (d.strLen i)).map .string
  | .set => ((List.range (d.setCount i)).mapM fun e =>
      slice d.setElemData (d.elemStart (d.setOff i + e)) (d.elemLen (d.setOff i + e))).map .set
  | t => (slice d.fixedData (i * t.width) t.width).map .fixed

/-- The NULL flag of row `i`; an empty mask means no NULLs. -/
def isNull (d : ColumnData) (col : FilterColumn) (i : ℕ) : Bool :=
  col.nullable && !d.nullMask.isEmpty && d.nullMask.getD i 0 != 0

/-- The logical cell of row `i`: NULL, or a value the arrays have. -/
def cell (d : ColumnData) (col : FilterColumn) (i : ℕ) : Option (Option RawCell) :=
  if d.isNull col i then some none else (d.raw col i).map some

end ColumnData

namespace ColumnView

variable (m : Mem) (v : ColumnView)

/-- The bytes of `n` elements from `p` on. -/
def elems : (n : ℕ) → (p : ℕ) → List Bytes
  | 0, _ => []
  | n + 1, p => peek m (p + 2) (word m 2 p) :: elems n (p + 2 + word m 2 p)

/-- The value of row `i` (`read_fixed_as_double`, `read_string`, `set_contains_string`). -/
def raw (i : ℕ) : RawCell :=
  match v.type with
  | .string =>
    .string (peek m (v.strData + word m 4 (v.strOffsets + 4 * i))
      (word m 2 (v.strLengths + 2 * i)))
  | .set =>
    .set (elems m (m (v.setCounts + i)).toNat
      (skipElems m (word m 4 (v.setOffsets + 4 * i)) v.setData))
  | _ => .fixed (peek m (v.fixedBase + i * v.fixedWidth) v.fixedWidth)

/-- The hashes of row `i` (`read_string_hash`, `set_contains_hash`). -/
def hashes (i : ℕ) : List ℕ :=
  match v.type with
  | .string => [word m 4 (v.strHashes + 4 * i)]
  | .set => (List.range (m (v.setCounts + i)).toNat).map fun e =>
      word m 4 (v.setHashes + 4 * (word m 4 (v.setOffsets + 4 * i) + e))
  | _ => []

def isNull (i : ℕ) : Bool :=
  match v.nulls with
  | none => false
  | some p => m (p + i) != 0

end ColumnView

end SextantTree.ColumnBytes
