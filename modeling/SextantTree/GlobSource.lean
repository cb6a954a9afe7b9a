import SextantTree.PushReplay

/-!
The source over a list of Parquet shards, with an optional label file joined by row position. Of a
Parquet file the model has what its reader delivers: batches of vectors, each with a view for every
filter column. The label reader and the shards cut their files into batches of their own sizes; the
labels wait in one buffer for each column.

Row counts and ids are not bounded, except where the code narrows them. All shards have vectors of one
dimension, and payloads are left out.
-/

namespace SextantTree.GlobSource

open FilterHash
open PushStage (View Value)

/-! ### The readers -/

structure Batch (V : Type) where
  vectors : List V
  columns : List View

/-- A Parquet file: its filter columns and its batches. In a label file no column is a vector. -/
structure ParquetFile (V : Type) where
  columns : List FilterColumn
  batches : List (Batch V)

/-- A chunk as a source delivers it; an entry of the columns may be a null pointer. -/
structure Chunk (V : Type) where
  vectors : List V
  rowIds : List ℕ
  filterColumns : Option (List (Option View)) := none

/-- `ParquetSource`: the batches ahead, and the rows delivered. -/
structure ParquetSource (V : Type) where
  ahead : List (Batch V)
  cursor : ℕ := 0

variable {V : Type}

def Batch.count (b : Batch V) : ℕ := b.vectors.length

def ParquetFile.count (f : ParquetFile V) : ℕ := (f.batches.map Batch.count).sum

def ParquetSource.new (f : ParquetFile V) : ParquetSource V := { ahead := f.batches }

def ParquetSource.next (s : ParquetSource V) : Option (Chunk V) × ParquetSource V :=
  match s.ahead with
  | [] => (none, s)
  | b :: ahead =>
    if b.count = 0 then (none, { s with ahead := ahead })
    else
      (some
        { vectors := b.vectors
          rowIds := (List.range b.count).map (s.cursor + ·)
          filterColumns := if b.columns.isEmpty then none else some (b.columns.map some) },
        { ahead := ahead, cursor := s.cursor + b.count })

/-! ### The label buffers -/

/-- What `next` and the constructor throw; a column read through a pointer of another type is
undefined. -/
inductive Error
  | noShards
  | labelsExhausted
  | undefined
deriving DecidableEq, Repr

def Error.what : Error → String
  | noShards => "ParquetGlobSource: no shard paths provided"
  | labelsExhausted => "ParquetGlobSource: label file exhausted before vectors"
  | undefined => ""

structure LabelStringBuf where
  offsets : List UInt32 := []
  lengths : List UInt16 := []
  data : Bytes := []
  head : ℕ := 0
deriving DecidableEq

namespace LabelStringBuf

def available (b : LabelStringBuf) : ℕ :=
  if b.offsets.isEmpty then 0 else b.offsets.length - 1 - b.head

/-- The body of the loop of `append`. -/
def appendRow (b : LabelStringBuf) (len : UInt16) (s : Bytes) : LabelStringBuf :=
  { b with
    offsets := b.offsets ++ [b.offsets.getLastD 0 + len.toUInt32]
    lengths := b.lengths ++ [len]
    data := b.data ++ s }

def append (b : LabelStringBuf) (offsets : List UInt32) (lengths : List UInt16) (data : Bytes)
    (count : ℕ) : LabelStringBuf :=
  (List.range count).foldl
    (fun b i =>
      let len := lengths.getD i 0
      b.appendRow len ((data.drop (offsets.getD i 0).toNat).take len.toNat))
    (if b.offsets.isEmpty then { b with offsets := [0] } else b)

/-- What `consume` puts out: the buffer from the head on. -/
def view (b : LabelStringBuf) : View :=
  .str (b.offsets.drop b.head) (b.lengths.drop b.head) b.data (UInt32.ofNat b.data.length)

def compact (b : LabelStringBuf) : LabelStringBuf :=
  if b.head = 0 then b
  else
    let consumed := b.head % 2 ^ 32
    if b.offsets.length - 1 ≤ consumed then { offsets := [0] }
    else
      let dataOffset := b.offsets.getD consumed 0
      let remaining := (b.offsets.length - 1 - consumed) % 2 ^ 32
      { offsets := (List.range (remaining + 1)).map fun i =>
          b.offsets.getD (consumed + i) 0 - dataOffset
        lengths := b.lengths.drop consumed
        data := b.data.drop dataOffset.toNat
        head := 0 }

end LabelStringBuf

/-- The rows of a label batch, appended to each buffer. The cast takes every column for strings. -/
def appendLabels (lc : Batch Unit) (bufs : List LabelStringBuf) :
    Except Error (List LabelStringBuf) :=
  bufs.zipIdx.mapM fun x =>
    match lc.columns[x.2]? with
    | some (View.str offsets lengths data _) => .ok (x.1.append offsets lengths data lc.count)
    | _ => .error .undefined

/-- The inner loop of `ensure_label_rows_`: label batches until buffer `li` has the rows. -/
def fillTo (need li : ℕ) : List (Batch Unit) → List LabelStringBuf →
    Except Error (List (Batch Unit) × List LabelStringBuf)
  | [], bufs => if need ≤ (bufs.getD li {}).available then .ok ([], bufs) else .error .labelsExhausted
  | lc :: ahead, bufs =>
    if need ≤ (bufs.getD li {}).available then .ok (lc :: ahead, bufs)
    else if lc.count = 0 then .error .labelsExhausted
    else do
      let bufs ← appendLabels lc bufs
      fillTo need li ahead bufs

/-- `ensure_label_rows_` for these buffers. -/
def ensureLabelRows (need : ℕ) : List ℕ → List (Batch Unit) → List LabelStringBuf →
    Except Error (List (Batch Unit) × List LabelStringBuf)
  | [], ahead, bufs => .ok (ahead, bufs)
  | li :: lis, ahead, bufs => do
    let (ahead, bufs) ← fillTo need li ahead (bufs.modify li LabelStringBuf.compact)
    ensureLabelRows need lis ahead bufs

/-! ### The source -/

structure Config where
  labelCols : List String := []
  vectorsOnly : Bool := false

/-- The label columns of the schema: those that are selected, or all. -/
def labelSchema (columns : List FilterColumn) (labelCols : List String) : List FilterColumn :=
  if labelCols.isEmpty then columns
  else columns.filter fun col => labelCols.any (col.name == ·)

/-- `cur_src_` and `cur_shard_`. -/
structure Position (V : Type) where
  src : Option (ParquetSource V) := none
  shard : ℕ := 0

structure ParquetGlobSource (V : Type) where
  shards : List (ParquetFile V)
  labels : Option (ParquetFile Unit)
  config : Config
  /-- `schema_`. -/
  columns : List FilterColumn
  nLabelCols : ℕ
  position : Position V := {}
  /-- What the label reader has ahead. -/
  labelAhead : List (Batch Unit)
  labelBufs : List LabelStringBuf
  chunkFilterPtrs : List (Option View)

namespace ParquetGlobSource

def new (shards : List (ParquetFile V)) (labels : Option (ParquetFile Unit)) (config : Config) :
    Except Error (ParquetGlobSource V) :=
  match shards with
  | [] => .error .noShards
  | first :: _ =>
    let lschema := (labels.map fun f => labelSchema f.columns config.labelCols).getD []
    .ok
      { shards := shards
        labels := labels
        config := config
        columns := first.columns ++ lschema
        nLabelCols := lschema.length
        labelAhead := (labels.map (·.batches)).getD []
        labelBufs := List.replicate lschema.length {}
        chunkFilterPtrs := List.replicate (first.columns ++ lschema).length none }

/-- `shard_base_`. -/
def shardBase (g : ParquetGlobSource V) (i : ℕ) : ℕ := ((g.shards.take i).map ParquetFile.count).sum

def reset (g : ParquetGlobSource V) : ParquetGlobSource V :=
  { g with
    position := {}
    labelAhead := (g.labels.map (·.batches)).getD g.labelAhead
    labelBufs := if g.labels.isSome then g.labelBufs.map fun _ => {} else g.labelBufs }

/-- The loop of `next` over the shards: the next vector batch, with global ids. There are at most
`fuel` shards left. -/
def advance (g : ParquetGlobSource V) : ℕ → Position V → Option (Chunk V) × Position V
  | 0, pos => (none, pos)
  | fuel + 1, pos =>
    match g.shards[pos.shard]? with
    | none => (none, pos)
    | some f =>
      match (pos.src.getD (.new f)).next with
      | (some c, s) =>
        (some { c with rowIds := c.rowIds.map (· + g.shardBase pos.shard) },
          { pos with src := some s })
      | (none, _) => g.advance fuel { src := none, shard := pos.shard + 1 }

/-- `consume_labels_`: the pointers of the labels go to the front. -/
def consumeLabels (bufs : List LabelStringBuf) (ptrs : List (Option View)) : List (Option View) :=
  bufs.zipIdx.foldl (fun ptrs x => ptrs.set x.2 (some x.1.view)) ptrs

def next (g : ParquetGlobSource V) : Except Error (Option (Chunk V) × ParquetGlobSource V) :=
  match g.advance (g.shards.length - g.position.shard) g.position with
  | (none, pos) => .ok (none, { g with position := pos })
  | (some c, pos) =>
    let c := if g.config.vectorsOnly then { c with filterColumns := none } else c
    if g.labels.isSome then do
      let (ahead, bufs) ← ensureLabelRows c.vectors.length (List.range g.nLabelCols) g.labelAhead
        g.labelBufs
      let ptrs := consumeLabels bufs g.chunkFilterPtrs
      return (some { c with filterColumns := some ptrs },
        { g with
          position := pos
          labelAhead := ahead
          labelBufs := bufs.map fun b => { b with head := b.head + c.vectors.length }
          chunkFilterPtrs := ptrs })
    else .ok (some c, { g with position := pos })

/-- `next` until it has nothing, at most `fuel` times; `none` when that was not enough. -/
def drain : ℕ → ParquetGlobSource V →
    Except Error (Option (List (Chunk V)) × ParquetGlobSource V)
  | 0, g => .ok (none, g)
  | fuel + 1, g => do
    match ← g.next with
    | (some c, g) =>
      let (cs, g) ← drain fuel g
      return (cs.map (c :: ·), g)
    | (none, g) => return (some [], g)

end ParquetGlobSource

/-! ### Rows -/

/-- A delivered row. A value is missing where the pointer of the column is null. -/
structure Row (V : Type) where
  vector : V
  id : ℕ
  values : List (Option Value)

def Chunk.rows (c : Chunk V) (columns : List FilterColumn) : List (Row V) :=
  c.vectors.zipIdx.map fun x =>
    { vector := x.1
      id := c.rowIds.getD x.2 0
      values := columns.zipIdx.map fun y =>
        ((c.filterColumns.getD [])[y.2]?.join).map fun v => v.value y.1.type x.2 }

/-- The values of row `i` of a batch. -/
def Batch.values (b : Batch V) (columns : List FilterColumn) (i : ℕ) : List Value :=
  columns.zipWith (fun col v => v.value col.type i) b.columns

def Batch.rows (b : Batch V) (columns : List FilterColumn) : List (V × List Value) :=
  b.vectors.zipIdx.map fun x => (x.1, b.values columns x.2)

def ParquetFile.rows (f : ParquetFile V) : List (V × List Value) :=
  f.batches.flatMap fun b => b.rows f.columns

end SextantTree.GlobSource
