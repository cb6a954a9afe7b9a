import Mathlib.Algebra.BigOperators.Group.List.Basic
import SextantTree.Schema

/-!
The cardinality table: for every filter column how often each value stands in it, as a map of
hashes, a histogram of numbers or, once there are too many of these, bins over a frame. Tables are
fed by row and folded together.

A double is its 64 bits. Its order is the order of the values, in which a NaN stands nowhere; the
arithmetic on doubles is a parameter.
-/

namespace SextantTree

open FilterHash

namespace Double

def zero : UInt64 := 0
def half : UInt64 := 0x3FE0000000000000
def one : UInt64 := 0x3FF0000000000000
def two : UInt64 := 0x4000000000000000

/-- Where the double stands in the order of values; both zeros at `0`, a NaN nowhere. -/
def key (b : UInt64) : Option ℤ :=
  let magnitude : ℕ := b.toNat % 2 ^ 63
  if 0x7FF0000000000000 < magnitude then none
  else if b.toNat < 2 ^ 63 then some magnitude else some (-magnitude)

/-- `<` of doubles. -/
def lt (a b : UInt64) : Bool :=
  match key a, key b with
  | some x, some y => decide (x < y)
  | _, _ => false

/-- `std::min`. -/
def min (a b : UInt64) : UInt64 := if lt b a then b else a

/-- `std::max`. -/
def max (a b : UInt64) : UInt64 := if lt a b then b else a

/-- `std::clamp`. -/
def clamp (v lo hi : UInt64) : UInt64 := if lt v lo then lo else if lt hi v then hi else v

end Double

/-- Arithmetic of doubles, and the order in which a hash map is walked. -/
structure CardinalityPlatform where
  add : UInt64 → UInt64 → UInt64
  sub : UInt64 → UInt64 → UInt64
  mul : UInt64 → UInt64 → UInt64
  div : UInt64 → UInt64 → UInt64
  ofNat : ℕ → UInt64
  /-- `static_cast<uint32_t>`. -/
  toUInt32 : UInt64 → UInt32
  /-- `static_cast<uint64_t>`. -/
  toUInt64 : UInt64 → UInt64
  /-- `static_cast<double>(std::llround(d))`. -/
  round : UInt64 → UInt64
  /-- A rounded value is cast to a number above zero when it is at least one. -/
  toUInt64_pos : ∀ d, 0 < toUInt64 (Double.max Double.one (round d))
  /-- `hll_estimate` of registers that are there. -/
  hllEstimate : List UInt8 → UInt64
  walk : List (UInt32 × UInt32) → List (UInt32 × UInt32)
  walk_perm : ∀ m, (walk m).Perm m

namespace Cardinality

def kCardinalitySample : ℕ := 100000

def kCardinalityNumBins : ℕ := 4096

/-- `UINT32_MAX`. -/
def maxCount : UInt32 := 0xFFFFFFFF

/-- A count that stays at its largest value. -/
def satAdd (a c : UInt32) : UInt32 := if maxCount - a < c then maxCount else a + c

inductive CardinalityMode
  | off | on | auto | rejected
deriving DecidableEq, Repr

def CardinalityMode.counts : CardinalityMode → Bool
  | off | rejected => false
  | on | auto => true

structure ColumnCardinality where
  /-- Hash and count. -/
  freq : List (UInt32 × UInt32) := []
  /-- Value and count, in the order of the map. -/
  numericHist : List (UInt64 × UInt32) := []
  bins : List UInt32 := []
  binMin : UInt64 := Double.zero
  binMax : UInt64 := Double.zero
  frameLo : UInt64 := Double.zero
  frameHi : UInt64 := Double.zero
  binTotal : UInt64 := 0
  binned : Bool := false
  overflowed : Bool := false
  estDistinctStored : UInt64 := 0
  isNumeric : Bool := false
  mode : CardinalityMode := .off
  adds : UInt64 := 0
  hll : List UInt8 := []
deriving DecidableEq

/-! HyperLogLog registers. -/

def hllFinalize (h : UInt32) : UInt32 :=
  let h := h ^^^ (h >>> 16)
  let h := h * 0x7feb352d
  let h := h ^^^ (h >>> 15)
  let h := h * 0x846ca68b
  h ^^^ (h >>> 16)

def kHllRegs : ℕ := 4096

def kHllPadding : ℕ := 20

/-- One more than the leading zeros of the low bits. -/
def hllRank (rest : ℕ) : ℕ := if rest = 0 then kHllPadding + 1 else kHllPadding - Nat.size rest + 1

def hllAdd (hll : List UInt8) (finalized : UInt32) : List UInt8 :=
  let hll := if hll = [] then List.replicate kHllRegs 0 else hll
  let rank := UInt8.ofNat (hllRank (finalized.toNat % 2 ^ kHllPadding))
  hll.modify (finalized.toNat / 2 ^ kHllPadding) fun r => if r < rank then rank else r

def hllUnion (dst src : List UInt8) : List UInt8 :=
  if src = [] then dst
  else if dst = [] then src
  else List.zipWith (fun a b => if a < b then b else a) dst src

/-! Maps. -/

/-- A count goes to its hash. A new hash needs room. -/
def freqAdd (cap : ℕ) (col : ColumnCardinality) (h c : UInt32) : ColumnCardinality :=
  if (col.freq.lookup h).isSome then
    { col with freq := col.freq.map fun e => if e.1 = h then (e.1, satAdd e.2 c) else e }
  else if cap = 0 ∨ col.freq.length < cap then { col with freq := col.freq ++ [(h, c)] }
  else { col with overflowed := true }

/-- `try_emplace`, and the count of the value that stands there already: the first key not below
`v` is where `v` belongs, and it is the same value when `v` is not below it. -/
def histAdd : List (UInt64 × UInt32) → UInt64 → UInt32 → List (UInt64 × UInt32)
  | [], v, c => [(v, c)]
  | (k, n) :: rest, v, c =>
    if Double.lt k v then (k, n) :: histAdd rest v c
    else if Double.lt v k then (v, c) :: (k, n) :: rest
    else (k, satAdd n c) :: rest

/-! Bins. -/

variable (A : CardinalityPlatform)

def binIndex (f : UInt64) : ℕ :=
  let idx := (A.toUInt32 (A.mul (Double.clamp f Double.zero Double.one)
    (A.ofNat kCardinalityNumBins))).toNat
  if kCardinalityNumBins ≤ idx then kCardinalityNumBins - 1 else idx

def addToBin (bins : List UInt32) (i : ℕ) (c : UInt32) : List UInt32 := bins.modify i (satAdd · c)

/-- The middle of bin `i`, as a fraction. -/
def binMiddle (i : ℕ) : UInt64 :=
  A.div (A.add (A.ofNat i) Double.half) (A.ofNat kCardinalityNumBins)

/-- Where the middle of bin `i` of the old frame lies in the new one. -/
def rebin (col : ColumnCardinality) (lo hi : UInt64) (i : ℕ) : ℕ :=
  let center := A.add col.frameLo (A.mul (binMiddle A i) (A.sub col.frameHi col.frameLo))
  binIndex A (A.div (A.sub center lo) (A.sub hi lo))

/-- Every count of the old bins, added to a new bin. -/
def redistribute (place : ℕ → ℕ) (bins : List UInt32) : List UInt32 :=
  (List.range kCardinalityNumBins).foldl
    (fun nb i => if bins.getD i 0 = 0 then nb else addToBin nb (place i) (bins.getD i 0))
    (List.replicate kCardinalityNumBins 0)

def rescaleBins (col : ColumnCardinality) (lo hi : UInt64) : ColumnCardinality :=
  if col.bins = [] ∨ Double.lt lo hi = false then { col with frameLo := lo, frameHi := hi }
  else
    { col with
      bins := redistribute (rebin A col lo hi) col.bins
      frameLo := lo
      frameHi := hi }

/-- The first value makes the bins and the frame. -/
def startBins (col : ColumnCardinality) (v : UInt64) : ColumnCardinality :=
  if col.bins = [] then
    { col with
      bins := List.replicate kCardinalityNumBins 0
      binMin := v
      binMax := v
      frameLo := v
      frameHi := v }
  else col

/-- A value outside the frame makes it larger, by no less than its span. -/
def extendFrame (col : ColumnCardinality) (v : UInt64) : ColumnCardinality :=
  let lo := Double.min v col.frameLo
  let hi := Double.max v col.frameHi
  let span := A.sub col.frameHi col.frameLo
  let wide := Double.lt Double.zero span
  let hi :=
    if wide && Double.lt col.frameHi v then
      Double.max hi (A.add col.frameLo (A.mul Double.two span))
    else hi
  let lo :=
    if wide && Double.lt v col.frameLo then
      Double.min lo (A.sub col.frameHi (A.mul Double.two span))
    else lo
  rescaleBins A col lo hi

def binAdd (col : ColumnCardinality) (v : UInt64) (c : UInt32) : ColumnCardinality :=
  let col := startBins col v
  let extend := Double.lt v col.frameLo || Double.lt col.frameHi v
  let col : ColumnCardinality :=
    { col with
      binMin := Double.min col.binMin v
      binMax := Double.max col.binMax v
      binTotal := col.binTotal + c.toUInt64 }
  let col := if extend then extendFrame A col v else col
  let idx :=
    if Double.lt col.frameLo col.frameHi then
      binIndex A (A.div (A.sub v col.frameLo) (A.sub col.frameHi col.frameLo))
    else 0
  { col with bins := addToBin col.bins idx c }

/-- All that is in the histogram goes into bins. Nothing happens to a column without any. -/
def numericToBinned (col : ColumnCardinality) : ColumnCardinality :=
  if col.numericHist = [] then col
  else
    let lo := (col.numericHist.map (·.1)).headD 0
    let hi := (col.numericHist.map (·.1)).getLastD 0
    let col' := col.numericHist.foldl (fun col e => binAdd A col e.1 e.2)
      { col with
        bins := List.replicate kCardinalityNumBins 0
        binMin := lo
        binMax := hi
        frameLo := lo
        frameHi := hi
        binTotal := 0 }
    { col' with numericHist := [], binned := true, overflowed := true }

/-! Adding to a column. -/

/-- A hash is seen by the registers whether there is room for it or not. -/
def addHash (cap : ℕ) (col : ColumnCardinality) (h : UInt32) : ColumnCardinality :=
  freqAdd cap { col with hll := hllAdd col.hll (hllFinalize h) } h 1

/-- The strings of one row, one for a string column. -/
def addHashes (cap : ℕ) (hs : List UInt32) (col : ColumnCardinality) : ColumnCardinality :=
  if col.mode.counts then hs.foldl (addHash cap) { col with adds := col.adds + 1 } else col

def addNumericColumn (cap : ℕ) (v : UInt64) (col : ColumnCardinality) : ColumnCardinality :=
  if col.mode.counts then
    let col : ColumnCardinality := { col with adds := col.adds + 1 }
    if col.binned then binAdd A col v 1
    else
      let hist := histAdd col.numericHist v 1
      let inserted := col.numericHist.length < hist.length
      let col : ColumnCardinality := { col with numericHist := hist }
      if inserted ∧ cap ≠ 0 ∧ cap < hist.length then numericToBinned A col else col
  else col

/-! Folding two columns. -/

/-- The counts of another histogram, one after the other. -/
def histMerge (dst src : List (UInt64 × UInt32)) : List (UInt64 × UInt32) :=
  src.foldl (fun h e => histAdd h e.1 e.2) dst

/-- The bins of another column, each at its middle between that column's extremes. -/
def binsMerge (dst src : ColumnCardinality) : ColumnCardinality :=
  (List.range kCardinalityNumBins).foldl
    (fun col b =>
      if src.bins.getD b 0 = 0 then col
      else
        binAdd A col
          (A.add src.binMin (A.mul (binMiddle A b) (A.sub src.binMax src.binMin)))
          (src.bins.getD b 0))
    dst

def mergeNumbers (cap : ℕ) (dst src : ColumnCardinality) : ColumnCardinality :=
  let dst := if src.binned && !dst.binned then numericToBinned A dst else dst
  if dst.binned then
    if src.binned then binsMerge A dst src
    else src.numericHist.foldl (fun col e => binAdd A col e.1 e.2) dst
  else
    let dst : ColumnCardinality :=
      { dst with numericHist := histMerge dst.numericHist src.numericHist }
    if cap ≠ 0 ∧ cap < dst.numericHist.length then numericToBinned A dst else dst

/-- The hashes of another column, in the order of its map. -/
def mergeHashes (cap : ℕ) (dst src : ColumnCardinality) : ColumnCardinality :=
  (A.walk src.freq).foldl (fun col e => freqAdd cap col e.1 e.2)
    { dst with
      adds := dst.adds + src.adds
      overflowed := dst.overflowed || src.overflowed
      hll := hllUnion dst.hll src.hll }

def mergeColumn (cap : ℕ) (dst src : ColumnCardinality) : ColumnCardinality :=
  if dst.mode.counts then mergeNumbers A cap (mergeHashes A cap dst src) src else dst

/-! The decision on `auto` columns. -/

def distinctEstimate (col : ColumnCardinality) : UInt64 :=
  if col.hll ≠ [] then A.hllEstimate col.hll
  else if 0 < col.estDistinctStored then A.ofNat col.estDistinctStored.toNat
  else A.ofNat col.freq.length

/-- Free the data of a column. The binning stays on record. -/
def freeData (col : ColumnCardinality) : ColumnCardinality :=
  { col with freq := [], numericHist := [], bins := [], hll := [] }

def evaluateColumn (col : ColumnCardinality) : ColumnCardinality :=
  if col.mode ≠ .auto ∨ col.adds.toNat < kCardinalitySample then col
  else
    let distinct :=
      if col.isNumeric then
        A.ofNat (if col.binned then Nat.min col.binTotal.toNat col.adds.toNat
          else col.numericHist.length)
      else distinctEstimate A col
    if Double.lt Double.half (A.div distinct (A.ofNat col.adds.toNat)) then
      { freeData
          { col with
            estDistinctStored := A.toUInt64 (Double.max Double.one (A.round distinct)) } with
        mode := .rejected }
    else { col with mode := .on }

/-! The table. -/

structure CardinalityTable where
  columns : List ColumnCardinality := []
  /-- From a column of the schema to its place in `columns`. -/
  colToIdx : List (Option ℕ) := []
  nVectors : UInt64 := 0
  cap : ℕ := 1048576
deriving DecidableEq

structure CardinalitySpec where
  defaultMode : CardinalityMode := .off
  perColumn : List (String × CardinalityMode) := []

namespace CardinalityTable

def place (t : CardinalityTable) (c : ℕ) : Option ℕ := t.colToIdx[c]?.join

def column (t : CardinalityTable) (c : ℕ) : Option ColumnCardinality :=
  (t.place c).bind fun ci => t.columns[ci]?

/-- Change the data of a column of the schema, if the table has it. -/
def modify (t : CardinalityTable) (c : ℕ) (f : ColumnCardinality → ColumnCardinality) :
    CardinalityTable :=
  match t.place c with
  | some ci => { t with columns := t.columns.modify ci f }
  | none => t

def counted : ColumnType → Bool
  | .bool => false
  | _ => true

def places : List FilterColumn → ℕ → List (Option ℕ)
  | [], _ => []
  | col :: cols, n =>
    if counted col.type then some n :: places cols (n + 1) else none :: places cols n

def layout (s : Schema) (nVectors : UInt64) (cap : ℕ) (mode : CardinalityMode) :
    CardinalityTable where
  columns := (s.columns.filter fun col => counted col.type).map fun col =>
    { isNumeric := col.type.isNumeric, mode := mode }
  colToIdx := places s.columns 0
  nVectors := nVectors
  cap := cap

/-- The modes that a configuration gives by name, or the text of the error. -/
def setModes (s : Schema) :
    List (String × CardinalityMode) → CardinalityTable → Except String CardinalityTable
  | [], t => .ok t
  | (name, mode) :: rest, t =>
    match s.find name with
    | some c => setModes s rest (t.modify c fun col => { col with mode := mode })
    | none =>
      .error s!"cardinality-col: unknown filter column '{name}' (not in the filter schema)"

def init (s : Schema) (nVectors : UInt64) (cap : ℕ) (spec : Option CardinalitySpec) :
    Except String CardinalityTable :=
  match spec with
  | none => .ok (layout s nVectors cap .off)
  | some spec => setModes s spec.perColumn (layout s nVectors cap spec.defaultMode)

def addString (t : CardinalityTable) (c : ℕ) (val : Bytes) : CardinalityTable :=
  t.modify c (addHashes t.cap [filterHash val])

structure SetColumn where
  counts : ℕ → UInt8
  offsets : ℕ → UInt32
  elemLengths : ℕ → UInt16
  elemData : ℕ → UInt8

/-- The elements of a row, from `byte` on. -/
def SetColumn.elems (s : SetColumn) : (n first : ℕ) → (byte : UInt32) → List Bytes
  | 0, _, _ => []
  | n + 1, first, byte =>
    (List.range (s.elemLengths first).toNat).map (fun i => s.elemData (byte.toNat + i)) ::
      s.elems n (first + 1) (byte + (s.elemLengths first).toUInt32)

/-- The row's elements start after all elements before them, counted in 32 bits. -/
def SetColumn.row (s : SetColumn) (row : ℕ) : List Bytes :=
  let first := (s.offsets row).toNat
  s.elems (s.counts row).toNat first
    ((List.range first).foldl (fun b k => b + (s.elemLengths k).toUInt32) 0)

def addSet (t : CardinalityTable) (c : ℕ) (s : SetColumn) (row : ℕ) : CardinalityTable :=
  t.modify c (addHashes t.cap ((s.row row).map filterHash))

def addNumeric (t : CardinalityTable) (c : ℕ) (v : UInt64) : CardinalityTable :=
  t.modify c (addNumericColumn A t.cap v)

def evaluateAuto (t : CardinalityTable) : CardinalityTable :=
  { t with columns := t.columns.map (evaluateColumn A) }

/-- Column by column as far as both go, then the decision on `auto` columns. -/
def mergeFrom (t other : CardinalityTable) : CardinalityTable :=
  evaluateAuto A
    { t with
      columns := t.columns.zipIdx.map fun (dst, ci) =>
        match other.columns[ci]? with
        | some src => mergeColumn A t.cap dst src
        | none => dst }

def copyMode (src dst : ColumnCardinality) : ColumnCardinality :=
  { dst with
    mode := src.mode
    estDistinctStored :=
      if src.mode = .rejected then src.estDistinctStored else dst.estDistinctStored }

/-- Columns that one of the tables does not know keep their mode. -/
def copyModesFrom (t src : CardinalityTable) : CardinalityTable :=
  (List.range t.colToIdx.length).foldl
    (fun t c =>
      match src.column c with
      | some scol => t.modify c (copyMode scol)
      | none => t)
    t

end CardinalityTable

end Cardinality

end SextantTree
