import SextantTree.Cardinality

/-!
Selectivity: the fraction of the vectors that a search expects to match its predicates, from the
table alone. A single is its 32 bits; its arithmetic is a parameter.
-/

namespace SextantTree

namespace Double

/-- `<=` of doubles. -/
def le (a b : UInt64) : Bool :=
  match key a, key b with
  | some x, some y => decide (x ≤ y)
  | _, _ => false

def kmPerDegLat : UInt64 := 0x405BC00000000000
def degToRad : UInt64 := 0x3F91DF46A2529D39
def tinyCos : UInt64 := 0x3EB0C6F7A0B5ED8D
def halfTurn : UInt64 := 0x4066800000000000

end Double

namespace Single

def zero : UInt32 := 0
def one : UInt32 := 0x3F800000

/-- `0.0001f`. -/
def floor : UInt32 := 0x38D1B717

end Single

/-- Arithmetic of singles, and what else of doubles the estimates need. -/
structure SelectivityPlatform extends CardinalityPlatform where
  /-- `static_cast<float>` of a double, and of an integer. -/
  toSingle : UInt64 → UInt32
  singleOfNat : ℕ → UInt32
  addSingle : UInt32 → UInt32 → UInt32
  mulSingle : UInt32 → UInt32 → UInt32
  divSingle : UInt32 → UInt32 → UInt32
  ltSingle : UInt32 → UInt32 → Bool
  /-- `std::nextafter(x, HUGE_VAL)`. -/
  nextUp : UInt64 → UInt64
  cos : UInt64 → UInt64
  abs : UInt64 → UInt64
  /-- An operand of a predicate. -/
  operand : ℚ → UInt64

namespace Cardinality

open FilterHash

variable (A : SelectivityPlatform)

def minSingle (a b : UInt32) : UInt32 := if A.ltSingle b a then b else a

def maxSingle (a b : UInt32) : UInt32 := if A.ltSingle a b then b else a

/-- One of `d` values, each as frequent as the others. -/
def uniformPrior (d : UInt64) : UInt32 :=
  A.toSingle (Double.min Double.one (A.div Double.one d))

def untrackedPrior (nVectors : UInt64) (col : ColumnCardinality) : UInt32 :=
  if 0 < col.estDistinctStored then uniformPrior A (A.ofNat col.estDistinctStored.toNat)
  else if 0 < nVectors then A.divSingle Single.one (A.singleOfNat nVectors.toNat)
  else Single.one

/-- The values of a histogram from the first that is not below `v`. -/
def lowerBound (hist : List (UInt64 × UInt32)) (v : UInt64) : List (UInt64 × UInt32) :=
  hist.dropWhile fun e => Double.lt e.1 v

/-- The values of a histogram from the first above `v`. -/
def upperBound (hist : List (UInt64 × UInt32)) (v : UInt64) : List (UInt64 × UInt32) :=
  hist.dropWhile fun e => !Double.lt v e.1

/-- The count of `v`. -/
def histFind (hist : List (UInt64 × UInt32)) (v : UInt64) : Option UInt32 :=
  match lowerBound hist v with
  | [] => none
  | e :: _ => if Double.lt v e.1 then none else some e.2

def sumCounts (es : List (UInt64 × UInt32)) : UInt64 :=
  es.foldl (fun matching e => matching + e.2.toUInt64) 0

/-- How many of the histogram's values match; the operators without an estimate have none. -/
def histMatching (hist : List (UInt64 × UInt32)) (pred : Predicate) : Option UInt64 :=
  let v := A.operand pred.value
  match pred.op with
  | .eq => some ((histFind hist v).getD 0).toUInt64
  | .gt => some (sumCounts (upperBound hist v))
  | .ge => some (sumCounts (lowerBound hist v))
  | .lt => some (sumCounts (hist.takeWhile fun e => Double.lt e.1 v))
  | .le => some (sumCounts (hist.takeWhile fun e => Double.le e.1 v))
  | .between => some (sumCounts ((lowerBound hist v).takeWhile fun e =>
      Double.le e.1 (A.operand pred.value2)))
  | _ => none

/-- The mass below `x`, with a part of the bin that `x` is in. -/
def massLt (col : ColumnCardinality) (x : UInt64) : UInt64 :=
  if Double.lt col.binMin x = false then Double.zero
  else if Double.le col.binMax x then A.ofNat col.binTotal.toNat
  else
    let span := A.sub col.frameHi col.frameLo
    let pos :=
      if Double.lt Double.zero span then
        A.mul (A.div (A.sub x col.frameLo) span) (A.ofNat kCardinalityNumBins)
      else Double.zero
    let pos := Double.min (Double.max pos Double.zero) (A.ofNat (kCardinalityNumBins - 1))
    let bi := (A.toUInt32 pos).toNat
    let mass := (List.range bi).foldl
      (fun mass j => A.add mass (A.ofNat (col.bins.getD j 0).toNat)) Double.zero
    A.add mass (A.mul (A.ofNat (col.bins.getD bi 0).toNat) (A.sub pos (A.ofNat bi)))

def massLe (col : ColumnCardinality) (x : UInt64) : UInt64 :=
  if Double.le col.binMax x then A.ofNat col.binTotal.toNat else massLt A col (A.nextUp x)

def binsMatching (col : ColumnCardinality) (pred : Predicate) : Option UInt64 :=
  let total := A.ofNat col.binTotal.toNat
  let v := A.operand pred.value
  match pred.op with
  | .eq =>
    some (if Double.le col.binMin v && Double.le v col.binMax then
        A.div total (A.ofNat kCardinalityNumBins)
      else Double.zero)
  | .gt => some (A.sub total (massLe A col v))
  | .ge => some (A.sub total (massLt A col v))
  | .lt => some (massLt A col v)
  | .le => some (massLe A col v)
  | .between =>
    some (Double.max Double.zero
      (A.sub (massLe A col (A.operand pred.value2)) (massLt A col v)))
  | _ => none

def selectivityBinned (nVectors : UInt64) (col : ColumnCardinality) (pred : Predicate) : UInt32 :=
  if col.binTotal = 0 ∨ col.bins = [] then Single.one
  else
    match binsMatching A col pred with
    | none => Single.one
    | some matching =>
      A.toSingle
        (Double.clamp (A.div matching (A.ofNat nVectors.toNat)) Double.zero Double.one)

/-- A string in a column, or the prior where the table cannot know. -/
def stringIn (nVectors : UInt64) (col : ColumnCardinality) (val : Bytes) : UInt32 :=
  if col.mode.counts then
    match col.freq.lookup (filterHash val) with
    | some cnt => A.divSingle (A.singleOfNat cnt.toNat) (A.singleOfNat nVectors.toNat)
    | none =>
      if col.overflowed then
        uniformPrior A (Double.max (distinctEstimate A.toCardinalityPlatform col) Double.one)
      else Single.zero
  else untrackedPrior A nVectors col

def numberIn (nVectors : UInt64) (col : ColumnCardinality) (pred : Predicate) : UInt32 :=
  if col.mode.counts = false ∧ pred.op = .eq then untrackedPrior A nVectors col
  else if col.binned then selectivityBinned A nVectors col pred
  else if col.numericHist = [] then Single.one
  else
    match histMatching A col.numericHist pred with
    | none => Single.one
    | some matching =>
      A.divSingle (A.singleOfNat matching.toNat) (A.singleOfNat nVectors.toNat)

/-- The fraction of `[lo, hi]` that lies in what was seen of the column. -/
def overlapIn (col : ColumnCardinality) (lo hi : UInt64) : UInt32 :=
  let seen :=
    if col.binned then if col.bins = [] then none else some (col.binMin, col.binMax)
    else if col.numericHist = [] then none
    else some ((col.numericHist.map (·.1)).headD 0, (col.numericHist.map (·.1)).getLastD 0)
  match seen with
  | none => Single.one
  | some (colMin, colMax) =>
    let span := A.sub colMax colMin
    if Double.le span Double.zero then
      if Double.le lo colMin && Double.le colMin hi then Single.one else Single.zero
    else
      let loC := Double.max lo colMin
      let hiC := Double.min hi colMax
      if Double.lt hiC loC then Single.zero else A.toSingle (A.div (A.sub hiC loC) span)

structure GeoBounds where
  latLo : UInt64
  latHi : UInt64
  lngLo : UInt64
  lngHi : UInt64

def geoBounds (pred : Predicate) : GeoBounds :=
  let value := A.operand pred.value
  let value2 := A.operand pred.value2
  if pred.op = .geoBox then
    { latLo := value
      latHi := A.operand pred.value3
      lngLo := value2
      lngHi := A.operand pred.value4 }
  else
    let radius := A.operand pred.radiusKm
    let dlat := A.div radius Double.kmPerDegLat
    let cosLat := A.cos (A.mul value Double.degToRad)
    let dlng :=
      if Double.lt (A.abs cosLat) Double.tinyCos then Double.halfTurn
      else A.div radius (A.mul Double.kmPerDegLat cosLat)
    { latLo := A.sub value dlat
      latHi := A.add value dlat
      lngLo := A.sub value2 dlng
      lngHi := A.add value2 dlng }

namespace CardinalityTable

def selectivityString (t : CardinalityTable) (c : ℕ) (val : Bytes) : UInt32 :=
  if t.nVectors = 0 then Single.one
  else
    match t.column c with
    | none => untrackedPrior A t.nVectors {}
    | some col => stringIn A t.nVectors col val

def selectivitySet (t : CardinalityTable) (c : ℕ) (val : Bytes) : UInt32 :=
  t.selectivityString A c val

def selectivityNumeric (t : CardinalityTable) (c : ℕ) (pred : Predicate) : UInt32 :=
  if t.nVectors = 0 then Single.one
  else
    match t.column c with
    | none => if pred.op = .eq then untrackedPrior A t.nVectors {} else Single.one
    | some col => numberIn A t.nVectors col pred

def overlapFrac (t : CardinalityTable) (c : Option ℕ) (lo hi : UInt64) : UInt32 :=
  match c.bind t.column with
  | none => Single.one
  | some col => overlapIn A col lo hi

def selectivityGeo (t : CardinalityTable) (lat : ℕ) (lng : Option ℕ) (pred : Predicate) : UInt32 :=
  let box := geoBounds A pred
  minSingle A (A.mulSingle (t.overlapFrac A (some lat) box.latLo box.latHi)
    (t.overlapFrac A lng box.lngLo box.lngHi)) Single.one

def selectivityOf (t : CardinalityTable) (s : Schema) (r : Resolved) : UInt32 :=
  let type := (s.columns[r.col]?).map (·.type)
  if r.pred.op.isGeo then t.selectivityGeo A r.col r.lng r.pred
  else if type.any (·.isNumeric) then t.selectivityNumeric A r.col r.pred
  else if type = some .string then
    match r.pred.op with
    | .eq => t.selectivityString A r.col r.pred.strValue
    | .inList =>
      let sum := if r.pred.strValue = [] then Single.zero
        else A.addSingle Single.zero (t.selectivityString A r.col r.pred.strValue)
      minSingle A
        (r.pred.values.foldl
          (fun sum v => A.addSingle sum (t.selectivityString A r.col v)) sum)
        Single.one
    | _ => Single.one
  else if type = some .set ∧ r.pred.op = .contains then
    t.selectivitySet A r.col r.pred.strValue
  else Single.one

def selectivityCombined (t : CardinalityTable) (s : Schema) (preds : List Resolved) : UInt32 :=
  if preds = [] then Single.one
  else
    minSingle A
      (preds.foldl
        (fun sel r => A.mulSingle sel (maxSingle A (t.selectivityOf A s r) Single.floor))
        Single.one)
      Single.one

end CardinalityTable

end Cardinality

end SextantTree
