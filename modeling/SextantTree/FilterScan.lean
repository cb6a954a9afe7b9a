import SextantTree.Schema

/-!
Per-candidate predicate evaluation: the comparand is cast into the column's domain, NULL
fails every comparison.
-/

namespace SextantTree

open FilterHash

/-- What the target's arithmetic and library do where the language leaves it open or where
the value is transcendental. -/
structure Platform where
  /-- `std::llround` of a double outside the range of `long long`. -/
  llroundOut : ℚ → Int64
  /-- `static_cast<float>` of a double that rounds beyond the largest float. -/
  floatOut : ℚ → ℚ
  /-- `std::stod`, `none` where it throws. -/
  stod : Bytes → Option ℚ
  /-- `std::cos` of an angle in degrees. -/
  cosDeg : ℚ → ℚ
  haversineKm : ℚ → ℚ → ℚ → ℚ → ℚ

variable (π : Platform)

/-- Round half away from zero, as SQL casts a constant to an integer column. -/
def llround (d : ℚ) : Int64 :=
  if -2 ^ 63 ≤ Rounding.llround d ∧ Rounding.llround d < 2 ^ 63 then
    Int64.ofInt (Rounding.llround d)
  else π.llroundOut d

/-- `static_cast<float>`: round to binary32, ties to even. -/
def toFloat (d : ℚ) : ℚ :=
  if |Rounding.roundRat 24 (-149) d| < 2 ^ 128 then Rounding.roundRat 24 (-149) d
  else π.floatOut d

/-- The comparand cast to an `int32_t`. -/
def roundToInt32 (d : ℚ) : ℤ := (llround π d).toInt32.toInt

/-- The comparand cast to an `int64_t`. -/
def roundToInt64 (d : ℚ) : ℤ := (llround π d).toInt

/-- Compare a stored value with the comparand in the column's domain. -/
def typedCompare {T : Type} [LinearOrder T] (roundTo : ℚ → T) (p : Predicate) (val : T) : Bool :=
  let pv := roundTo p.value
  let pv2 := roundTo p.value2
  let found := p.values.any fun s => (π.stod s).any fun d => val == roundTo d
  match p.op with
  | .eq => val == pv
  | .notEq => val != pv
  | .lt => decide (val < pv)
  | .le => decide (val ≤ pv)
  | .gt => decide (val > pv)
  | .ge => decide (val ≥ pv)
  | .between => decide (val ≥ pv) && decide (val ≤ pv2)
  | .inList => found
  | .notInList => !found
  | _ => true

/-- Hash scan over the elements of a row's set. -/
def setContainsHash (elems : List Bytes) (h : UInt32) : Bool := elems.any (filterHash · == h)

def setContainsString (elems : List Bytes) (q : Bytes) : Bool := elems.any (· == q)

/-- The query values of a multi-value set predicate. -/
def Predicate.queryVals (p : Predicate) : List Bytes :=
  (if p.strValue.isEmpty then [] else [p.strValue]) ++ p.values

def evalBool (p : Predicate) (val : Bool) : Bool :=
  match p.op with
  | .eq => val == (p.value != 0)
  | .notEq => val != (p.value != 0)
  | _ => true

def evalString (p : Predicate) (sv : Bytes) : Bool :=
  match p.op with
  | .eq =>
    -- hash pre-filter, then the exact test
    if filterHash sv != filterHash p.strValue then false else sv == p.strValue
  | .notEq =>
    if filterHash sv == filterHash p.strValue && sv == p.strValue then false else true
  | .prefixOf => p.strValue.isPrefixOf sv
  | .inList => sv == p.strValue || p.values.any (sv == ·)
  | .notInList => !(sv == p.strValue || p.values.any (sv == ·))
  | _ => true

def evalSet (p : Predicate) (elems : List Bytes) : Bool :=
  let has (q : Bytes) : Bool :=
    setContainsHash elems (filterHash q) && setContainsString elems q
  match p.op with
  | .contains => has p.strValue
  | .containsAny => p.queryVals.any has
  | .containsAll => p.queryVals.all has
  | _ => true

def evalPredicate (p : Predicate) : Option Cell → Bool
  | none => p.op == .isNull
  | some v =>
    if p.op == .isNull then false
    else if p.op == .isNotNull then true
    else
      match v with
      | .int32 v => typedCompare π (roundToInt32 π) p v.toInt
      | .int64 v => typedCompare π (roundToInt64 π) p v.toInt
      | .float v => typedCompare π (toFloat π) p v.val
      | .bool v => evalBool p v
      | .string s => evalString p s
      | .set elems => evalSet p elems

/-- A numeric value widened to double; integers of 64 bits are rounded to 53. -/
def readNumeric : Cell → ℚ
  | .int32 v => v.toInt
  | .int64 v => Rounding.roundInt 53 v.toInt
  | .float v => v.val
  | _ => 0

def readFixedAsDouble : Cell → ℚ
  | .bool v => if v then 1 else 0
  | v => readNumeric v

def evalPredicateGeo (lat lng : Option Cell) (p : Predicate) : Bool :=
  match lat, lng with
  | some lat, some lng =>
    let lat := readFixedAsDouble lat
    let lng := readFixedAsDouble lng
    match p.op with
    | .geoBox => decide (lat ≥ p.value) && decide (lat ≤ p.value3) &&
        decide (lng ≥ p.value2) && decide (lng ≤ p.value4)
    | .geoRadius => decide (π.haversineKm p.value p.value2 lat lng ≤ p.radiusKm)
    | _ => true
  | _, _ => false

variable {s : Schema}

/-- One predicate against one row, by column position. -/
def evalResolved (row : FilterRow s) (r : Resolved) : Bool :=
  if r.pred.op.isGeo then
    match r.lng with
    | none => false
    | some lng =>
      if lng ≥ s.columns.length then false
      else evalPredicateGeo π (row.get r.col) (row.get lng) r.pred
  else evalPredicate π r.pred (row.get r.col)

def evalAllPredicates (row : FilterRow s) (preds : List Resolved) : Bool :=
  preds.all (evalResolved π row)

end SextantTree
