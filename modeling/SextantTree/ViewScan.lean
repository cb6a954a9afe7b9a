import SextantTree.ColumnBytes
import SextantTree.FilterScan

/-!
Predicates on the zero-copy views of a leaf (`eval_predicate`, `eval_predicate_geo`,
`eval_all_predicates`), and four rows at a time (`eval_predicate_batch4`,
`eval_all_predicates_batch4`), both compiled variants of it. `FilterScan` has the same evaluation
on typed cells; here the bytes are read where the view says they are.
-/

namespace SextantTree.ColumnBytes

open FilterHash ByteMem

/-! ### Stored numbers -/

def signedLe (b : Bytes) : ℤ :=
  if 2 * leNat b < 256 ^ b.length then leNat b else leNat b - 256 ^ b.length

/-- A value of a binary floating-point format. -/
inductive Ieee
  | nan
  | inf (negative : Bool)
  | finite (q : ℚ)
deriving DecidableEq

namespace Ieee

def lt : Ieee → Ieee → Bool
  | finite a, finite b => decide (a < b)
  | finite _, inf n => !n
  | inf n, finite _ => n
  | inf a, inf b => a && !b
  | _, _ => false

/-- `==`: not reflexive at `nan`. -/
def eq : Ieee → Ieee → Bool
  | finite a, finite b => decide (a = b)
  | inf a, inf b => a == b
  | _, _ => false

def le (a b : Ieee) : Bool := a.lt b || a.eq b

def ofBits32 (n : ℕ) : Ieee :=
  let e : ℕ := n / 2 ^ 23 % 2 ^ 8
  let f : ℕ := n % 2 ^ 23
  let negative := decide (2 ^ 31 ≤ n)
  if e = 255 then (if f = 0 then inf negative else nan)
  else
    let q : ℚ := if e = 0 then f * 2 ^ (-149 : ℤ) else (2 ^ 23 + f) * 2 ^ ((e : ℤ) - 150)
    finite (if negative then -q else q)

end Ieee

structure Domain (T : Type) where
  eq : T → T → Bool
  lt : T → T → Bool
  le : T → T → Bool

def intDomain : Domain ℤ := ⟨fun a b => a == b, fun a b => decide (a < b), fun a b => decide (a ≤ b)⟩

def floatDomain : Domain Ieee := ⟨Ieee.eq, Ieee.lt, Ieee.le⟩

/-! ### One row -/

/-- What the target does where the language leaves it open, or where the value is
transcendental. -/
structure Target extends Platform where
  /-- `static_cast<int32_t>` of a double whose integral part is out of range. -/
  int32Out : ℚ → Int32
  /-- `haversine_km`, the second point as stored. -/
  haversine : ℚ → ℚ → Ieee → Ieee → Ieee

variable (π : Target)

/-- `typed_compare`, for the comparisons and the cast of the column's type. -/
def typedCompare {T : Type} (dom : Domain T) (roundTo : ℚ → T) (p : Predicate) (val : T) : Bool :=
  let pv := roundTo p.value
  let pv2 := roundTo p.value2
  let found := p.values.any fun s => (π.stod s).any fun d => dom.eq val (roundTo d)
  match p.op with
  | .eq => dom.eq val pv
  | .notEq => !dom.eq val pv
  | .lt => dom.lt val pv
  | .le => dom.le val pv
  | .gt => dom.lt pv val
  | .ge => dom.le pv val
  | .between => dom.le pv val && dom.le val pv2
  | .inList => found
  | .notInList => !found
  | _ => true

def evalBool (p : Predicate) (val : Bool) : Bool :=
  match p.op with
  | .eq => val == (p.value != 0)
  | .notEq => val != (p.value != 0)
  | _ => true

/-- The string case, with the hash stored beside the string. -/
def evalString (p : Predicate) (sv : Bytes) (hash : ℕ) : Bool :=
  let qhash := (filterHash p.strValue).toNat
  match p.op with
  | .eq => if hash != qhash then false else sv == p.strValue
  | .notEq => if hash == qhash then (if sv == p.strValue then false else true) else true
  | .prefixOf => p.strValue.isPrefixOf sv
  | .inList => sv == p.strValue || p.values.any (sv == ·)
  | .notInList => !(sv == p.strValue || p.values.any (sv == ·))
  | _ => true

/-- The set case, with the hashes stored for the elements. -/
def evalSet (p : Predicate) (elems : List Bytes) (hashes : List ℕ) : Bool :=
  let has (q : Bytes) : Bool := hashes.any (· == (filterHash q).toNat) && elems.any (· == q)
  match p.op with
  | .contains => has p.strValue
  | .containsAny => p.queryVals.any has
  | .containsAll => p.queryVals.all has
  | _ => true

/-- The value of a row, by the type of the column. -/
def evalRaw (type : ColumnType) (p : Predicate) (hashes : List ℕ) : RawCell → Bool
  | .fixed b =>
    match type with
    | .int32 => typedCompare π intDomain (roundToInt32 π.toPlatform) p (signedLe b)
    | .int64 => typedCompare π intDomain (roundToInt64 π.toPlatform) p (signedLe b)
    | .float => typedCompare π floatDomain (fun d => .finite (toFloat π.toPlatform d)) p
        (Ieee.ofBits32 (leNat b))
    | .bool => evalBool p (b.headD 0 != 0)
    | _ => true
  | .string sv => evalString p sv (hashes.headD 0)
  | .set elems => evalSet p elems hashes

/-- `eval_predicate`. -/
def evalPredicate (m : Mem) (v : ColumnView) (i : ℕ) (p : Predicate) : Bool :=
  if v.isNull m i then p.op == .isNull
  else if p.op == .isNull then false
  else if p.op == .isNotNull then true
  else evalRaw π v.type p (v.hashes m i) (v.raw m i)

/-- `read_fixed_as_double`. -/
def readFixedAsDouble (m : Mem) (v : ColumnView) (i : ℕ) : Ieee :=
  let b := peek m (v.fixedBase + i * v.fixedWidth) v.fixedWidth
  match v.type with
  | .int32 => .finite (signedLe b)
  | .int64 => .finite (Rounding.roundInt 53 (signedLe b))
  | .float => Ieee.ofBits32 (leNat b)
  | .bool => .finite (b.headD 0).toNat
  | _ => .finite 0

/-- `eval_predicate_geo`. -/
def evalPredicateGeo (m : Mem) (lat lng : ColumnView) (i : ℕ) (p : Predicate) : Bool :=
  if lat.isNull m i || lng.isNull m i then false
  else
    let lat := readFixedAsDouble m lat i
    let lng := readFixedAsDouble m lng i
    match p.op with
    | .geoBox => Ieee.le (.finite p.value) lat && lat.le (.finite p.value3) &&
        Ieee.le (.finite p.value2) lng && lng.le (.finite p.value4)
    | .geoRadius => (π.haversine p.value p.value2 lat lng).le (.finite p.radiusKm)
    | _ => true

/-- One predicate of a list, its columns by position. -/
def evalResolved (m : Mem) (cols : List ColumnView) (i : ℕ) (r : Resolved) : Bool :=
  if r.pred.op.isGeo then
    match r.lng.bind (cols[·]?) with
    | none => false
    | some lng => evalPredicateGeo π m (cols.getD r.col {}) lng i r.pred
  else evalPredicate π m (cols.getD r.col {}) i r.pred

/-- `eval_all_predicates`. -/
def evalAllPredicates (m : Mem) (cols : List ColumnView) (i : ℕ) (preds : List Resolved) : Bool :=
  preds.all (evalResolved π m cols i)

/-! ### Four rows at a time -/

/-- `static_cast<int32_t>` of a double: toward zero. -/
def toInt32 (d : ℚ) : ℤ :=
  let t := if 0 ≤ d then ⌊d⌋ else ⌈d⌉
  if -2 ^ 31 ≤ t ∧ t < 2 ^ 31 then t else (π.int32Out d).toInt

/-- The mask whose bit `j` says whether row `j` of four passes. -/
def mask4 (pass : ℕ → Bool) : ℕ :=
  (List.range 4).foldl (fun mask j => if pass j then mask ||| 1 <<< j else mask) 0

/-- The comparison of the Int32 branch; `none` for an operator it does not have. -/
def compare4 (op : PredicateOp) (val pv pv2 : ℤ) : Option Bool :=
  match op with
  | .eq => some (val == pv)
  | .lt => some (decide (val < pv))
  | .le => some (decide (val ≤ pv))
  | .gt => some (decide (val > pv))
  | .ge => some (decide (val ≥ pv))
  | .between => some (decide (val ≥ pv) && decide (val ≤ pv2))
  | _ => none

/-- `eval_predicate_batch4`. The vector variant falls back for three operators only; for the rest
that it does not compare, all lanes are zero. -/
def evalPredicateBatch4 (neon : Bool) (m : Mem) (v : ColumnView) (start : ℕ) (p : Predicate) : ℕ :=
  if v.type ≠ .int32 then mask4 fun j => evalPredicate π m v (start + j) p
  else
    let val (j : ℕ) : ℤ := signedLe (peek m (v.fixedBase + 4 * (start + j)) 4)
    let pass (j : ℕ) : Option Bool := compare4 p.op (val j) (toInt32 π p.value) (toInt32 π p.value2)
    if neon then
      if p.op = .notEq ∨ p.op = .inList ∨ p.op = .notInList then
        mask4 fun j => evalPredicate π m v (start + j) p
      else mask4 fun j => (pass j).getD false
    else mask4 fun j => (pass j).getD (evalPredicate π m v (start + j) p)

def batch4Resolved (neon : Bool) (m : Mem) (cols : List ColumnView) (start : ℕ) (r : Resolved) : ℕ :=
  if r.pred.op.isGeo then
    match r.lng.bind (cols[·]?) with
    | none => 0
    | some lng => mask4 fun j => evalPredicateGeo π m (cols.getD r.col {}) lng (start + j) r.pred
  else evalPredicateBatch4 π neon m (cols.getD r.col {}) start r.pred

/-- The loop of `eval_all_predicates_batch4`: it stops at an empty mask. -/
def batch4Loop (neon : Bool) (m : Mem) (cols : List ColumnView) (start : ℕ) :
    (mask : ℕ) → List Resolved → ℕ
  | mask, [] => mask
  | mask, r :: rest =>
    if mask = 0 then mask
    else batch4Loop neon m cols start (mask &&& batch4Resolved π neon m cols start r) rest

/-- `eval_all_predicates_batch4`. -/
def evalAllPredicatesBatch4 (neon : Bool) (m : Mem) (cols : List ColumnView) (start : ℕ)
    (preds : List Resolved) : ℕ :=
  batch4Loop π neon m cols start 0xF preds

end SextantTree.ColumnBytes
