import SextantTree.FilterHash
import SextantTree.Rounding

/-!
Filter columns, rows and predicates, and the resolution of predicates against a schema.
Doubles are exact rationals; a stored float is a rational of the binary32 format.
-/

namespace SextantTree

open FilterHash

inductive ColumnType
  | int32 | int64 | float | bool | string | set
deriving DecidableEq, Repr

namespace ColumnType

/-- `column_type_width`: bytes of a fixed-width value, `0` for the variable ones. -/
def width : ColumnType → ℕ
  | int32 => 4
  | int64 => 8
  | float => 4
  | bool => 1
  | string => 0
  | set => 0

/-- `column_type_name`. -/
def name : ColumnType → String
  | int32 => "int32"
  | int64 => "int64"
  | float => "float"
  | bool => "bool"
  | string => "string"
  | set => "set"

def isNumeric : ColumnType → Bool
  | int32 | int64 | float => true
  | _ => false

end ColumnType

structure FilterColumn where
  name : String
  type : ColumnType
  nullable : Bool := false
deriving DecidableEq, Repr

/-- A declared schema. -/
structure Schema where
  columns : List FilterColumn
  hasPayload : Bool := false

namespace Schema

/-- The position of the first column of that name. -/
def find (s : Schema) (name : String) : Option ℕ := s.columns.findIdx? (·.name == name)

end Schema

def Binary32 : Type := { q : ℚ // ∃ m e : ℤ, |m| < 2 ^ 24 ∧ -149 ≤ e ∧ e ≤ 104 ∧ q = m * 2 ^ e }

instance : DecidableEq Binary32 := inferInstanceAs (DecidableEq (Subtype _))

def Binary32.ofInt (n : ℤ) (h : |n| < 2 ^ 24) : Binary32 := ⟨n, n, 0, h, by simp⟩

/-- One stored value. -/
inductive Cell
  | int32 (v : Int32)
  | int64 (v : Int64)
  | float (v : Binary32)
  | bool (v : Bool)
  | string (s : Bytes)
  | set (elems : List Bytes)
deriving DecidableEq

def Cell.type : Cell → ColumnType
  | int32 _ => .int32
  | int64 _ => .int64
  | float _ => .float
  | bool _ => .bool
  | string _ => .string
  | set _ => .set

/-- A cell of a column: a value of its type, or NULL where the column is nullable. -/
def FilterColumn.Admits (col : FilterColumn) : Option Cell → Prop
  | none => col.nullable = true
  | some v => v.type = col.type

instance (col : FilterColumn) (c : Option Cell) : Decidable (col.Admits c) := by
  cases c <;> exact decEq _ _

lemma conforms_nil : List.Forall₂ FilterColumn.Admits [] [] := .nil

structure FilterRow (s : Schema) where
  cells : List (Option Cell)
  conforms : List.Forall₂ FilterColumn.Admits s.columns cells

namespace FilterRow

variable {s : Schema}

/-- The cell in column `c`. -/
def get (r : FilterRow s) (c : ℕ) : Option Cell := r.cells[c]?.join

lemma length_cells (r : FilterRow s) : r.cells.length = s.columns.length :=
  r.conforms.length_eq.symm

lemma admits_get (r : FilterRow s) {c : ℕ} {col : FilterColumn} (h : s.columns[c]? = some col) :
    col.Admits (r.get c) := by
  obtain ⟨hc, rfl⟩ := List.getElem?_eq_some_iff.mp h
  have hc' : c < r.cells.length := by rw [r.length_cells]; exact hc
  have := List.Forall₂.get r.conforms hc hc'
  simpa [get, List.getElem?_eq_getElem hc'] using this

lemma type_get (r : FilterRow s) {c : ℕ} {col : FilterColumn} {v : Cell}
    (h : s.columns[c]? = some col) (hv : r.get c = some v) : v.type = col.type := by
  have := r.admits_get h
  rwa [hv] at this

end FilterRow

inductive PredicateOp
  | eq | notEq | lt | le | gt | ge | between | prefixOf | inList | notInList
  | contains | containsAny | containsAll
  | geoRadius | geoBox
  | isNull | isNotNull
deriving DecidableEq, Repr

def PredicateOp.isGeo : PredicateOp → Bool
  | geoRadius | geoBox => true
  | _ => false

/-- A predicate on one filter column; which operands are read depends on the operator. -/
structure Predicate where
  column : String
  op : PredicateOp
  value : ℚ := 0
  value2 : ℚ := 0
  value3 : ℚ := 0
  value4 : ℚ := 0
  radiusKm : ℚ := 0
  geoLngColumn : String := ""
  strValue : Bytes := []
  values : List Bytes := []

def predicateAppliesTo (op : PredicateOp) (type : ColumnType) : Bool :=
  match op with
  | .eq | .notEq => type.isNumeric || type == .string || type == .bool
  | .inList | .notInList => type.isNumeric || type == .string
  | .lt | .le | .gt | .ge | .between => type.isNumeric
  | .prefixOf => type == .string
  | .contains | .containsAny | .containsAll => type == .set
  | .geoRadius | .geoBox => type.isNumeric
  | .isNull | .isNotNull => true

/-- A predicate with its column position and, for a geo predicate, the longitude column. -/
structure Resolved where
  pred : Predicate
  col : ℕ
  lng : Option ℕ := none

/-- The longitude column of a geo predicate, none for the others. -/
def resolveLng (s : Schema) (p : Predicate) : Except String (Option ℕ) :=
  if p.op.isGeo then
    if p.geoLngColumn = "" then
      .error ("geo predicate on '" ++ p.column ++ "' requires geo_lng_column")
    else
      match s.find p.geoLngColumn with
      | none => .error ("geo predicate references unknown longitude column '" ++
          p.geoLngColumn ++ "'")
      | some c =>
        match s.columns[c]? with
        | none => .ok none
        | some col =>
          if predicateAppliesTo p.op col.type then .ok (some c)
          else .error ("geo longitude column '" ++ p.geoLngColumn ++ "' must be numeric (got " ++
            col.type.name ++ ")")
  else .ok none

/-- One round of the loop of `resolve_pred_columns_`. -/
def resolvePred (s : Schema) (p : Predicate) : Except String Resolved :=
  match (s.find p.column).bind fun c => (s.columns[c]?).map fun col => (c, col) with
  | none => .error ("predicate references unknown filter column '" ++ p.column ++ "'")
  | some (c, col) =>
    if predicateAppliesTo p.op col.type then
      (resolveLng s p).map fun lng => ⟨p, c, lng⟩
    else .error ("predicate op does not apply to column '" ++ p.column ++ "' of type " ++
      col.type.name)

/-- `resolve_pred_columns_`: the first malformed predicate is reported. -/
def resolvePredColumns (s : Schema) (preds : List Predicate) : Except String (List Resolved) :=
  preds.mapM (resolvePred s)

/-- What resolution establishes of one predicate. -/
def Resolved.Fits (s : Schema) (r : Resolved) : Prop :=
  ∃ col, s.columns[r.col]? = some col ∧ predicateAppliesTo r.pred.op col.type = true

lemma resolvePred_fits {s : Schema} {p : Predicate} {r : Resolved}
    (h : resolvePred s p = .ok r) : r.Fits s ∧ r.pred = p := by
  unfold resolvePred at h
  split at h
  · cases h
  next c col hfind =>
    split at h
    next happ =>
      cases hl : resolveLng s p with
      | error e => simp [hl, Except.map] at h
      | ok lng =>
        simp only [hl, Except.map, Except.ok.injEq] at h
        subst h
        obtain ⟨c', -, hc'⟩ := Option.bind_eq_some_iff.mp hfind
        obtain ⟨col', hcol, heq⟩ := Option.map_eq_some_iff.mp hc'
        cases heq
        exact ⟨⟨col, hcol, happ⟩, rfl⟩
    · cases h

lemma resolvePredColumns_fits {s : Schema} {preds : List Predicate} {rs : List Resolved}
    (h : resolvePredColumns s preds = .ok rs) : ∀ r ∈ rs, r.Fits s ∧ r.pred ∈ preds := by
  induction preds generalizing rs with
  | nil =>
    cases h
    simp
  | cons p preds ih =>
    simp only [resolvePredColumns, List.mapM_cons] at h
    cases hp : resolvePred s p with
    | error e => simp [hp, bind, Except.bind] at h
    | ok r₀ =>
      cases hrest : List.mapM (resolvePred s) preds with
      | error e => simp [hp, hrest, bind, Except.bind] at h
      | ok rest =>
        simp only [hp, hrest, bind, Except.bind, pure, Except.pure, Except.ok.injEq] at h
        subst h
        intro r hr
        rcases List.mem_cons.mp hr with rfl | hr
        · obtain ⟨hfit, hpred⟩ := resolvePred_fits hp
          exact ⟨hfit, by simp [hpred]⟩
        · obtain ⟨hfit, hmem⟩ := ih hrest r hr
          exact ⟨hfit, List.mem_cons_of_mem _ hmem⟩

end SextantTree
