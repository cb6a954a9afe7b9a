import SextantTree.ColumnRoundTrip
import SextantTree.SummarySound
import SextantTree.ViewScan

/-!
Predicate evaluation against what SQL answers, on the rows that were written. The code agrees
wherever an integer comparand fits the type of its column and the single comparand slot does not
join the list of values.
-/

namespace SextantTree.ColumnBytes

open FilterHash ByteMem

variable (π : Target)

/-! ### The reference -/

/-- A comparison of SQL, the comparand cast to the type of the column. -/
def SqlCompare {T : Type} (eq lt le : T → T → Prop) (cast : ℚ → T) (p : Predicate) (val : T) : Prop :=
  match p.op with
  | .eq => eq val (cast p.value)
  | .notEq => ¬ eq val (cast p.value)
  | .lt => lt val (cast p.value)
  | .le => le val (cast p.value)
  | .gt => lt (cast p.value) val
  | .ge => le (cast p.value) val
  | .between => le (cast p.value) val ∧ le val (cast p.value2)
  | .inList => ∃ s ∈ p.values, ∃ d ∈ π.stod s, eq val (cast d)
  | .notInList => ¬ ∃ s ∈ p.values, ∃ d ∈ π.stod s, eq val (cast d)
  | _ => True

/-- An integer is compared with the rounded comparand, of whatever size. -/
abbrev IntAnswer (p : Predicate) (val : ℤ) : Prop :=
  SqlCompare π (· = ·) (· < ·) (· ≤ ·) Rounding.llround p val

/-- A float is compared in binary32. -/
abbrev FloatAnswer (p : Predicate) (val : Ieee) : Prop :=
  SqlCompare π (fun a b => a.eq b = true) (fun a b => a.lt b = true) (fun a b => a.le b = true)
    (fun d => .finite (toFloat π.toPlatform d)) p val

def BoolAnswer (p : Predicate) (val : Bool) : Prop :=
  match p.op with
  | .eq => (val = true ↔ p.value ≠ 0)
  | .notEq => ¬ (val = true ↔ p.value ≠ 0)
  | _ => True

def StringAnswer (p : Predicate) (sv : Bytes) : Prop :=
  match p.op with
  | .eq => sv = p.strValue
  | .notEq => sv ≠ p.strValue
  | .prefixOf => p.strValue <+: sv
  | .inList => sv ∈ p.values
  | .notInList => sv ∉ p.values
  | _ => True

def SetAnswer (p : Predicate) (elems : List Bytes) : Prop :=
  match p.op with
  | .contains => p.strValue ∈ elems
  | .containsAny => ∃ q ∈ p.values, q ∈ elems
  | .containsAll => ∀ q ∈ p.values, q ∈ elems
  | _ => True

/-- The answer for a value of a column of this type. -/
def ValueAnswer (type : ColumnType) (p : Predicate) : RawCell → Prop
  | .fixed b =>
    match type with
    | .int32 | .int64 => IntAnswer π p (signedLe b)
    | .float => FloatAnswer π p (Ieee.ofBits32 (leNat b))
    | .bool => BoolAnswer p (b.headD 0 != 0)
    | _ => True
  | .string sv => StringAnswer p sv
  | .set elems => SetAnswer p elems

/-- **What SQL answers**: NULL passes IS NULL and nothing else. -/
def Answer (type : ColumnType) (p : Predicate) : Option RawCell → Prop
  | none => p.op = .isNull
  | some raw =>
    match p.op with
    | .isNull => False
    | .isNotNull => True
    | _ => ValueAnswer π type p raw

/-! ### Where the code gives it -/

/-- The rounded comparand is an integer of that many bits. -/
def Fits (bits : ℕ) (d : ℚ) : Prop :=
  -2 ^ (bits - 1) ≤ Rounding.llround d ∧ Rounding.llround d < 2 ^ (bits - 1)

instance (bits : ℕ) (d : ℚ) : Decidable (Fits bits d) := inferInstanceAs (Decidable (_ ∧ _))

/-- A comparand beyond the type stays on its side of the value after the cast, apart from
equality. -/
def Beside (bits : ℕ) (cast : ℚ → ℤ) (val : ℤ) (d : ℚ) : Prop :=
  Fits bits d ∨ (0 < Rounding.llround d ∧ val < cast d) ∨ (Rounding.llround d < 0 ∧ cast d ≤ val)

/-- The same, with equality on the other side. -/
def BesideEq (bits : ℕ) (cast : ℚ → ℤ) (val : ℤ) (d : ℚ) : Prop :=
  Fits bits d ∨ (0 < Rounding.llround d ∧ val ≤ cast d) ∨ (Rounding.llround d < 0 ∧ cast d < val)

/-- What the cast of the comparand must not change for an integer column of that many bits. -/
def IntKept (bits : ℕ) (cast : ℚ → ℤ) (p : Predicate) (val : ℤ) : Prop :=
  match p.op with
  | .eq | .notEq => Fits bits p.value ∨ cast p.value ≠ val
  | .lt | .ge => Beside bits cast val p.value
  | .le | .gt => BesideEq bits cast val p.value
  | .between =>
    (Beside bits cast val p.value ∧ BesideEq bits cast val p.value2) ∨
      (¬ (Rounding.llround p.value ≤ val ∧ val ≤ Rounding.llround p.value2) ∧
        ¬ (cast p.value ≤ val ∧ val ≤ cast p.value2))
  | .inList | .notInList =>
    (∀ s ∈ p.values, ∀ d ∈ π.stod s, Fits bits d ∨ cast d ≠ val) ∨
      ∃ s ∈ p.values, ∃ d ∈ π.stod s, val = Rounding.llround d
  | _ => True

/-- The single comparand does not add a string to the list. -/
def StringKept (p : Predicate) (sv : Bytes) : Prop :=
  match p.op with
  | .inList | .notInList => sv = p.strValue → sv ∈ p.values
  | _ => True

def SetKept (p : Predicate) (elems : List Bytes) : Prop :=
  match p.op with
  | .containsAny => p.strValue = [] ∨ p.strValue ∉ elems ∨ ∃ q ∈ p.values, q ∈ elems
  | .containsAll => p.strValue = [] ∨ p.strValue ∈ elems ∨ ∃ q ∈ p.values, q ∉ elems
  | _ => True

/-- The condition on a predicate and a cell. -/
def Kept (type : ColumnType) (p : Predicate) : Option RawCell → Prop
  | none => True
  | some (.fixed b) =>
    match type with
    | .int32 => IntKept π 32 (roundToInt32 π.toPlatform) p (signedLe b)
    | .int64 => IntKept π 64 (roundToInt64 π.toPlatform) p (signedLe b)
    | _ => True
  | some (.string sv) => StringKept p sv
  | some (.set elems) => SetKept p elems

/-! ### Integers -/

section Integers

variable {π} {bits : ℕ} {cast : ℚ → ℤ} {val : ℤ} {d : ℚ}

lemma beyond_of_not_fits (hval : -2 ^ (bits - 1) ≤ val ∧ val < 2 ^ (bits - 1)) (h : ¬ Fits bits d) :
    (0 < Rounding.llround d ∧ val < Rounding.llround d) ∨
      (Rounding.llround d < 0 ∧ Rounding.llround d < val) := by
  have hpos : (0 : ℤ) < 2 ^ (bits - 1) := by positivity
  unfold Fits at h
  generalize (2 : ℤ) ^ (bits - 1) = n at hval h hpos
  omega

lemma eq_kept_iff (hcast : Fits bits d → cast d = Rounding.llround d)
    (hval : -2 ^ (bits - 1) ≤ val ∧ val < 2 ^ (bits - 1)) :
    (val = cast d ↔ val = Rounding.llround d) ↔ Fits bits d ∨ cast d ≠ val := by
  by_cases h : Fits bits d
  · rw [hcast h]
    exact iff_of_true Iff.rfl (.inl h)
  · have hb := beyond_of_not_fits hval h
    rw [or_iff_right h]
    omega

lemma lt_kept_iff (hcast : Fits bits d → cast d = Rounding.llround d)
    (hval : -2 ^ (bits - 1) ≤ val ∧ val < 2 ^ (bits - 1)) :
    (val < cast d ↔ val < Rounding.llround d) ↔ Beside bits cast val d := by
  unfold Beside
  by_cases h : Fits bits d
  · rw [hcast h]
    exact iff_of_true Iff.rfl (.inl h)
  · have hb := beyond_of_not_fits hval h
    rw [or_iff_right h]
    omega

lemma le_kept_iff (hcast : Fits bits d → cast d = Rounding.llround d)
    (hval : -2 ^ (bits - 1) ≤ val ∧ val < 2 ^ (bits - 1)) :
    (val ≤ cast d ↔ val ≤ Rounding.llround d) ↔ BesideEq bits cast val d := by
  unfold BesideEq
  by_cases h : Fits bits d
  · rw [hcast h]
    exact iff_of_true Iff.rfl (.inl h)
  · have hb := beyond_of_not_fits hval h
    rw [or_iff_right h]
    omega

lemma mem_kept_iff {p : Predicate} (hcast : ∀ d, Fits bits d → cast d = Rounding.llround d)
    (hval : -2 ^ (bits - 1) ≤ val ∧ val < 2 ^ (bits - 1)) :
    ((∃ s ∈ p.values, ∃ d ∈ π.stod s, val = cast d) ↔
        ∃ s ∈ p.values, ∃ d ∈ π.stod s, val = Rounding.llround d) ↔
      (∀ s ∈ p.values, ∀ d ∈ π.stod s, Fits bits d ∨ cast d ≠ val) ∨
        ∃ s ∈ p.values, ∃ d ∈ π.stod s, val = Rounding.llround d := by
  constructor
  · intro h
    by_cases hex : ∃ s ∈ p.values, ∃ d ∈ π.stod s, val = Rounding.llround d
    · exact .inr hex
    · refine .inl fun s hs d hd => ?_
      by_contra hbad
      rw [not_or, not_ne_iff] at hbad
      exact hex (h.mp ⟨s, hs, d, hd, hbad.2.symm⟩)
  · rintro (h | hex)
    · constructor
      · rintro ⟨s, hs, d, hd, heq⟩
        exact ⟨s, hs, d, hd, ((eq_kept_iff (hcast d) hval).mpr (h s hs d hd)).mp heq⟩
      · rintro ⟨s, hs, d, hd, heq⟩
        exact ⟨s, hs, d, hd, ((eq_kept_iff (hcast d) hval).mpr (h s hs d hd)).mpr heq⟩
    · obtain ⟨s, hs, d, hd, heq⟩ := hex
      have hfit : Fits bits d := by
        unfold Fits
        rw [← heq]
        exact hval
      exact iff_of_true ⟨s, hs, d, hd, by rw [hcast d hfit, heq]⟩ ⟨s, hs, d, hd, heq⟩

lemma sqlCompare_cast_iff {p : Predicate} (hcast : ∀ d, Fits bits d → cast d = Rounding.llround d)
    (hval : -2 ^ (bits - 1) ≤ val ∧ val < 2 ^ (bits - 1)) :
    (SqlCompare π (· = ·) (· < ·) (· ≤ ·) cast p val ↔ IntAnswer π p val) ↔
      IntKept π bits cast p val := by
  have heq (d : ℚ) := eq_kept_iff (hcast d) hval
  have hlt (d : ℚ) := lt_kept_iff (hcast d) hval
  have hle (d : ℚ) := le_kept_iff (hcast d) hval
  unfold IntAnswer SqlCompare IntKept
  cases p.op with
  | eq => exact heq _
  | notEq =>
    rw [not_iff_not]
    exact heq _
  | lt => exact hlt _
  | le => exact hle _
  | gt =>
    dsimp only
    rw [← not_le, ← not_le, not_iff_not]
    exact hle _
  | ge =>
    dsimp only
    rw [← not_lt, ← not_lt, not_iff_not]
    exact hlt _
  | between =>
    dsimp only
    rw [← hlt, ← hle]
    constructor
    · intro h
      by_cases hin : Rounding.llround p.value ≤ val ∧ val ≤ Rounding.llround p.value2
      · have hin' := h.mpr hin
        exact .inl ⟨by omega, by omega⟩
      · exact .inr ⟨hin, fun hc => hin (h.mp hc)⟩
    · rintro (⟨h₁, h₂⟩ | ⟨h₁, h₂⟩)
      · omega
      · exact iff_of_false h₂ h₁
  | inList => exact mem_kept_iff hcast hval
  | notInList =>
    rw [not_iff_not]
    exact mem_kept_iff hcast hval
  | prefixOf => exact iff_of_true Iff.rfl trivial
  | contains => exact iff_of_true Iff.rfl trivial
  | containsAny => exact iff_of_true Iff.rfl trivial
  | containsAll => exact iff_of_true Iff.rfl trivial
  | geoRadius => exact iff_of_true Iff.rfl trivial
  | geoBox => exact iff_of_true Iff.rfl trivial
  | isNull => exact iff_of_true Iff.rfl trivial
  | isNotNull => exact iff_of_true Iff.rfl trivial

end Integers

lemma typedCompare_iff {T : Type} (dom : Domain T) (cast : ℚ → T) (p : Predicate) (val : T) :
    typedCompare π dom cast p val = true ↔
      SqlCompare π (fun a b => dom.eq a b = true) (fun a b => dom.lt a b = true)
        (fun a b => dom.le a b = true) cast p val := by
  have hfound : (p.values.any fun s => (π.stod s).any fun d => dom.eq val (cast d)) = true ↔
      ∃ s ∈ p.values, ∃ d ∈ π.stod s, dom.eq val (cast d) = true := by
    simp only [List.any_eq_true, Option.any_eq_true]
    rfl
  unfold typedCompare SqlCompare
  cases p.op with
  | notInList =>
    dsimp only
    rw [Bool.not_eq_true', ← Bool.not_eq_true, hfound]
  | inList => exact hfound
  | notEq =>
    dsimp only
    rw [Bool.not_eq_true', Bool.not_eq_true]
  | between => exact Bool.and_eq_true _ _ |>.to_iff
  | _ => simp

lemma typedCompare_int_iff (cast : ℚ → ℤ) (p : Predicate) (val : ℤ) :
    typedCompare π intDomain cast p val = true ↔
      SqlCompare π (· = ·) (· < ·) (· ≤ ·) cast p val := by
  rw [typedCompare_iff]
  simp only [intDomain, beq_iff_eq, decide_eq_true_eq]

lemma roundToInt64_of_fits {d : ℚ} (h : Fits 64 d) :
    roundToInt64 π.toPlatform d = Rounding.llround d := by
  obtain ⟨hlo, hhi⟩ := h
  unfold roundToInt64 llround
  rw [if_pos ⟨hlo, hhi⟩, Int64.toInt_ofInt]
  have hsize : Int64.size = 2 ^ 64 := rfl
  exact Int.bmod_eq_of_le (by rw [hsize]; omega) (by rw [hsize]; omega)

lemma roundToInt32_of_fits {d : ℚ} (h : Fits 32 d) :
    roundToInt32 π.toPlatform d = Rounding.llround d := by
  obtain ⟨hlo, hhi⟩ := h
  have h64 := roundToInt64_of_fits π (d := d) ⟨by norm_num at hlo ⊢; omega, by norm_num at hhi ⊢; omega⟩
  unfold roundToInt64 at h64
  unfold roundToInt32
  rw [Int64.toInt_toInt32, h64]
  exact Int.bmod_eq_of_le (by norm_num at hlo ⊢; omega) (by norm_num at hhi ⊢; omega)

lemma signedLe_range {b : Bytes} {w : ℕ} (hw : 0 < w) (hb : b.length = w) :
    -2 ^ (8 * w - 1) ≤ signedLe b ∧ signedLe b < 2 ^ (8 * w - 1) := by
  have hlt := leNat_lt b
  have hpow : (256 : ℕ) ^ b.length = 2 * 2 ^ (8 * w - 1) := by
    rw [hb, ← pow_succ', show 8 * w - 1 + 1 = 8 * w by omega, pow_mul]
    norm_num
  have hcast : (256 : ℤ) ^ b.length = 2 * 2 ^ (8 * w - 1) := by exact_mod_cast hpow
  unfold signedLe
  rw [hpow] at hlt
  have hlt' : (leNat b : ℤ) < 2 * 2 ^ (8 * w - 1) := by exact_mod_cast hlt
  split_ifs with h
  · rw [hpow] at h
    have h' : (leNat b : ℤ) < 2 ^ (8 * w - 1) := by
      have : leNat b < 2 ^ (8 * w - 1) := by omega
      exact_mod_cast this
    have hpos : (0 : ℤ) < 2 ^ (8 * w - 1) := by positivity
    constructor
    · omega
    · omega
  · rw [hpow] at h
    have h' : (2 : ℤ) ^ (8 * w - 1) ≤ leNat b := by
      have : 2 ^ (8 * w - 1) ≤ leNat b := by omega
      exact_mod_cast this
    rw [hcast]
    constructor
    · omega
    · omega

/-! ### Strings and sets -/

lemma toNat_filterHash_ne {a b : Bytes} (h : (filterHash a).toNat ≠ (filterHash b).toNat) : a ≠ b :=
  fun hab => h (by rw [hab])

lemma evalString_iff (p : Predicate) (sv : Bytes) :
    (evalString p sv (filterHash sv).toNat = true ↔ StringAnswer p sv) ↔ StringKept p sv := by
  unfold evalString StringAnswer StringKept
  cases p.op with
  | eq =>
    refine iff_of_true ?_ trivial
    dsimp only
    split_ifs with h
    · have := toNat_filterHash_ne (bne_iff_ne.mp h)
      simp [this]
    · exact beq_iff_eq
  | notEq =>
    refine iff_of_true ?_ trivial
    dsimp only
    split_ifs with h heq
    · simp [beq_iff_eq.mp heq]
    · exact iff_of_true rfl fun h' => heq (beq_iff_eq.mpr h')
    · exact iff_of_true rfl (toNat_filterHash_ne fun h' => h (beq_iff_eq.mpr h'))
  | prefixOf => exact iff_of_true List.isPrefixOf_iff_prefix trivial
  | inList =>
    simp only [Bool.or_eq_true, beq_iff_eq, List.any_eq_true, exists_eq_right']
    tauto
  | notInList =>
    simp only [Bool.not_eq_true', ← Bool.not_eq_true, Bool.or_eq_true, beq_iff_eq, List.any_eq_true,
      exists_eq_right']
    tauto
  | _ => exact iff_of_true (iff_of_true rfl trivial) trivial

lemma has_iff (elems : List Bytes) (q : Bytes) :
    (((elems.map fun b => (filterHash b).toNat).any (· == (filterHash q).toNat) &&
      elems.any (· == q)) = true) ↔ q ∈ elems := by
  simp only [Bool.and_eq_true, List.any_map, List.any_eq_true, Function.comp, beq_iff_eq,
    exists_eq_right]
  exact ⟨And.right, fun h => ⟨⟨q, h, rfl⟩, h⟩⟩

lemma mem_queryVals {p : Predicate} {q : Bytes} :
    q ∈ p.queryVals ↔ (p.strValue ≠ [] ∧ q = p.strValue) ∨ q ∈ p.values := by
  unfold Predicate.queryVals
  cases p.strValue with
  | nil => simp
  | cons x xs => simp

lemma evalSet_iff (p : Predicate) (elems : List Bytes) :
    (evalSet p elems (elems.map fun b => (filterHash b).toNat) = true ↔ SetAnswer p elems) ↔
      SetKept p elems := by
  unfold evalSet SetAnswer SetKept
  cases p.op with
  | contains => exact iff_of_true (has_iff elems _) trivial
  | containsAny =>
    simp only [List.any_eq_true, has_iff, mem_queryVals]
    constructor
    · intro h
      by_contra hbad
      rw [not_or, not_or, not_not] at hbad
      exact hbad.2.2 (h.mp ⟨p.strValue, .inl ⟨hbad.1, rfl⟩, hbad.2.1⟩)
    · intro h
      constructor
      · rintro ⟨q, ⟨hne, rfl⟩ | hq, hmem⟩
        · exact (h.resolve_left hne).resolve_left (not_not.mpr hmem)
        · exact ⟨q, hq, hmem⟩
      · rintro ⟨q, hq, hmem⟩
        exact ⟨q, .inr hq, hmem⟩
  | containsAll =>
    simp only [List.all_eq_true, has_iff, mem_queryVals]
    constructor
    · intro h
      by_contra hbad
      rw [not_or, not_or] at hbad
      obtain ⟨hne, hout, hall⟩ := hbad
      refine hout (h.mpr (fun q hq => ?_) p.strValue (.inl ⟨hne, rfl⟩))
      by_contra hq'
      exact hall ⟨q, hq, hq'⟩
    · intro h
      constructor
      · exact fun hall q hq => hall q (.inr hq)
      · rintro hall q (⟨hne, rfl⟩ | hq)
        · refine (h.resolve_left hne).resolve_right ?_
          rintro ⟨q, hq, hout⟩
          exact hout (hall q hq)
        · exact hall q hq
  | _ => exact iff_of_true (iff_of_true rfl trivial) trivial

lemma evalBool_iff (p : Predicate) (val : Bool) : evalBool p val = true ↔ BoolAnswer p val := by
  unfold evalBool BoolAnswer
  cases p.op with
  | eq =>
    cases val with
    | false => simp
    | true => simp
  | notEq =>
    cases val with
    | false => simp
    | true => simp
  | _ => simp

/-! ### One cell -/

/-- The value of a cell has the shape of its column. -/
def RawCell.OfType (type : ColumnType) : RawCell → Prop
  | .fixed b => type ≠ .string ∧ type ≠ .set ∧ b.length = type.width
  | .string _ => type = .string
  | .set _ => type = .set

lemma evalRaw_iff {type : ColumnType} {p : Predicate} {raw : RawCell} (h : raw.OfType type) :
    (evalRaw π type p raw.hashes raw = true ↔ ValueAnswer π type p raw) ↔
      Kept π type p (some raw) := by
  cases raw with
  | fixed b =>
    obtain ⟨hs, ht, hlen⟩ := h
    cases type with
    | int32 =>
      simp only [evalRaw, ValueAnswer, Kept, typedCompare_int_iff]
      exact sqlCompare_cast_iff (fun d => roundToInt32_of_fits π) (signedLe_range (by decide) hlen)
    | int64 =>
      simp only [evalRaw, ValueAnswer, Kept, typedCompare_int_iff]
      exact sqlCompare_cast_iff (fun d => roundToInt64_of_fits π) (signedLe_range (by decide) hlen)
    | float => exact iff_of_true (typedCompare_iff π floatDomain
        (fun d => .finite (toFloat π.toPlatform d)) p (Ieee.ofBits32 (leNat b))) trivial
    | bool => exact iff_of_true (evalBool_iff p _) trivial
    | string => exact absurd rfl hs
    | set => exact absurd rfl ht
  | string sv => exact evalString_iff p sv
  | set elems => exact evalSet_iff p elems

lemma kept_of_nullTest {type : ColumnType} {p : Predicate} (h : p.op = .isNull ∨ p.op = .isNotNull)
    (cell : Option RawCell) : Kept π type p cell := by
  unfold Kept IntKept StringKept SetKept
  rcases h with h | h
  · rw [h]
    cases cell with
    | none => trivial
    | some raw =>
      cases raw with
      | fixed b =>
        cases type with
        | _ => trivial
      | _ => trivial
  · rw [h]
    cases cell with
    | none => trivial
    | some raw =>
      cases raw with
      | fixed b =>
        cases type with
        | _ => trivial
      | _ => trivial

lemma evalPredicate_iff {m : Mem} {v : ColumnView} {i : ℕ} {type : ColumnType} (p : Predicate)
    (htype : v.type = type) (hhash : v.hashes m i = (v.raw m i).hashes)
    (hraw : (v.raw m i).OfType type) :
    (evalPredicate π m v i p = true ↔
        Answer π type p (if v.isNull m i then none else some (v.raw m i))) ↔
      Kept π type p (if v.isNull m i then none else some (v.raw m i)) := by
  unfold evalPredicate
  cases v.isNull m i with
  | true => exact iff_of_true beq_iff_eq trivial
  | false =>
    simp only [Bool.false_eq_true, if_false]
    by_cases hn : p.op = .isNull
    · refine iff_of_true ?_ (kept_of_nullTest π (.inl hn) _)
      simp [Answer, hn]
    by_cases hnn : p.op = .isNotNull
    · refine iff_of_true ?_ (kept_of_nullTest π (.inr hnn) _)
      simp [Answer, hnn]
    rw [if_neg (by simpa using hn), if_neg (by simpa using hnn), htype, hhash]
    have hans : Answer π type p (some (v.raw m i)) = ValueAnswer π type p (v.raw m i) := by
      simp only [Answer]
    rw [hans]
    exact evalRaw_iff π hraw

/-! ### Written rows -/

lemma exists_parseColumn {m : Mem} {n : ℕ} {cols : List FilterColumn} {p c : ℕ} {v : ColumnView}
    (h : (parseColumns m n cols p).1[c]? = some v) :
    ∃ col q, cols[c]? = some col ∧ v = (parseColumn m n col q).1 := by
  induction cols generalizing p c with
  | nil => simp [parseColumns] at h
  | cons col cols ih =>
    cases c with
    | zero =>
      simp only [parseColumns, List.getElem?_cons_zero, Option.some.injEq] at h
      exact ⟨col, p, rfl, h.symm⟩
    | succ c =>
      simp only [parseColumns, List.getElem?_cons_succ] at h
      obtain ⟨col', q, hcol, hv⟩ := ih h
      exact ⟨col', q, hcol, hv⟩

lemma type_parseColumn (m : Mem) (n : ℕ) (col : FilterColumn) (p : ℕ) :
    (parseColumn m n col p).1.type = col.type ∧
      (col.type ≠ .string → col.type ≠ .set → (parseColumn m n col p).1.fixedWidth = col.type.width) := by
  unfold parseColumn
  by_cases hs : col.type = .string
  · rw [parseData]
    split_ifs
    all_goals simp [hs]
  by_cases ht : col.type = .set
  · rw [parseData]
    split_ifs
    all_goals simp [ht]
  rw [parseData_fixed hs ht]
  split_ifs
  all_goals simp

lemma ofType_raw_parseColumn (m : Mem) (n : ℕ) (col : FilterColumn) (p i : ℕ) :
    ((parseColumn m n col p).1.raw m i).OfType col.type := by
  obtain ⟨htype, hwidth⟩ := type_parseColumn m n col p
  generalize (parseColumn m n col p).1 = v at htype hwidth ⊢
  unfold ColumnView.raw
  rw [htype]
  cases hcol : col.type with
  | string => rfl
  | set => rfl
  | _ =>
    rw [hcol] at hwidth
    exact ⟨by decide, by decide, by rw [length_peek]; exact hwidth (by decide) (by decide)⟩

/-- **Predicates are answered as SQL answers them** on every row written to a leaf whose columns
fit their 32-bit offsets, exactly where the cast of the comparand and the single comparand keep
the answer. -/
theorem evalPredicate_sql_iff (m : Mem) (n : ℕ) (s : Schema) (cols : List ColumnData)
    (wf : List.Forall₂ (fun col d => d.WellFormed col n) s.columns cols)
    (ha : ∀ x ∈ s.columns.zip cols, x.2.Addressable x.1 n) (c : ℕ) (col : FilterColumn)
    (d : ColumnData) (v : ColumnView) (hc : s.columns[c]? = some col) (hd : cols[c]? = some d)
    (hv : (parseFilterColumns (writeFilterColumns m n s cols).1 n s).1[c]? = some v) (i : ℕ)
    (hi : i < n) (p : Predicate) :
    ∃ cell, d.cell col i = some cell ∧
      ((evalPredicate π (writeFilterColumns m n s cols).1 v i p = true ↔ Answer π col.type p cell) ↔
        Kept π col.type p cell) := by
  obtain ⟨d', v', -, hv', hrow⟩ := (roundTrips_of_addressable (m := m) wf ha).rows c col d hc hd i hi
  cases hv.symm.trans hv'
  obtain ⟨col', q, hcol', hparse⟩ := exists_parseColumn hv
  cases hc.symm.trans hcol'
  have htype := (type_parseColumn (writeFilterColumns m n s cols).1 n col q).1
  have hraw := ofType_raw_parseColumn (writeFilterColumns m n s cols).1 n col q i
  rw [← hparse] at htype hraw
  refine ⟨_, ?_, evalPredicate_iff π p htype hrow.hashes hraw⟩
  rw [← hrow.cell, ColumnData.cell, hrow.value, ← hrow.isNull]
  cases v.isNull (writeFilterColumns m n s cols).1 i with
  | true => rfl
  | false => rfl

def saturatingTarget : Target where
  toPlatform := saturating
  int32Out d := if d < 0 then Int32.minValue else Int32.maxValue
  haversine _ _ _ _ := .finite 0

/-- One Int32 column with the value `0`. -/
def zeroColumn : List ColumnData := [{ type := .int32, fixedData := [0, 0, 0, 0] }]

/-- The memory with that column written to it. -/
def zeroMem : Mem := (writeFilterColumns (fun _ => 0) 1 intSchema zeroColumn).1

/-- One String column with the empty string. -/
def blankColumn : List ColumnData := [{ type := .string, strOffsets := [0], strLengths := [0] }]

def blankMem : Mem := (writeFilterColumns (fun _ => 0) 1 textSchema blankColumn).1

/-- `0 < 2 ^ 32` fails in an Int32 column, and the empty string is IN a list without it. -/
theorem evalPredicate_not_sql :
    (¬ (evalPredicate saturatingTarget zeroMem
          ((parseFilterColumns zeroMem 1 intSchema).1.headD {}) 0
          { column := "n", op := .lt, value := 2 ^ 32 } = true ↔
        Answer saturatingTarget .int32 { column := "n", op := .lt, value := 2 ^ 32 }
          (some (.fixed [0, 0, 0, 0])))) ∧
      ¬ (evalPredicate saturatingTarget blankMem
          ((parseFilterColumns blankMem 1 textSchema).1.headD {}) 0
          { column := "text", op := .inList, values := [[97]] } = true ↔
        Answer saturatingTarget .string { column := "text", op := .inList, values := [[97]] }
          (some (.string []))) := by
  constructor
  · have hcode : evalPredicate saturatingTarget zeroMem
        ((parseFilterColumns zeroMem 1 intSchema).1.headD {}) 0
        { column := "n", op := .lt, value := 2 ^ 32 } = false := by decide +kernel
    have hsql : Answer saturatingTarget .int32 { column := "n", op := .lt, value := 2 ^ 32 }
        (some (.fixed [0, 0, 0, 0])) := by
      show signedLe [0, 0, 0, 0] < Rounding.llround (2 ^ 32)
      decide +kernel
    rw [hcode]
    exact fun h => absurd (h.mpr hsql) (by decide)
  · have hcode : evalPredicate saturatingTarget blankMem
        ((parseFilterColumns blankMem 1 textSchema).1.headD {}) 0
        { column := "text", op := .inList, values := [[97]] } = true := by decide +kernel
    have hsql : ¬ Answer saturatingTarget .string
        { column := "text", op := .inList, values := [[97]] } (some (.string [])) := by
      show ¬ ([] : Bytes) ∈ [[97]]
      decide
    exact fun h => hsql (h.mp hcode)

/-- The value `0` against `0 < 7`. -/
theorem evalPredicate_sql_zero :
    evalPredicate saturatingTarget zeroMem ((parseFilterColumns zeroMem 1 intSchema).1.headD {}) 0
      { column := "n", op := .lt, value := 7 } = true := by
  obtain ⟨cell, hcell, hiff⟩ := evalPredicate_sql_iff saturatingTarget (fun _ => 0) 1 intSchema
    zeroColumn (.cons ⟨.inl rfl, by decide, by decide, by decide⟩ .nil)
    (by
      intro x hx
      obtain rfl : x = (⟨"n", .int32, false⟩, zeroColumn[0]) := by
        simpa [intSchema, zeroColumn] using hx
      exact ⟨by decide, by decide⟩)
    0 ⟨"n", .int32, false⟩ zeroColumn[0] _ rfl rfl rfl 0 (by decide)
    { column := "n", op := .lt, value := 7 }
  obtain rfl : some (.fixed [0, 0, 0, 0]) = cell := Option.some.inj hcell
  refine (hiff.mpr ?_).mpr ?_
  · show Beside 32 _ _ _
    refine .inl ?_
    decide +kernel
  · show signedLe [0, 0, 0, 0] < Rounding.llround 7
    decide +kernel

end SextantTree.ColumnBytes
