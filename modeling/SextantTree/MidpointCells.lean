import Mathlib.Algebra.Order.Field.Basic
import Mathlib.Algebra.Order.BigOperators.Group.List
import Mathlib.Data.List.Sort
import Mathlib.Tactic
import SextantTree.Literals

/-!
Cells of a line around levels. The bound between two levels is the middle of them; a number is in
the cell that has as many bounds before it as are not above the number, which is found by halving.
-/

namespace SextantTree.MidpointCells

/-! ### Searching -/

section Search

variable {α : Type*} [LinearOrder α]

/-- `std::upper_bound` over `len` entries from `first` on. -/
def upperBound (b : ℕ → α) (x : α) (first len : ℕ) : ℕ :=
  if len = 0 then first
  else if x < b (first + len / 2) then upperBound b x first (len / 2)
  else upperBound b x (first + len / 2 + 1) (len - len / 2 - 1)
termination_by len

/-- The first `n` entries do not decrease. -/
def NonDecreasing (b : ℕ → α) (n : ℕ) : Prop := ∀ i, i + 1 < n → b i ≤ b (i + 1)

variable {b : ℕ → α} {n : ℕ}

lemma NonDecreasing.le (h : NonDecreasing b n) {i j : ℕ} (hij : i ≤ j) (hj : j < n) : b i ≤ b j := by
  induction j, hij using Nat.le_induction with
  | base => exact le_rfl
  | succ j _ ih => exact (ih (by omega)).trans (h j hj)

lemma upperBound_mem (x : α) (first len : ℕ) :
    first ≤ upperBound b x first len ∧ upperBound b x first len ≤ first + len := by
  induction first, len using upperBound.induct b x with
  | case1 first =>
    rw [upperBound, if_pos rfl]
    exact ⟨le_rfl, le_rfl⟩
  | case2 first len hlen hx ih =>
    rw [upperBound, if_neg hlen, if_pos hx]
    omega
  | case3 first len hlen hx ih =>
    rw [upperBound, if_neg hlen, if_neg hx]
    omega

lemma upperBound_congr {b' : ℕ → α} {x : α} {first len : ℕ}
    (h : ∀ i, first ≤ i → i < first + len → b i = b' i) :
    upperBound b x first len = upperBound b' x first len := by
  induction first, len using upperBound.induct b x with
  | case1 first => rw [upperBound, if_pos rfl, upperBound, if_pos rfl]
  | case2 first len hlen hx ih =>
    have hmid := h (first + len / 2) (by omega) (by omega)
    rw [upperBound, if_neg hlen, if_pos hx, ih fun i h₁ h₂ => h i h₁ (by omega), eq_comm,
      upperBound, if_neg hlen, if_pos (hmid ▸ hx)]
  | case3 first len hlen hx ih =>
    have hmid := h (first + len / 2) (by omega) (by omega)
    rw [upperBound, if_neg hlen, if_neg hx, ih fun i h₁ h₂ => h i (by omega) (by omega), eq_comm,
      upperBound, if_neg hlen, if_neg (hmid ▸ hx)]

lemma upperBound_spec (hb : NonDecreasing b n) (x : α) (first len : ℕ) (hn : first + len ≤ n) :
    (∀ i, first ≤ i → i < upperBound b x first len → b i ≤ x) ∧
      ∀ i, upperBound b x first len ≤ i → i < first + len → x < b i := by
  induction first, len using upperBound.induct b x with
  | case1 first =>
    rw [upperBound, if_pos rfl]
    exact ⟨fun i h₁ h₂ => absurd h₁ (not_le.2 h₂), fun i h₁ h₂ => absurd h₁ (not_le.2 h₂)⟩
  | case2 first len hlen hx ih =>
    rw [upperBound, if_neg hlen, if_pos hx]
    obtain ⟨hbefore, hbehind⟩ := ih (by omega)
    refine ⟨hbefore, fun i h₁ h₂ => ?_⟩
    rcases Nat.lt_or_ge i (first + len / 2) with h | h
    · exact hbehind i h₁ h
    · exact hx.trans_le (hb.le h (by omega))
  | case3 first len hlen hx ih =>
    rw [upperBound, if_neg hlen, if_neg hx]
    obtain ⟨hbefore, hbehind⟩ := ih (by omega)
    refine ⟨fun i h₁ h₂ => ?_, fun i h₁ h₂ => hbehind i h₁ (by omega)⟩
    rcases Nat.lt_or_ge i (first + len / 2 + 1) with h | h
    · exact (hb.le (Nat.le_of_lt_succ h) (by omega)).trans (not_lt.1 hx)
    · exact hbefore i h h₂

end Search

/-! ### Cells -/

section Cells

variable {α : Type*} [Field α] [LinearOrder α]

/-- The bound between level `i` and the next. -/
def bound (lv : ℕ → α) (i : ℕ) : α := (lv i + lv (i + 1)) / 2

/-- The cell of a number among `K` levels. -/
def cell (K : ℕ) (lv : ℕ → α) (x : α) : ℕ := upperBound (bound lv) x 0 (K - 1)

variable {K : ℕ} {lv : ℕ → α}

lemma cell_lt (hK : 0 < K) (lv : ℕ → α) (x : α) : cell K lv x < K := by
  have := (upperBound_mem (b := bound lv) x 0 (K - 1)).2
  rw [cell]
  omega

lemma bound_le_of_lt_cell (hb : NonDecreasing (bound lv) (K - 1)) {x : α} {i : ℕ}
    (h : i < cell K lv x) : bound lv i ≤ x :=
  (upperBound_spec hb x 0 (K - 1) (by omega)).1 i (Nat.zero_le i) h

lemma lt_bound_of_cell_le (hb : NonDecreasing (bound lv) (K - 1)) {x : α} {i : ℕ}
    (h : cell K lv x ≤ i) (hi : i + 1 < K) : x < bound lv i :=
  (upperBound_spec hb x 0 (K - 1) (by omega)).2 i h (by omega)

lemma cell_eq (hb : NonDecreasing (bound lv) (K - 1)) (hK : 0 < K) {x : α} {i : ℕ}
    (hlow : ∀ j, j + 1 = i → bound lv j ≤ x) (hup : i + 1 < K → x < bound lv i) (hi : i < K) :
    cell K lv x = i := by
  have hlt := cell_lt hK lv x
  rcases Nat.lt_trichotomy (cell K lv x) i with h | h | h
  · obtain ⟨j, rfl⟩ : ∃ j, i = j + 1 := ⟨i - 1, by omega⟩
    exact absurd (hlow j rfl) (not_le.2 (lt_bound_of_cell_le hb (by omega) hi))
  · exact h
  · exact absurd (bound_le_of_lt_cell hb h) (not_le.2 (hup (by omega)))

variable [IsStrictOrderedRing α]

lemma bound_le {i : ℕ} {c : α} (h₁ : lv i ≤ c) (h₂ : lv (i + 1) ≤ c) : bound lv i ≤ c := by
  rw [bound]
  linarith

lemma le_bound {i : ℕ} {c : α} (h₁ : c ≤ lv i) (h₂ : c ≤ lv (i + 1)) : c ≤ bound lv i := by
  rw [bound]
  linarith

lemma sq_sub_le_of_mid_le {a b x : α} (hab : a ≤ b) (hx : (a + b) / 2 ≤ x) :
    (x - b) * (x - b) ≤ (x - a) * (x - a) := by
  have h₁ : 0 ≤ b - a := sub_nonneg.2 hab
  have h₂ : 0 ≤ 2 * x - a - b := by linarith
  have := mul_nonneg h₁ h₂
  linarith

lemma sq_sub_le_of_le_mid {a b x : α} (hab : a ≤ b) (hx : x ≤ (a + b) / 2) :
    (x - a) * (x - a) ≤ (x - b) * (x - b) := by
  have h₁ : 0 ≤ b - a := sub_nonneg.2 hab
  have h₂ : 0 ≤ a + b - 2 * x := by linarith
  have := mul_nonneg h₁ h₂
  linarith

lemma NonDecreasing.bound (h : NonDecreasing lv K) :
    NonDecreasing (MidpointCells.bound lv) (K - 1) := fun i hi =>
  (bound_le (h.le (by omega) (by omega)) le_rfl).trans
    (le_bound le_rfl (h.le (by omega) (by omega)))

/-- **The level of a cell** is nearest, when the levels do not decrease. -/
theorem nearest (h : NonDecreasing lv K) (hK : 0 < K) (x : α) {k : ℕ} (hk : k < K) :
    (x - lv (cell K lv x)) * (x - lv (cell K lv x)) ≤ (x - lv k) * (x - lv k) := by
  have hc := cell_lt hK lv x
  rcases Nat.lt_trichotomy k (cell K lv x) with hlt | heq | hgt
  · obtain ⟨c, hc'⟩ : ∃ c, cell K lv x = c + 1 := ⟨cell K lv x - 1, by omega⟩
    have hmid := bound_le_of_lt_cell h.bound (x := x) (i := c) (by omega)
    rw [hc'] at hlt hc ⊢
    refine sq_sub_le_of_mid_le (h.le hlt.le hc) (le_trans ?_ hmid)
    have := h.le (Nat.le_of_lt_succ hlt) (show c < K by omega)
    rw [MidpointCells.bound]
    linarith
  · rw [heq]
  · have hmid := lt_bound_of_cell_le h.bound (x := x) le_rfl (show cell K lv x + 1 < K by omega)
    refine sq_sub_le_of_le_mid (h.le hgt.le hk) (hmid.le.trans ?_)
    have := h.le (Nat.succ_le_of_lt hgt) hk
    rw [MidpointCells.bound]
    linarith

end Cells

end SextantTree.MidpointCells
