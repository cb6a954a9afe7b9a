import Mathlib.Algebra.Order.Floor.Ring
import Mathlib.Algebra.Order.BigOperators.Group.Finset
import Mathlib.Data.Ordering.Basic
import Mathlib.Tactic
import SextantTree.Literals

/-!
Numbers that are rounded one by one and then summed, the least and the greatest of a list, and
comparisons through estimates.
-/

namespace SextantTree.RoundedSums

/-! ### The ends of a list -/

section Ends

variable {α β : Type*} [LinearOrder α] {g : β → α} {a : α} {l : List β}

/-- A loop that keeps the least value so far. -/
def least (g : β → α) (a : α) (l : List β) : α := l.foldl (fun mn c => if g c < mn then g c else mn) a

/-- A loop that keeps the greatest value so far. -/
def greatest (g : β → α) (a : α) (l : List β) : α := l.foldl (fun mx c => if mx < g c then g c else mx) a

lemma least_le (g : β → α) (a : α) (l : List β) :
    least g a l ≤ a ∧ ∀ c ∈ l, least g a l ≤ g c := by
  induction l generalizing a with
  | nil => exact ⟨le_rfl, fun _ h => by cases h⟩
  | cons b l ih =>
    obtain ⟨hstart, hmem⟩ := ih (if g b < a then g b else a)
    have hstep : (if g b < a then g b else a) ≤ a ∧ (if g b < a then g b else a) ≤ g b := by
      split_ifs with h
      · exact ⟨h.le, le_rfl⟩
      · exact ⟨le_rfl, not_lt.mp h⟩
    refine ⟨hstart.trans hstep.1, fun c hc => ?_⟩
    rcases List.mem_cons.mp hc with rfl | hc
    · exact hstart.trans hstep.2
    · exact hmem c hc

lemma least_eq (g : β → α) (a : α) (l : List β) : least g a l = a ∨ ∃ c ∈ l, least g a l = g c := by
  induction l generalizing a with
  | nil => exact .inl rfl
  | cons b l ih =>
    rcases ih (if g b < a then g b else a) with h | ⟨c, hc, h⟩
    · have hfold : least g a (b :: l) = if g b < a then g b else a := h
      rw [hfold]
      split_ifs
      · exact .inr ⟨b, List.mem_cons_self, rfl⟩
      · exact .inl rfl
    · exact .inr ⟨c, List.mem_cons_of_mem b hc, h⟩

lemma le_greatest (g : β → α) (a : α) (l : List β) :
    a ≤ greatest g a l ∧ ∀ c ∈ l, g c ≤ greatest g a l := by
  induction l generalizing a with
  | nil => exact ⟨le_rfl, fun _ h => by cases h⟩
  | cons b l ih =>
    obtain ⟨hstart, hmem⟩ := ih (if a < g b then g b else a)
    have hstep : a ≤ (if a < g b then g b else a) ∧ g b ≤ if a < g b then g b else a := by
      split_ifs with h
      · exact ⟨h.le, le_rfl⟩
      · exact ⟨le_rfl, not_lt.mp h⟩
    refine ⟨hstep.1.trans hstart, fun c hc => ?_⟩
    rcases List.mem_cons.mp hc with rfl | hc
    · exact hstep.2.trans hstart
    · exact hmem c hc

lemma greatest_le (ha : a ≤ b) (h : ∀ c ∈ l, g c ≤ b) : greatest g a l ≤ b := by
  induction l generalizing a with
  | nil => exact ha
  | cons d l ih =>
    refine ih ?_ fun c hc => h c (List.mem_cons_of_mem d hc)
    show (if a < g d then g d else a) ≤ b
    split_ifs
    · exact h d List.mem_cons_self
    · exact ha

end Ends

/-! ### Rounding -/

section Rounding

variable {α : Type*} [Field α] [LinearOrder α] [IsStrictOrderedRing α] [FloorRing α] {x : α}

def truncInt (x : α) : ℤ := if 0 ≤ x then ⌊x⌋ else ⌈x⌉

def roundHalf (x : α) : ℤ := truncInt (x + 1 / 2)

lemma roundHalf_eq (hx : 0 ≤ x) : roundHalf x = round x := by
  rw [roundHalf, truncInt, if_pos (by positivity), round_eq]

lemma roundHalf_spec {n : ℕ} (hx : 0 ≤ x) (hn : x ≤ n) :
    (0 ≤ roundHalf x ∧ roundHalf x ≤ n) ∧ |(roundHalf x : α) - x| ≤ 1 / 2 := by
  rw [roundHalf_eq hx]
  refine ⟨⟨?_, ?_⟩, ?_⟩
  · rw [round_eq, Int.floor_nonneg]
    positivity
  · have hlt : round x < (n : ℤ) + 1 := by
      rw [round_eq, Int.floor_lt]
      push_cast
      have hhalf : (1 : α) / 2 < 1 := by norm_num
      linarith
    omega
  · rw [abs_sub_comm]
    exact abs_sub_round x

omit [FloorRing α] in
lemma abs_sum_sub_sum_le {m : ℕ} {p q : ℕ → α} {e : α} (h : ∀ s < m, |p s - q s| ≤ e) :
    |∑ s ∈ Finset.range m, p s - ∑ s ∈ Finset.range m, q s| ≤ m * e := by
  rw [← Finset.sum_sub_distrib]
  calc |∑ s ∈ Finset.range m, (p s - q s)| ≤ ∑ s ∈ Finset.range m, |p s - q s| :=
        Finset.abs_sum_le_sum_abs _ _
    _ ≤ ∑ _s ∈ Finset.range m, e := Finset.sum_le_sum fun s hs => h s (Finset.mem_range.mp hs)
    _ = m * e := by rw [Finset.sum_const, Finset.card_range, nsmul_eq_mul]

omit [FloorRing α] in
/-- **Estimates compare like what they estimate** when that is further apart than both are off. -/
lemma cmp_eq_of_estimates {x y x' y' e e' : α} (hx : |x' - x| ≤ e) (hy : |y' - y| ≤ e')
    (h : e + e' < |x - y|) : cmp x' y' = cmp x y := by
  obtain ⟨hx₁, hx₂⟩ := abs_le.mp hx
  obtain ⟨hy₁, hy₂⟩ := abs_le.mp hy
  rcases lt_abs.mp h with h | h
  · have hgt : y < x := by linarith [(abs_nonneg (x' - x)).trans hx, (abs_nonneg (y' - y)).trans hy]
    have hgt' : y' < x' := by linarith
    rw [hgt.cmp_eq_gt, hgt'.cmp_eq_gt]
  · have hlt : x < y := by linarith [(abs_nonneg (x' - x)).trans hx, (abs_nonneg (y' - y)).trans hy]
    have hlt' : x' < y' := by linarith
    rw [hlt.cmp_eq_lt, hlt'.cmp_eq_lt]

end Rounding

end SextantTree.RoundedSums
