import Mathlib.Data.Int.Log
import Mathlib.Data.Nat.Log
import Mathlib.Data.Rat.Floor
import Mathlib.Tactic

/-!
Rounding to a fixed number of significant bits, ties to even, and to the nearest integer,
ties away from zero. Numbers are exact rationals; a format is the number of bits it keeps.
-/

namespace Rounding

/-- The multiple of `u` nearest to `n`, counted in units of `u`, ties to the even count. -/
def halfEven (n u : ℕ) : ℕ :=
  if u < 2 * (n % u) ∨ (u = 2 * (n % u) ∧ n / u % 2 = 1) then n / u + 1 else n / u

lemma halfEven_mono {n m u : ℕ} (h : n ≤ m) : halfEven n u ≤ halfEven m u := by
  rcases Nat.eq_zero_or_pos u with rfl | hu
  · unfold halfEven
    simp
    split <;> split <;> omega
  have hq : n / u ≤ m / u := Nat.div_le_div_right h
  rcases hq.lt_or_eq with hlt | heq
  · unfold halfEven
    split <;> split <;> omega
  · -- same quotient, so the remainders are ordered as the numbers are
    have hn := Nat.div_add_mod n u
    have hm := Nat.div_add_mod m u
    have hr : n % u ≤ m % u := by
      rw [heq] at hn
      omega
    unfold halfEven
    rw [heq]
    split <;> split <;> omega

lemma halfEven_le {n u k : ℕ} (hu : 0 < u) (h : n ≤ k * u) : halfEven n u ≤ k := by
  have h' := halfEven_mono (u := u) h
  have hk : halfEven (k * u) u = k := by
    simp only [halfEven, Nat.mul_mod_left, Nat.mul_div_cancel _ hu]
    split <;> omega
  omega

lemma le_halfEven {n u k : ℕ} (hu : 0 < u) (h : k * u ≤ n) : k ≤ halfEven n u := by
  have h' : k ≤ n / u := (Nat.le_div_iff_mul_le hu).mpr h
  unfold halfEven
  split <;> omega

/-- The unit in the last place of `n` when `p` bits are kept. -/
def ulp (p n : ℕ) : ℕ := 2 ^ (Nat.log 2 n + 1 - p)

lemma ulp_pos (p n : ℕ) : 0 < ulp p n := by
  simp [ulp]

/-- `n` rounded to `p` significant bits. -/
def roundBits (p n : ℕ) : ℕ := halfEven n (ulp p n) * ulp p n

/-- **Rounding keeps order.** -/
theorem roundBits_mono {p n m : ℕ} (hp : 0 < p) (h : n ≤ m) : roundBits p n ≤ roundBits p m := by
  have hlog : Nat.log 2 n ≤ Nat.log 2 m := Nat.log_mono_right h
  rcases hlog.lt_or_eq with hlt | heq
  · by_cases hs : Nat.log 2 m + 1 ≤ p
    · -- both numbers fit in `p` bits and are kept as they are
      have hn : ulp p n = 1 := by
        simp only [ulp, Nat.sub_eq_zero_of_le (show Nat.log 2 n + 1 ≤ p by omega), pow_zero]
      have hm : ulp p m = 1 := by
        simp only [ulp, Nat.sub_eq_zero_of_le hs, pow_zero]
      simp only [roundBits, hn, hm, mul_one]
      exact halfEven_mono h
    · -- a power of two separates the two results
      have hn : n ≤ 2 ^ (Nat.log 2 n + 1) := (Nat.lt_pow_succ_log_self (by norm_num) n).le
      have hm : 2 ^ Nat.log 2 m ≤ m := by
        apply Nat.pow_log_le_self
        rintro rfl
        simp at hlt
      have hup : roundBits p n ≤ 2 ^ (Nat.log 2 n + 1) := by
        obtain ⟨k, hk⟩ : ulp p n ∣ 2 ^ (Nat.log 2 n + 1) := pow_dvd_pow 2 (by omega)
        have := halfEven_le (n := n) (k := k) (ulp_pos p n) (by rwa [mul_comm, ← hk])
        calc roundBits p n ≤ k * ulp p n := Nat.mul_le_mul_right _ this
          _ = 2 ^ (Nat.log 2 n + 1) := by rw [hk, mul_comm]
      have hdown : 2 ^ Nat.log 2 m ≤ roundBits p m := by
        obtain ⟨k, hk⟩ : ulp p m ∣ 2 ^ Nat.log 2 m := pow_dvd_pow 2 (by omega)
        have := le_halfEven (n := m) (k := k) (ulp_pos p m) (by rwa [mul_comm, ← hk])
        calc 2 ^ Nat.log 2 m = k * ulp p m := by rw [hk, mul_comm]
          _ ≤ roundBits p m := Nat.mul_le_mul_right _ this
      exact hup.trans ((Nat.pow_le_pow_right (by norm_num) hlt).trans hdown)
  · have : ulp p n = ulp p m := by rw [ulp, ulp, heq]
    simp only [roundBits, this]
    exact Nat.mul_le_mul_right _ (halfEven_mono h)

/-- A signed integer rounded to `p` significant bits. -/
def roundInt (p : ℕ) (n : ℤ) : ℤ :=
  if 0 ≤ n then (roundBits p n.toNat : ℤ) else -(roundBits p (-n).toNat : ℤ)

theorem roundInt_mono {p : ℕ} (hp : 0 < p) : Monotone (roundInt p) := by
  intro n m h
  unfold roundInt
  split <;> split
  · exact_mod_cast roundBits_mono hp (by omega)
  · omega
  · have h₁ := Nat.zero_le (roundBits p (-n).toNat)
    have h₂ := Nat.zero_le (roundBits p m.toNat)
    omega
  · have := roundBits_mono (p := p) (n := (-m).toNat) (m := (-n).toNat) hp (by omega)
    omega

/-- A rational rounded to `p` significant bits, no unit below `2 ^ emin`. -/
def roundRat (p : ℕ) (emin : ℤ) (q : ℚ) : ℚ :=
  let e := max (Int.log 2 |q| + 1 - p) emin
  let n := |q| / 2 ^ e
  let k : ℕ := halfEven n.num.toNat n.den
  (if q < 0 then -(k : ℚ) else k) * 2 ^ e

/-- The nearest integer, ties away from zero. -/
def llround (q : ℚ) : ℤ := if 0 ≤ q then ⌊q + 1 / 2⌋ else -⌊-q + 1 / 2⌋

end Rounding
