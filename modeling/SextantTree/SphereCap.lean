import Mathlib.Analysis.SpecialFunctions.Trigonometric.Inverse
import Mathlib.Analysis.SpecialFunctions.Complex.Arg
import Mathlib.Tactic
import SextantTree.Literals

/-!
Caps on the unit sphere, in radians: the angle between two points given by their latitudes and the
difference of their longitudes, the latitudes a cap reaches, and how far it spreads in longitude.
A cap without a pole spreads to both sides by `halfWidth`, a cap with a pole all around.
-/

namespace SphereCap

open Real

/-- The cosine of the angle between points at latitudes `φ` and `ψ` whose longitudes differ by `d`. -/
noncomputable def cosAngle (φ ψ d : ℝ) : ℝ := sin φ * sin ψ + cos φ * cos ψ * cos d

noncomputable def angle (φ ψ d : ℝ) : ℝ := arccos (cosAngle φ ψ d)

noncomputable def hav (φ ψ d : ℝ) : ℝ :=
  sin ((ψ - φ) / 2) * sin ((ψ - φ) / 2) + cos φ * cos ψ * sin (d / 2) * sin (d / 2)

lemma sin_half_sq (x : ℝ) : sin (x / 2) * sin (x / 2) = (1 - cos x) / 2 := by
  rw [← sq, sin_sq_eq_half_sub, mul_div_cancel₀ x two_ne_zero]
  ring

lemma cosAngle_eq (φ ψ d : ℝ) : cosAngle φ ψ d = 1 - 2 * hav φ ψ d := by
  have h₁ := sin_half_sq (ψ - φ)
  have h₂ := sin_half_sq d
  have h₃ := cos_sub ψ φ
  rw [hav, cosAngle, h₁, mul_assoc (cos φ * cos ψ), h₂, h₃]
  ring

lemma sq_cosAngle_le_one (φ ψ d : ℝ) : cosAngle φ ψ d ^ 2 ≤ 1 := by
  have h₁ := sin_sq_add_cos_sq φ
  have h₂ := sin_sq_add_cos_sq ψ
  have h₃ := cos_sq_le_one d
  have hcauchy : cosAngle φ ψ d ^ 2 ≤
      (sin φ ^ 2 + cos φ ^ 2) * (sin ψ ^ 2 + (cos ψ * cos d) ^ 2) := by
    rw [cosAngle]
    nlinarith [sq_nonneg (sin φ * (cos ψ * cos d) - cos φ * sin ψ)]
  have hbound : (cos ψ * cos d) ^ 2 ≤ cos ψ ^ 2 := by
    rw [mul_pow]
    exact mul_le_of_le_one_right (sq_nonneg _) h₃
  calc cosAngle φ ψ d ^ 2 ≤ (sin φ ^ 2 + cos φ ^ 2) * (sin ψ ^ 2 + (cos ψ * cos d) ^ 2) := hcauchy
    _ = sin ψ ^ 2 + (cos ψ * cos d) ^ 2 := by rw [h₁, one_mul]
    _ ≤ sin ψ ^ 2 + cos ψ ^ 2 := by linarith
    _ = 1 := h₂

lemma cosAngle_mem (φ ψ d : ℝ) : -1 ≤ cosAngle φ ψ d ∧ cosAngle φ ψ d ≤ 1 :=
  abs_le.mp ((sq_le_one_iff_abs_le_one _).mp (sq_cosAngle_le_one φ ψ d))

lemma hav_mem (φ ψ d : ℝ) : 0 ≤ hav φ ψ d ∧ hav φ ψ d ≤ 1 := by
  have h := cosAngle_mem φ ψ d
  rw [cosAngle_eq] at h
  constructor <;> linarith [h.1, h.2]

lemma two_mul_arcsin_sqrt_hav (φ ψ d : ℝ) : 2 * arcsin (√(hav φ ψ d)) = angle φ ψ d := by
  obtain ⟨h₀, h₁⟩ := hav_mem φ ψ d
  have hsqrt₀ := sqrt_nonneg (hav φ ψ d)
  have hsqrt₁ : √(hav φ ψ d) ≤ 1 := sqrt_le_one.mpr h₁
  have hsin : sin (arcsin (√(hav φ ψ d))) = √(hav φ ψ d) := sin_arcsin (by linarith) hsqrt₁
  have hcos : cos (2 * arcsin (√(hav φ ψ d))) = cosAngle φ ψ d := by
    rw [cos_two_mul, cos_sq', hsin, sq_sqrt h₀, cosAngle_eq]
    ring
  have hlo : 0 ≤ arcsin (√(hav φ ψ d)) := arcsin_nonneg.mpr hsqrt₀
  have hhi := arcsin_le_pi_div_two (√(hav φ ψ d))
  rw [angle, ← hcos, arccos_cos (by linarith) (by linarith)]

lemma angle_le_iff {φ ψ d ρ : ℝ} (h₀ : 0 ≤ ρ) (hπ : ρ ≤ π) :
    angle φ ψ d ≤ ρ ↔ cos ρ ≤ cosAngle φ ψ d := by
  constructor
  · intro h
    have := cos_le_cos_of_nonneg_of_le_pi (arccos_nonneg _) hπ h
    rwa [cos_arccos (cosAngle_mem φ ψ d).1 (cosAngle_mem φ ψ d).2] at this
  · intro h
    have := arccos_le_arccos h
    rwa [arccos_cos h₀ hπ] at this

/-! ### Latitudes -/

section Latitude

variable {φ ψ d ρ : ℝ} (hφ : |φ| ≤ π / 2) (hψ : |ψ| ≤ π / 2)

include hφ hψ

lemma abs_sub_le_angle : |ψ - φ| ≤ angle φ ψ d := by
  have hφ' := abs_le.mp hφ
  have hψ' := abs_le.mp hψ
  have hcos : 0 ≤ cos φ * cos ψ :=
    mul_nonneg (cos_nonneg_of_mem_Icc ⟨by linarith, by linarith⟩)
      (cos_nonneg_of_mem_Icc ⟨by linarith, by linarith⟩)
  have hle : cosAngle φ ψ d ≤ cos |ψ - φ| := by
    rw [cos_abs, cos_sub, cosAngle]
    nlinarith [cos_le_one d]
  have hpi : |ψ - φ| ≤ π := abs_le.mpr ⟨by linarith, by linarith⟩
  have := arccos_le_arccos hle
  rwa [arccos_cos (abs_nonneg _) hpi] at this

lemma spread_of_angle_le (h₀ : 0 ≤ ρ) (hpole : ρ + |φ| < π / 2) (h : angle φ ψ d ≤ ρ) :
    0 < cos d ∧ cos φ * |sin d| ≤ sin ρ := by
  have hφ' := abs_le.mp hφ
  have hψ' := abs_le.mp hψ
  have hρ : ρ < π / 2 := by linarith [abs_nonneg φ]
  have hcosφ : 0 ≤ cos φ := cos_nonneg_of_mem_Icc ⟨by linarith, by linarith⟩
  have hcosψ : 0 ≤ cos ψ := cos_nonneg_of_mem_Icc ⟨by linarith, by linarith⟩
  have hcosρ : 0 < cos ρ := cos_pos_of_mem_Ioo ⟨by linarith, hρ⟩
  have hsinρ : 0 ≤ sin ρ := sin_nonneg_of_nonneg_of_le_pi h₀ (by linarith [pi_pos])
  have hcap := (angle_le_iff h₀ (by linarith [pi_pos])).mp h
  refine ⟨?_, ?_⟩
  · -- With no more than the product of the sines the angle reaches the pole.
    by_contra hd
    have hsines : cosAngle φ ψ d ≤ |sin φ| := by
      have hprod : sin φ * sin ψ ≤ |sin φ| := by
        calc sin φ * sin ψ ≤ |sin φ * sin ψ| := le_abs_self _
          _ = |sin φ| * |sin ψ| := abs_mul _ _
          _ ≤ |sin φ| := mul_le_of_le_one_right (abs_nonneg _) (abs_sin_le_one ψ)
      have hneg : cos φ * cos ψ * cos d ≤ 0 :=
        mul_nonpos_of_nonneg_of_nonpos (mul_nonneg hcosφ hcosψ) (not_lt.mp hd)
      rw [cosAngle]
      linarith
    have habs : |sin φ| = sin |φ| := by
      rcases abs_cases φ with ⟨heq, h0⟩ | ⟨heq, h0⟩
      · rw [heq, abs_of_nonneg (sin_nonneg_of_nonneg_of_le_pi h0 (by linarith [pi_pos]))]
      · rw [heq, sin_neg, abs_of_nonpos]
        exact sin_nonpos_of_nonpos_of_neg_pi_le h0.le (by linarith [pi_pos])
    have hlt : sin |φ| < cos ρ := by
      rw [← cos_pi_div_two_sub]
      exact cos_lt_cos_of_nonneg_of_le_pi h₀ (by linarith [abs_nonneg φ, pi_pos]) (by linarith)
    linarith [habs ▸ hsines]
  · have hcauchy : cosAngle φ ψ d ^ 2 ≤ sin φ ^ 2 + (cos φ * cos d) ^ 2 := by
      have hψsq := sin_sq_add_cos_sq ψ
      rw [cosAngle]
      nlinarith [sq_nonneg (sin φ * cos ψ - cos φ * cos d * sin ψ)]
    have hsq : cos ρ ^ 2 ≤ cosAngle φ ψ d ^ 2 := pow_le_pow_left₀ hcosρ.le hcap 2
    have hd := sin_sq_add_cos_sq d
    have hφsq := sin_sq_add_cos_sq φ
    have hρsq := sin_sq_add_cos_sq ρ
    have hsquares : (cos φ * |sin d|) ^ 2 ≤ sin ρ ^ 2 := by
      rw [mul_pow, sq_abs]
      nlinarith
    exact abs_le_of_sq_le_sq' hsquares hsinρ |>.2

end Latitude

lemma exists_pole {φ ρ : ℝ} (hφ : |φ| ≤ π / 2) (hpole : π / 2 ≤ ρ + |φ|) (d : ℝ) :
    ∃ ψ, |ψ| ≤ π / 2 ∧ angle φ ψ d ≤ ρ := by
  have hφ' := abs_le.mp hφ
  have hhalf : (0 : ℝ) ≤ π / 2 := by linarith [pi_pos]
  rcases abs_cases φ with ⟨heq, h₀⟩ | ⟨heq, h₀⟩
  · refine ⟨π / 2, by rw [abs_of_nonneg hhalf], ?_⟩
    have hcos : cosAngle φ (π / 2) d = cos (π / 2 - φ) := by
      rw [cosAngle, sin_pi_div_two, cos_pi_div_two, cos_pi_div_two_sub]
      ring
    rw [angle, hcos, arccos_cos (by linarith) (by linarith)]
    linarith
  · refine ⟨-(π / 2), by rw [abs_neg, abs_of_nonneg hhalf], ?_⟩
    have hcos : cosAngle φ (-(π / 2)) d = cos (π / 2 + φ) := by
      rw [cosAngle, sin_neg, cos_neg, sin_pi_div_two, cos_pi_div_two,
        add_comm (π / 2) φ, cos_add_pi_div_two]
      ring
    rw [angle, hcos, arccos_cos (by linarith) (by linarith)]
    linarith

lemma exists_latitude {φ ρ d : ℝ} (h₀ : 0 ≤ ρ) (hρ : ρ ≤ π / 2) (hφ : 0 < cos φ) (hd : 0 < cos d)
    (hspread : cos φ * |sin d| ≤ sin ρ) : ∃ ψ, |ψ| ≤ π / 2 ∧ angle φ ψ d ≤ ρ := by
  set A := sin φ with hA
  set B := cos φ * cos d with hB
  have hBpos : 0 < B := mul_pos hφ hd
  set N := √(A ^ 2 + B ^ 2) with hN
  have hsum : 0 < A ^ 2 + B ^ 2 := by positivity
  have hNpos : 0 < N := sqrt_pos.mpr hsum
  have hNsq : N ^ 2 = A ^ 2 + B ^ 2 := sq_sqrt hsum.le
  have hfrac : |A / N| ≤ 1 := by
    rw [abs_div, abs_of_pos hNpos, div_le_one hNpos]
    exact abs_le_of_sq_le_sq (by nlinarith) hNpos.le
  obtain ⟨hlo, hhi⟩ := abs_le.mp hfrac
  refine ⟨arcsin (A / N), abs_le.mpr ⟨neg_pi_div_two_le_arcsin _, arcsin_le_pi_div_two _⟩, ?_⟩
  have hcos : cos (arcsin (A / N)) = B / N := by
    have hsq : 1 - (A / N) ^ 2 = (B / N) ^ 2 := by
      field_simp
      linarith
    rw [cos_arcsin, hsq, sqrt_sq (by positivity)]
  have hvalue : cosAngle φ (arcsin (A / N)) d = N := by
    have hreorder : cos φ * (B / N) * cos d = B * (B / N) := by
      rw [hB]
      ring
    rw [cosAngle, sin_arcsin hlo hhi, hcos, ← hA, hreorder]
    field_simp
    linarith
  rw [angle_le_iff h₀ (by linarith [pi_pos]), hvalue]
  have hsinρ : 0 ≤ sin ρ := sin_nonneg_of_nonneg_of_le_pi h₀ (by linarith [pi_pos])
  have hsquares : (cos φ * |sin d|) ^ 2 ≤ sin ρ ^ 2 :=
    pow_le_pow_left₀ (mul_nonneg hφ.le (abs_nonneg _)) hspread 2
  rw [mul_pow, sq_abs] at hsquares
  have hNge : cos ρ ^ 2 ≤ N ^ 2 := by
    have h₁ := sin_sq_add_cos_sq φ
    have h₂ := sin_sq_add_cos_sq d
    have h₃ := sin_sq_add_cos_sq ρ
    rw [hNsq, hA, hB, mul_pow]
    nlinarith
  exact (abs_le_of_sq_le_sq' hNge hNpos.le).2

/-! ### Longitudes -/

/-- How far a cap without a pole spreads to each side. -/
noncomputable def halfWidth (φ ρ : ℝ) : ℝ := arcsin (sin ρ / cos φ)

section Longitude

variable {φ ρ : ℝ} (h₀ : 0 ≤ ρ) (hpole : ρ + |φ| < π / 2)

include h₀ hpole

lemma cos_pos_of_no_pole : 0 < cos φ := by
  have := abs_lt.mp (show |φ| < π / 2 by linarith)
  exact cos_pos_of_mem_Ioo ⟨by linarith [this.1], this.2⟩

lemma sin_lt_cos : sin ρ < cos φ := by
  rw [← cos_abs φ, ← sin_pi_div_two_sub]
  exact sin_lt_sin_of_lt_of_le_pi_div_two (by linarith [pi_pos]) (by linarith [abs_nonneg φ]) (by linarith)

lemma halfWidth_nonneg : 0 ≤ halfWidth φ ρ := by
  have hsin : 0 ≤ sin ρ := sin_nonneg_of_nonneg_of_le_pi h₀ (by linarith [pi_pos, abs_nonneg φ])
  exact arcsin_nonneg.mpr (div_nonneg hsin (cos_pos_of_no_pole h₀ hpole).le)

lemma halfWidth_lt : halfWidth φ ρ < π / 2 := by
  rw [halfWidth, arcsin_lt_pi_div_two, div_lt_one (cos_pos_of_no_pole h₀ hpole)]
  exact sin_lt_cos h₀ hpole

lemma spread_of_le_halfWidth {d : ℝ} (hd₀ : 0 ≤ d) (hd : d ≤ halfWidth φ ρ) :
    0 < cos d ∧ cos φ * |sin d| ≤ sin ρ := by
  have hφ := cos_pos_of_no_pole h₀ hpole
  have hlt := halfWidth_lt h₀ hpole
  have hsin : 0 ≤ sin d := sin_nonneg_of_nonneg_of_le_pi hd₀ (by linarith [pi_pos])
  refine ⟨cos_pos_of_mem_Ioo ⟨by linarith [pi_pos], by linarith⟩, ?_⟩
  have hle : sin d ≤ sin ρ / cos φ :=
    (le_arcsin_iff_sin_le' ⟨by linarith [pi_pos], by linarith⟩).mp hd
  rw [abs_of_nonneg hsin, mul_comm]
  exact (le_div_iff₀ hφ).mp hle

lemma le_halfWidth_of_spread {d : ℝ} (hd₀ : 0 ≤ d) (hd : d ≤ 2 * π) (hcos : 0 < cos d)
    (hspread : cos φ * |sin d| ≤ sin ρ) : d ≤ halfWidth φ ρ ∨ 2 * π - halfWidth φ ρ ≤ d := by
  have hφ := cos_pos_of_no_pole h₀ hpole
  have hdiv : |sin d| ≤ sin ρ / cos φ := by
    rw [le_div_iff₀ hφ, mul_comm]
    exact hspread
  have hnear : ∀ x, 0 ≤ x → x ≤ π / 2 → |sin x| ≤ sin ρ / cos φ → x ≤ halfWidth φ ρ := by
    intro x hx₀ hx hsin
    exact (le_arcsin_iff_sin_le' ⟨by linarith [pi_pos], hx⟩).mpr ((le_abs_self _).trans hsin)
  by_cases hsmall : d ≤ π / 2
  · exact .inl (hnear d hd₀ hsmall hdiv)
  · have hlarge : 3 * π / 2 ≤ d := by
      by_contra hmid
      have := cos_nonpos_of_pi_div_two_le_of_le (x := d) (not_le.mp hsmall).le (by linarith)
      linarith
    refine .inr ?_
    have hsin : |sin (2 * π - d)| ≤ sin ρ / cos φ := by
      rw [sin_two_pi_sub, abs_neg]
      exact hdiv
    have := hnear (2 * π - d) (by linarith) (by linarith) hsin
    linarith

end Longitude

end SphereCap
