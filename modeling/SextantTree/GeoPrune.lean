import Mathlib.Analysis.Real.Pi.Bounds
import SextantTree.SphereCap

/-!
Geo predicates on rows and on summaries, over exact reals. The summary test turns a circle into a
box: 111 km for a degree of latitude, and the longitudes of the box widened by the cosine of the
centre's latitude. The box keeps the latitudes of the circle. It keeps its longitudes only if the
circle meets neither a pole nor the antimeridian, and spreads no further than the box.
-/

namespace SextantTree.Geo

open Real SphereCap

noncomputable section

/-! ### The code -/

inductive GeoPredicate where
  | geoBox (minLat minLng maxLat maxLng : ℝ)
  | geoRadius (lat lng radiusKm : ℝ)

/-- The coordinates of a row; `none` is NULL. -/
structure GeoRow where
  lat : Option ℝ
  lng : Option ℝ

def kEarthRadiusKm : ℝ := 6371

def kKmPerDegLat : ℝ := 111

def kDegToRad : ℝ := π / 180

/-- `std::atan2`. -/
def atan2 (y x : ℝ) : ℝ := Complex.arg ⟨x, y⟩

/-- `haversine_km`. -/
def haversineKm (lat1 lng1 lat2 lng2 : ℝ) : ℝ :=
  let dlat := (lat2 - lat1) * kDegToRad
  let dlng := (lng2 - lng1) * kDegToRad
  let a := sin (dlat / 2) * sin (dlat / 2) +
    cos (lat1 * kDegToRad) * cos (lat2 * kDegToRad) * sin (dlng / 2) * sin (dlng / 2)
  kEarthRadiusKm * 2 * atan2 (√a) (√(1 - a))

/-- The switch of `eval_predicate_geo`. -/
def Matches : GeoPredicate → ℝ → ℝ → Prop
  | .geoBox minLat minLng maxLat maxLng, lat, lng =>
    minLat ≤ lat ∧ lat ≤ maxLat ∧ minLng ≤ lng ∧ lng ≤ maxLng
  | .geoRadius cLat cLng radiusKm, lat, lng => haversineKm cLat cLng lat lng ≤ radiusKm

/-- `eval_predicate_geo`: a row with a NULL coordinate does not match. -/
def EvalPredicateGeo (pred : GeoPredicate) (row : GeoRow) : Prop :=
  match row.lat, row.lng with
  | some lat, some lng => Matches pred lat lng
  | _, _ => False

/-- The least and the greatest value of a column that are not NULL. A column without values has the
empty range. -/
def numRange (vs : List (Option ℝ)) : Option (ℝ × ℝ) :=
  match (vs.filterMap id).min?, (vs.filterMap id).max? with
  | some lo, some hi => some (lo, hi)
  | _, _ => none

/-- The ranges of the two columns in the summary of a leaf. -/
structure GeoSummary where
  lat : Option (ℝ × ℝ)
  lng : Option (ℝ × ℝ)

def summarize (rows : List GeoRow) : GeoSummary :=
  ⟨numRange (rows.map GeoRow.lat), numRange (rows.map GeoRow.lng)⟩

/-- Half the longitudes of the box of a circle. -/
def boxHalfLng (lat radiusKm : ℝ) : ℝ :=
  let cosLat := cos (lat * kDegToRad)
  if |cosLat| < 1 / 10 ^ 6 then 180 else radiusKm / (kKmPerDegLat * cosLat)

/-- The box a predicate is tested with: latitudes and longitudes, from and to. -/
def boxOf : GeoPredicate → (ℝ × ℝ) × (ℝ × ℝ)
  | .geoBox minLat minLng maxLat maxLng => ((minLat, maxLat), (minLng, maxLng))
  | .geoRadius lat lng radiusKm =>
    ((lat - radiusKm / kKmPerDegLat, lat + radiusKm / kKmPerDegLat),
      (lng - boxHalfLng lat radiusKm, lng + boxHalfLng lat radiusKm))

/-- One column of the test: the box does not end before the range nor start behind it. -/
def RangeMayMatch (box : ℝ × ℝ) : Option (ℝ × ℝ) → Prop
  | none => False
  | some r => ¬ (r.2 < box.1 ∨ box.2 < r.1)

/-- The geo branch of `summary_may_match`. -/
def SummaryMayMatch (pred : GeoPredicate) (sm : GeoSummary) : Prop :=
  RangeMayMatch (boxOf pred).1 sm.lat ∧ RangeMayMatch (boxOf pred).2 sm.lng

/-! ### Conservative pruning -/

def Globe : Set (ℝ × ℝ) := {x | |x.1| ≤ 90 ∧ |x.2| ≤ 180}

/-- No leaf with a matching row is pruned, as long as its rows have coordinates in `D`. -/
def Conservative (pred : GeoPredicate) (D : Set (ℝ × ℝ)) : Prop :=
  ∀ rows : List GeoRow,
    (∀ row ∈ rows, ∀ lat lng, row.lat = some lat → row.lng = some lng → (lat, lng) ∈ D) →
    (∃ row ∈ rows, EvalPredicateGeo pred row) → SummaryMayMatch pred (summarize rows)

def InBox (pred : GeoPredicate) (lat lng : ℝ) : Prop :=
  ((boxOf pred).1.1 ≤ lat ∧ lat ≤ (boxOf pred).1.2) ∧ (boxOf pred).2.1 ≤ lng ∧ lng ≤ (boxOf pred).2.2

lemma mem_numRange {vs : List (Option ℝ)} {v : ℝ} (h : some v ∈ vs) :
    ∃ r, numRange vs = some r ∧ r.1 ≤ v ∧ v ≤ r.2 := by
  have hmem : v ∈ vs.filterMap id := List.mem_filterMap.mpr ⟨some v, h, rfl⟩
  unfold numRange
  cases hlo : (vs.filterMap id).min? with
  | none =>
    rw [List.min?_eq_none_iff.mp hlo] at hmem
    cases hmem
  | some lo =>
    cases hhi : (vs.filterMap id).max? with
    | none =>
      rw [List.max?_eq_none_iff.mp hhi] at hmem
      cases hmem
    | some hi =>
      exact ⟨(lo, hi), rfl, (List.min?_eq_some_iff.mp hlo).2 v hmem, (List.max?_eq_some_iff.mp hhi).2 v hmem⟩

/-- **Pruning is conservative** when every matching point is in the box, and only then. -/
lemma conservative_iff (pred : GeoPredicate) (D : Set (ℝ × ℝ)) :
    Conservative pred D ↔ ∀ lat lng, (lat, lng) ∈ D → Matches pred lat lng → InBox pred lat lng := by
  constructor
  · intro h lat lng hD hmatch
    have := h [⟨some lat, some lng⟩] (fun row hrow lat' lng' hlat hlng => ?_)
      ⟨_, List.mem_singleton_self _, hmatch⟩
    · obtain ⟨hlat, hlng⟩ := this
      simp only [summarize, numRange, RangeMayMatch, List.map_cons, List.map_nil, List.filterMap_cons,
        id, List.filterMap_nil, List.min?_singleton, List.max?_singleton, not_or, not_lt] at hlat hlng
      exact ⟨hlat, hlng⟩
    · obtain rfl := List.mem_singleton.mp hrow
      cases hlat
      cases hlng
      exact hD
  · rintro h rows hrows ⟨⟨lat, lng⟩, hrow, hmatch⟩
    cases lat with
    | none => cases hmatch
    | some lat =>
      cases lng with
      | none => cases hmatch
      | some lng =>
        obtain ⟨⟨hlat₁, hlat₂⟩, hlng₁, hlng₂⟩ := h lat lng (hrows _ hrow lat lng rfl rfl) hmatch
        obtain ⟨r, hr, hr₁, hr₂⟩ := mem_numRange (List.mem_map.mpr ⟨_, hrow, rfl⟩ :
          some lat ∈ rows.map GeoRow.lat)
        obtain ⟨t, ht, ht₁, ht₂⟩ := mem_numRange (List.mem_map.mpr ⟨_, hrow, rfl⟩ :
          some lng ∈ rows.map GeoRow.lng)
        refine ⟨?_, ?_⟩
        · rw [summarize, hr, RangeMayMatch]
          rintro (hlt | hlt) <;> linarith
        · rw [summarize, ht, RangeMayMatch]
          rintro (hlt | hlt) <;> linarith

/-! ### Distances -/

lemma atan2_sqrt {a : ℝ} (h₀ : 0 ≤ a) (h₁ : a ≤ 1) : atan2 (√a) (√(1 - a)) = arcsin (√a) := by
  have hnorm : ‖(⟨√(1 - a), √a⟩ : ℂ)‖ = 1 := by
    rw [Complex.norm_eq_sqrt_sq_add_sq, sq_sqrt (by linarith), sq_sqrt h₀]
    norm_num
  rw [atan2, Complex.arg_of_re_nonneg (sqrt_nonneg _), hnorm, div_one]

lemma haversineKm_eq (lat1 lng1 lat2 lng2 : ℝ) :
    haversineKm lat1 lng1 lat2 lng2 = kEarthRadiusKm *
      angle (lat1 * kDegToRad) (lat2 * kDegToRad) ((lng2 - lng1) * kDegToRad) := by
  have hhav : sin ((lat2 - lat1) * kDegToRad / 2) * sin ((lat2 - lat1) * kDegToRad / 2) +
      cos (lat1 * kDegToRad) * cos (lat2 * kDegToRad) * sin ((lng2 - lng1) * kDegToRad / 2) *
        sin ((lng2 - lng1) * kDegToRad / 2) =
      hav (lat1 * kDegToRad) (lat2 * kDegToRad) ((lng2 - lng1) * kDegToRad) := by
    rw [hav, sub_mul lat2 lat1]
  obtain ⟨h₀, h₁⟩ := hav_mem (lat1 * kDegToRad) (lat2 * kDegToRad) ((lng2 - lng1) * kDegToRad)
  simp only [haversineKm]
  rw [hhav, atan2_sqrt h₀ h₁, mul_assoc, two_mul_arcsin_sqrt_hav]

lemma kDegToRad_pos : 0 < kDegToRad := div_pos pi_pos (by norm_num)

def capAngle (radiusKm : ℝ) : ℝ := radiusKm / kEarthRadiusKm

lemma matches_iff (cLat cLng radiusKm lat lng : ℝ) :
    Matches (.geoRadius cLat cLng radiusKm) lat lng ↔
      angle (cLat * kDegToRad) (lat * kDegToRad) ((lng - cLng) * kDegToRad) ≤ capAngle radiusKm := by
  rw [Matches, haversineKm_eq, capAngle, le_div_iff₀ (by norm_num [kEarthRadiusKm]), mul_comm]

/-! ### The box of a circle -/

/-- How many degrees of longitude a circle without a pole spreads to each side. -/
def halfWidthDeg (lat radiusKm : ℝ) : ℝ :=
  halfWidth (lat * kDegToRad) (capAngle radiusKm) / kDegToRad

def NoPole (lat radiusKm : ℝ) : Prop := capAngle radiusKm + |lat * kDegToRad| < π / 2

/-- The box has the whole circle: all longitudes, or those of a circle that meets neither a pole nor
the antimeridian and spreads no further than the box. -/
def BoxCovers : GeoPredicate → Prop
  | .geoBox .. => True
  | .geoRadius lat lng radiusKm =>
    180 + |lng| ≤ boxHalfLng lat radiusKm ∨
      (NoPole lat radiusKm ∧ |lng| + halfWidthDeg lat radiusKm < 180 ∧
        halfWidthDeg lat radiusKm ≤ boxHalfLng lat radiusKm)

def GeoPredicate.CentreOnGlobe : GeoPredicate → Prop
  | .geoBox .. => True
  | .geoRadius lat lng _ => (lat, lng) ∈ Globe

section Radius

variable {cLat cLng radiusKm : ℝ}

lemma abs_rad_le {x b : ℝ} (h : |x| ≤ b) : |x * kDegToRad| ≤ b * kDegToRad := by
  rw [abs_mul, abs_of_pos kDegToRad_pos]
  exact mul_le_mul_of_nonneg_right h kDegToRad_pos.le

lemma rad_90 : 90 * kDegToRad = π / 2 := by
  rw [kDegToRad]
  ring

lemma rad_360 : 360 * kDegToRad = 2 * π := by
  rw [kDegToRad]
  ring

lemma capAngle_nonneg (h : 0 ≤ radiusKm) : 0 ≤ capAngle radiusKm :=
  div_nonneg h (by norm_num [kEarthRadiusKm])

lemma capAngle_le (h : 0 ≤ radiusKm) : capAngle radiusKm ≤ radiusKm / kKmPerDegLat * kDegToRad := by
  have hpi : 3.14 < π := pi_gt_d2
  have hle : kKmPerDegLat ≤ kEarthRadiusKm * kDegToRad := by
    rw [kKmPerDegLat, kEarthRadiusKm, kDegToRad]
    linarith
  rw [capAngle, div_mul_eq_mul_div, div_le_div_iff₀ (by norm_num [kEarthRadiusKm])
    (by norm_num [kKmPerDegLat])]
  calc radiusKm * kKmPerDegLat ≤ radiusKm * (kEarthRadiusKm * kDegToRad) :=
        mul_le_mul_of_nonneg_left hle h
    _ = radiusKm * kDegToRad * kEarthRadiusKm := by ring

/-- **The latitudes of the circle are in the box.** -/
lemma lat_mem_box (hc : |cLat| ≤ 90) (hr : 0 ≤ radiusKm) {lat lng : ℝ} (hlat : |lat| ≤ 90)
    (h : Matches (.geoRadius cLat cLng radiusKm) lat lng) :
    |lat - cLat| ≤ radiusKm / kKmPerDegLat := by
  have hangle := (matches_iff _ _ _ _ _).mp h
  have hlats := abs_sub_le_angle (d := (lng - cLng) * kDegToRad) (rad_90 ▸ abs_rad_le hc)
    (rad_90 ▸ abs_rad_le hlat)
  rw [← sub_mul, abs_mul, abs_of_pos kDegToRad_pos] at hlats
  exact le_of_mul_le_mul_right (hlats.trans (hangle.trans (capAngle_le hr))) kDegToRad_pos

lemma inBox_iff {lat lng : ℝ} : InBox (.geoRadius cLat cLng radiusKm) lat lng ↔
    |lat - cLat| ≤ radiusKm / kKmPerDegLat ∧ |lng - cLng| ≤ boxHalfLng cLat radiusKm := by
  simp only [InBox, boxOf, abs_le]
  constructor
  · rintro ⟨⟨h₁, h₂⟩, h₃, h₄⟩
    exact ⟨⟨by linarith, by linarith⟩, by linarith, by linarith⟩
  · rintro ⟨⟨h₁, h₂⟩, h₃, h₄⟩
    exact ⟨⟨by linarith, by linarith⟩, by linarith, by linarith⟩

lemma angle_abs (φ ψ x : ℝ) : angle φ ψ (|x| * kDegToRad) = angle φ ψ (x * kDegToRad) := by
  have : cos (|x| * kDegToRad) = cos (x * kDegToRad) := by
    rw [← abs_of_pos kDegToRad_pos, ← abs_mul, cos_abs]
    rw [abs_of_pos kDegToRad_pos]
  rw [angle, angle, cosAngle, cosAngle, this]

/-- **Enough**: a box that covers has the longitudes of the circle. -/
lemma lng_mem_box (hc : (cLat, cLng) ∈ Globe) (hr : 0 ≤ radiusKm)
    (hcover : BoxCovers (.geoRadius cLat cLng radiusKm)) {lat lng : ℝ} (hp : (lat, lng) ∈ Globe)
    (h : Matches (.geoRadius cLat cLng radiusKm) lat lng) :
    |lng - cLng| ≤ boxHalfLng cLat radiusKm := by
  have hspan : |lng - cLng| ≤ 180 + |cLng| := by
    calc |lng - cLng| ≤ |lng| + |cLng| := abs_sub _ _
      _ ≤ 180 + |cLng| := by linarith [hp.2]
  rcases hcover with hall | ⟨hpole, hmeridian, hwidth⟩
  · exact hspan.trans hall
  · have hangle := (matches_iff _ _ _ _ _).mp h
    rw [← angle_abs] at hangle
    have hrad : 0 ≤ |lng - cLng| * kDegToRad := mul_nonneg (abs_nonneg _) kDegToRad_pos.le
    obtain ⟨hcos, hspread⟩ := spread_of_angle_le (rad_90 ▸ abs_rad_le hc.1) (rad_90 ▸ abs_rad_le hp.1)
      (capAngle_nonneg hr) hpole hangle
    have hround : |lng - cLng| * kDegToRad ≤ 2 * π := by
      rw [← rad_360]
      exact mul_le_mul_of_nonneg_right (by linarith [hc.2]) kDegToRad_pos.le
    rcases le_halfWidth_of_spread (capAngle_nonneg hr) hpole hrad hround hcos hspread with hle | hge
    · exact ((le_div_iff₀ kDegToRad_pos).mpr hle).trans hwidth
    · -- The other way round the globe is longer than the two longitudes are apart.
      have hdeg : 360 - halfWidthDeg cLat radiusKm ≤ |lng - cLng| := by
        rw [halfWidthDeg, ← mul_le_mul_iff_left₀ kDegToRad_pos, sub_mul, rad_360,
          div_mul_cancel₀ _ kDegToRad_pos.ne']
        exact hge
      linarith

lemma le_boxHalfLng (hcons : Conservative (.geoRadius cLat cLng radiusKm) Globe) (lng : ℝ)
    (hlng : |lng| ≤ 180)
    (hreach : ∃ ψ, |ψ| ≤ π / 2 ∧
      angle (cLat * kDegToRad) ψ (|lng - cLng| * kDegToRad) ≤ capAngle radiusKm) :
    |lng - cLng| ≤ boxHalfLng cLat radiusKm := by
  obtain ⟨ψ, hψ, hangle⟩ := hreach
  have hdeg : ψ / kDegToRad * kDegToRad = ψ := div_mul_cancel₀ _ kDegToRad_pos.ne'
  have hlat : |ψ / kDegToRad| ≤ 90 := by
    rw [abs_div, abs_of_pos kDegToRad_pos, div_le_iff₀ kDegToRad_pos, rad_90]
    exact hψ
  have hmatch : Matches (.geoRadius cLat cLng radiusKm) (ψ / kDegToRad) lng := by
    rw [matches_iff, hdeg, ← angle_abs]
    exact hangle
  exact (inBox_iff.mp ((conservative_iff _ _).mp hcons _ _ ⟨hlat, hlng⟩ hmatch)).2

lemma exists_far (cLng : ℝ) : ∃ lng : ℝ, |lng| ≤ 180 ∧ |lng - cLng| = 180 + |cLng| := by
  rcases abs_cases cLng with ⟨heq, h₀⟩ | ⟨heq, h₀⟩
  · refine ⟨-180, by norm_num, ?_⟩
    rw [abs_of_nonpos (by linarith), heq]
    ring
  · refine ⟨180, by norm_num, ?_⟩
    rw [abs_of_nonneg (by linarith), heq]
    ring

/-- **Needed**: what is not covered has a matching point outside the box. -/
lemma boxCovers_of_conservative (hc : (cLat, cLng) ∈ Globe) (hr : 0 ≤ radiusKm)
    (hcons : Conservative (.geoRadius cLat cLng radiusKm) Globe) :
    BoxCovers (.geoRadius cLat cLng radiusKm) := by
  obtain ⟨far, hfar, hdist⟩ := exists_far cLng
  have hρ := capAngle_nonneg hr
  by_cases hpole : NoPole cLat radiusKm
  · have hφ := cos_pos_of_no_pole hρ hpole
    have hcap : capAngle radiusKm ≤ π / 2 := by
      have : capAngle radiusKm + |cLat * kDegToRad| < π / 2 := hpole
      linarith [abs_nonneg (cLat * kDegToRad)]
    have hreach : ∀ d, 0 ≤ d → d ≤ halfWidth (cLat * kDegToRad) (capAngle radiusKm) →
        ∃ ψ, |ψ| ≤ π / 2 ∧ angle (cLat * kDegToRad) ψ d ≤ capAngle radiusKm := by
      intro d hd₀ hd
      obtain ⟨hcos, hspread⟩ := spread_of_le_halfWidth hρ hpole hd₀ hd
      exact exists_latitude hρ hcap hφ hcos hspread
    have hwidth : halfWidthDeg cLat radiusKm * kDegToRad =
        halfWidth (cLat * kDegToRad) (capAngle radiusKm) := div_mul_cancel₀ _ kDegToRad_pos.ne'
    have hwidth₀ : 0 ≤ halfWidthDeg cLat radiusKm :=
      div_nonneg (halfWidth_nonneg hρ hpole) kDegToRad_pos.le
    by_cases hmeridian : |cLng| + halfWidthDeg cLat radiusKm < 180
    · -- A point at the eastern end of the circle.
      refine .inr ⟨hpole, hmeridian, ?_⟩
      have hsub : cLng + halfWidthDeg cLat radiusKm - cLng = halfWidthDeg cLat radiusKm := by ring
      have := le_boxHalfLng hcons (cLng + halfWidthDeg cLat radiusKm)
        ((abs_add_le _ _).trans (by rw [abs_of_nonneg hwidth₀]; exact hmeridian.le))
        (by
          rw [hsub, abs_of_nonneg hwidth₀, hwidth]
          exact hreach _ (halfWidth_nonneg hρ hpole) le_rfl)
      rwa [hsub, abs_of_nonneg hwidth₀] at this
    · -- The circle meets the antimeridian: a point on its other side.
      refine .inl ?_
      rw [← hdist]
      refine le_boxHalfLng hcons far hfar ?_
      have hback : ∀ ψ, angle (cLat * kDegToRad) ψ (|far - cLng| * kDegToRad) =
          angle (cLat * kDegToRad) ψ ((180 - |cLng|) * kDegToRad) := by
        intro ψ
        have hcos : cos (|far - cLng| * kDegToRad) = cos ((180 - |cLng|) * kDegToRad) := by
          have hsum : |far - cLng| * kDegToRad = 2 * π - (180 - |cLng|) * kDegToRad := by
            rw [hdist, ← rad_360]
            ring
          rw [hsum, cos_two_pi_sub]
        rw [angle, angle, cosAngle, cosAngle, hcos]
      have hnear := hreach ((180 - |cLng|) * kDegToRad)
        (mul_nonneg (by linarith [hc.2]) kDegToRad_pos.le)
        (by rw [← hwidth]; exact mul_le_mul_of_nonneg_right (by linarith) kDegToRad_pos.le)
      obtain ⟨ψ, hψ, hangle⟩ := hnear
      exact ⟨ψ, hψ, (hback ψ).le.trans hangle⟩
  · refine .inl ?_
    rw [← hdist]
    exact le_boxHalfLng hcons far hfar (exists_pole (rad_90 ▸ abs_rad_le hc.1) (not_lt.mp hpole) _)

lemma matches_turn (hr : 0 ≤ radiusKm) (k : ℕ) :
    Matches (.geoRadius cLat cLng radiusKm) cLat (cLng + k * 360) := by
  rw [matches_iff]
  have hturn : (cLng + k * 360 - cLng) * kDegToRad = k * (2 * π) := by
    rw [← rad_360]
    ring
  have hzero : angle (cLat * kDegToRad) (cLat * kDegToRad) (k * (2 * π)) = 0 := by
    have hone : cosAngle (cLat * kDegToRad) (cLat * kDegToRad) (k * (2 * π)) = 1 := by
      rw [cosAngle, cos_nat_mul_two_pi, mul_one, ← sq, ← sq]
      exact sin_sq_add_cos_sq _
    rw [angle, hone, arccos_one]
  rw [hturn, hzero]
  exact capAngle_nonneg hr

end Radius

def GeoPredicate.IsBox : GeoPredicate → Prop
  | .geoBox .. => True
  | .geoRadius .. => False

def GeoPredicate.RadiusNonneg : GeoPredicate → Prop
  | .geoBox .. => True
  | .geoRadius _ _ radiusKm => 0 ≤ radiusKm

lemma conservative_geoBox (minLat minLng maxLat maxLng : ℝ) (D : Set (ℝ × ℝ)) :
    Conservative (.geoBox minLat minLng maxLat maxLng) D := by
  rw [conservative_iff]
  rintro lat lng - ⟨h₁, h₂, h₃, h₄⟩
  exact ⟨⟨h₁, h₂⟩, h₃, h₄⟩

/-- **Pruning by position.** Boxes are safe for all rows. With rows on the globe a circle is safe if
its box covers it, and only then. With longitudes of any size no circle is safe. -/
theorem geo_pruning_conservative_iff (pred : GeoPredicate) (h : pred.RadiusNonneg) :
    (Conservative pred Set.univ ↔ pred.IsBox) ∧
      (pred.CentreOnGlobe → (Conservative pred Globe ↔ BoxCovers pred)) := by
  cases pred with
  | geoBox minLat minLng maxLat maxLng =>
    have hbox := conservative_geoBox minLat minLng maxLat maxLng
    exact ⟨iff_of_true (hbox _) trivial, fun _ => iff_of_true (hbox _) trivial⟩
  | geoRadius cLat cLng radiusKm =>
    refine ⟨iff_of_false (fun hcons => ?_) id, fun hc => ⟨boxCovers_of_conservative hc h, ?_⟩⟩
    · obtain ⟨k, hk⟩ := exists_nat_gt (boxHalfLng cLat radiusKm)
      obtain ⟨-, hlng⟩ := inBox_iff.mp
        ((conservative_iff _ _).mp hcons _ _ (Set.mem_univ _) (matches_turn h k))
      have hk₀ : (0 : ℝ) ≤ k := Nat.cast_nonneg k
      rw [add_sub_cancel_left, abs_of_nonneg (by linarith)] at hlng
      linarith
    · intro hcover
      rw [conservative_iff]
      intro lat lng hp hmatch
      exact inBox_iff.mpr ⟨lat_mem_box hc.1 h hp.1 hmatch, lng_mem_box hc h hcover hp hmatch⟩

lemma boxHalfLng_equator (radiusKm : ℝ) : boxHalfLng 0 radiusKm = radiusKm / kKmPerDegLat := by
  have : ¬ |cos (0 * kDegToRad)| < 1 / 10 ^ 6 := by
    rw [zero_mul, cos_zero]
    norm_num
  rw [boxHalfLng, if_neg this, zero_mul, cos_zero, mul_one]

lemma boxCovers_null_island : BoxCovers (.geoRadius 0 0 1) := by
  have hpi : 3.14 < π := pi_gt_d2
  have hcap : capAngle 1 = 1 / 6371 := rfl
  have hwidth : halfWidthDeg 0 1 = capAngle 1 / kDegToRad := by
    rw [halfWidthDeg, halfWidth, zero_mul, cos_zero, div_one, arcsin_sin]
    · rw [hcap]
      linarith
    · rw [hcap]
      linarith
  refine .inr ⟨?_, ?_, ?_⟩
  · rw [NoPole, hcap, zero_mul, abs_zero]
    linarith
  · rw [hwidth, abs_zero, zero_add, div_lt_iff₀ kDegToRad_pos, hcap, kDegToRad]
    linarith
  · rw [hwidth, boxHalfLng_equator, div_le_iff₀ kDegToRad_pos]
    exact capAngle_le zero_le_one

theorem geo_pruning_conservative_null_island : Conservative (.geoRadius 0 0 1) Globe :=
  ((geo_pruning_conservative_iff (.geoRadius 0 0 1) (show (0 : ℝ) ≤ 1 from zero_le_one)).2
    ⟨by norm_num, by norm_num⟩).mpr boxCovers_null_island

/-- The antimeridian is at 180 degrees and at -180 degrees. -/
theorem geo_prunes_matching_row :
    EvalPredicateGeo (.geoRadius 0 (-180) 1) ⟨some 0, some 180⟩ ∧
      ¬ SummaryMayMatch (.geoRadius 0 (-180) 1) (summarize [⟨some 0, some 180⟩]) := by
  constructor
  · have := @matches_turn 0 (-180) 1 zero_le_one 1
    norm_num at this
    exact this
  · rintro ⟨-, hlng⟩
    simp only [summarize, numRange, RangeMayMatch, List.map_cons, List.map_nil, List.filterMap_cons,
      id, List.filterMap_nil, List.min?_singleton, List.max?_singleton, not_or, not_lt, boxOf,
      boxHalfLng_equator, kKmPerDegLat] at hlng
    norm_num at hlng

end

end SextantTree.Geo
