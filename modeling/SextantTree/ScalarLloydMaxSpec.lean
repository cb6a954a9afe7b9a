import SextantTree.LloydMaxSpec
import SextantTree.ScalarLloydMax
import Mathlib.Algebra.Order.Chebyshev

/-!
Scalar codes pick a nearest level. The levels of every dimension come out of training in order, the
shared shape included, and then the search over their bounds is right; the bounds are right wherever
the array for them is large enough, which a blob does not see to.
-/

namespace SextantTree.ScalarLloydMax

open ByteMem MidpointCells LloydMax Quant LocalPq

variable {α : Type} [Field α]

namespace ScalarLloydMaxQuantizer

/-! ### Bounds -/

section Bounds

variable {q : ScalarLloydMaxQuantizer α}

lemma entry_set {xs : List α} {i : ℕ} (hi : i < xs.length) (v : α) (p : ℕ) :
    entry (xs.set i v) p = if p = i then v else entry xs p := by
  rw [entry, entry, List.getD_eq_getElem?_getD, List.getD_eq_getElem?_getD, List.getElem?_set]
  by_cases hp : p = i
  · subst hp
    simp [hi]
  · rw [if_neg hp, if_neg (Ne.symm hp)]

lemma computeBound_eq {d i : ℕ} (hlev : q.levels.length = q.dim * q.K) (hd : d < q.dim)
    (hi : i + 1 < q.K) (bounds : List α) :
    q.computeBound d bounds i =
      setAt bounds (d * (q.K - 1) + i) (bound (q.level d) i) := by
  have hend : d * q.K + q.K ≤ q.dim * q.K := by
    rw [← Nat.succ_mul]
    exact Nat.mul_le_mul_right _ hd
  have hread : ∀ p, p < q.levels.length → q.levels[p]? = some (entry q.levels p) := fun p hp => by
    rw [List.getElem?_eq_getElem hp, entry_eq_getElem hp]
  rw [computeBound, hread _ (by omega), hread _ (by omega)]
  rfl

lemma boundRow_spec {d : ℕ} (hlev : q.levels.length = q.dim * q.K) (hd : d < q.dim) (n : ℕ)
    (hn : n ≤ q.K - 1) (bounds : List α) (hroom : d * (q.K - 1) + n ≤ bounds.length) :
    ∃ bounds', (List.range n).foldlM (q.computeBound d) bounds = some bounds' ∧
      bounds'.length = bounds.length ∧
      ∀ p, entry bounds' p = if d * (q.K - 1) ≤ p ∧ p < d * (q.K - 1) + n then
        bound (q.level d) (p - d * (q.K - 1)) else entry bounds p := by
  induction n with
  | zero => exact ⟨bounds, rfl, rfl, fun p => by rw [if_neg (by omega)]⟩
  | succ n ih =>
    obtain ⟨b, hb, hlen, hentry⟩ := ih (by omega) (by omega)
    refine ⟨b.set (d * (q.K - 1) + n) (bound (q.level d) n), ?_, by rw [List.length_set, hlen],
      fun p => ?_⟩
    · rw [List.range_succ, List.foldlM_append, hb]
      simp only [Option.bind_eq_bind, Option.bind_some, List.foldlM_cons, List.foldlM_nil]
      rw [computeBound_eq hlev hd (by omega), setAt, if_pos (by omega)]
      rfl
    · rw [entry_set (by omega), hentry]
      by_cases hp : p = d * (q.K - 1) + n
      · rw [if_pos hp, if_pos (by omega), hp, Nat.add_sub_cancel_left]
      · rw [if_neg hp]
        exact if_congr (by omega) rfl rfl

lemma boundRow_none {d : ℕ} (hlev : q.levels.length = q.dim * q.K) (hd : d < q.dim) (n : ℕ)
    (hn : n ≤ q.K - 1) (bounds : List α) (hfits : d * (q.K - 1) ≤ bounds.length)
    (hroom : bounds.length < d * (q.K - 1) + n) :
    (List.range n).foldlM (q.computeBound d) bounds = none := by
  induction n with
  | zero => omega
  | succ n ih =>
    rw [List.range_succ, List.foldlM_append]
    rcases Nat.lt_or_ge bounds.length (d * (q.K - 1) + n) with h | h
    · rw [ih (by omega) h]
      rfl
    · obtain ⟨b, hb, hlen, -⟩ := boundRow_spec hlev hd n (by omega) bounds h
      rw [hb]
      simp only [Option.bind_eq_bind, Option.bind_some, List.foldlM_cons, List.foldlM_nil]
      rw [computeBound_eq hlev hd (by omega), setAt, if_neg (by omega)]
      rfl

lemma boundRows_spec (hlev : q.levels.length = q.dim * q.K) (D : ℕ)
    (hD : D ≤ q.dim) (bounds : List α) (hroom : D * (q.K - 1) ≤ bounds.length) :
    ∃ bounds', (List.range D).foldlM
        (fun bounds d => (List.range (q.K - 1)).foldlM (q.computeBound d) bounds) bounds =
          some bounds' ∧ bounds'.length = bounds.length ∧
      ∀ d < D, ∀ i < q.K - 1, entry bounds' (d * (q.K - 1) + i) = bound (q.level d) i := by
  induction D with
  | zero => exact ⟨bounds, rfl, rfl, fun d hd => absurd hd (Nat.not_lt_zero d)⟩
  | succ D ih =>
    rw [Nat.succ_mul] at hroom
    obtain ⟨b, hb, hlen, hentry⟩ := ih (by omega) (by omega)
    obtain ⟨b', hb', hlen', hentry'⟩ :=
      boundRow_spec hlev (by omega : D < q.dim) (q.K - 1) le_rfl b (by omega)
    refine ⟨b', ?_, hlen'.trans hlen, fun d hd i hi => ?_⟩
    · rw [List.range_succ, List.foldlM_append, hb]
      simp only [Option.bind_eq_bind, Option.bind_some, List.foldlM_cons, List.foldlM_nil]
      rw [hb']
      rfl
    · rw [hentry']
      rcases Nat.lt_succ_iff_lt_or_eq.1 hd with hlt | rfl
      · have : (d + 1) * (q.K - 1) ≤ D * (q.K - 1) := Nat.mul_le_mul_right _ hlt
        rw [Nat.succ_mul] at this
        rw [if_neg (by omega), hentry d hlt i hi]
      · rw [if_pos (by omega), Nat.add_sub_cancel_left]

lemma boundRows_none (hlev : q.levels.length = q.dim * q.K) (D : ℕ)
    (hD : D ≤ q.dim) (bounds : List α) (hroom : bounds.length < D * (q.K - 1)) :
    (List.range D).foldlM
        (fun bounds d => (List.range (q.K - 1)).foldlM (q.computeBound d) bounds) bounds = none := by
  induction D with
  | zero => omega
  | succ D ih =>
    rw [Nat.succ_mul] at hroom
    rw [List.range_succ, List.foldlM_append]
    rcases Nat.lt_or_ge bounds.length (D * (q.K - 1)) with h | h
    · rw [ih (by omega) h]
      rfl
    · obtain ⟨b, hb, hlen, -⟩ := boundRows_spec hlev D (by omega) bounds h
      rw [hb]
      simp only [Option.bind_eq_bind, Option.bind_some, List.foldlM_cons, List.foldlM_nil]
      rw [boundRow_none hlev (by omega : D < q.dim) (q.K - 1) le_rfl b (by omega) (by omega)]
      rfl

/-- The bounds are the middles of neighbouring levels. -/
def Bounded (q : ScalarLloydMaxQuantizer α) : Prop :=
  ∀ d < q.dim, ∀ i < q.K - 1, entry q.bounds (d * (q.K - 1) + i) = bound (q.level d) i

lemma computeBounds_room (hlev : q.levels.length = q.dim * q.K)
    (hroom : q.dim * (q.K - 1) ≤ q.bounds.length) :
    ∃ bounds, q.computeBounds = ({ q with bounds := bounds }, .ok ()) ∧
      bounds.length = q.bounds.length ∧ Bounded { q with bounds := bounds } := by
  obtain ⟨b, hb, hlen, hentry⟩ := boundRows_spec hlev q.dim le_rfl q.bounds hroom
  refine ⟨b, ?_, hlen, hentry⟩
  rw [computeBounds, hb]

lemma computeBounds_outside (hlev : q.levels.length = q.dim * q.K)
    (hroom : q.bounds.length < q.dim * (q.K - 1)) :
    q.computeBounds = (q, .error .outOfRange) := by
  rw [computeBounds, boundRows_none hlev q.dim le_rfl q.bounds hroom]

end Bounds

/-! ### Objects -/

structure Sized (q : ScalarLloydMaxQuantizer α) : Prop where
  bits : (q.bits = 4 ∧ q.K = 16) ∨ (q.bits = 8 ∧ q.K = 256)
  dim_lt : q.dim < 256 ^ 4
  levels : q.levels.length = q.dim * q.K
  bounds : q.dim * (q.K - 1) ≤ q.bounds.length
  mode_le : q.mode ≤ 2
  shape : q.mode = 2 → q.f.length = q.K ∧ q.steps.length = q.dim

omit [Field α] in
lemma Sized.one_lt_K {q : ScalarLloydMaxQuantizer α} (h : Sized q) : 1 < q.K := by
  rcases h.bits with ⟨-, hK⟩ | ⟨-, hK⟩ <;> omega

lemma sized_make {metric : MetricKind} {dim : UInt32} {bits : UInt8}
    {q : ScalarLloydMaxQuantizer α} (h : make metric dim bits = .ok q) : Sized q := by
  rw [make] at h
  split_ifs at h with hbits
  cases h
  refine ⟨?_, dim.toNat_lt, List.length_replicate .., (List.length_replicate ..).ge,
    Nat.zero_le 2, fun h => absurd (show 0 = 2 from h) (by decide)⟩
  by_cases h4 : bits = 4
  · subst h4
    exact Or.inl ⟨rfl, rfl⟩
  · have h8 : bits = 8 := by
      by_contra h8
      exact hbits ⟨h4, h8⟩
    subst h8
    exact Or.inr ⟨rfl, rfl⟩

lemma entry_flatMap {g : ℕ → List α} {D n : ℕ} (hg : ∀ d < D, (g d).length = n) {d k : ℕ}
    (hd : d < D) (hk : k < n) : entry ((List.range D).flatMap g) (d * n + k) = entry (g d) k := by
  have hlen : ∀ E ≤ D, ((List.range E).flatMap g).length = E * n := by
    intro E hE
    rw [length_flatMap_range (fun i hi => hg i (by omega)), total, List.map_const',
      List.sum_replicate, List.length_range, smul_eq_mul]
  obtain ⟨r, rfl⟩ : ∃ r, D = d + 1 + r := ⟨D - (d + 1), by omega⟩
  have hslice := slice_flatMap_range (f := fun _ => n) hg hd
  have htotal : total (fun _ => n) d = d * n := by
    rw [total, List.map_const', List.sum_replicate, List.length_range, smul_eq_mul]
  rw [htotal] at hslice
  rw [entry, entry, List.getD_eq_getElem?_getD, List.getD_eq_getElem?_getD, ← hslice,
    List.getElem?_take_of_lt hk, List.getElem?_drop]

lemma entry_map_range {n k : ℕ} (g : ℕ → α) (hk : k < n) :
    entry ((List.range n).map g) k = g k := by
  rw [entry_eq_getElem (by simpa using hk), List.getElem_map, List.getElem_range]

omit [Field α] in
lemma length_table {g : ℕ → List α} {D n : ℕ} (hg : ∀ d < D, (g d).length = n) :
    ((List.range D).flatMap g).length = D * n := by
  rw [length_flatMap_range (f := fun _ => n) hg, total, List.map_const', List.sum_replicate,
    List.length_range, smul_eq_mul]

variable [LinearOrder α]

/-- The levels of every dimension do not decrease. -/
def Ordered (q : ScalarLloydMaxQuantizer α) : Prop := ∀ d < q.dim, NonDecreasing (q.level d) q.K

structure Ready (q : ScalarLloydMaxQuantizer α) : Prop where
  sized : Sized q
  ordered : Ordered q
  bounded : Bounded q

lemma ready_computeBounds {q : ScalarLloydMaxQuantizer α} (h : Sized q) (ho : Ordered q) :
    ∃ q', q.computeBounds = (q', .ok ()) ∧ Ready q' := by
  obtain ⟨bounds, heq, hlen, hb⟩ := computeBounds_room h.levels h.bounds
  exact ⟨_, heq, ⟨h.bits, h.dim_lt, h.levels, h.bounds.trans hlen.ge, h.mode_le, h.shape⟩, ho, hb⟩

lemma ordered_table {q : ScalarLloydMaxQuantizer α} {g : ℕ → List α}
    (hlev : q.levels = (List.range q.dim).flatMap g)
    (hg : ∀ d < q.dim, (g d).length = q.K ∧ NonDecreasing (entry (g d)) q.K) : Ordered q := by
  intro d hd k hk
  rw [level, level, hlev, entry_flatMap (fun d hd => (hg d hd).1) hd (by omega),
    entry_flatMap (fun d hd => (hg d hd).1) hd (by omega)]
  exact (hg d hd).2 k hk

/-! ### Training -/

section Training

variable [IsStrictOrderedRing α] (q : ScalarLloydMaxQuantizer α)

lemma lloydMax1d_sorted {data init : List α} {numLevels : ℕ} (iters : ℕ) (hK : 0 < numLevels)
    (hlen : init.length = numLevels) :
    (lloydMax1d data numLevels iters init).length = numLevels ∧
      NonDecreasing (entry (lloydMax1d data numLevels iters init)) numLevels := by
  obtain ⟨hend, -⟩ := (NoWorse.init hK data hlen).iterate hK iters
  have hsort := nonDecreasing_sorted (iterate numLevels data iters (sorted init))
  rw [hend.length_eq] at hsort
  exact ⟨(length_sorted _).trans hend.length_eq, hsort⟩

lemma trainDim_sorted (hK : 0 < q.K) (col : List α) (nRestarts lloydIters : ℕ)
    (drawn : ℕ → ℕ → ℕ) :
    (q.trainDim col nRestarts lloydIters drawn).length = q.K ∧
      NonDecreasing (entry (q.trainDim col nRestarts lloydIters drawn)) q.K := by
  have hone : ∀ place, (lloydMax1d col q.K lloydIters (q.levelsAt col place)).length = q.K ∧
      NonDecreasing (entry (lloydMax1d col q.K lloydIters (q.levelsAt col place))) q.K :=
    fun place => lloydMax1d_sorted _ hK (by rw [levelsAt, List.length_map, List.length_range])
  rw [trainDim]
  generalize List.range' 1 (nRestarts - 1) = restarts
  refine List.foldlRecOn (motive := fun best : List α × α =>
    best.1.length = q.K ∧ NonDecreasing (entry best.1) q.K) restarts _ (hone _) ?_
  intro best hbest r _
  dsimp only
  split_ifs
  · exact hone _
  · exact hbest

/-- What training leaves: nothing changed and an error, or an object ready to encode. -/
def Trains (r : Result α) : Prop :=
  (∃ what, r = (q, .error (.thrown what))) ∨ ∃ q', r = (q', .ok ()) ∧ Ready q'

variable {q}

lemma train_spec (h : Sized q) (samples : ℕ → α) (n nRestarts lloydIters : ℕ)
    (drawn : ℕ → ℕ → ℕ → ℕ) : Trains q (q.train samples n nRestarts lloydIters drawn) := by
  have hK := h.one_lt_K
  rw [train]
  split_ifs with hn
  · exact Or.inl ⟨_, rfl⟩
  · have hrow := fun d => q.trainDim_sorted (by omega) (q.column samples n d) nRestarts lloydIters
      (drawn d)
    exact Or.inr (ready_computeBounds
      ⟨h.bits, h.dim_lt, length_table fun d _ => (hrow d).1, h.bounds, h.mode_le, h.shape⟩
      (ordered_table rfl fun d _ => hrow d))

lemma nonDecreasing_affine {lo st : α} {f : ℕ → α} {n : ℕ} (hst : 0 ≤ st)
    (hf : ∀ k, f k ≤ f (k + 1)) :
    NonDecreasing (entry ((List.range n).map fun k => lo + st * f k)) n := by
  intro k hk
  rw [entry_map_range _ (by omega), entry_map_range _ hk]
  have := mul_le_mul_of_nonneg_left (hf k) hst
  linarith

lemma ruler_nonneg (sqrt : α → α) (samples : ℕ → α) (n d : ℕ) :
    0 ≤ (q.ruler sqrt samples n d).2 := by
  simp only [ruler]
  split_ifs with hK hs
  · refine div_nonneg ?_ (Nat.cast_nonneg _)
    have : (0 : α) < 1 / 10 ^ 12 := by positivity
    linarith
  · rw [sub_self, zero_div]
  · exact le_rfl

lemma trainUniform_ready (h : Sized q) (sqrt : α → α) (samples : ℕ → α) {n : ℕ} (hn : 2 ≤ n) :
    ∃ q', q.trainUniform sqrt samples n = (q', .ok ()) ∧ Ready q' := by
  have hlen : ∀ d, ((List.range q.K).map fun k : ℕ => (q.ruler sqrt samples n d).1 +
      (q.ruler sqrt samples n d).2 * (k : α)).length = q.K := fun d => by
    rw [List.length_map, List.length_range]
  rw [trainUniform, if_neg (by omega)]
  refine ready_computeBounds
    ⟨h.bits, h.dim_lt, length_table fun d _ => hlen d, h.bounds, (by decide : 1 ≤ 2),
      fun h => absurd (show 1 = 2 from h) (by decide)⟩
    (ordered_table rfl fun d _ => ⟨hlen d, nonDecreasing_affine (ruler_nonneg ..) fun k => ?_⟩)
  rw [Nat.cast_succ]
  linarith

lemma trainUniform_spec (h : Sized q) (sqrt : α → α) (samples : ℕ → α) (n : ℕ) :
    Trains q (q.trainUniform sqrt samples n) := by
  rcases Nat.lt_or_ge n 2 with hn | hn
  · rw [trainUniform, if_pos hn]
    exact Or.inl ⟨_, rfl⟩
  · exact Or.inr (trainUniform_ready h sqrt samples hn)

/-! ### The shared shape -/

lemma fitStep_nonneg {d : ℕ} (ho : NonDecreasing (q.level d) q.K) {f : ℕ → α}
    (hf : ∀ k, f k ≤ f (k + 1)) : 0 ≤ q.fitStep f d := by
  have hmono : Monotone f := monotone_nat_of_le_succ hf
  have hvary : MonovaryOn f (q.level d) (Finset.range q.K) := by
    intro i hi j hj hlt
    by_contra hno
    have hji : j ≤ i := (hmono.reflect_lt (not_le.1 hno)).le
    exact absurd (ho.le hji (Finset.mem_range.1 hi)) (not_le.2 hlt)
  have hsum := hvary.sum_mul_sum_le_card_mul_sum
  have hsq : (∑ k ∈ Finset.range q.K, f k) * ∑ k ∈ Finset.range q.K, f k ≤
      (Finset.range q.K).card * ∑ k ∈ Finset.range q.K, f k * f k := by
    have := (monovaryOn_self f (Finset.range q.K)).sum_mul_sum_le_card_mul_sum
    exact this
  rw [Finset.card_range] at hsum hsq
  simp only [fitStep]
  split_ifs
  · exact div_nonneg (sub_nonneg.2 hsum) (sub_nonneg.2 hsq)
  · exact le_rfl

omit [Field α] [IsStrictOrderedRing α] in
lemma monotone_le (f : ℕ → α) (k : ℕ) : monotone f k ≤ monotone f (k + 1) := by
  rw [monotone]
  split_ifs with h
  · exact le_rfl
  · exact not_lt.1 h

lemma fitShape_spec (ho : Ordered q) :
    (∀ k, q.fitShape.f k ≤ q.fitShape.f (k + 1)) ∧ ∀ d < q.dim, 0 ≤ q.fitShape.st d := by
  rw [fitShape]
  generalize 8 = rounds
  induction rounds with
  | zero => exact ⟨fun k => by simp, fun d _ => le_rfl⟩
  | succ rounds ih =>
    rw [Function.iterate_succ_apply']
    exact ⟨fun k => monotone_le _ k, fun d hd => fitStep_nonneg (ho d hd) ih.1⟩

lemma trainShape_spec (h : Sized q) (samples : ℕ → α) (n nRestarts lloydIters : ℕ)
    (drawn : ℕ → ℕ → ℕ → ℕ) : Trains q (q.trainShape samples n nRestarts lloydIters drawn) := by
  rw [trainShape]
  rcases train_spec h samples n nRestarts lloydIters drawn with ⟨what, heq⟩ | ⟨q₁, heq, hq₁⟩
  · rw [heq]
    exact Or.inl ⟨what, rfl⟩
  · rw [heq]
    obtain ⟨hf, hst⟩ := fitShape_spec hq₁.ordered
    have hs := hq₁.sized
    have hlen : ∀ g : ℕ → α, ((List.range q₁.K).map g).length = q₁.K := fun g => by
      rw [List.length_map, List.length_range]
    exact Or.inr (ready_computeBounds
      ⟨hs.bits, hs.dim_lt, length_table fun d _ => hlen _, hs.bounds, le_rfl,
        fun _ => ⟨hlen _, by rw [List.length_map, List.length_range]⟩⟩
      (ordered_table rfl fun d hd => ⟨hlen _, nonDecreasing_affine (hst d hd) hf⟩))

/-- The states of an object: as constructed, and after any training. -/
inductive Held : ScalarLloydMaxQuantizer α → Prop
  | made {metric : MetricKind} {dim : UInt32} {bits : UInt8} {q : ScalarLloydMaxQuantizer α} :
      make metric dim bits = .ok q → Held q
  | train {q : ScalarLloydMaxQuantizer α} (samples : ℕ → α) (n nRestarts lloydIters : ℕ)
      (drawn : ℕ → ℕ → ℕ → ℕ) :
      Held q → Held (q.train samples n nRestarts lloydIters drawn).1
  | trainUniform {q : ScalarLloydMaxQuantizer α} (sqrt : α → α) (samples : ℕ → α) (n : ℕ) :
      Held q → Held (q.trainUniform sqrt samples n).1
  | trainShape {q : ScalarLloydMaxQuantizer α} (samples : ℕ → α) (n nRestarts lloydIters : ℕ)
      (drawn : ℕ → ℕ → ℕ → ℕ) :
      Held q → Held (q.trainShape samples n nRestarts lloydIters drawn).1

/-- What a training that accepted its samples has left. -/
inductive Trained : ScalarLloydMaxQuantizer α → Prop
  | train {q q' : ScalarLloydMaxQuantizer α} {samples : ℕ → α} {n nRestarts lloydIters : ℕ}
      {drawn : ℕ → ℕ → ℕ → ℕ} : Held q →
      q.train samples n nRestarts lloydIters drawn = (q', .ok ()) → Trained q'
  | trainUniform {q q' : ScalarLloydMaxQuantizer α} {sqrt : α → α} {samples : ℕ → α} {n : ℕ} :
      Held q → q.trainUniform sqrt samples n = (q', .ok ()) → Trained q'
  | trainShape {q q' : ScalarLloydMaxQuantizer α} {samples : ℕ → α} {n nRestarts lloydIters : ℕ}
      {drawn : ℕ → ℕ → ℕ → ℕ} : Held q →
      q.trainShape samples n nRestarts lloydIters drawn = (q', .ok ()) → Trained q'

omit [IsStrictOrderedRing α] in
lemma Trains.sized {r : Result α} (h : Trains q r) (hq : Sized q) : Sized r.1 := by
  rcases h with ⟨what, rfl⟩ | ⟨q', rfl, hq'⟩
  · exact hq
  · exact hq'.sized

omit [IsStrictOrderedRing α] in
lemma Trains.ready {q' : ScalarLloydMaxQuantizer α} (h : Trains q (q', .ok ())) : Ready q' := by
  rcases h with ⟨what, heq⟩ | ⟨q'', heq, hq⟩
  · cases heq
  · cases heq
    exact hq

lemma Held.sized {q : ScalarLloydMaxQuantizer α} (h : Held q) : Sized q := by
  induction h with
  | made h => exact sized_make h
  | train samples n nRestarts lloydIters drawn _ ih => exact (train_spec ih ..).sized ih
  | trainUniform sqrt samples n _ ih => exact (trainUniform_spec ih ..).sized ih
  | trainShape samples n nRestarts lloydIters drawn _ ih => exact (trainShape_spec ih ..).sized ih

lemma Trained.ready {q : ScalarLloydMaxQuantizer α} (h : Trained q) : Ready q := by
  cases h with
  | train hq heq => exact (heq ▸ train_spec hq.sized ..).ready
  | trainUniform hq heq => exact (heq ▸ trainUniform_spec hq.sized ..).ready
  | trainShape hq heq => exact (heq ▸ trainShape_spec hq.sized ..).ready

end Training

/-! ### Codes -/

/-- The levels are in order, a vector decodes to levels nearest to it, and what a code decodes to
decodes to itself again. -/
structure PicksNearest (q : ScalarLloydMaxQuantizer α) : Prop where
  ordered : Ordered q
  level_of : ∀ vec, ∀ d < q.dim, ∃ k < q.K, q.decode (q.encode vec) d = q.level d k
  nearest : ∀ vec, ∀ d < q.dim, ∀ k < q.K,
    |vec d - q.decode (q.encode vec) d| ≤ |vec d - q.level d k|
  again : ∀ code, ∀ d < q.dim, q.decode (q.encode (q.decode code)) d = q.decode code d

section Codes

variable {q : ScalarLloydMaxQuantizer α}

omit [LinearOrder α] in
lemma decode_eq (h : Sized q) (code : Mem) (d : ℕ) :
    q.decode code d = q.level d (readCode code q.bits d) ∧ readCode code q.bits d < q.K := by
  rw [decode, readCode]
  rcases h.bits with ⟨hbits, hK⟩ | ⟨hbits, hK⟩
  · rw [if_pos hbits, if_neg (by omega), if_neg (by omega), hK]
    refine ⟨?_, Nat.mod_lt _ (by decide)⟩
    rcases Nat.mod_two_eq_zero_or_one d with hd | hd
    · simp [hd]
    · simp [hd]
  · rw [if_neg (by omega), if_pos hbits, hK]
    exact ⟨rfl, (code d).toNat_lt⟩

lemma index_eq (hb : Bounded q) (vec : ℕ → α) {d : ℕ} (hd : d < q.dim) :
    q.index vec d = cell q.K (q.level d) (vec d) :=
  upperBound_congr fun i _ hi => hb d hd i (by omega)

lemma decode_encode (h : Ready q) (vec : ℕ → α) {d : ℕ} (hd : d < q.dim) :
    q.decode (q.encode vec) d = q.level d (cell q.K (q.level d) (vec d)) := by
  have hindex := index_eq h.bounded vec hd
  have hlt : q.index vec d < q.K := hindex ▸ cell_lt (by have := h.sized.one_lt_K; omega) _ _
  rw [(decode_eq h.sized _ d).1, ← hindex, encode]
  rcases h.sized.bits with ⟨hbits, hK⟩ | ⟨hbits, hK⟩
  · rw [if_pos hbits, hbits, readCode_packNibbles fun s => by split_ifs <;> omega, if_pos hd,
      Nat.mod_eq_of_lt (by omega)]
  · rw [if_neg (by omega), readCode, if_pos hbits, UInt8.toNat_ofNat', Nat.mod_eq_of_lt (by omega)]

variable [IsStrictOrderedRing α]

lemma Ready.picksNearest (h : Ready q) : PicksNearest q := by
  have hK := h.sized.one_lt_K
  have hnear : ∀ vec, ∀ d < q.dim, ∀ k < q.K,
      |vec d - q.decode (q.encode vec) d| ≤ |vec d - q.level d k| := by
    intro vec d hd k hk
    rw [decode_encode h vec hd, abs_le_iff_mul_self_le]
    exact nearest (h.ordered d hd) (by omega) (vec d) hk
  refine ⟨h.ordered, fun vec d hd => ⟨_, cell_lt (by omega) _ _, decode_encode h vec hd⟩, hnear,
    fun code d hd => ?_⟩
  obtain ⟨heq, hlt⟩ := decode_eq h.sized code d
  have hzero := hnear (q.decode code) d hd _ hlt
  rw [← heq, sub_self, abs_zero] at hzero
  exact (sub_eq_zero.1 (abs_eq_zero.1 (le_antisymm hzero (abs_nonneg _)))).symm

end Codes

end ScalarLloydMaxQuantizer

end SextantTree.ScalarLloydMax
