import SextantTree.QuantizerSpec

/-!
The scores of a scan against the distances of decoded codes. With one centroid a segment the two
differ by something the query alone decides. Where the centroids of several levels are added up, the
square of the sum has products of the levels with each other, which no table of one level has: then
the difference is the same for all codes only if those products are.
-/

namespace SextantTree.Quant

open ByteMem SegmentedVec LocalPq

/-! ### Codes and what they pick -/

/-- The packed code of some centroid numbers of four bits. -/
def packNibbles (ids : ℕ → ℕ) : Mem := fun k => UInt8.ofNat (ids (2 * k) + 16 * ids (2 * k + 1))

lemma readCode_packNibbles {ids : ℕ → ℕ} (h : ∀ s, ids s < 16) (s : ℕ) :
    readCode (packNibbles ids) 4 s = ids s := by
  have h₀ := h (2 * (s / 2))
  have h₁ := h (2 * (s / 2) + 1)
  have hbyte : (packNibbles ids (s / 2)).toNat
      = ids (2 * (s / 2)) + 16 * ids (2 * (s / 2) + 1) := by
    rw [packNibbles, UInt8.toNat_ofNat']
    omega
  rw [readCode, if_neg (by decide), if_neg (by decide), hbyte]
  rcases Nat.mod_two_eq_zero_or_one s with hs | hs
  · have heven : 2 * (s / 2) = s := by omega
    rw [hs, heven]
    rw [heven] at h₀
    simp only [Nat.zero_mul, Nat.pow_zero, Nat.div_one]
    omega
  · have hodd : 2 * (s / 2) + 1 = s := by omega
    rw [hs, hodd]
    rw [hodd] at h₁
    simp only [Nat.one_mul]
    omega

lemma eq_of_update {β : Type*} {K n : ℕ} {f : (ℕ → ℕ) → β} (hK : 0 < K)
    (hlocal : ∀ ids ids', (∀ k < n, ids k = ids' k) → f ids = f ids')
    (hstep : ∀ ids, (∀ k, ids k < K) → ∀ k < n, ∀ c < K, f (Function.update ids k c) = f ids)
    {ids : ℕ → ℕ} (hids : ∀ k, ids k < K) : f ids = f fun _ => 0 := by
  have key : ∀ i ≤ n, f (fun k => if k < i then ids k else 0) = f fun _ => 0 := by
    intro i hi
    induction i with
    | zero => rfl
    | succ i ih =>
      have hup : (fun k => if k < i + 1 then ids k else 0)
          = Function.update (fun k => if k < i then ids k else 0) i (ids i) := by
        funext k
        by_cases hk : k = i
        · subst hk
          rw [Function.update_self, if_pos (Nat.lt_succ_self k)]
        · rw [Function.update_of_ne hk]
          have hiff : k < i + 1 ↔ k < i := by omega
          simp only [hiff]
      rw [hup, hstep _ (fun k => ?_) i hi _ (hids i)]
      · exact ih (Nat.le_of_succ_le hi)
      · split_ifs
        · exact hids k
        · exact hK
  rw [← key n le_rfl]
  exact hlocal _ _ fun k hk => (if_pos hk).symm

variable {α : Type} [CommRing α]

namespace ProductResidualQuantizer

variable (q : ProductResidualQuantizer α)

/-- The products of the levels with each other, of all splits. -/
def crossTerms (ids : ℕ → ℕ) : α :=
  ∑ s ∈ Finset.range q.nsplits, excess q.subDimPrq q.mSub (q.picked s ids)

/-- All centroids of a level have the same product with a sum of centroids of the other levels. -/
def Uncorrelated : Prop :=
  ∀ s < q.nsplits, ∀ lev < q.mSub, ∀ ids : ℕ → ℕ, (∀ k, ids k < q.K) → ∀ c < q.K, ∀ c' < q.K,
    dot q.subDimPrq (others q.mSub (fun k => q.levelCentroid s k (ids k)) lev)
        (q.levelCentroid s lev c)
      = dot q.subDimPrq (others q.mSub (fun k => q.levelCentroid s k (ids k)) lev)
        (q.levelCentroid s lev c')

variable {q}

omit [CommRing α] in
lemma picked_update_of_ne {s s' lev k c : ℕ} {ids : ℕ → ℕ} (hk : k < q.mSub) (hlev : lev < q.mSub)
    (hne : ¬ (s' = s ∧ k = lev)) :
    q.picked s' (Function.update ids (s * q.mSub + lev) c) k = q.picked s' ids k := by
  have hseg : s' * q.mSub + k ≠ s * q.mSub + lev := by
    intro heq
    refine hne ⟨?_, ?_⟩
    · rw [← row_div s' hk, heq, row_div s hlev]
    · rw [← row_mod s' hk, heq, row_mod s hlev]
  rw [picked, picked, Function.update_of_ne hseg]

lemma crossTerms_congr {ids ids' : ℕ → ℕ} (h : ∀ k < q.nsplits * q.mSub, ids k = ids' k) :
    q.crossTerms ids = q.crossTerms ids' := by
  refine Finset.sum_congr rfl fun s hs => excess_congr fun lev hlev => ?_
  have hin : s * q.mSub + lev < q.nsplits * q.mSub := entry_lt (Finset.mem_range.1 hs) hlev
  rw [picked, picked, h _ hin]

/-- **Another centroid in one level** changes the cross terms by its product with the others. -/
lemma crossTerms_update {s lev : ℕ} (hs : s < q.nsplits) (hlev : lev < q.mSub) (ids : ℕ → ℕ)
    (c : ℕ) : q.crossTerms (Function.update ids (s * q.mSub + lev) c) - q.crossTerms ids
      = 2 * (dot q.subDimPrq (others q.mSub (q.picked s ids) lev) (q.levelCentroid s lev c)
        - dot q.subDimPrq (others q.mSub (q.picked s ids) lev) (q.picked s ids lev)) := by
  have hself : q.picked s (Function.update ids (s * q.mSub + lev) c) lev
      = q.levelCentroid s lev c := by
    rw [picked, Function.update_self]
  have hrest : ∀ k < q.mSub, k ≠ lev →
      q.picked s ids k = q.picked s (Function.update ids (s * q.mSub + lev) c) k :=
    fun k hk hne => (picked_update_of_ne hk hlev fun hkl => hne hkl.2).symm
  have hsplit := excess_sub hlev q.subDimPrq hrest
  rw [hself] at hsplit
  rw [crossTerms, crossTerms, ← Finset.sum_sub_distrib, ← hsplit]
  refine Finset.sum_eq_single_of_mem s (Finset.mem_range.2 hs) fun s' _ hne => ?_
  rw [sub_eq_zero]
  exact excess_congr fun k hk => picked_update_of_ne hk hlev fun hkl => hne hkl.1

lemma Uncorrelated.crossTerms_eq (h : q.Uncorrelated) {ids : ℕ → ℕ} (hids : ∀ k, ids k < q.K) :
    q.crossTerms ids = q.crossTerms fun _ => 0 := by
  refine eq_of_update (n := q.nsplits * q.mSub) (Nat.two_pow_pos q.bits)
    (fun _ _ => crossTerms_congr) (fun ids hids k hk c hc => ?_) hids
  have hpos : 0 < q.mSub := Nat.pos_of_ne_zero fun hzero => by
    rw [hzero, Nat.mul_zero] at hk
    omega
  have hlev : k % q.mSub < q.mSub := Nat.mod_lt _ hpos
  have hs : k / q.mSub < q.nsplits := by
    rw [Nat.div_lt_iff_lt_mul hpos]
    exact hk
  have hk' : k / q.mSub * q.mSub + k % q.mSub = k := by
    rw [Nat.mul_comm]
    exact Nat.div_add_mod k q.mSub
  have hstep := crossTerms_update hs hlev ids c
  have hsame := h _ hs _ hlev (fun lev => ids (k / q.mSub * q.mSub + lev)) (fun lev => hids _) c hc
    (ids (k / q.mSub * q.mSub + k % q.mSub)) (hids _)
  rw [hk'] at hstep hsame
  have hzero : dot q.subDimPrq (others q.mSub (q.picked (k / q.mSub) ids) (k % q.mSub))
      (q.levelCentroid (k / q.mSub) (k % q.mSub) c)
      = dot q.subDimPrq (others q.mSub (q.picked (k / q.mSub) ids) (k % q.mSub))
        (q.picked (k / q.mSub) ids (k % q.mSub)) := by
    rw [picked, hk']
    exact hsame
  rw [hzero, sub_self, mul_zero, sub_eq_zero] at hstep
  exact hstep

lemma Uncorrelated.of_crossTerms [IsDomain α] [CharZero α]
    (h : ∀ ids ids', (∀ k, ids k < q.K) → (∀ k, ids' k < q.K) →
      q.crossTerms ids = q.crossTerms ids') : q.Uncorrelated := by
  intro s hs lev hlev ids hids c hc c' hc'
  set g : ℕ → ℕ := fun k => if k % q.mSub = lev then c' else ids (k % q.mSub) with hg
  have hglt : ∀ k, g k < q.K := fun k => by
    simp only [hg]
    split_ifs
    · exact hc'
    · exact hids _
  have hupd : ∀ k, Function.update g (s * q.mSub + lev) c k < q.K := fun k => by
    by_cases hk : k = s * q.mSub + lev
    · rw [hk, Function.update_self]
      exact hc
    · rw [Function.update_of_ne hk]
      exact hglt k
  have hstep := crossTerms_update hs hlev g c
  rw [h _ _ hupd hglt, sub_self] at hstep
  have hpicked : ∀ k < q.mSub, q.picked s g k
      = q.levelCentroid s k (if k = lev then c' else ids k) := fun k hk => by
    rw [picked, hg]
    simp only [row_mod s hk]
  have hothers : others q.mSub (q.picked s g) lev
      = others q.mSub (fun k => q.levelCentroid s k (ids k)) lev :=
    others_congr fun k hk hne => by rw [hpicked k hk, if_neg hne]
  rw [hothers, hpicked lev hlev, if_pos rfl] at hstep
  have htwo : (2 : α) ≠ 0 := two_ne_zero
  exact sub_eq_zero.1 ((mul_eq_zero.1 hstep.symm).resolve_left htwo)

end ProductResidualQuantizer

/-! ### Scores and distances -/

/-- The score of a code and the distance to its vector differ by what the query decides. -/
def Quantizer.RanksAsDecoded (z : Quantizer α) : Prop :=
  ∃ f : (ℕ → α) → α, ∀ query code, ∃ lut, z.preprocessQuery query = some lut ∧
    z.base.lutDistance code lut - z.base.metric.distance z.base.dim query (z.decodeCode code)
      = f query

/-- The levels of a residual quantizer do not go past its segments, and nothing is lost between
them: products are all that is asked for, or the levels are uncorrelated. -/
def Quantizer.LevelsApart : Quantizer α → Prop
  | .pq _ | .anisotropic _ => True
  | .prq q => q.Fits ∧ (q.metric = .innerProduct ∨ q.Uncorrelated)

lemma PqQuantizer.Ok.lutDistance_sub {q : PqQuantizer α} (h : q.Ok) (hrot : q.RotationOk)
    (query : ℕ → α) (code : Mem) :
    q.lutDistance code (q.preprocessQuery query) - q.metric.distance q.dim query (q.decodeCode code)
      = match q.metric with
        | .l2Sq => dot q.dim (q.rotated query) (q.rotated query) - dot q.dim query query
        | .innerProduct => 0 := by
  have hdot := q.dot_decodeCode query code
  have hself := hrot.dot_decodeCode_decodeCode code code
  rw [h.lutDistance_eq]
  cases q.metric with
  | l2Sq =>
    simp only [MetricKind.distance]
    rw [sqDist_eq, sqDist_eq, hdot, hself]
    ring
  | innerProduct =>
    simp only [MetricKind.distance]
    rw [hdot]
    ring

lemma ProductResidualQuantizer.Ok.lutDistance_sub {q : ProductResidualQuantizer α} (h : q.Ok)
    (hfits : q.Fits) (query : ℕ → α) (code : Mem) : ∃ lut, q.preprocessQuery query = some lut ∧
      q.lutDistance code lut - q.metric.distance q.dim query (q.decodeCode code)
        = match q.metric with
          | .l2Sq => (∑ s ∈ Finset.range q.nsplits, ∑ _lev ∈ Finset.range q.mSub,
              dot q.subDimPrq (shift (s * q.subDimPrq) query) (shift (s * q.subDimPrq) query))
                - dot q.dim query query - q.crossTerms (readCode code q.bits)
          | .innerProduct => 0 := by
  obtain ⟨lut, hlut, hsum⟩ := h.lutDistance_eq hfits query code
  have hdot := h.dot_decodeCode query code
  have hself := h.dot_decodeCode_self code
  refine ⟨lut, hlut, ?_⟩
  rw [hsum]
  cases q.metric with
  | l2Sq =>
    simp only [MetricKind.distance, sqDist_eq]
    rw [hdot, hself, crossTerms]
    simp only [Finset.sum_add_distrib, Finset.sum_sub_distrib, ← Finset.mul_sum]
    ring
  | innerProduct =>
    simp only [MetricKind.distance, Finset.sum_neg_distrib]
    rw [hdot, sub_self]

/-- **The scores rank as the decoded distances** exactly when the levels are apart. -/
theorem lut_ranks_iff [IsDomain α] [CharZero α] (z : Quantizer α) (h : z.Made)
    (hrot : z.base.RotationOk) : z.RanksAsDecoded ↔ z.LevelsApart := by
  have hplain : ∀ q : PqQuantizer α, q.Made → q.RotationOk → ∃ f : (ℕ → α) → α, ∀ query code, ∃ lut,
      some (q.preprocessQuery query) = some lut ∧
        q.lutDistance code lut - q.metric.distance q.dim query (q.decodeCode code) = f query :=
    fun q hq hrot => ⟨_, fun query code => ⟨_, rfl, hq.ok.lutDistance_sub hrot query code⟩⟩
  cases z with
  | pq q => exact ⟨fun _ => trivial, fun _ => hplain q h hrot⟩
  | anisotropic q => exact ⟨fun _ => trivial, fun _ => hplain q h hrot⟩
  | prq q =>
    have hq : q.Ok := ProductResidualQuantizer.Made.ok h
    have hK : q.K = 16 := by rw [PqQuantizer.K, hq.four]; rfl
    constructor
    · rintro ⟨f, hf⟩
      have hfits : q.Fits := by
        obtain ⟨lut, hlut, -⟩ := hf (fun _ => 0) fun _ => 0
        have hsome : q.preprocessQueryAs q.metric (fun _ => 0) = some lut := hlut
        rw [ProductResidualQuantizer.preprocessQueryAs] at hsome
        split_ifs at hsome with hroom
        rw [hK] at hroom
        rw [ProductResidualQuantizer.Fits]
        omega
      refine ⟨hfits, ?_⟩
      cases hmetric : q.metric with
      | innerProduct => exact .inl rfl
      | l2Sq =>
        refine .inr (.of_crossTerms fun ids ids' hids hids' => ?_)
        rw [hK] at hids hids'
        have hvalue : ∀ ids : ℕ → ℕ, (∀ k, ids k < 16) →
            (∑ s ∈ Finset.range q.nsplits, ∑ _lev ∈ Finset.range q.mSub,
              dot q.subDimPrq (shift (s * q.subDimPrq) fun _ => 0)
                (shift (s * q.subDimPrq) fun _ => 0))
              - dot q.dim (fun _ => 0) (fun _ => 0) - q.crossTerms ids = f fun _ => 0 := by
          intro ids hids
          obtain ⟨lut, hlut, hsub⟩ := hq.lutDistance_sub hfits (fun _ => 0) (packNibbles ids)
          obtain ⟨lut', hlut', hsub'⟩ := hf (fun _ => 0) (packNibbles ids)
          have hsame : lut = lut' := Option.some.inj (hlut.symm.trans hlut')
          subst hsame
          have hread : readCode (packNibbles ids) q.bits = ids := by
            funext s
            rw [hq.four]
            exact readCode_packNibbles hids s
          rw [hmetric, hread] at hsub
          have hsub'' : q.lutDistance (packNibbles ids) lut
              - MetricKind.l2Sq.distance q.dim (fun _ => 0) (q.decodeCode (packNibbles ids))
              = f fun _ => 0 := by
            rw [← hmetric]
            exact hsub'
          rw [← hsub'', hsub]
        have hboth := (hvalue ids hids).trans (hvalue ids' hids').symm
        exact sub_right_inj.1 hboth
    · rintro ⟨hfits, hapart⟩
      refine ⟨fun query => match q.metric with
        | .l2Sq => (∑ s ∈ Finset.range q.nsplits, ∑ _lev ∈ Finset.range q.mSub,
            dot q.subDimPrq (shift (s * q.subDimPrq) query) (shift (s * q.subDimPrq) query))
              - dot q.dim query query - q.crossTerms fun _ => 0
        | .innerProduct => 0, fun query code => ?_⟩
      obtain ⟨lut, hlut, hsub⟩ := hq.lutDistance_sub hfits query code
      refine ⟨lut, hlut, hsub.trans ?_⟩
      cases hmetric : q.metric with
      | innerProduct => rfl
      | l2Sq =>
        rw [hmetric] at hapart
        have huncorrelated := hapart.resolve_left (by decide)
        simp only
        rw [huncorrelated.crossTerms_eq fun k => hq.readCode_lt code k]

/-! ### Numbers on a line -/

section Line

/-- One coordinate in one segment of four bits. -/
def lineShape (metric : MetricKind) : PqShape := ⟨metric, 1, 1, 4, by decide, by decide, by decide⟩

/-- A reflected line with the centroids `0, …, 15`. -/
def reflectedLine : PqQuantizer ℚ := .trained (lineShape .l2Sq) (some fun _ => -1) fun k => k

lemma reflectedLine_rotationOk : reflectedLine.RotationOk := by
  intro R hR
  have hR' : R = fun _ => -1 := (Option.some.inj hR).symm
  subst hR'
  intro r hr r' hr'
  have hdim : reflectedLine.dim = 1 := rfl
  have hzero : r = 0 := by omega
  have hzero' : r' = 0 := by omega
  rw [hzero, hzero', hdim]
  decide +kernel

theorem lut_ranks_reflected : (Quantizer.pq reflectedLine).RanksAsDecoded :=
  (lut_ranks_iff (.pq reflectedLine) (.inl ⟨_, _, _, rfl⟩) reflectedLine_rotationOk).2 trivial

/-- One split of two levels, each with the centroids `0, …, 15` on the first of two axes. -/
def twoLevels : ProductResidualQuantizer ℚ :=
  .trained
    ⟨⟨.l2Sq, 2, 2, 4, by decide, by decide, by decide⟩, 1, by decide, by decide, by decide, rfl⟩
    fun k => if k % 2 = 0 then (k / 2 % 16 : ℕ) else 0

/-- The point `2` of the first axis. -/
def two (d : ℕ) : ℚ := if d = 0 then 2 else 0

/-- The code `1 + 1` decodes to the point `2` and scores 2 there, the code `2 + 2` is at distance 4
and scores 0. -/
theorem lut_prefers_farther :
    ¬ (Quantizer.prq twoLevels).RanksAsDecoded ∧ (Quantizer.prq twoLevels).Made ∧
      ∃ lut, twoLevels.preprocessQuery two = some lut ∧
        twoLevels.lutDistance (fun _ => 0x11) lut = 2 ∧
        twoLevels.lutDistance (fun _ => 0x22) lut = 0 ∧
        MetricKind.l2Sq.distance 2 two (twoLevels.decodeCode fun _ => 0x11) = 0 ∧
        MetricKind.l2Sq.distance 2 two (twoLevels.decodeCode fun _ => 0x22) = 4 := by
  have hlut : ∃ lut, twoLevels.preprocessQuery two = some lut ∧
      twoLevels.lutDistance (fun _ => 0x11) lut = 2 ∧
      twoLevels.lutDistance (fun _ => 0x22) lut = 0 :=
    ⟨(twoLevels.preprocessQuery two).get (by decide +kernel), (Option.some_get _).symm,
      by decide +kernel, by decide +kernel⟩
  have hzero : MetricKind.l2Sq.distance 2 two (twoLevels.decodeCode fun _ => 0x11) = 0 := by
    decide +kernel
  have hfour : MetricKind.l2Sq.distance 2 two (twoLevels.decodeCode fun _ => 0x22) = 4 := by
    decide +kernel
  refine ⟨?_, .inl ⟨_, _, rfl⟩, hlut.imp fun lut h => ⟨h.1, h.2.1, h.2.2, hzero, hfour⟩⟩
  rintro ⟨f, hf⟩
  obtain ⟨lut, hsome, hnear, hfar⟩ := hlut
  obtain ⟨lut₁, h₁, hnear'⟩ := hf two fun _ => 0x11
  obtain ⟨lut₂, h₂, hfar'⟩ := hf two fun _ => 0x22
  have hsame₁ : lut = lut₁ := Option.some.inj (hsome.symm.trans h₁)
  have hsame₂ : lut = lut₂ := Option.some.inj (hsome.symm.trans h₂)
  subst hsame₁ hsame₂
  have hnear'' : 2 - 0 = f two := by rw [← hnear', ← hnear, ← hzero]; rfl
  have hfar'' : 0 - 4 = f two := by rw [← hfar', ← hfar, ← hfour]; rfl
  have hcontra : (2 : ℚ) - 0 = 0 - 4 := hnear''.trans hfar''.symm
  norm_num at hcontra

end Line

end SextantTree.Quant
