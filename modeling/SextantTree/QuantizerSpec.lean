import SextantTree.Quantizer

/-!
What the quantizers compute. The table of a query holds the distance of each segment to each
centroid, a decoded code is the centroids side by side and turned back, and the sums over the
segments are the distances of the whole vectors.
-/

namespace SextantTree.Quant

open ByteMem SegmentedVec LocalPq

lemma readCode_lt {bits : ℕ} (h : bits = 2 ∨ bits = 4 ∨ bits = 8) (code : Mem) (s : ℕ) :
    readCode code bits s < 2 ^ bits := by
  rcases h with rfl | rfl | rfl
  · exact Nat.mod_lt _ (by decide)
  · exact Nat.mod_lt _ (by decide)
  · exact (code s).toNat_lt

lemma row_div {K c : ℕ} (s : ℕ) (hc : c < K) : (s * K + c) / K = s := by
  rw [Nat.mul_comm, Nat.mul_add_div (Nat.zero_lt_of_lt hc), Nat.div_eq_of_lt hc, Nat.add_zero]

lemma row_mod {K c : ℕ} (s : ℕ) (hc : c < K) : (s * K + c) % K = c := by
  rw [Nat.mul_comm, Nat.mul_add_mod, Nat.mod_eq_of_lt hc]

lemma entry_lt {m K s c : ℕ} (hs : s < m) (hc : c < K) : s * K + c < m * K := by
  calc s * K + c < s * K + K := Nat.add_lt_add_left hc _
    _ = (s + 1) * K := (Nat.succ_mul s K).symm
    _ ≤ m * K := Nat.mul_le_mul_right _ hs

variable {α : Type} [CommRing α]

namespace PqQuantizer

/-- A quantizer whose tables are those of its codebook. -/
structure Ok (q : PqQuantizer α) : Prop where
  m_pos : 0 < q.m
  dim_eq : q.dim = q.m * q.subDim
  bits_ok : q.bits = 2 ∨ q.bits = 4 ∨ q.bits = 8
  sqnorms : ∀ s, ∀ c < q.K,
    q.centroidSqnorms (s * q.K + c) = dot q.subDim (q.centroid s c) (q.centroid s c)
  table : ∃ table, q.crossDistanceTable = some table ∧ ∀ s, ∀ a < q.K, ∀ b < q.K,
    table (s * q.K * q.K + a * q.K + b) = sqDist q.subDim (q.centroid s a) (q.centroid s b)

lemma ok_of_built {q : PqQuantizer α} (hm : 0 < q.m) (hdiv : q.dim % q.m = 0)
    (hbits : q.bits = 2 ∨ q.bits = 4 ∨ q.bits = 8) :
    Ok q.buildCrossDistanceTable.computeCentroidSqnorms where
  m_pos := hm
  dim_eq := by
    show q.dim = q.m * (q.dim / q.m)
    rw [Nat.mul_div_cancel' (Nat.dvd_of_mod_eq_zero hdiv)]
  bits_ok := hbits
  sqnorms s c hc := by
    have hc' : c < q.K := hc
    have hs : (s * q.K + c) / q.K = s := row_div s hc'
    show dot q.subDim (q.centroid ((s * q.K + c) / q.K) ((s * q.K + c) % q.K))
      (q.centroid ((s * q.K + c) / q.K) ((s * q.K + c) % q.K))
      = dot q.subDim (q.centroid s c) (q.centroid s c)
    rw [hs, row_mod s hc']
  table := by
    refine ⟨_, rfl, fun s a ha b hb => ?_⟩
    have hrow : s * q.K * q.K + a * q.K + b = (s * q.K + a) * q.K + b := by ring
    have hcell : (s * q.K + a) * q.K + b = s * (q.K * q.K) + (a * q.K + b) := by ring
    have hin : a * q.K + b < q.K * q.K := entry_lt ha hb
    have ha' : a < q.K := ha
    have hb' : b < q.K := hb
    show (let s' := (s * q.K * q.K + a * q.K + b) / (q.K * q.K)
      let a' := (s * q.K * q.K + a * q.K + b) / q.K % q.K
      let b' := (s * q.K * q.K + a * q.K + b) % q.K
      if a' = b' then 0
      else sqDist q.subDim (q.centroid s' (min a' b')) (q.centroid s' (max a' b'))) = _
    dsimp only
    rw [hrow, row_div _ hb', row_mod _ hb', row_mod _ ha', hcell, row_div _ hin]
    split_ifs with heq
    · rw [heq]
      exact (sqDist_self _ _).symm
    · rcases Nat.lt_or_gt_of_ne heq with hlt | hlt
      · rw [min_eq_left hlt.le, max_eq_right hlt.le]
        rfl
      · rw [min_eq_right hlt.le, max_eq_left hlt.le, sqDist_comm]
        rfl

lemma Made.ok {q : PqQuantizer α} (h : q.Made) : q.Ok := by
  rcases h with ⟨sh, rotation, centroids, rfl⟩ | ⟨blob, h⟩
  · exact ok_of_built sh.m_pos sh.divides sh.bits_ok
  · unfold deserialize at h
    dsimp only at h
    split_ifs at h with hsmall hheader hsize hrot hrotSize hsize₂
    all_goals
      cases h
      push Not at hheader
      exact ok_of_built (Nat.pos_of_ne_zero hheader.1) hheader.2.1 (by have := hheader.2.2; tauto)

namespace Ok

variable {q : PqQuantizer α} (h : q.Ok)

include h

lemma readCode_lt (code : Mem) (s : ℕ) : readCode code q.bits s < q.K :=
  Quant.readCode_lt h.bits_ok code s

lemma preprocessQueryAs_eq (metric : MetricKind) (query : ℕ → α) (s : ℕ) {c : ℕ} (hc : c < q.K) :
    q.preprocessQueryAs metric query (s * q.K + c)
      = metric.distance q.subDim (shift (s * q.subDim) (q.rotated query)) (q.centroid s c) := by
  unfold preprocessQueryAs
  dsimp only
  rw [row_div s hc, row_mod s hc, h.sqnorms s c hc]
  cases metric with
  | l2Sq => rw [ite_eq_right_iff.2 fun _ => (sqDist_eq _ _ _).symm]; rfl
  | innerProduct => rw [ite_self]; rfl

/-- **The sum over the table** is the distance to the centroids side by side. -/
lemma lutDistance_eq (query : ℕ → α) (code : Mem) :
    q.lutDistance code (q.preprocessQuery query)
      = q.metric.distance q.dim (q.rotated query) (q.gather code) := by
  rw [lutDistance, h.dim_eq, gather]
  have hentries := Finset.sum_congr (rfl : Finset.range q.m = Finset.range q.m) fun s _ =>
    h.preprocessQueryAs_eq q.metric query s (h.readCode_lt code s)
  rw [preprocessQuery, hentries]
  cases q.metric with
  | l2Sq => exact (sqDist_concat _ _ _ _).symm
  | innerProduct =>
    simp only [MetricKind.distance, Finset.sum_neg_distrib]
    rw [dot_concat]

end Ok

/-- The rotation, where there is one, is orthogonal. -/
def RotationOk (q : PqQuantizer α) : Prop := ∀ R, q.rotation = some R → Orthogonal q.dim R

lemma dot_decodeCode (q : PqQuantizer α) (query : ℕ → α) (code : Mem) :
    dot q.dim query (q.decodeCode code) = dot q.dim (q.rotated query) (q.gather code) := by
  unfold decodeCode rotated
  cases q.rotation with
  | none => rfl
  | some R => exact dot_mulVecT _ _ _ _

lemma RotationOk.dot_decodeCode_decodeCode {q : PqQuantizer α} (h : q.RotationOk) (a b : Mem) :
    dot q.dim (q.decodeCode a) (q.decodeCode b) = dot q.dim (q.gather a) (q.gather b) := by
  unfold decodeCode
  cases hR : q.rotation with
  | none => rfl
  | some R => exact dot_mulVecT_mulVecT (h R hR) _ _

end PqQuantizer

namespace ProductResidualQuantizer

structure Ok (q : ProductResidualQuantizer α) : Prop where
  four : q.bits = 4
  mSub_pos : 0 < q.mSub
  dim_eq : q.dim = q.nsplits * q.subDimPrq
  sqnorms : ∀ s, ∀ lev < q.mSub, ∀ c < q.K, q.rqCentroidSqnorms ((s * q.mSub + lev) * q.K + c)
    = dot q.subDimPrq (q.levelCentroid s lev c) (q.levelCentroid s lev c)

lemma ok_of_built {q : ProductResidualQuantizer α} (hfour : q.bits = 4) (hpos : 0 < q.mSub)
    (hdim : q.dim = q.nsplits * q.subDimPrq) : Ok q.computeRqCentroidSqnorms where
  four := hfour
  mSub_pos := hpos
  dim_eq := hdim
  sqnorms s lev hlev c hc := by
    have hlev' : lev < q.mSub := hlev
    have hc' : c < q.K := hc
    show dot q.subDimPrq
      (q.levelCentroid (((s * q.mSub + lev) * q.K + c) / q.K / q.mSub)
        (((s * q.mSub + lev) * q.K + c) / q.K % q.mSub) (((s * q.mSub + lev) * q.K + c) % q.K))
      (q.levelCentroid (((s * q.mSub + lev) * q.K + c) / q.K / q.mSub)
        (((s * q.mSub + lev) * q.K + c) / q.K % q.mSub) (((s * q.mSub + lev) * q.K + c) % q.K))
      = dot q.subDimPrq (q.levelCentroid s lev c) (q.levelCentroid s lev c)
    rw [row_div _ hc', row_mod _ hc', row_div _ hlev', row_mod _ hlev']

/-- The levels the quantizer has do not go past its segments. -/
def Fits (q : ProductResidualQuantizer α) : Prop := q.nsplits * q.mSub ≤ q.m

lemma ok_trained (sh : PrqShape) (centroids : ℕ → α) :
    (trained sh centroids).Ok ∧ (trained sh centroids).Fits := by
  have hmul : sh.nsplits * (sh.m / sh.nsplits) = sh.m :=
    Nat.mul_div_cancel' (Nat.dvd_of_mod_eq_zero sh.m_divides)
  refine ⟨ok_of_built sh.four ?_ ?_, hmul.le⟩
  · refine Nat.pos_of_ne_zero fun hzero => ?_
    have hzero' : sh.m / sh.nsplits = 0 := hzero
    have := sh.m_pos
    rw [hzero', Nat.mul_zero] at hmul
    omega
  · exact (Nat.mul_div_cancel' (Nat.dvd_of_mod_eq_zero sh.dim_divides)).symm

lemma Made.ok {q : ProductResidualQuantizer α} (h : q.Made) : q.Ok := by
  rcases h with ⟨sh, centroids, rfl⟩ | ⟨blob, h⟩
  · exact (ok_trained sh centroids).1
  · unfold deserialize at h
    dsimp only at h
    split_ifs at h with hsmall hmagic hheader hsize
    cases h
    push Not at hheader
    obtain ⟨-, -, hsub, -, -, hdiv, hfour⟩ := hheader
    exact ok_of_built hfour (Nat.pos_of_ne_zero hsub)
      (Nat.mul_div_cancel' (Nat.dvd_of_mod_eq_zero hdiv)).symm

/-- The centroids a code picks in a split, by level. -/
def picked (q : ProductResidualQuantizer α) (s : ℕ) (ids : ℕ → ℕ) : ℕ → ℕ → α := fun lev =>
  q.levelCentroid s lev (ids (s * q.mSub + lev))

lemma decodeCode_eq (q : ProductResidualQuantizer α) (code : Mem) {s : ℕ} (hs : s < q.nsplits)
    {d : ℕ} (hd : d < q.subDimPrq) : shift (s * q.subDimPrq) (q.decodeCode code) d
      = ∑ lev ∈ Finset.range q.mSub, q.picked s (readCode code q.bits) lev d := by
  rw [decodeCode, shift_concat _ _ hd, if_pos hs]
  rfl

namespace Ok

variable {q : ProductResidualQuantizer α} (h : q.Ok)

include h

lemma readCode_lt (code : Mem) (s : ℕ) : readCode code q.bits s < q.K :=
  Quant.readCode_lt (.inr (.inl h.four)) code s

lemma preprocessQuery_eq (hfits : q.Fits) (query : ℕ → α) : ∃ lut,
    q.preprocessQuery query = some lut ∧
      (∀ s < q.nsplits, ∀ lev < q.mSub, ∀ c < q.K, lut ((s * q.mSub + lev) * q.K + c)
        = q.metric.distance q.subDimPrq (shift (s * q.subDimPrq) query) (q.levelCentroid s lev c)) ∧
      ∀ seg, q.nsplits * q.mSub ≤ seg → ∀ c < q.K, lut (seg * q.K + c) = 0 := by
  have hroom : ¬ q.m * q.K < q.nsplits * q.mSub * q.K :=
    not_lt.2 (Nat.mul_le_mul_right _ hfits)
  rw [preprocessQuery, preprocessQueryAs, if_neg hroom]
  refine ⟨_, rfl, fun s hs lev hlev c hc => ?_, fun seg hseg c hc => ?_⟩
  · have hin : s * q.mSub + lev < q.nsplits * q.mSub := entry_lt hs hlev
    dsimp only
    rw [row_div _ hc, row_mod _ hc, row_div _ hlev, row_mod _ hlev, if_pos hin,
      h.sqnorms s lev hlev c hc]
    cases q.metric with
    | l2Sq => exact (sqDist_eq _ _ _).symm
    | innerProduct => rfl
  · dsimp only
    rw [row_div _ hc, if_neg (not_lt.2 hseg)]

lemma lutDistance_eq (hfits : q.Fits) (query : ℕ → α) (code : Mem) :
    ∃ lut, q.preprocessQuery query = some lut ∧ q.lutDistance code lut
      = ∑ s ∈ Finset.range q.nsplits, ∑ lev ∈ Finset.range q.mSub,
          q.metric.distance q.subDimPrq (shift (s * q.subDimPrq) query)
            (q.picked s (readCode code q.bits) lev) := by
  obtain ⟨lut, hlut, hin, hout⟩ := h.preprocessQuery_eq hfits query
  refine ⟨lut, hlut, ?_⟩
  obtain ⟨r, hr⟩ := Nat.exists_eq_add_of_le hfits
  rw [PqQuantizer.lutDistance, hr, Finset.sum_range_add]
  have hzero : ∑ k ∈ Finset.range r, lut ((q.nsplits * q.mSub + k) * q.K
      + readCode code q.bits (q.nsplits * q.mSub + k)) = 0 :=
    Finset.sum_eq_zero fun k _ => hout _ (Nat.le_add_right _ _) _ (h.readCode_lt code _)
  rw [hzero, add_zero, sum_segments]
  refine Finset.sum_congr rfl fun s hs => Finset.sum_congr rfl fun lev hlev => ?_
  exact hin s (Finset.mem_range.1 hs) lev (Finset.mem_range.1 hlev) _ (h.readCode_lt code _)

lemma dot_decodeCode (query : ℕ → α) (code : Mem) : dot q.dim query (q.decodeCode code)
    = ∑ s ∈ Finset.range q.nsplits, ∑ lev ∈ Finset.range q.mSub,
        dot q.subDimPrq (shift (s * q.subDimPrq) query) (q.picked s (readCode code q.bits) lev) := by
  rw [h.dim_eq, dot_segments]
  refine Finset.sum_congr rfl fun s hs => ?_
  rw [← dot_sum]
  exact dot_congr (fun _ _ => rfl) fun d hd => q.decodeCode_eq code (Finset.mem_range.1 hs) hd

lemma dot_decodeCode_self (code : Mem) : dot q.dim (q.decodeCode code) (q.decodeCode code)
    = ∑ s ∈ Finset.range q.nsplits, (excess q.subDimPrq q.mSub (q.picked s (readCode code q.bits))
        + ∑ lev ∈ Finset.range q.mSub, dot q.subDimPrq (q.picked s (readCode code q.bits) lev)
            (q.picked s (readCode code q.bits) lev)) := by
  rw [h.dim_eq, dot_segments]
  refine Finset.sum_congr rfl fun s hs => ?_
  rw [excess, sub_add_cancel]
  exact dot_congr (fun d hd => q.decodeCode_eq code (Finset.mem_range.1 hs) hd)
    fun d hd => q.decodeCode_eq code (Finset.mem_range.1 hs) hd

end Ok

end ProductResidualQuantizer

end SextantTree.Quant
