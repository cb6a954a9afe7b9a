import SextantTree.LutRank

/-!
Distances between codes, and the assignment of k-means that goes by them. The table of a trained
quantizer has squared distances whatever the metric is; without a table the metric's own distance is
computed from the codebook. An assignment starts from the previous centroid and compares the others
in groups of four.
-/

namespace SextantTree.Quant

open ByteMem SegmentedVec LocalPq

/-! ### The assignment -/

section Assign

variable {α : Type} [CommRing α] [LinearOrder α]

/-- `assign_nearest_centroid`. The centroids are padded to a multiple of four. -/
def assignNearestCentroid (q : PqQuantizer α) (fltMax : α) (code : Mem) (centroids : ℕ → Mem) (K : ℕ)
    (crossDistTable : Bool) (prevAssign : ℕ) : ℕ :=
  if crossDistTable = false then
    ((List.range K).foldl (fun best k =>
      let d := q.codeDistance code (centroids k)
      if d < best.1 then (d, k) else best) (fltMax, 0)).2
  else
    ((List.range ((K + 3) / 4)).foldl (fun best g =>
      let out := q.codeDistanceBatch4 code fun j => centroids (4 * g + j.val)
      (List.finRange 4).foldl (fun best (j : Fin 4) =>
        if 4 * g + j.val < K ∧ out j < best.1 then (out j, 4 * g + j.val) else best) best)
      (q.codeDistance code (centroids prevAssign), prevAssign)).2

/-- The table that `kmeans_pq` passes on is there: for the inner product it builds one of its own. -/
def kmeansTable (q : PqQuantizer α) : Bool :=
  decide (q.metric = .innerProduct) || q.crossDistanceTable.isSome

/-- One assignment pass of `kmeans_pq`. -/
def parallelAssign (q : PqQuantizer α) (fltMax : α) (codes : ℕ → Mem) (n : ℕ) (centroids : ℕ → Mem)
    (K : ℕ) (assign : ℕ → ℕ) : ℕ → ℕ := fun i =>
  if i < n then
    assignNearestCentroid q fltMax (codes i) centroids K (kmeansTable q) (assign i)
  else assign i

/-- The passes of `kmeans_pq`, with the centroids each of them has. -/
def kmeansAssign (q : PqQuantizer α) (fltMax : α) (codes : ℕ → Mem) (n K : ℕ)
    (passes : List (ℕ → Mem)) : ℕ → ℕ :=
  passes.foldl (fun assign centroids => parallelAssign q fltMax codes n centroids K assign) fun _ => 0

end Assign

/-! ### Distances -/

section Distance

variable {α : Type} [CommRing α]

/-- The quantizer before its table is built. -/
def PqQuantizer.withoutTable (q : PqQuantizer α) : PqQuantizer α :=
  { q with crossDistanceTable := none }

lemma PqQuantizer.codeDistanceBatch4_eq (q : PqQuantizer α) (anchor : Mem) (codes : Fin 4 → Mem)
    (i : Fin 4) : q.codeDistanceBatch4 anchor codes i = q.codeDistance anchor (codes i) := by
  unfold codeDistanceBatch4 codeDistance
  cases q.crossDistanceTable with
  | none => rfl
  | some table =>
    refine Finset.sum_congr rfl fun s _ => ?_
    rw [Nat.mul_assoc s]

namespace PqQuantizer.Ok

variable {q : PqQuantizer α} (h : q.Ok)

include h

lemma codeDistance_eq (a b : Mem) :
    q.codeDistance a b = sqDist q.dim (q.gather a) (q.gather b) := by
  obtain ⟨table, htable, hentry⟩ := h.table
  unfold codeDistance
  rw [htable, h.dim_eq, gather, gather, sqDist_concat_concat]
  exact Finset.sum_congr rfl fun s _ => hentry s _ (h.readCode_lt a s) _ (h.readCode_lt b s)

lemma codeDistance_withoutTable (a b : Mem) :
    q.withoutTable.codeDistance a b = q.metric.distance q.dim (q.gather a) (q.gather b) := by
  have hsum : q.withoutTable.codeDistance a b = ∑ s ∈ Finset.range q.m,
      q.metric.distance q.subDim (q.centroid s (readCode a q.bits s))
        (q.centroid s (readCode b q.bits s)) := rfl
  rw [hsum, h.dim_eq, gather, gather]
  cases q.metric with
  | l2Sq => exact (sqDist_concat_concat _ _ _ _).symm
  | innerProduct =>
    simp only [MetricKind.distance, Finset.sum_neg_distrib]
    rw [dot_concat_concat]

end PqQuantizer.Ok

lemma PqQuantizer.RotationOk.distance_decodeCode {q : PqQuantizer α} (h : q.RotationOk)
    (metric : MetricKind) (a b : Mem) : metric.distance q.dim (q.decodeCode a) (q.decodeCode b)
      = metric.distance q.dim (q.gather a) (q.gather b) := by
  cases metric with
  | l2Sq =>
    simp only [MetricKind.distance, sqDist_eq]
    rw [h.dot_decodeCode_decodeCode, h.dot_decodeCode_decodeCode, h.dot_decodeCode_decodeCode]
  | innerProduct => exact congrArg Neg.neg (h.dot_decodeCode_decodeCode a b)

end Distance

/-! ### The nearest centroid -/

section Nearest

variable {α : Type} [CommRing α] [LinearOrder α]

/-- A value with a place that has it, at most the values of the places seen. -/
structure Least (v : ℕ → α) (K : ℕ) (seen : List ℕ) (best : α × ℕ) : Prop where
  value : best.1 = v best.2
  place : best.2 < K
  le : ∀ c ∈ seen, c < K → best.1 ≤ v c

omit [CommRing α] in
lemma Least.step {v : ℕ → α} {K : ℕ} {seen : List ℕ} {best : α × ℕ} (h : Least v K seen best)
    (c : ℕ) : Least v K (seen ++ [c])
      (if c < K ∧ v c < best.1 then (v c, c) else best) := by
  have hmem : ∀ d, d ∈ seen ++ [c] → d ∈ seen ∨ d = c := fun d hd => by
    rwa [List.mem_append, List.mem_singleton] at hd
  split_ifs with hless
  · refine ⟨rfl, hless.1, fun d hd hdK => ?_⟩
    rcases hmem d hd with hd | rfl
    · exact hless.2.le.trans (h.le d hd hdK)
    · exact le_rfl
  · refine ⟨h.value, h.place, fun d hd hdK => ?_⟩
    rcases hmem d hd with hd | rfl
    · exact h.le d hd hdK
    · exact not_lt.1 fun hlt => hless ⟨hdK, hlt⟩

omit [CommRing α] in
lemma Least.foldl {v : ℕ → α} {K : ℕ} (cs : List ℕ) {seen : List ℕ} {best : α × ℕ}
    (h : Least v K seen best) : Least v K (seen ++ cs)
      (cs.foldl (fun best c => if c < K ∧ v c < best.1 then (v c, c) else best) best) := by
  induction cs generalizing seen best with
  | nil => simpa using h
  | cons c cs ih =>
    have := ih (h.step c)
    rwa [List.append_assoc, List.singleton_append] at this

def groupsOfFour (K : ℕ) : List ℕ :=
  (List.range ((K + 3) / 4)).flatMap fun g => (List.finRange 4).map fun j => 4 * g + j.val

lemma mem_groupsOfFour {K k : ℕ} (hk : k < K) : k ∈ groupsOfFour K := by
  rw [groupsOfFour, List.mem_flatMap]
  refine ⟨k / 4, List.mem_range.2 (by omega), List.mem_map.2 ⟨⟨k % 4, Nat.mod_lt _ (by decide)⟩,
    List.mem_finRange _, ?_⟩⟩
  show 4 * (k / 4) + k % 4 = k
  exact Nat.div_add_mod k 4

lemma assignNearestCentroid_eq (q : PqQuantizer α) (fltMax : α) (code : Mem) (centroids : ℕ → Mem)
    (K prev : ℕ) : assignNearestCentroid q fltMax code centroids K true prev
      = ((groupsOfFour K).foldl (fun best c =>
          if c < K ∧ q.codeDistance code (centroids c) < best.1
          then (q.codeDistance code (centroids c), c) else best)
        (q.codeDistance code (centroids prev), prev)).2 := by
  rw [assignNearestCentroid, if_neg (by decide), groupsOfFour, List.foldl_flatMap]
  simp only [PqQuantizer.codeDistanceBatch4_eq, List.foldl_map]

/-- **The nearest centroid** by the distances of codes. -/
lemma assignNearestCentroid_spec (q : PqQuantizer α) (fltMax : α) (code : Mem) (centroids : ℕ → Mem)
    {K prev : ℕ} (hprev : prev < K) :
    assignNearestCentroid q fltMax code centroids K true prev < K ∧
      ∀ k < K, q.codeDistance code
          (centroids (assignNearestCentroid q fltMax code centroids K true prev))
        ≤ q.codeDistance code (centroids k) := by
  have hstart : Least (fun c => q.codeDistance code (centroids c)) K []
      (q.codeDistance code (centroids prev), prev) :=
    ⟨rfl, hprev, fun c hc => absurd hc List.not_mem_nil⟩
  have hend := hstart.foldl (groupsOfFour K)
  rw [List.nil_append] at hend
  rw [assignNearestCentroid_eq]
  refine ⟨hend.place, fun k hk => ?_⟩
  rw [← hend.value]
  exact hend.le k (mem_groupsOfFour hk) hk

lemma kmeansAssign_append (q : PqQuantizer α) (fltMax : α) (codes : ℕ → Mem) (n K : ℕ)
    (passes : List (ℕ → Mem)) (centroids : ℕ → Mem) :
    kmeansAssign q fltMax codes n K (passes ++ [centroids])
      = parallelAssign q fltMax codes n centroids K (kmeansAssign q fltMax codes n K passes) := by
  rw [kmeansAssign, List.foldl_append]
  rfl

omit [LinearOrder α] in
lemma PqQuantizer.Ok.kmeansTable_eq {q : PqQuantizer α} (h : q.Ok) : kmeansTable q = true := by
  obtain ⟨table, htable, -⟩ := h.table
  rw [kmeansTable, htable]
  exact Bool.or_true _

lemma kmeansAssign_lt {q : PqQuantizer α} (h : q.Ok) (fltMax : α) (codes : ℕ → Mem) (n : ℕ) {K : ℕ}
    (hK : 0 < K) (passes : List (ℕ → Mem)) (i : ℕ) :
    kmeansAssign q fltMax codes n K passes i < K := by
  induction passes using List.reverseRecOn with
  | nil => exact hK
  | append_singleton passes centroids ih =>
    rw [kmeansAssign_append, parallelAssign]
    split_ifs
    · rw [h.kmeansTable_eq]
      exact (assignNearestCentroid_spec q fltMax _ centroids ih).1
    · exact ih

end Nearest

/-! ### Distances of decoded vectors -/

section Decoded

variable {α : Type} [CommRing α]

namespace PqQuantizer

variable (q : PqQuantizer α)

/-- The distance of two codes is that of their vectors. -/
def MeasuresDecoded (metric : MetricKind) : Prop :=
  ∀ a b, q.codeDistance a b = metric.distance q.dim (q.decodeCode a) (q.decodeCode b)

/-- Four distances at once are the four distances. -/
def BatchAgrees : Prop :=
  ∀ anchor codes i, q.codeDistanceBatch4 anchor codes i = q.codeDistance anchor (codes i)

/-- Each pass assigns each code a centroid with the nearest vector. -/
def ClustersBy [LinearOrder α] (metric : MetricKind) : Prop :=
  ∀ fltMax codes n K passes centroids, 0 < K → ∀ i < n,
    let r := kmeansAssign q fltMax codes n K (passes ++ [centroids]) i
    r < K ∧ ∀ k < K,
      metric.distance q.dim (q.decodeCode (codes i)) (q.decodeCode (centroids r))
        ≤ metric.distance q.dim (q.decodeCode (codes i)) (q.decodeCode (centroids k))

variable {q}

lemma Ok.measuresDecoded (h : q.Ok) (hrot : q.RotationOk) : q.MeasuresDecoded .l2Sq := by
  intro a b
  rw [h.codeDistance_eq, hrot.distance_decodeCode]
  rfl

lemma MeasuresDecoded.clustersBy [LinearOrder α] {metric : MetricKind}
    (hmeasures : q.MeasuresDecoded metric) (h : q.Ok) : q.ClustersBy metric := by
  intro fltMax codes n K passes centroids hK i hi
  have hprev := kmeansAssign_lt h fltMax codes n hK passes i
  have hnearest := assignNearestCentroid_spec q fltMax (codes i) centroids hprev
  dsimp only
  rw [kmeansAssign_append, parallelAssign, if_pos hi, h.kmeansTable_eq]
  refine ⟨hnearest.1, fun k hk => ?_⟩
  rw [← hmeasures, ← hmeasures]
  exact hnearest.2 k hk

end PqQuantizer

/-- **Distances of codes are distances of decoded vectors**: squared ones from the table whatever the
metric, those of the metric without it. -/
theorem code_distances_decoded [LinearOrder α] (q : PqQuantizer α) (h : q.Made)
    (hrot : q.RotationOk) :
    q.MeasuresDecoded .l2Sq ∧ q.withoutTable.MeasuresDecoded q.metric ∧
      q.BatchAgrees ∧ q.withoutTable.BatchAgrees ∧ (q.metric = .l2Sq → q.ClustersBy q.metric) := by
  have hsquared := h.ok.measuresDecoded hrot
  refine ⟨hsquared, fun a b => ?_, q.codeDistanceBatch4_eq, q.withoutTable.codeDistanceBatch4_eq,
    fun hmetric => ?_⟩
  · rw [h.ok.codeDistance_withoutTable]
    exact (hrot.distance_decodeCode q.metric a b).symm
  · rw [hmetric]
    exact hsquared.clustersBy h.ok

theorem code_distances_reflected :
    reflectedLine.MeasuresDecoded .l2Sq ∧ reflectedLine.withoutTable.MeasuresDecoded .l2Sq ∧
      reflectedLine.BatchAgrees ∧ reflectedLine.withoutTable.BatchAgrees ∧
        (MetricKind.l2Sq = .l2Sq → reflectedLine.ClustersBy .l2Sq) :=
  code_distances_decoded reflectedLine (.inl ⟨_, _, _, rfl⟩) reflectedLine_rotationOk

/-- A line with the centroids `0, …, 15` for the inner product. -/
def productLine : PqQuantizer ℚ := .trained (lineShape .innerProduct) none fun k => k

/-- The code `1` is at distance 0 from itself, where the metric says `-1`. -/
theorem code_distance_ignores_metric :
    productLine.Made ∧ productLine.RotationOk ∧ productLine.metric = .innerProduct ∧
      productLine.codeDistance (fun _ => 1) (fun _ => 1) = 0 ∧
      MetricKind.innerProduct.distance productLine.dim (productLine.decodeCode fun _ => 1)
        (productLine.decodeCode fun _ => 1) = -1 ∧
      ¬ productLine.MeasuresDecoded productLine.metric := by
  have hcode : productLine.codeDistance (fun _ => 1) (fun _ => 1) = 0 := by decide +kernel
  have hmetric : MetricKind.innerProduct.distance productLine.dim
      (productLine.decodeCode fun _ => 1) (productLine.decodeCode fun _ => 1) = -1 := by
    decide +kernel
  refine ⟨.inl ⟨_, _, _, rfl⟩, fun R hR => ?_, rfl, hcode, hmetric, fun hmeasures => ?_⟩
  · have hnone : productLine.rotation = none := rfl
    rw [hnone] at hR
    cases hR
  · have hboth : (0 : ℚ) = -1 := hcode.symm.trans ((hmeasures _ _).trans hmetric)
    norm_num at hboth

end Decoded

end SextantTree.Quant
