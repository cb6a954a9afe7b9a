import SextantTree.Mersenne
import SextantTree.PrqIcm

/-!
What a code depends on besides the entries of the vector. The descent is seeded with the address of
the buffer, and its mode is no part of the blob: an object read back encodes greedily or by a beam.
-/

namespace SextantTree.Prq

open ByteMem SegmentedVec LocalPq Quant Argmin Mersenne

variable {α : Type} [CommRing α] [LinearOrder α]

/-- What `std::partial_sort` promises; the order of equal norms is left open. -/
def PartialSorts (partialSort : ℕ → List (Candidate α) → List (Candidate α)) : Prop :=
  ∀ k cands, (partialSort k cands).Perm cands ∧
    ((partialSort k cands).take k).Pairwise (fun a b => a.newResNormSq ≤ b.newResNormSq) ∧
    ∀ a ∈ (partialSort k cands).take k, ∀ b ∈ (partialSort k cands).drop k,
      a.newResNormSq ≤ b.newResNormSq

namespace PrqEncoder

/-- `serialize`: the mode of encoding and its iterations are not written. -/
def serialize (q : PrqEncoder α) : PrqBlob α :=
  { size := 21 + q.nsplits * q.mSub * q.K * q.subDimPrq * 4, magic := 0xA5, metric := q.metric
    m := q.m, bits := q.bits, dim := q.dim, nsplits := q.nsplits, mSub := q.mSub
    codebooks := q.rqCodebooks }

/-- The parameters by default; the size of the beam is in the blob. -/
def defaults (beamSize : ℕ) : EncodeParams :=
  { beamSize, seed := 42, encodeMode := "greedy", icmIters := 4, ilsIters := 4, ilsPerturb := 4 }

/-- The object that an index opened again encodes with: it is constructed with the defaults, and the
blob brings the codebooks and the size of the beam. -/
def reopen (q : PrqEncoder α) : Except String (PrqEncoder α) :=
  (ProductResidualQuantizer.deserialize q.serialize).map fun base =>
    { base, defaults q.beamSize with }

/-- With these parameters a code depends on the entries alone: it is the same from two buffers, and
the same from the object read back, whatever the codebooks and the order of ties. -/
def ContentsOnly (α : Type) [CommRing α] [LinearOrder α] (sh : PrqShape) (p : EncodeParams) : Prop :=
  ∀ partialSort : ℕ → List (Candidate α) → List (Candidate α), PartialSorts partialSort →
    ∀ (centroids vec : ℕ → α) (address address' : ℕ),
      (trained sh p centroids).encode mt19937 partialSort address' vec =
          (trained sh p centroids).encode mt19937 partialSort address vec ∧
        ∀ q, (trained sh p centroids).reopen = .ok q →
          q.encode mt19937 partialSort address' vec =
            (trained sh p centroids).encode mt19937 partialSort address vec

/-- The descent is not used, or leaves the greedy code as it is: there is one level, no turn, or no
sweep and no perturbation. -/
def StaysGreedy (sh : PrqShape) (p : EncodeParams) : Prop :=
  p.encodeMode ≠ "icm" ∨ (p.beamSize ≤ 1 ∧
    (sh.m / sh.nsplits = 1 ∨ p.ilsIters = 0 ∨
      (p.icmIters = 0 ∧ (p.ilsIters ≤ 1 ∨ p.ilsPerturb = 0))))

/-! ### Greedy codes that stay -/

section Still

variable {q : PrqEncoder α} {s : ℕ} {sub : ℕ → α} {st : IcmState α}

structure Still (q : PrqEncoder α) (s : ℕ) (sub : ℕ → α) (st : IcmState α) : Prop where
  codes_eq : st.codes = (q.greedyLevels s sub q.mSub).codes
  bestCodes_eq : st.bestCodes = (q.greedyLevels s sub q.mSub).codes
  reconstruction_eq : st.reconstruction = q.codeSum s st.codes q.mSub
  bestErr_eq : st.bestErr = q.errorOf s sub st.codes

lemma still_icmStart (hK : 0 < q.K) (s : ℕ) (sub : ℕ → α) (rng : ℕ → ℕ) :
    Still q s sub (q.icmStart s sub rng) := by
  have h := sound_icmStart hK s sub rng
  rw [icmStart, icmInit_eq] at h ⊢
  exact ⟨rfl, rfl, h.reconstruction_eq, h.bestErr_eq⟩

lemma Still.settle (h : Still q s sub st) : Still q s sub (q.settle s sub st) := by
  have herr : (q.normSq fun d => sub d - st.reconstruction d) = st.bestErr := by
    rw [h.bestErr_eq, h.reconstruction_eq, errorOf]
  rw [PrqEncoder.settle, if_neg (by rw [herr]; exact lt_irrefl _)]
  have hsame : st.bestCodes = st.codes := h.bestCodes_eq.trans h.codes_eq.symm
  exact ⟨h.bestCodes_eq, h.bestCodes_eq, rebuild_eq s _, by rw [h.bestErr_eq, hsame]⟩

lemma Still.sweep (h : Still q s sub st) (hone : q.mSub = 1) : Still q s sub (q.sweep s sub 0 st) := by
  have hresidual : (fun d => sub d - st.reconstruction d + q.levelCentroid s 0 (st.codes 0) d) =
      sub := by
    funext d
    rw [h.reconstruction_eq, hone, codeSum_succ]
    simp [codeSum]
  have hcode : st.codes 0 = q.nearest s 0 sub := by
    rw [h.codes_eq, hone, greedyLevels_succ]
    simp only [greedyLevel, Function.update_self]
    rfl
  rw [PrqEncoder.sweep, if_neg (by rw [hresidual, hcode]; exact fun h => h rfl)]
  exact h

lemma Still.run (ms : List Move)
    (hms : ∀ m ∈ ms, m = .settle ∨ (q.mSub = 1 ∧ m = .sweep 0)) :
    ∀ {st : IcmState α}, Still q s sub st → Still q s sub (ms.foldl (q.move s sub) st) := by
  induction ms with
  | nil => exact fun h => h
  | cons m ms ih =>
    intro st h
    refine ih (fun m' hm' => hms m' (List.mem_cons_of_mem m hm')) ?_
    rcases hms m List.mem_cons_self with rfl | ⟨hone, rfl⟩
    · exact h.settle
    · exact h.sweep hone

omit [CommRing α] [LinearOrder α] in
lemma moves_of_staysGreedy (h : q.mSub = 1 ∨ q.ilsIters = 0 ∨
      (q.icmIters = 0 ∧ (q.ilsIters ≤ 1 ∨ q.ilsPerturb = 0))) :
    ∀ m ∈ q.moves, m = .settle ∨ (q.mSub = 1 ∧ m = .sweep 0) := by
  intro m hm
  obtain ⟨ils, hils, hm⟩ := List.mem_flatMap.1 hm
  rw [List.mem_range] at hils
  rw [turn, List.mem_append, List.mem_append] at hm
  rcases hm with (hm | hm) | hm
  · split_ifs at hm with hperturb
    · omega
    · exact absurd hm List.not_mem_nil
  · obtain ⟨l, hl, hm⟩ := List.mem_flatten.1 hm
    obtain ⟨hicm, rfl⟩ := List.mem_replicate.1 hl
    obtain ⟨lev, hlev, rfl⟩ := List.mem_map.1 hm
    rw [List.mem_range] at hlev
    have hone : q.mSub = 1 := by omega
    exact Or.inr ⟨hone, by rw [show lev = 0 by omega]⟩
  · exact Or.inl (List.mem_singleton.1 hm)

lemma encodeIcm_eq_greedy (hK : 0 < q.K) (h : q.mSub = 1 ∨ q.ilsIters = 0 ∨
      (q.icmIters = 0 ∧ (q.ilsIters ≤ 1 ∨ q.ilsPerturb = 0))) (rng : ℕ → ℕ) (vec : ℕ → α) :
    q.encodeIcm rng vec = q.encodeGreedy vec := by
  rw [encodeIcm, encodeGreedy]
  congr 1
  funext s
  exact ((still_icmStart hK s _ _).run q.moves (moves_of_staysGreedy h)).bestCodes_eq

end Still

omit [LinearOrder α] in
lemma reopen_trained {sh : PrqShape} (hdim : 0 < sh.dim) (p : EncodeParams) (centroids : ℕ → α) :
    (trained sh p centroids).reopen = .ok (trained sh (defaults p.beamSize) centroids) := by
  have hm := sh.m_pos
  have hns := sh.nsplits_pos
  have hmSub : 0 < sh.m / sh.nsplits := Nat.div_pos
    (Nat.le_of_dvd hm (Nat.dvd_of_mod_eq_zero sh.m_divides)) hns
  have hheader : ¬ (sh.m = 0 ∨ sh.nsplits = 0 ∨ sh.m / sh.nsplits = 0 ∨ sh.dim = 0 ∨
      sh.m % sh.nsplits ≠ 0 ∨ sh.dim % sh.nsplits ≠ 0 ∨ sh.bits ≠ 4) := by
    have := sh.m_divides
    have := sh.dim_divides
    have := sh.four
    omega
  dsimp only [reopen, ProductResidualQuantizer.deserialize, serialize, trained,
    ProductResidualQuantizer.trained, ProductResidualQuantizer.computeRqCentroidSqnorms]
  rw [if_neg (by omega), if_neg (by decide), if_neg hheader, if_neg (fun h => h rfl)]
  rfl

lemma encode_icm {sh : PrqShape} {p : EncodeParams} (hmode : p.encodeMode = "icm")
    (centroids : ℕ → α) (mt : ℕ → ℕ → ℕ)
    (partialSort : ℕ → List (Candidate α) → List (Candidate α)) (address : ℕ) (vec : ℕ → α) :
    (trained sh p centroids).encode mt partialSort address vec =
      (trained sh p centroids).encodeIcm (mt ((p.seed ^^^ address) % 2 ^ 32)) vec :=
  if_pos hmode

lemma encode_not_icm {sh : PrqShape} {p : EncodeParams} (hmode : p.encodeMode ≠ "icm")
    (centroids : ℕ → α) (mt : ℕ → ℕ → ℕ)
    (partialSort : ℕ → List (Candidate α) → List (Candidate α)) (address : ℕ) (vec : ℕ → α) :
    (trained sh p centroids).encode mt partialSort address vec =
      if p.beamSize ≤ 1 then (trained sh p centroids).encodeGreedy vec
      else (trained sh p centroids).encodeBeam partialSort vec :=
  if_neg hmode

lemma encode_reopened {sh : PrqShape} (p : EncodeParams) (centroids : ℕ → α) (mt : ℕ → ℕ → ℕ)
    (partialSort : ℕ → List (Candidate α) → List (Candidate α)) (address : ℕ) (vec : ℕ → α) :
    (trained sh (defaults p.beamSize) centroids).encode mt partialSort address vec =
      if p.beamSize ≤ 1 then (trained sh p centroids).encodeGreedy vec
      else (trained sh p centroids).encodeBeam partialSort vec :=
  encode_not_icm (p := defaults p.beamSize) (ne_of_beq_false rfl) centroids mt partialSort address vec

/-! ### Books that mislead greedy -/

section Trap

/-- At one level the centroid `g` is 3 and the others are 2, at the next level all are 2. -/
def trapValue (α : Type) [CommRing α] (l₀ g lev c : ℕ) : α :=
  if lev = l₀ then if c = g then 3 else 2 else if lev = l₀ + 1 then 2 else 0

/-- In the first split and on the first coordinate; greedy takes `g` for a 4. -/
def trapBooks (α : Type) [CommRing α] (sh : PrqShape) (l₀ g i : ℕ) : α :=
  let subDim := sh.dim / sh.nsplits
  if i % subDim = 0 then trapValue α l₀ g (i / subDim / 16) (i / subDim % 16) else 0

def four (α : Type) [CommRing α] (d : ℕ) : α := if d = 0 then 4 else 0

structure Trap (q : PrqEncoder α) (l₀ g : ℕ) : Prop where
  bits_eq : q.bits = 4
  subDim_pos : 0 < q.subDimPrq
  next_lt : l₀ + 1 < q.mSub
  code_lt : g < 16
  centroid_eq : ∀ lev, ∀ c < 16, ∀ d < q.subDimPrq,
    q.levelCentroid 0 lev c d = if d = 0 then trapValue α l₀ g lev c else 0

omit [LinearOrder α] in
lemma trap_trained {sh : PrqShape} (hdim : 0 < sh.dim) (p : EncodeParams) {l₀ g : ℕ}
    (hl₀ : l₀ + 1 < sh.m / sh.nsplits) (hg : g < 16) :
    Trap (trained sh p (trapBooks α sh l₀ g)) l₀ g := by
  have hsub : 0 < sh.dim / sh.nsplits := Nat.div_pos
    (Nat.le_of_dvd hdim (Nat.dvd_of_mod_eq_zero sh.dim_divides)) sh.nsplits_pos
  refine ⟨sh.four, hsub, hl₀, hg, fun lev c hc d hd => ?_⟩
  have hd : d < sh.dim / sh.nsplits := hd
  have hindex : (trained sh p (trapBooks α sh l₀ g)).levelCentroid 0 lev c d =
      trapBooks α sh l₀ g ((lev * 16 + c) * (sh.dim / sh.nsplits) + d) := by
    have hK : (trained sh p (trapBooks α sh l₀ g)).K = 16 := congrArg (2 ^ ·) sh.four
    rw [ProductResidualQuantizer.levelCentroid, hK, shift]
    refine congrArg (trapBooks α sh l₀ g) ?_
    change (0 * (sh.m / sh.nsplits) + lev) * 16 * (sh.dim / sh.nsplits) +
      c * (sh.dim / sh.nsplits) + d = _
    ring
  have hmod : ((lev * 16 + c) * (sh.dim / sh.nsplits) + d) % (sh.dim / sh.nsplits) = d := by
    rw [Nat.mul_add_mod', Nat.mod_eq_of_lt hd]
  have hdiv : ((lev * 16 + c) * (sh.dim / sh.nsplits) + d) / (sh.dim / sh.nsplits) =
      lev * 16 + c := by
    rw [Nat.mul_comm, Nat.mul_add_div hsub, Nat.div_eq_of_lt hd, Nat.add_zero]
  rw [hindex, trapBooks]
  simp only [hmod, hdiv]
  rw [show (lev * 16 + c) / 16 = lev by omega, show (lev * 16 + c) % 16 = c by omega]

variable {q : PrqEncoder α} {l₀ g : ℕ}

omit [LinearOrder α] in
lemma dot_axis {n : ℕ} (hn : 0 < n) {x : ℕ → α} (hx : ∀ d, d ≠ 0 → d < n → x d = 0) :
    dot n x x = x 0 * x 0 := by
  refine Finset.sum_eq_single 0 (fun d hd hne => ?_) fun h => absurd (Finset.mem_range.2 hn) h
  rw [hx d hne (Finset.mem_range.1 hd), mul_zero]

omit [LinearOrder α] in
lemma Trap.codeSum_eq (h : Trap q l₀ g) {codes : ℕ → ℕ} (hlt : ∀ lev, codes lev < 16) {d : ℕ}
    (hd : d < q.subDimPrq) :
    q.codeSum 0 codes q.mSub d = if d = 0 then (if codes l₀ = g then 3 else 2) + 2 else 0 := by
  rw [codeSum, Finset.sum_congr rfl fun lev _ => h.centroid_eq lev (codes lev) (hlt lev) d hd]
  split_ifs with hzero
  on_goal 3 => exact Finset.sum_const_zero
  all_goals
    rw [Finset.sum_eq_add l₀ (l₀ + 1) (by omega)
      (fun lev _ hlev => by rw [trapValue, if_neg hlev.1, if_neg hlev.2])
      (fun hout => absurd (Finset.mem_range.2 (by have := h.next_lt; omega)) hout)
      (fun hout => absurd (Finset.mem_range.2 h.next_lt) hout)]
    simp_all [trapValue]

omit [LinearOrder α] in
lemma Trap.errorOf_eq (h : Trap q l₀ g) {codes : ℕ → ℕ} (hlt : ∀ lev, codes lev < 16) :
    q.errorOf 0 (four α) codes = if codes l₀ = g then 1 else 0 := by
  rw [errorOf, normSq, dot_axis h.subDim_pos fun d hd hlt' => by
    rw [h.codeSum_eq hlt hlt', four, if_neg hd, if_neg hd, sub_zero]]
  rw [h.codeSum_eq hlt h.subDim_pos, if_pos rfl, four, if_pos rfl]
  split_ifs <;> norm_num

variable [IsStrictOrderedRing α]

lemma Trap.bestCodes_ne (h : Trap q l₀ g) {st : IcmState α} (hst : Sound q 0 (four α) 0 st) :
    st.bestCodes l₀ ≠ g := by
  intro hg
  have hK : q.K = 16 := congrArg (2 ^ ·) h.bits_eq
  have hle := hst.bestErr_le
  rw [hst.bestErr_eq, h.errorOf_eq fun lev => hK ▸ hst.bestCodes_lt lev, if_pos hg] at hle
  exact absurd hle (not_le.2 one_pos)

omit [IsStrictOrderedRing α] in
lemma greedyLevels_codes (s : ℕ) (sub : ℕ → α) {lev n : ℕ} (hlev : lev < n) :
    (q.greedyLevels s sub n).codes lev = q.nearest s lev (q.greedyLevels s sub lev).residual := by
  induction n with
  | zero => omega
  | succ n ih =>
    rw [greedyLevels_succ]
    simp only [greedyLevel]
    rcases Nat.lt_succ_iff_lt_or_eq.1 hlev with hlt | rfl
    · rw [Function.update_of_ne (by omega), ih hlt]
    · rw [Function.update_self]

lemma Trap.greedy (h : Trap q l₀ g) : (q.greedyLevels 0 (four α) q.mSub).codes l₀ = g := by
  have hK : q.K = 16 := congrArg (2 ^ ·) h.bits_eq
  obtain ⟨hres, hlt⟩ := greedyLevels_spec (hK ▸ by decide : 0 < q.K) 0 (four α) l₀
  rw [greedyLevels_codes 0 _ (by have := h.next_lt; omega)]
  obtain ⟨r, hr⟩ : ∃ r, r = (q.greedyLevels 0 (four α) l₀).residual := ⟨_, rfl⟩
  rw [← hr]
  -- the levels before have left the vector as it is
  have hfour : ∀ d < q.subDimPrq, r d = four α d := by
    intro d hd
    rw [hr, hres]
    dsimp only
    rw [codeSum, Finset.sum_eq_zero, sub_zero]
    intro lev hlev
    have hlev := Finset.mem_range.1 hlev
    rw [h.centroid_eq lev _ (hK ▸ hlt lev) d hd, trapValue, if_neg (show ¬ lev = l₀ by omega),
      if_neg (show ¬ lev = l₀ + 1 by omega), ite_self]
  have hdist : ∀ c < 16, sqDist q.subDimPrq r (q.levelCentroid 0 l₀ c) = if c = g then 1 else 4 := by
    intro c hc
    rw [sqDist_congr hfour (h.centroid_eq l₀ c hc), sqDist_eq_dot, dot_axis h.subDim_pos
      fun d hd _ => by rw [four, if_neg hd, if_neg hd, sub_zero]]
    rw [four, if_pos rfl, if_pos rfl, trapValue, if_pos rfl]
    split_ifs <;> norm_num
  by_contra hne
  have hle := nearest_le 0 l₀ r (hK ▸ h.code_lt : g < q.K)
  rw [hdist _ (hK ▸ nearest_lt (hK ▸ by decide) 0 l₀ r), hdist g h.code_lt, if_neg hne,
    if_pos rfl] at hle
  norm_num at hle

/-! ### Codes that leave the greedy ones -/

lemma Trap.leaves (h : Trap q l₀ g) {rng : ℕ → ℕ} {pre post : List Move}
    (hmoves : q.moves = pre ++ .settle :: post)
    (hpre : (pre.foldl (q.move 0 (four α)) (q.icmStart 0 (four α) rng)).codes l₀ ≠ g) :
    (q.icmSplit 0 (four α) rng).bestCodes l₀ ≠ g := by
  have hK : q.K = 16 := congrArg (2 ^ ·) h.bits_eq
  have hpos : 0 < q.K := hK ▸ by decide
  have hin := inside_moves q
  rw [hmoves] at hin
  have hpreIn : ∀ m ∈ pre, Inside q m := fun m hm => hin m (List.mem_append_left _ hm)
  have hstart := sound_icmStart hpos 0 (four α) rng
  have hrun := bestErr_le_of_settled hpos hstart hpreIn
    fun m hm => hin m (List.mem_append_right _ (List.mem_cons_of_mem _ hm))
  rw [h.errorOf_eq (fun lev => hK ▸ (hstart.run hpos pre hpreIn).codes_lt lev), if_neg hpre,
    ← hmoves] at hrun
  exact h.bestCodes_ne hrun

lemma Trap.leaves_of_sweep (h : Trap q 0 0) (hils : 0 < q.ilsIters) (hicm : 0 < q.icmIters)
    (rng : ℕ → ℕ) : (q.icmSplit 0 (four α) rng).bestCodes 0 ≠ 0 := by
  have hK : q.K = 16 := congrArg (2 ^ ·) h.bits_eq
  have hpos : 0 < q.K := hK ▸ by decide
  obtain ⟨levels, hlevels⟩ : ∃ levels, q.mSub = levels + 1 := ⟨q.mSub - 1, by have := h.next_lt; omega⟩
  obtain ⟨turns, hturns⟩ : ∃ turns, q.ilsIters = turns + 1 := ⟨q.ilsIters - 1, by omega⟩
  obtain ⟨iters, hiters⟩ : ∃ iters, q.icmIters = iters + 1 := ⟨q.icmIters - 1, by omega⟩
  -- the sweeps of the first turn
  obtain ⟨later, hlater⟩ : ∃ later : List Move,
      later = ((List.range levels).map (Move.sweep ∘ Nat.succ)) ++
        (List.replicate iters ((List.range q.mSub).map Move.sweep)).flatten := ⟨_, rfl⟩
  have hmoves : q.moves = (.sweep 0 :: later) ++ .settle ::
      ((List.range turns).map Nat.succ).flatMap q.turn := by
    rw [moves, hturns, List.range_succ_eq_map, List.flatMap_cons, turn, if_neg (by omega), hiters,
      List.replicate_succ, List.flatten_cons, hlater]
    nth_rewrite 1 [hlevels]
    rw [List.range_succ_eq_map]
    simp
  have hsweeps : ∀ m ∈ later, ∃ lev < q.mSub, m = .sweep lev := by
    intro m hm
    rw [hlater, List.mem_append] at hm
    rcases hm with hm | hm
    · obtain ⟨lev, hlev, rfl⟩ := List.mem_map.1 hm
      have := List.mem_range.1 hlev
      exact ⟨lev + 1, by omega, rfl⟩
    · obtain ⟨l, hl, hm⟩ := List.mem_flatten.1 hm
      rw [List.eq_of_mem_replicate hl] at hm
      obtain ⟨lev, hlev, rfl⟩ := List.mem_map.1 hm
      exact ⟨lev, List.mem_range.1 hlev, rfl⟩
  refine h.leaves hmoves fun hg => ?_
  have hstart := sound_icmStart hpos 0 (four α) rng
  have hzero : 0 < q.mSub := by omega
  have hone : 1 < q.K := hK ▸ by decide
  have hfirst := hstart.sweep_le hzero hone
  have hafter := hstart.move hpos (m := .sweep 0) hzero
  have hle := (hafter.sweeps_le hpos later hsweeps).trans hfirst
  rw [List.foldl_cons] at hg
  rw [h.errorOf_eq fun lev => hK ▸ (hafter.run hpos later fun m hm => by
      obtain ⟨lev, hlev, rfl⟩ := hsweeps m hm
      exact hlev).codes_lt lev, if_pos hg,
    h.errorOf_eq fun lev => hK ▸ update_lt hstart.codes_lt 0 hone lev, Function.update_self,
    if_neg (by decide)] at hle
  exact absurd hle (not_le.2 one_pos)

omit [IsStrictOrderedRing α] in
lemma perturbs_agree (q q' : PrqEncoder α) (hm : q.mSub = q'.mSub) (hK : q.K = q'.K) (s : ℕ)
    (sub : ℕ → α) (n lev : ℕ) : ∀ {st st' : IcmState α}, st.rng = st'.rng →
      st.codes lev = st'.codes lev →
      ((List.replicate n Move.perturb).foldl (q.move s sub) st).codes lev =
        ((List.replicate n Move.perturb).foldl (q'.move s sub) st').codes lev := by
  induction n with
  | zero => exact fun _ h => h
  | succ n ih =>
    intro st st' hrng hcodes
    rw [List.replicate_succ, List.foldl_cons, List.foldl_cons]
    refine ih ?_ ?_ <;> simp only [move, perturb, reassign, hrng, hm, hK]
    rcases eq_or_ne lev (st'.rng 0 % q'.mSub) with rfl | hne
    · rw [Function.update_self, Function.update_self]
    · rw [Function.update_of_ne hne, Function.update_of_ne hne, hcodes]

omit [IsStrictOrderedRing α] in
lemma perturbs_agree_first (q q' : PrqEncoder α) (hm : q.mSub = q'.mSub) (hK : q.K = q'.K) (s : ℕ)
    (sub : ℕ → α) (n : ℕ) {st st' : IcmState α} (hrng : st.rng = st'.rng) :
      ((List.replicate (n + 1) Move.perturb).foldl (q.move s sub) st).codes (st.rng 0 % q.mSub) =
        ((List.replicate (n + 1) Move.perturb).foldl (q'.move s sub) st').codes
          (st.rng 0 % q.mSub) := by
  rw [List.replicate_succ, List.foldl_cons, List.foldl_cons]
  refine perturbs_agree q q' hm hK s sub n _ ?_ ?_ <;> simp only [move, perturb, reassign, hrng, hm, hK]
  rw [Function.update_self, Function.update_self]

end Trap

/-! ### Where codes differ -/

/-- A sort in which the last of equal norms comes first. -/
def lastFirst (_k : ℕ) (cands : List (Candidate α)) : List (Candidate α) :=
  cands.reverse.insertionSort fun a b => a.newResNormSq ≤ b.newResNormSq

omit [CommRing α] in
lemma partialSorts_lastFirst : PartialSorts (lastFirst (α := α)) := by
  intro k cands
  have : Std.Total fun a b : Candidate α => a.newResNormSq ≤ b.newResNormSq :=
    ⟨fun a b => le_total a.newResNormSq b.newResNormSq⟩
  have : IsTrans (Candidate α) fun a b => a.newResNormSq ≤ b.newResNormSq :=
    ⟨fun a b c => le_trans⟩
  have hsorted : (lastFirst k cands).Pairwise fun a b => a.newResNormSq ≤ b.newResNormSq :=
    List.pairwise_insertionSort _ _
  have hsplit := hsorted
  rw [← List.take_append_drop k (lastFirst k cands), List.pairwise_append] at hsplit
  exact ⟨(List.perm_insertionSort _ _).trans (List.reverse_perm _), hsplit.1, hsplit.2.2⟩

section Differ

variable {sh : PrqShape} {p : EncodeParams}

lemma not_contentsOnly_of_code (hdim : 0 < sh.dim) (hmode : p.encodeMode = "icm")
    {centroids vec : ℕ → α} {address lev : ℕ} {codes : ℕ → ℕ → ℕ} (hlev : lev < sh.m / sh.nsplits)
    (hcodes : (trained sh (defaults p.beamSize) centroids).encode mt19937 lastFirst address vec =
      (trained sh p centroids).writeCodes codes) (hlt : codes 0 lev < 16)
    (hne : ((trained sh p centroids).icmSplit 0 ((trained sh p centroids).subVec vec 0)
      (mt19937 ((p.seed ^^^ address) % 2 ^ 32))).bestCodes lev ≠ codes 0 lev) :
    ¬ ContentsOnly α sh p := by
  intro h
  obtain ⟨-, hsame⟩ := h lastFirst partialSorts_lastFirst centroids vec address address
  have hsame := hsame _ (reopen_trained hdim p centroids)
  rw [hcodes, encode_icm hmode] at hsame
  obtain ⟨rng, hrng⟩ : ∃ rng, rng = mt19937 ((p.seed ^^^ address) % 2 ^ 32) := ⟨_, rfl⟩
  rw [← hrng] at hsame hne
  obtain ⟨q, hq⟩ : ∃ q, q = trained sh p centroids := ⟨_, rfl⟩
  have hbits : q.bits = 4 := hq ▸ sh.four
  have hK : q.K = 16 := congrArg (2 ^ ·) hbits
  have hpos : 0 < q.K := hK ▸ by decide
  have hlev : lev < q.mSub := hq ▸ hlev
  have hsplits : 0 < q.nsplits := hq ▸ sh.nsplits_pos
  rw [← hq] at hsame hne
  have hread : readCode (q.writeCodes codes) q.bits (0 * q.mSub + lev) =
      readCode (q.encodeIcm rng vec) q.bits (0 * q.mSub + lev) :=
    congrArg (fun code => readCode code q.bits (0 * q.mSub + lev)) hsame
  have hbest := ((sound_icmStart hpos 0 (q.subVec vec 0) rng).run hpos q.moves
    (inside_moves q)).bestCodes_lt lev
  rw [hK] at hbest
  rw [readCode_writeCodes q hbits hsplits hlev hlt, encodeIcm,
    readCode_writeCodes q hbits hsplits hlev hbest] at hread
  exact hne hread.symm

omit [CommRing α] [LinearOrder α] in
lemma subVec_zero (q : PrqEncoder α) (vec : ℕ → α) : q.subVec vec 0 = vec := by
  funext d
  rw [subVec, shift, Nat.zero_mul, Nat.zero_add]

variable [IsStrictOrderedRing α]

lemma not_contentsOnly_of_trap (hdim : 0 < sh.dim) (hmode : p.encodeMode = "icm")
    (hbeam : p.beamSize ≤ 1) (address : ℕ) {l₀ g : ℕ} (hl₀ : l₀ + 1 < sh.m / sh.nsplits) (hg : g < 16)
    (hne : ((trained sh p (trapBooks α sh l₀ g)).icmSplit 0 (four α)
      (mt19937 ((p.seed ^^^ address) % 2 ^ 32))).bestCodes l₀ ≠ g) : ¬ ContentsOnly α sh p := by
  have hgreedy := (trap_trained (α := α) hdim p hl₀ hg).greedy
  rw [← subVec_zero (trained sh p (trapBooks α sh l₀ g)) (four α)] at hne hgreedy
  exact not_contentsOnly_of_code hdim hmode (show l₀ < sh.m / sh.nsplits by omega)
    ((encode_reopened p _ _ _ address _).trans (if_pos hbeam)) (hgreedy.symm ▸ hg)
    fun h => hne (h.trans hgreedy)

lemma not_contentsOnly_of_sweep (hdim : 0 < sh.dim) (hmode : p.encodeMode = "icm")
    (hbeam : p.beamSize ≤ 1) (hlevels : 1 < sh.m / sh.nsplits) (hils : 0 < p.ilsIters)
    (hicm : 0 < p.icmIters) : ¬ ContentsOnly α sh p :=
  not_contentsOnly_of_trap hdim hmode hbeam 0 hlevels (by decide)
    ((trap_trained hdim p hlevels (by decide)).leaves_of_sweep hils hicm _)

lemma exists_draw {levels : ℕ} (hlevels : 1 < levels) :
    ∃ seed < 2 ^ 32, mt19937 seed 0 % levels + 1 < levels := by
  by_contra hall
  push Not at hall
  have hdvd : ∀ seed < 2 ^ 32, levels ∣ mt19937 seed 0 + 1 := by
    intro seed hseed
    have hlast := hall seed hseed
    have hlt := Nat.mod_lt (mt19937 seed 0) (show 0 < levels by omega)
    refine Nat.dvd_of_mod_eq_zero ?_
    rw [Nat.add_mod, show mt19937 seed 0 % levels = levels - 1 by omega,
      Nat.mod_eq_of_lt hlevels, Nat.sub_add_cancel hlevels.le, Nat.mod_self]
  have hfirst := hdvd 5489 (by decide)
  have hsecond := hdvd 1 (by decide)
  rw [show mt19937 5489 0 = 3499211612 by decide +kernel] at hfirst
  rw [show mt19937 1 0 = 1791095845 by decide +kernel] at hsecond
  have hone := Nat.dvd_gcd hfirst hsecond
  rw [show Nat.gcd (3499211612 + 1) (1791095845 + 1) = 1 by norm_num] at hone
  have := Nat.le_of_dvd one_pos hone
  omega

lemma seed_xor_address (seed target : ℕ) (h : target < 2 ^ 32) :
    (seed ^^^ (seed ^^^ target)) % 2 ^ 32 = target := by
  rw [← Nat.xor_assoc, Nat.xor_self, Nat.zero_xor, Nat.mod_eq_of_lt h]

lemma not_contentsOnly_of_perturb (hdim : 0 < sh.dim) (hmode : p.encodeMode = "icm")
    (hbeam : p.beamSize ≤ 1) (hlevels : 1 < sh.m / sh.nsplits) (hicm : p.icmIters = 0)
    (hils : 1 < p.ilsIters) (hperturb : 0 < p.ilsPerturb) : ¬ ContentsOnly α sh p := by
  obtain ⟨seed, hseed, hdraw⟩ := exists_draw hlevels
  obtain ⟨l₀, hl₀⟩ : ∃ l₀, l₀ = mt19937 seed 0 % (sh.m / sh.nsplits) := ⟨_, rfl⟩
  rw [← hl₀] at hdraw
  obtain ⟨n, hn⟩ : ∃ n, min p.ilsPerturb (sh.m / sh.nsplits) = n + 1 :=
    ⟨min p.ilsPerturb (sh.m / sh.nsplits) - 1, by omega⟩
  obtain ⟨turns, hturns⟩ : ∃ turns, p.ilsIters = turns + 2 := ⟨p.ilsIters - 2, by omega⟩
  -- nothing is swept: the second turn perturbs the greedy codes
  obtain ⟨pre, hpre⟩ : ∃ pre, pre = Move.settle :: List.replicate (n + 1) Move.perturb := ⟨_, rfl⟩
  have hmoves : ∀ books : ℕ → α, (trained sh p books).moves = pre ++ .settle ::
      ((List.range turns).map (Nat.succ ∘ Nat.succ)).flatMap (trained sh p books).turn := by
    intro books
    obtain ⟨q, hq⟩ : ∃ q, q = trained sh p books := ⟨_, rfl⟩
    have hq₁ : q.ilsIters = turns + 2 := hq ▸ hturns
    have hq₂ : q.icmIters = 0 := hq ▸ hicm
    have hq₃ : min q.ilsPerturb q.mSub = n + 1 := hq ▸ hn
    have hfirst : q.turn 0 = [.settle] := by
      rw [turn, if_neg (by omega), hq₂]
      rfl
    have hsecond : q.turn 1 = List.replicate (n + 1) .perturb ++ [.settle] := by
      rw [turn, if_pos ⟨one_pos, hq ▸ hperturb, hq ▸ hlevels⟩, hq₂, hq₃, List.replicate_zero,
        List.flatten_nil, List.append_nil]
    rw [← hq, moves, hq₁, List.range_succ_eq_map, List.flatMap_cons, hfirst,
      List.range_succ_eq_map, List.map_cons, List.flatMap_cons, hsecond, List.map_map, hpre]
    simp
  obtain ⟨code, hcode⟩ : ∃ code : (ℕ → α) → ℕ, code = fun books =>
    (pre.foldl ((trained sh p books).move 0 (four α))
      ((trained sh p books).icmStart 0 (four α) (mt19937 seed))).codes l₀ := ⟨_, rfl⟩
  have hagree : ∀ books books', code books = code books' := by
    intro books books'
    have hrng : ∀ books, ((trained sh p books).settle 0 (four α)
        ((trained sh p books).icmStart 0 (four α) (mt19937 seed))).rng = mt19937 seed := by
      intro books
      rw [PrqEncoder.settle]
      split_ifs <;> rfl
    have hfirst := perturbs_agree_first (trained sh p books) (trained sh p books') rfl rfl 0 (four α)
      n ((hrng books).trans (hrng books').symm)
    rw [hrng books] at hfirst
    rw [hcode, hpre, hl₀]
    exact hfirst
  -- books in which the level gets something else than greedy had
  obtain ⟨g, hg, hne⟩ : ∃ g < 16, code (trapBooks α sh l₀ g) ≠ g := by
    by_cases hzero : code (trapBooks α sh l₀ 0) = 0
    · refine ⟨1, by decide, ?_⟩
      rw [← hagree (trapBooks α sh l₀ 0), hzero]
      decide
    · exact ⟨0, by decide, hzero⟩
  refine not_contentsOnly_of_trap hdim hmode hbeam (p.seed ^^^ seed) hdraw hg ?_
  rw [seed_xor_address p.seed seed hseed]
  refine (trap_trained hdim p hdraw hg).leaves (hmoves _) ?_
  rw [hcode] at hne
  exact hne

/-! ### Books without a difference -/

omit [IsStrictOrderedRing α] in
lemma lastFirst_of_zero {cands : List (Candidate α)} (h : ∀ c ∈ cands, c.newResNormSq = 0) (k : ℕ) :
    lastFirst k cands = cands.reverse := by
  refine List.Pairwise.insertionSort_eq (List.pairwise_of_forall_mem_list fun a ha b hb => ?_)
  rw [h a (List.mem_reverse.1 ha), h b (List.mem_reverse.1 hb)]

/-- A beam over books of zeros, with some hypotheses of the levels so far. -/
structure ZeroBeam (q : PrqEncoder α) (levels : ℕ) (beam : List (Hypothesis α)) : Prop where
  nonempty : beam ≠ []
  residual_eq : ∀ h ∈ beam, h.residual = fun _ => 0
  length_eq : ∀ h ∈ beam, h.codes.length = levels

variable {q : PrqEncoder α} {levels : ℕ} {beam : List (Hypothesis α)}

omit [IsStrictOrderedRing α] [LinearOrder α] in
lemma levelCentroid_of_zero (hzero : q.rqCodebooks = fun _ => 0) (s lev c : ℕ) :
    q.levelCentroid s lev c = fun _ => 0 := by
  rw [ProductResidualQuantizer.levelCentroid, hzero]
  rfl

omit [LinearOrder α] [IsStrictOrderedRing α] in
lemma ZeroBeam.extend (h : ZeroBeam q levels beam) (hzero : q.rqCodebooks = fun _ => 0) {s lev : ℕ}
    {cand : Candidate α} {hyp : Hypothesis α} (hhyp : q.extend s lev beam cand = some hyp) :
    hyp.residual = (fun _ => 0) ∧ hyp.codes.length = levels + 1 := by
  obtain ⟨old, hold, rfl⟩ := Option.map_eq_some_iff.1 hhyp
  have hmem := List.mem_of_getElem? hold
  refine ⟨?_, ?_⟩
  · funext d
    dsimp only
    rw [h.residual_eq old hmem, levelCentroid_of_zero hzero, sub_zero]
  · rw [List.length_append, h.length_eq old hmem, List.length_singleton]

omit [LinearOrder α] [IsStrictOrderedRing α] in
lemma candidates_append (hK : q.K = 16) (s lev : ℕ) (init : List (Hypothesis α)) (h : Hypothesis α) :
    ∃ before norm, q.candidates s lev (init ++ [h]) = before ++ [⟨init.length, 15, norm⟩] := by
  refine ⟨(init.zipIdx.flatMap fun h => (List.range q.K).map fun c =>
    ⟨h.2, c, q.normSq fun d => h.1.residual d - q.levelCentroid s lev c d⟩) ++
      (List.range 15).map (fun c =>
        ⟨init.length, c, q.normSq fun d => h.residual d - q.levelCentroid s lev c d⟩),
    q.normSq fun d => h.residual d - q.levelCentroid s lev 15 d, ?_⟩
  rw [candidates, List.zipIdx_append, List.flatMap_append, List.append_assoc, hK]
  simp [List.range_succ]

omit [IsStrictOrderedRing α] in
lemma ZeroBeam.level (h : ZeroBeam q levels beam) (hzero : q.rqCodebooks = fun _ => 0)
    (hK : q.K = 16) (hbeam : 0 < q.beamSize) (s lev : ℕ) :
    ZeroBeam q (levels + 1) (q.beamLevel lastFirst s beam lev) ∧
      (((q.beamLevel lastFirst s beam lev).head?.map Hypothesis.codes).getD []).getD levels 0 =
        15 := by
  obtain ⟨init, last, rfl⟩ : ∃ init last, beam = init ++ [last] :=
    ⟨beam.dropLast, beam.getLast h.nonempty, (List.dropLast_append_getLast h.nonempty).symm⟩
  obtain ⟨before, norm, hcands⟩ := candidates_append hK s lev init last
  have hnorm : ∀ c ∈ q.candidates s lev (init ++ [last]), c.newResNormSq = 0 := by
    intro c hc
    obtain ⟨⟨hyp, i⟩, hhyp, hc⟩ := List.mem_flatMap.1 hc
    obtain ⟨cid, -, rfl⟩ := List.mem_map.1 hc
    have hres := h.residual_eq hyp (List.fst_mem_of_mem_zipIdx hhyp)
    dsimp only
    rw [hres, levelCentroid_of_zero hzero]
    simp [normSq, dot]
  -- the first hypothesis that is kept
  obtain ⟨keep, hkeep⟩ : ∃ keep, min q.beamSize (q.candidates s lev (init ++ [last])).length =
      keep + 1 := by
    refine ⟨min q.beamSize (q.candidates s lev (init ++ [last])).length - 1, ?_⟩
    rw [hcands, List.length_append, List.length_singleton]
    omega
  obtain ⟨first, hext, hcodes⟩ : ∃ first,
      q.extend s lev (init ++ [last]) ⟨init.length, 15, norm⟩ = some first ∧
        first.codes = last.codes ++ [15] := by
    refine ⟨⟨fun d => last.residual d - q.levelCentroid s lev 15 d, last.codes ++ [15], norm⟩, ?_, rfl⟩
    rw [PrqEncoder.extend, List.getElem?_append_right le_rfl, Nat.sub_self]
    rfl
  have hlevel : q.beamLevel lastFirst s (init ++ [last]) lev =
      first :: (before.reverse.take keep).filterMap (q.extend s lev (init ++ [last])) := by
    rw [beamLevel, hkeep, lastFirst_of_zero hnorm, hcands, List.reverse_append,
      List.reverse_singleton, List.singleton_append, List.take_succ_cons,
      List.filterMap_cons_some hext]
  have hlast := h.length_eq last (List.mem_append_right _ (List.mem_singleton_self last))
  refine ⟨⟨?_, ?_, ?_⟩, ?_⟩
  · rw [hlevel]
    exact List.cons_ne_nil _ _
  · intro hyp hhyp
    obtain ⟨cand, -, hcand⟩ := List.mem_filterMap.1 hhyp
    exact (h.extend hzero hcand).1
  · intro hyp hhyp
    obtain ⟨cand, -, hcand⟩ := List.mem_filterMap.1 hhyp
    exact (h.extend hzero hcand).2
  · rw [hlevel, List.head?_cons, Option.map_some, Option.getD_some, hcodes, ← hlast,
      List.getD_append_right _ _ _ _ le_rfl, Nat.sub_self]
    rfl

omit [IsStrictOrderedRing α] in
lemma zeroBeam_levels (hzero : q.rqCodebooks = fun _ => 0) (hK : q.K = 16) (hbeam : 0 < q.beamSize)
    (s : ℕ) (norm : α) (n : ℕ) :
    ZeroBeam q n ((List.range n).foldl (q.beamLevel lastFirst s) [⟨fun _ => 0, [], norm⟩]) := by
  induction n with
  | zero =>
    refine ⟨List.cons_ne_nil _ _, fun h hh => ?_, fun h hh => ?_⟩ <;> rw [List.mem_singleton.1 hh]
    rfl
  | succ n ih =>
    rw [List.range_succ, List.foldl_append]
    exact (ih.level hzero hK hbeam s n).1

lemma bestCodes_of_exact (s : ℕ) (sub : ℕ → α) (ms : List Move) :
    ∀ {st : IcmState α}, st.bestErr ≤ 0 → (ms.foldl (q.move s sub) st).bestCodes = st.bestCodes := by
  induction ms with
  | nil => exact fun _ => rfl
  | cons m ms ih =>
    intro st h
    have hnonneg : (0 : α) ≤ q.normSq fun d => sub d - st.reconstruction d := by
      rw [normSq, dot]
      exact Finset.sum_nonneg fun d _ => mul_self_nonneg _
    have hstep : (q.move s sub st m).bestErr = st.bestErr ∧
        (q.move s sub st m).bestCodes = st.bestCodes := by
      cases m with
      | perturb => exact ⟨rfl, rfl⟩
      | sweep lev =>
        simp only [move, PrqEncoder.sweep]
        split_ifs <;> exact ⟨rfl, rfl⟩
      | settle =>
        simp only [move, PrqEncoder.settle]
        rw [if_neg (not_lt.2 (h.trans hnonneg))]
        exact ⟨rfl, rfl⟩
    rw [List.foldl_cons, ih (hstep.1.le.trans h), hstep.2]

omit [IsStrictOrderedRing α] in
lemma nearest_of_zero (hzero : q.rqCodebooks = fun _ => 0) (hK : 0 < q.K) (s lev : ℕ)
    (residual : ℕ → α) : q.nearest s lev residual = 0 := by
  have hleast := scanMin_spec
    (fun c => ((sqDist q.subDimPrq residual (q.levelCentroid s lev c) : α) : WithTop α))
    (List.pairwise_lt_range (n := q.K))
  have hlt := (hleast.le 0 (List.mem_range.2 hK)).trans_lt (WithTop.coe_lt_top _)
  refine Nat.le_zero.1 (hleast.first hlt 0 (List.mem_range.2 hK) ?_)
  rw [← (hleast.found hlt).2, levelCentroid_of_zero hzero, levelCentroid_of_zero hzero]

lemma not_contentsOnly_of_beam (hdim : 0 < sh.dim) (hmode : p.encodeMode = "icm")
    (hbeam : 1 < p.beamSize) : ¬ ContentsOnly α sh p := by
  obtain ⟨q, hq⟩ : ∃ q, q = trained sh p fun _ => (0 : α) := ⟨_, rfl⟩
  have hzero : q.rqCodebooks = fun _ => 0 := by rw [hq]; rfl
  have hK : q.K = 16 := hq ▸ congrArg (2 ^ ·) sh.four
  have hpos : 0 < q.K := hK ▸ by decide
  obtain ⟨lev, hlev⟩ : ∃ lev, sh.m / sh.nsplits = lev + 1 := by
    refine ⟨sh.m / sh.nsplits - 1, (Nat.sub_add_cancel (Nat.div_pos
      (Nat.le_of_dvd sh.m_pos (Nat.dvd_of_mod_eq_zero sh.m_divides)) sh.nsplits_pos)).symm⟩
  have hmSub : q.mSub = lev + 1 := hq ▸ hlev
  have hbeam' : 0 < q.beamSize := hq ▸ Nat.zero_lt_of_lt hbeam
  -- the beam ends with the last centroid
  have hlast : (((q.beamSplit lastFirst 0 (q.subVec (fun _ => 0) 0)).head?.map
      Hypothesis.codes).getD []).getD lev 0 = 15 := by
    rw [subVec_zero, beamSplit, hmSub, List.range_succ, List.foldl_append]
    exact ((zeroBeam_levels hzero hK hbeam' 0 _ lev).level hzero hK hbeam' 0 lev).2
  have hfirst : (q.icmSplit 0 (q.subVec (fun _ => 0) 0)
      (mt19937 ((p.seed ^^^ 0) % 2 ^ 32))).bestCodes lev = 0 := by
    have hstart : (q.icmStart 0 (fun _ => (0 : α)) (mt19937 ((p.seed ^^^ 0) % 2 ^ 32))).bestErr ≤ 0 := by
      have hsum : ∀ codes, q.codeSum 0 codes q.mSub = fun _ => (0 : α) := fun codes => funext fun d =>
        Finset.sum_eq_zero fun l _ => congrFun (levelCentroid_of_zero hzero 0 l _) d
      rw [(sound_icmStart hpos 0 _ _).bestErr_eq, errorOf, hsum]
      simp [normSq, dot]
    rw [subVec_zero, icmSplit, bestCodes_of_exact 0 _ _ hstart, icmStart, icmInit_eq, hmSub]
    dsimp only
    rw [greedyLevels_codes 0 _ (Nat.lt_succ_self lev), nearest_of_zero hzero hpos]
  rw [hq] at hlast hfirst
  refine not_contentsOnly_of_code hdim hmode (show lev < sh.m / sh.nsplits by omega)
    ((encode_reopened p (fun _ => 0) _ _ 0 fun _ => 0).trans (if_neg (by omega))) ?_ ?_
  · rw [hlast]
    decide
  · rw [hlast, hfirst]
    decide

end Differ

/-- **Codes depend on the contents alone** exactly if the descent is not used, or has nothing to do. -/
theorem contentsOnly_iff (α : Type) [CommRing α] [LinearOrder α] [IsStrictOrderedRing α]
    (sh : PrqShape) (hdim : 0 < sh.dim) (p : EncodeParams) :
    ContentsOnly α sh p ↔ StaysGreedy sh p := by
  constructor
  · intro h
    by_contra hstays
    rw [StaysGreedy, not_or, not_not, not_and_or] at hstays
    obtain ⟨hmode, hcase⟩ := hstays
    have hlevels : 0 < sh.m / sh.nsplits := Nat.div_pos
      (Nat.le_of_dvd sh.m_pos (Nat.dvd_of_mod_eq_zero sh.m_divides)) sh.nsplits_pos
    by_cases hbeam : p.beamSize ≤ 1
    · have hcase := hcase.resolve_left (not_not.2 hbeam)
      rcases Nat.eq_zero_or_pos p.icmIters with hicm | hicm
      · exact not_contentsOnly_of_perturb hdim hmode hbeam (by omega) hicm (by omega) (by omega) h
      · exact not_contentsOnly_of_sweep hdim hmode hbeam (by omega) (by omega) hicm h
    · exact not_contentsOnly_of_beam hdim hmode (by omega) h
  · intro h partialSort _ centroids vec address address'
    have hreopened : ∀ q, (trained sh p centroids).reopen = .ok q →
        q.encode mt19937 partialSort address' vec =
          if p.beamSize ≤ 1 then (trained sh p centroids).encodeGreedy vec
          else (trained sh p centroids).encodeBeam partialSort vec := by
      intro q hq
      rw [reopen_trained hdim] at hq
      obtain rfl := Except.ok.inj hq
      exact encode_reopened p centroids _ _ _ _
    by_cases hmode : p.encodeMode = "icm"
    · obtain ⟨hbeam, hstill⟩ := h.resolve_left (not_not.2 hmode)
      have hgreedy : ∀ rng, (trained sh p centroids).encodeIcm rng vec =
          (trained sh p centroids).encodeGreedy vec := fun rng =>
        encodeIcm_eq_greedy (Nat.two_pow_pos _) hstill rng vec
      rw [encode_icm hmode, encode_icm hmode, hgreedy, hgreedy]
      exact ⟨rfl, fun q hq => (hreopened q hq).trans (if_pos hbeam)⟩
    · rw [encode_not_icm hmode, encode_not_icm hmode]
      exact ⟨rfl, hreopened⟩

theorem contentsOnly_iff_plane : ContentsOnly ℤ planeShape ⟨1, 42, "greedy", 4, 4, 4⟩ ↔
    StaysGreedy planeShape ⟨1, 42, "greedy", 4, 4, 4⟩ :=
  contentsOnly_iff ℤ planeShape (by decide) ⟨1, 42, "greedy", 4, 4, 4⟩

/-- Two levels; from the greedy 9 + 5 the descent comes to 5 + 5 by some draws only. -/
def drawnBooks (i : ℕ) : ℤ :=
  if i % 2 = 1 then 0
  else if i < 32 then if i = 0 then 9 else if i = 2 then 5 else 100
  else if i = 32 then 0 else if i = 34 then 5 else 100

/-- Two buffers with the same vector and two codes. -/
theorem encode_by_address :
    (trained planeShape ⟨1, 42, "icm", 1, 2, 1⟩ drawnBooks).encode mt19937 lastFirst 4144
        (fun d => if d = 0 then 10 else 0) ≠
      (trained planeShape ⟨1, 42, "icm", 1, 2, 1⟩ drawnBooks).encode mt19937 lastFirst 4160
        (fun d => if d = 0 then 10 else 0) :=
  fun h => absurd (congrFun h 0) (by decide +kernel)

end PrqEncoder

end SextantTree.Prq
