import SextantTree.PrqEncode
import SextantTree.LutRank

/-!
Coordinate descent never loses to greedy. Through all moves the reconstruction is the sum of the
centroids that are assigned, and the best error is that of the best codes; it only goes down.
-/

namespace SextantTree.Prq

open ByteMem SegmentedVec LocalPq Quant Argmin

/-! ### Codes in a buffer -/

lemma readCode_writeCode (code : Mem) (s cid s' : ℕ) :
    readCode (writeCode code 4 s cid) 4 s' = if s' = s then cid % 16 else readCode code 4 s' := by
  have hbyte := (code (s / 2)).toNat_lt
  simp only [readCode, writeCode, if_neg (show ¬ (4 : ℕ) = 8 by decide),
    if_neg (show ¬ (4 : ℕ) = 2 by decide)]
  rcases eq_or_ne (s' / 2) (s / 2) with hsame | hother
  · rw [hsame, Function.update_self, UInt8.toNat_ofNat']
    rcases Nat.mod_two_eq_zero_or_one s with hs | hs <;>
      rcases Nat.mod_two_eq_zero_or_one s' with hs' | hs'
    · rw [if_pos hs, hs', if_pos (by omega)]
      omega
    · rw [if_pos hs, hs', if_neg (by omega)]
      omega
    · rw [if_neg (by omega), hs', if_neg (by omega)]
      omega
    · rw [if_neg (by omega), hs', if_pos (by omega)]
      omega
  · rw [Function.update_of_ne hother, if_neg fun h => hother (congrArg (· / 2) h)]

namespace PrqEncoder

section Codes

variable {α : Type} [CommRing α] (q : PrqEncoder α)

omit [CommRing α] in
lemma readCode_levels (hbits : q.bits = 4) (codes : ℕ → ℕ) (o n : ℕ) (code : Mem) (seg : ℕ) :
    readCode ((List.range n).foldl (fun code lev => writeCode code q.bits (o + lev) (codes lev)) code)
        4 seg =
      if o ≤ seg ∧ seg < o + n then codes (seg - o) % 16 else readCode code 4 seg := by
  rw [hbits]
  induction n with
  | zero => rw [if_neg (by omega)]; rfl
  | succ n ih =>
    rw [List.range_succ, List.foldl_append, List.foldl_cons, List.foldl_nil, readCode_writeCode, ih]
    by_cases hseg : seg = o + n
    · rw [if_pos hseg, if_pos (by omega), hseg, Nat.add_sub_cancel_left]
    · rw [if_neg hseg]
      exact if_congr (by omega) rfl rfl

omit [CommRing α] in
lemma readCode_splits (hbits : q.bits = 4) (codes : ℕ → ℕ → ℕ) (S : ℕ) {s lev : ℕ} (hs : s < S)
    (hlev : lev < q.mSub) :
    readCode ((List.range S).foldl (fun code s => (List.range q.mSub).foldl (fun code lev =>
      writeCode code q.bits (s * q.mSub + lev) (codes s lev)) code) fun _ => 0) 4
        (s * q.mSub + lev) = codes s lev % 16 := by
  induction S with
  | zero => omega
  | succ S ih =>
    rw [List.range_succ, List.foldl_append, List.foldl_cons, List.foldl_nil,
      readCode_levels q hbits]
    rcases Nat.lt_succ_iff_lt_or_eq.1 hs with hlt | rfl
    · have hend : (s + 1) * q.mSub ≤ S * q.mSub := Nat.mul_le_mul_right _ hlt
      rw [Nat.succ_mul] at hend
      rw [if_neg (by omega), ih hlt]
    · rw [if_pos (by omega), Nat.add_sub_cancel_left]

omit [CommRing α] in
lemma readCode_writeCodes (hbits : q.bits = 4) {codes : ℕ → ℕ → ℕ} {s lev : ℕ}
    (hs : s < q.nsplits) (hlev : lev < q.mSub) (hlt : codes s lev < 16) :
    readCode (q.writeCodes codes) q.bits (s * q.mSub + lev) = codes s lev := by
  rw [hbits, writeCodes, readCode_splits q hbits codes q.nsplits hs hlev, Nat.mod_eq_of_lt hlt]

/-! ### Sums of centroids -/

/-- The centroids of the first levels of a split, added up. -/
def codeSum (s : ℕ) (codes : ℕ → ℕ) (levels : ℕ) : ℕ → α := fun d =>
  ∑ lev ∈ Finset.range levels, q.levelCentroid s lev (codes lev) d

def errorOf (s : ℕ) (sub : ℕ → α) (codes : ℕ → ℕ) : α :=
  q.normSq fun d => sub d - q.codeSum s codes q.mSub d

variable {q}

lemma codeSum_succ (s : ℕ) (codes : ℕ → ℕ) (levels d : ℕ) :
    q.codeSum s codes (levels + 1) d =
      q.codeSum s codes levels d + q.levelCentroid s levels (codes levels) d :=
  Finset.sum_range_succ _ _

lemma codeSum_update_of_le {s : ℕ} (codes : ℕ → ℕ) {levels lev : ℕ} (h : levels ≤ lev) (cid : ℕ) :
    q.codeSum s (Function.update codes lev cid) levels = q.codeSum s codes levels := by
  funext d
  refine Finset.sum_congr rfl fun l hl => ?_
  rw [Function.update_of_ne (by have := Finset.mem_range.1 hl; omega)]

lemma codeSum_update {s : ℕ} (codes : ℕ → ℕ) {levels lev : ℕ} (h : lev < levels) (cid d : ℕ) :
    q.codeSum s (Function.update codes lev cid) levels d = q.codeSum s codes levels d +
      (q.levelCentroid s lev cid d - q.levelCentroid s lev (codes lev) d) := by
  induction levels with
  | zero => omega
  | succ levels ih =>
    rw [codeSum_succ, codeSum_succ]
    rcases Nat.lt_succ_iff_lt_or_eq.1 h with hlt | rfl
    · rw [ih hlt, Function.update_of_ne (by omega)]
      ring
    · rw [codeSum_update_of_le codes le_rfl, Function.update_self]
      ring

lemma rebuild_eq (s : ℕ) (codes : ℕ → ℕ) : q.rebuild s codes = q.codeSum s codes q.mSub := by
  have h : ∀ n, (List.range n).foldl
      (fun (r : ℕ → α) lev d => r d + q.levelCentroid s lev (codes lev) d) (fun _ => 0) =
        q.codeSum s codes n := by
    intro n
    induction n with
    | zero => rfl
    | succ n ih =>
      rw [List.range_succ, List.foldl_append, ih]
      funext d
      rw [codeSum_succ]
      rfl
  exact h q.mSub

end Codes

variable {α : Type} [CommRing α] [LinearOrder α] {q : PrqEncoder α}

/-! ### Greedy -/

lemma nearest_lt (hK : 0 < q.K) (s lev : ℕ) (residual : ℕ → α) : q.nearest s lev residual < q.K := by
  have hleast := scanMin_spec
    (fun c => ((sqDist q.subDimPrq residual (q.levelCentroid s lev c) : α) : WithTop α))
    (List.pairwise_lt_range (n := q.K))
  have hfound := hleast.found ((hleast.le 0 (List.mem_range.2 hK)).trans_lt (WithTop.coe_lt_top _))
  exact List.mem_range.1 hfound.1

lemma nearest_le (s lev : ℕ) (residual : ℕ → α) {c : ℕ} (hc : c < q.K) :
    sqDist q.subDimPrq residual (q.levelCentroid s lev (q.nearest s lev residual)) ≤
      sqDist q.subDimPrq residual (q.levelCentroid s lev c) := by
  have hleast := scanMin_spec
    (fun c => ((sqDist q.subDimPrq residual (q.levelCentroid s lev c) : α) : WithTop α))
    (List.pairwise_lt_range (n := q.K))
  have hle := hleast.le c (List.mem_range.2 hc)
  rw [← (hleast.found (hle.trans_lt (WithTop.coe_lt_top _))).2] at hle
  exact WithTop.coe_le_coe.1 hle

lemma greedyLevels_succ (s : ℕ) (sub : ℕ → α) (n : ℕ) :
    q.greedyLevels s sub (n + 1) = q.greedyLevel s (q.greedyLevels s sub n) n := by
  rw [greedyLevels, List.range_succ, List.foldl_append]
  rfl

lemma greedyLevels_spec (hK : 0 < q.K) (s : ℕ) (sub : ℕ → α) (levels : ℕ) :
    (q.greedyLevels s sub levels).residual =
        (fun d => sub d - q.codeSum s (q.greedyLevels s sub levels).codes levels d) ∧
      ∀ lev, (q.greedyLevels s sub levels).codes lev < q.K := by
  induction levels with
  | zero => exact ⟨funext fun d => (sub_zero _).symm, fun _ => hK⟩
  | succ n ih =>
    obtain ⟨hres, hlt⟩ := ih
    rw [greedyLevels_succ]
    refine ⟨?_, fun lev => ?_⟩
    · funext d
      simp only [greedyLevel]
      rw [codeSum_succ, codeSum_update_of_le _ le_rfl, Function.update_self, hres]
      ring
    · simp only [greedyLevel]
      rcases eq_or_ne lev n with rfl | hne
      · rw [Function.update_self]
        exact nearest_lt hK _ _ _
      · rw [Function.update_of_ne hne]
        exact hlt lev

lemma icmInit_eq (s : ℕ) (sub : ℕ → α) (levels : ℕ) :
    q.icmInit s sub levels = (q.greedyLevels s sub levels,
      q.codeSum s (q.greedyLevels s sub levels).codes levels) := by
  induction levels with
  | zero => rfl
  | succ n ih =>
    rw [icmInit, List.range_succ, List.foldl_append, ← icmInit, ih, greedyLevels_succ]
    refine Prod.ext rfl ?_
    funext d
    simp only [List.foldl_cons, List.foldl_nil, greedyLevel]
    rw [codeSum_succ, codeSum_update_of_le _ le_rfl]

/-! ### The descent -/

/-- What holds of a split through all moves: the sums are kept, and the best error is that of the
best codes, at most `e`. -/
structure Sound (q : PrqEncoder α) (s : ℕ) (sub : ℕ → α) (e : α) (st : IcmState α) : Prop where
  reconstruction_eq : st.reconstruction = q.codeSum s st.codes q.mSub
  bestErr_eq : st.bestErr = q.errorOf s sub st.bestCodes
  bestErr_le : st.bestErr ≤ e
  codes_lt : ∀ lev, st.codes lev < q.K
  bestCodes_lt : ∀ lev, st.bestCodes lev < q.K

def Inside (q : PrqEncoder α) : Move → Prop
  | .perturb => 0 < q.mSub
  | .sweep lev => lev < q.mSub
  | .settle => True

variable {s : ℕ} {sub : ℕ → α} {e : α} {st : IcmState α}

omit [LinearOrder α] in
lemma update_lt {K : ℕ} {codes : ℕ → ℕ} (h : ∀ lev, codes lev < K) (l : ℕ) {cid : ℕ} (hcid : cid < K)
    (lev : ℕ) : Function.update codes l cid lev < K := by
  rcases eq_or_ne lev l with rfl | hne
  · rwa [Function.update_self]
  · rw [Function.update_of_ne hne]
    exact h lev

lemma Sound.reassign (h : Sound q s sub e st) {lev cid : ℕ} (hlev : lev < q.mSub) (hcid : cid < q.K) :
    Sound q s sub e (q.reassign s lev cid st) where
  reconstruction_eq := by
    funext d
    rw [PrqEncoder.reassign, codeSum_update _ hlev, h.reconstruction_eq]
  bestErr_eq := h.bestErr_eq
  bestErr_le := h.bestErr_le
  codes_lt := update_lt h.codes_lt lev hcid
  bestCodes_lt := h.bestCodes_lt

lemma Sound.settle (h : Sound q s sub e st) : Sound q s sub e (q.settle s sub st) := by
  have herr : (q.normSq fun d => sub d - st.reconstruction d) = q.errorOf s sub st.codes := by
    rw [h.reconstruction_eq, errorOf]
  rw [PrqEncoder.settle]
  split_ifs with hless
  · exact ⟨h.reconstruction_eq, herr, hless.le.trans h.bestErr_le, h.codes_lt, h.codes_lt⟩
  · exact ⟨rebuild_eq s _, h.bestErr_eq, h.bestErr_le, h.bestCodes_lt, h.bestCodes_lt⟩

lemma Sound.move (hK : 0 < q.K) (h : Sound q s sub e st) {m : Move} (hm : Inside q m) :
    Sound q s sub e (q.move s sub st m) := by
  cases m with
  | perturb =>
    have := h.reassign (Nat.mod_lt (st.rng 0) hm) (Nat.mod_lt (st.rng 1) hK)
    exact ⟨this.reconstruction_eq, this.bestErr_eq, this.bestErr_le, this.codes_lt,
      this.bestCodes_lt⟩
  | sweep lev =>
    rw [PrqEncoder.move, PrqEncoder.sweep]
    split_ifs
    · exact h.reassign hm (nearest_lt hK _ _ _)
    · exact h
  | settle => exact h.settle

omit [CommRing α] [LinearOrder α] in
lemma inside_moves (q : PrqEncoder α) : ∀ m ∈ q.moves, Inside q m := by
  intro m hm
  obtain ⟨ils, -, hm⟩ := List.mem_flatMap.1 hm
  rw [turn, List.mem_append, List.mem_append] at hm
  rcases hm with (hm | hm) | hm
  · split_ifs at hm with hperturb
    · rw [List.eq_of_mem_replicate hm]
      exact (Nat.zero_lt_one.trans hperturb.2.2)
    · exact absurd hm List.not_mem_nil
  · obtain ⟨l, hl, hm⟩ := List.mem_flatten.1 hm
    rw [List.eq_of_mem_replicate hl] at hm
    obtain ⟨lev, hlev, rfl⟩ := List.mem_map.1 hm
    exact List.mem_range.1 hlev
  · rw [List.mem_singleton.1 hm]
    trivial

lemma Sound.run (hK : 0 < q.K) (ms : List Move) (hms : ∀ m ∈ ms, Inside q m) :
    ∀ {st : IcmState α}, Sound q s sub e st → Sound q s sub e (ms.foldl (q.move s sub) st) := by
  induction ms with
  | nil => exact fun h => h
  | cons m ms ih =>
    exact fun h => ih (fun m' hm' => hms m' (List.mem_cons_of_mem m hm'))
      (h.move hK (hms m List.mem_cons_self))

lemma sound_icmStart (hK : 0 < q.K) (s : ℕ) (sub : ℕ → α) (rng : ℕ → ℕ) :
    Sound q s sub (q.errorOf s sub (q.greedyLevels s sub q.mSub).codes) (q.icmStart s sub rng) := by
  obtain ⟨hres, hlt⟩ := greedyLevels_spec hK s sub q.mSub
  have herr : q.normSq (q.greedyLevels s sub q.mSub).residual =
      q.errorOf s sub (q.greedyLevels s sub q.mSub).codes := by
    rw [hres, errorOf]
  rw [icmStart, icmInit_eq]
  exact ⟨rfl, herr, herr.le, hlt, hlt⟩

lemma Sound.sweep_le (h : Sound q s sub e st) {lev c : ℕ} (hlev : lev < q.mSub) (hc : c < q.K) :
    q.errorOf s sub (q.sweep s sub lev st).codes ≤
      q.errorOf s sub (Function.update st.codes lev c) := by
  obtain ⟨residual, hresidual⟩ : ∃ residual, residual = fun d =>
    sub d - st.reconstruction d + q.levelCentroid s lev (st.codes lev) d := ⟨_, rfl⟩
  -- the error of the codes with a centroid there is its distance from what the others leave
  have herr : ∀ c, q.errorOf s sub (Function.update st.codes lev c) =
      sqDist q.subDimPrq residual (q.levelCentroid s lev c) := by
    intro c
    rw [sqDist_eq_dot, errorOf, normSq, hresidual, h.reconstruction_eq]
    congr 1 <;>
    · funext d
      rw [codeSum_update _ hlev]
      ring
  have hcodes : (q.sweep s sub lev st).codes =
      Function.update st.codes lev (q.nearest s lev residual) := by
    rw [PrqEncoder.sweep, ← hresidual]
    split_ifs with hne
    · rfl
    · rw [not_not.1 hne, Function.update_eq_self]
  rw [hcodes, herr, herr]
  exact nearest_le s lev residual hc

lemma Sound.sweeps_le (hK : 0 < q.K) (ms : List Move) (hms : ∀ m ∈ ms, ∃ lev < q.mSub, m = .sweep lev) :
    ∀ {st : IcmState α}, Sound q s sub e st →
      q.errorOf s sub (ms.foldl (q.move s sub) st).codes ≤ q.errorOf s sub st.codes := by
  induction ms with
  | nil => exact fun _ => le_rfl
  | cons m ms ih =>
    intro st h
    obtain ⟨lev, hlev, rfl⟩ := hms m List.mem_cons_self
    have hstep := h.sweep_le hlev (h.codes_lt lev)
    rw [Function.update_eq_self] at hstep
    exact (ih (fun m' hm' => hms m' (List.mem_cons_of_mem _ hm')) (h.move hK (m := .sweep lev) hlev)).trans hstep

lemma Sound.settle_le (h : Sound q s sub e st) :
    Sound q s sub (q.errorOf s sub st.codes) (q.settle s sub st) := by
  have herr : (q.normSq fun d => sub d - st.reconstruction d) = q.errorOf s sub st.codes := by
    rw [h.reconstruction_eq, errorOf]
  obtain ⟨hsum, hbest, -, hlt, hbestLt⟩ := h.settle
  refine ⟨hsum, hbest, ?_, hlt, hbestLt⟩
  rw [PrqEncoder.settle, herr]
  split_ifs with hless
  · exact le_rfl
  · exact not_lt.1 hless

lemma bestErr_le_of_settled (hK : 0 < q.K) (h : Sound q s sub e st) {pre post : List Move}
    (hpre : ∀ m ∈ pre, Inside q m) (hpost : ∀ m ∈ post, Inside q m) :
    Sound q s sub (q.errorOf s sub (pre.foldl (q.move s sub) st).codes)
      ((pre ++ .settle :: post).foldl (q.move s sub) st) := by
  rw [List.foldl_append, List.foldl_cons]
  exact (h.run hK pre hpre).settle_le.run hK post hpost

/-! ### What is decoded -/

omit [LinearOrder α] in
lemma decode_writeCodes (hbits : q.bits = 4) {codes : ℕ → ℕ → ℕ} (hs : s < q.nsplits)
    (hlt : ∀ lev, codes s lev < q.K) {d : ℕ} (hd : d < q.subDimPrq) :
    shift (s * q.subDimPrq) (q.decodeCode (q.writeCodes codes)) d = q.codeSum s (codes s) q.mSub d := by
  have hK : q.K = 16 := congrArg (2 ^ ·) hbits
  rw [ProductResidualQuantizer.decodeCode, shift_concat _ s hd, if_pos hs]
  refine Finset.sum_congr rfl fun lev hlev => ?_
  rw [readCode_writeCodes q hbits hs (Finset.mem_range.1 hlev) (hK ▸ hlt lev)]

omit [LinearOrder α] in
lemma sqDist_decode (hbits : q.bits = 4) {codes : ℕ → ℕ → ℕ} (hs : s < q.nsplits)
    (hlt : ∀ lev, codes s lev < q.K) (sub : ℕ → α) :
    sqDist q.subDimPrq sub (shift (s * q.subDimPrq) (q.decodeCode (q.writeCodes codes))) =
      q.errorOf s sub (codes s) := by
  rw [sqDist_congr (fun _ _ => rfl) fun d hd => decode_writeCodes hbits hs hlt hd]
  rfl

/-- In a split: the code that is written has the final best error, which is at most that of the
greedy code, and the reconstruction is the sum of the centroids assigned, both while greedy sets up
the levels and after every move. -/
structure NeverLoses (q : PrqEncoder α) (rng : ℕ → ℕ) (vec : ℕ → α) (s : ℕ) : Prop where
  error_eq : sqDist q.subDimPrq (q.subVec vec s)
      (shift (s * q.subDimPrq) (q.decodeCode (q.encodeIcm rng vec))) =
    (q.icmSplit s (q.subVec vec s) (q.rngBefore vec rng s)).bestErr
  le_greedy : (q.icmSplit s (q.subVec vec s) (q.rngBefore vec rng s)).bestErr ≤
    sqDist q.subDimPrq (q.subVec vec s)
      (shift (s * q.subDimPrq) (q.decodeCode (q.encodeGreedy vec)))
  init_sum : ∀ levels, (q.icmInit s (q.subVec vec s) levels).2 =
    q.codeSum s (q.icmInit s (q.subVec vec s) levels).1.codes levels
  move_sum : ∀ n,
    let st := (q.moves.take n).foldl (q.move s (q.subVec vec s))
      (q.icmStart s (q.subVec vec s) (q.rngBefore vec rng s))
    st.reconstruction = q.codeSum s st.codes q.mSub

/-- **The descent never loses to greedy**, whatever the draws are. -/
theorem encodeIcm_never_loses (sh : PrqShape) (p : EncodeParams) (centroids : ℕ → α)
    (rng : ℕ → ℕ) (vec : ℕ → α) {s : ℕ} (hs : s < sh.nsplits) :
    NeverLoses (trained sh p centroids) rng vec s := by
  obtain ⟨q, hq⟩ : ∃ q, q = trained sh p centroids := ⟨_, rfl⟩
  rw [← hq]
  have hs : s < q.nsplits := hq ▸ hs
  have hbits : q.bits = 4 := hq ▸ sh.four
  have hK : 0 < q.K := Nat.two_pow_pos _
  have hstart := fun s => sound_icmStart hK s (q.subVec vec s) (q.rngBefore vec rng s)
  have hlast : ∀ s, Sound q s (q.subVec vec s) _
      (q.icmSplit s (q.subVec vec s) (q.rngBefore vec rng s)) :=
    fun s => (hstart s).run hK q.moves (inside_moves q)
  refine ⟨?_, ?_, fun levels => ?_, fun n => ?_⟩
  · rw [encodeIcm, sqDist_decode hbits hs (hlast s).bestCodes_lt, (hlast s).bestErr_eq]
  · rw [encodeGreedy, sqDist_decode hbits hs (greedyLevels_spec hK s _ _).2]
    exact (hlast s).bestErr_le
  · rw [icmInit_eq]
  · exact ((hstart s).run hK (q.moves.take n)
      fun m hm => inside_moves q m (List.mem_of_mem_take hm)).reconstruction_eq

lemma planeShape_bits_ok : 4 = 2 ∨ 4 = 4 ∨ 4 = 8 := by decide

/-- Two dimensions, one split and two levels. -/
def planeShape : PrqShape :=
  { metric := .l2Sq, dim := 2, m := 2, bits := 4, m_pos := Nat.two_pos, divides := rfl
    bits_ok := planeShape_bits_ok, nsplits := 1, nsplits_pos := Nat.one_pos, m_divides := rfl
    dim_divides := rfl, four := rfl }

theorem encodeIcm_never_loses_plane : NeverLoses
    (trained planeShape ⟨1, 42, "icm", 4, 4, 4⟩ fun i => (i : ℤ) % 7) (fun i => 3 * i) (fun d => d + 5)
    0 :=
  encodeIcm_never_loses planeShape ⟨1, 42, "icm", 4, 4, 4⟩ _ _ _ (by decide)

end PrqEncoder

end SextantTree.Prq
