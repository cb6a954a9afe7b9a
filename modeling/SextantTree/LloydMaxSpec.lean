import SextantTree.LloydMax

/-!
Lloyd-Max levels never get worse: through every turn the bounds are in order, and the error of the
sorted levels stays below what the sorted initial levels have.
-/

namespace SextantTree.LloydMax

open MidpointCells

variable {α : Type*} [Field α] [LinearOrder α] {numLevels : ℕ} {data levels : List α}

/-! ### One turn -/

lemma getD_modify {β : Type*} (xs : List β) (f : β → β) (idx i : ℕ) (d : β) (h : idx < xs.length) :
    (xs.modify idx f).getD i d = if idx = i then f (xs.getD i d) else xs.getD i d := by
  rw [List.getD_eq_getElem?_getD, List.getD_eq_getElem?_getD, List.getElem?_modify]
  by_cases hi : idx = i
  · subst hi
    simp [h]
  · simp [hi]

lemma getD_replicate_zero {β : Type*} [Zero β] (n i : ℕ) :
    (List.replicate n (0 : β)).getD i 0 = 0 := by
  rw [List.getD_eq_getElem?_getD, List.getElem?_replicate]
  split <;> rfl

lemma foldl_add (hK : 0 < numLevels) (data levels : List α) (t : Tally α) (hs : t.sums.length = numLevels)
    (hc : t.counts.length = numLevels) (i : ℕ) :
    let t' := data.foldl (fun t x => t.add (cell numLevels (entry levels) x) x) t
    t'.sums.getD i 0 = t.sums.getD i 0 + (members numLevels (entry levels) data i).sum ∧
      t'.counts.getD i 0 = t.counts.getD i 0 + (members numLevels (entry levels) data i).length := by
  induction data generalizing t with
  | nil => simp [members]
  | cons x xs ih =>
    have hcell := cell_lt hK (entry levels) x
    obtain ⟨hsum, hcount⟩ := ih (t.add (cell numLevels (entry levels) x) x)
      (by simpa [Tally.add] using hs) (by simpa [Tally.add] using hc)
    simp only [List.foldl_cons]
    rw [hsum, hcount]
    simp only [Tally.add, members, List.filter_cons]
    rw [getD_modify _ _ _ _ _ (by omega), getD_modify _ _ _ _ _ (by omega)]
    by_cases hi : cell numLevels (entry levels) x = i
    · simp only [hi, if_true, decide_true, List.sum_cons, List.length_cons]
      exact ⟨by ring, by ring⟩
    · simp [hi]

lemma accumulate_spec (hK : 0 < numLevels) (data levels : List α) (i : ℕ) :
    (accumulate numLevels data levels).sums.getD i 0 =
        (members numLevels (entry levels) data i).sum ∧
      (accumulate numLevels data levels).counts.getD i 0 =
        (members numLevels (entry levels) data i).length := by
  obtain ⟨hs, hc⟩ := foldl_add hK data levels
    ⟨List.replicate numLevels 0, List.replicate numLevels 0⟩ (List.length_replicate ..)
    (List.length_replicate ..) i
  rw [getD_replicate_zero, zero_add] at hs hc
  exact ⟨hs, hc⟩

lemma writeMeans_spec (t : Tally α) (levels : List α) (n : ℕ) (hn : n ≤ levels.length) :
    ((List.range n).foldl (writeMean t) (levels, true)).1.length = levels.length ∧
      ∀ i, entry ((List.range n).foldl (writeMean t) (levels, true)).1 i =
        if i < n ∧ 0 < t.counts.getD i 0 then t.sums.getD i 0 / t.counts.getD i 0
        else entry levels i := by
  induction n with
  | zero => simp
  | succ n ih =>
    obtain ⟨hlen, hentry⟩ := ih (by omega)
    rw [List.range_succ, List.foldl_append, List.foldl_cons, List.foldl_nil, writeMean]
    split_ifs with hpos
    · refine ⟨by rw [List.length_set, hlen], fun i => ?_⟩
      rw [entry, List.getD_eq_getElem?_getD, List.getElem?_set]
      by_cases hi : n = i
      · subst hi
        rw [if_pos rfl, if_pos (by omega), if_pos ⟨Nat.lt_succ_self n, hpos⟩, Option.getD_some]
      · rw [if_neg hi, ← List.getD_eq_getElem?_getD, ← entry, hentry]
        exact if_congr (by omega) rfl rfl
    · refine ⟨hlen, fun i => ?_⟩
      rw [hentry]
      refine if_congr (and_congr_left fun h => ?_) rfl rfl
      have : i ≠ n := fun e => hpos (e ▸ h)
      omega

lemma full_iff (hK : 0 < numLevels) (data levels : List α) (i : ℕ) :
    0 < (accumulate numLevels data levels).counts.getD i 0 ↔
      Full numLevels (entry levels) data i := by
  rw [(accumulate_spec hK data levels i).2, Full]

lemma lt_of_full (hK : 0 < numLevels) {i : ℕ} (h : Full numLevels (entry levels) data i) :
    i < numLevels := by
  obtain ⟨x, hx⟩ := List.exists_mem_of_length_pos h
  rw [← (mem_members.1 hx).2]
  exact cell_lt hK _ x

lemma entry_writeMeans (hK : 0 < numLevels) {stale : List α} (hlen : stale.length = numLevels) :
    entry (writeMeans (accumulate numLevels data levels) numLevels stale).1 =
      refit numLevels (entry levels) (entry stale) data := by
  ext i
  obtain ⟨hsum, hcount⟩ := accumulate_spec hK data levels i
  rw [writeMeans, (writeMeans_spec _ stale numLevels hlen.ge).2 i, refit]
  refine if_congr ((and_congr_right' (full_iff hK data levels i)).trans
    (and_iff_right_of_imp fun h => lt_of_full hK h)) ?_ rfl
  rw [hsum, hcount]
  rfl

lemma refit_congr {lv st st' : ℕ → α} (h : ∀ i, ¬ Full numLevels lv data i → st i = st' i) :
    refit numLevels lv st data = refit numLevels lv st' data := by
  ext i
  by_cases hi : Full numLevels lv data i
  · rw [refit_full hi, refit_full hi]
  · rw [refit_empty hi, refit_empty hi, h i hi]

lemma iteration_spec (data : List α) (hK : 0 < numLevels) (hlen : levels.length = numLevels)
    (hs : Spread numLevels (entry levels)) :
    (iteration numLevels data levels).1.length = numLevels ∧
      ∃ st, Stale numLevels (entry levels) st ∧
        entry (iteration numLevels data levels).1 = refit numLevels (entry levels) st data := by
  have hstale : ∀ k x, Stale numLevels (entry levels) (entry (sorted (levels.set k x))) :=
    fun k x => hlen ▸ stale_sorted_set (hlen ▸ hs) k x
  rw [iteration, reseed]
  cases hfind : (List.range numLevels).find?
      fun k => (accumulate numLevels data levels).counts.getD k 0 = 0 with
  | some k =>
    have hlen' := (length_sorted (levels.set k (worstVal numLevels data levels k))).trans
      ((List.length_set ..).trans hlen)
    exact ⟨((writeMeans_spec _ _ numLevels hlen'.ge).1).trans hlen', _, hstale k _,
      entry_writeMeans hK hlen'⟩
  | none =>
    -- no level is empty, so any repair does
    refine ⟨((writeMeans_spec _ _ numLevels hlen.ge).1).trans hlen, _, hstale 0 0,
      (entry_writeMeans hK hlen).trans (refit_congr fun i hi => ?_)⟩
    rcases Nat.lt_or_ge i numLevels with hik | hik
    · rw [List.find?_eq_none] at hfind
      have hzero := hfind i (List.mem_range.2 hik)
      rw [decide_eq_true_iff] at hzero
      exact absurd ((full_iff hK data levels i).1 (Nat.pos_of_ne_zero hzero)) hi
    · rw [entry_of_le (by omega), entry_of_le (by rw [length_sorted, List.length_set]; omega)]

/-! ### The loop -/

/-- The error of levels, times the number of points. -/
def error (data levels : List α) : α :=
  distortion data fun x => entry levels (cell levels.length (entry levels) x)

lemma quantizerMse_eq (data levels : List α) :
    quantizerMse data levels = error data levels / data.length := rfl

variable [IsStrictOrderedRing α]

/-- What every turn starts with: levels almost in order, no worse than the bound. -/
structure NoWorse (numLevels : ℕ) (data : List α) (B : α) (levels : List α) : Prop where
  length_eq : levels.length = numLevels
  spread : Spread numLevels (entry levels)
  paired : Paired numLevels (entry levels) data
  scatter_le : scatter numLevels (entry levels) data ≤ B
  error_le : error data (sorted levels) ≤ B

lemma error_sorted_le (hK : 0 < levels.length) (c : α → α) (h : ∀ x ∈ data, c x ∈ levels) :
    error data (sorted levels) ≤ distortion data c := by
  have hlen := length_sorted levels
  refine distortion_le fun x hx => ?_
  have hmem : c x ∈ sorted levels := (List.mem_insertionSort _).2 (h x hx)
  obtain ⟨k, hk, hget⟩ := List.mem_iff_getElem.1 hmem
  have hnear := nearest (nonDecreasing_sorted levels) hK x (k := k) (by omega)
  rwa [entry_eq_getElem hk, hget, ← hlen] at hnear

lemma NoWorse.init (hK : 0 < numLevels) (data : List α) (hlen : levels.length = numLevels) :
    NoWorse numLevels data (error data (sorted levels)) (sorted levels) := by
  have hsort := nonDecreasing_sorted levels
  have hlen' := length_sorted levels
  rw [hlen] at hsort hlen'
  have hs : Spread numLevels (entry (sorted levels)) := fun i j hij hj => hsort.le (by omega) hj
  refine ⟨hlen', hs, fun i hi hlt => absurd (hsort i hi) (not_le.2 hlt), ?_, ?_⟩
  · rw [error, hlen']
    exact MidpointCells.scatter_le hK _
  · rw [sorted_of_nonDecreasing (by rwa [hlen'])]

lemma NoWorse.iteration {B : α} (hK : 0 < numLevels) (h : NoWorse numLevels data B levels) :
    NoWorse numLevels data B (iteration numLevels data levels).1 := by
  obtain ⟨hlen, st, hst, heq⟩ := iteration_spec data hK h.length_eq h.spread
  have hs' := spread_refit h.spread hst h.paired
  have hp' := paired_refit h.spread hst h.paired
  have hdown := scatter_refit h.spread hst h.paired hK
  rw [← heq] at hs' hp' hdown
  refine ⟨hlen, hs', hp', hdown.trans h.scatter_le, le_trans ?_ h.scatter_le⟩
  refine error_sorted_le (by omega) _ fun x hx => ?_
  have hlt := cell_lt hK (entry levels) x
  rw [← refit_full (full_cell hx), ← heq, entry_eq_getElem (by omega)]
  exact List.getElem_mem _

lemma NoWorse.iterate {B : α} (hK : 0 < numLevels) (iters : ℕ) :
    ∀ {levels : List α}, NoWorse numLevels data B levels →
      NoWorse numLevels data B (iterate numLevels data iters levels) ∧
        ∀ start ∈ turns numLevels data iters levels, NoWorse numLevels data B start := by
  induction iters with
  | zero => exact fun h => ⟨h, fun start hstart => absurd hstart List.not_mem_nil⟩
  | succ iters ih =>
    intro levels h
    have hnext := h.iteration hK
    obtain ⟨hend, hturns⟩ := ih hnext
    rw [LloydMax.iterate, turns]
    split_ifs
    · exact ⟨hnext, fun start hstart => List.mem_singleton.1 hstart ▸ h⟩
    · refine ⟨hend, fun start hstart => ?_⟩
      rcases List.mem_cons.1 hstart with rfl | hstart
      · exact h
      · exact hturns start hstart

/-- **Training makes no levels worse** than the sorted ones it starts from, and in every turn the
bounds do not decrease. -/
theorem lloydMax1d_no_worse (data init : List α) (iters : ℕ) (hpos : 0 < numLevels)
    (hlen : init.length = numLevels) :
    quantizerMse data (lloydMax1d data numLevels iters init) ≤ quantizerMse data (sorted init) ∧
      ∀ levels ∈ turns numLevels data iters (sorted init),
        NonDecreasing (bound (entry levels)) (numLevels - 1) := by
  obtain ⟨hend, hturns⟩ := (NoWorse.init hpos data hlen).iterate hpos iters
  refine ⟨?_, fun levels hlevels => (hturns levels hlevels).spread.bound⟩
  rw [quantizerMse_eq, quantizerMse_eq]
  exact div_le_div_of_nonneg_right hend.error_le (Nat.cast_nonneg _)

/-- Four levels of which two start empty. -/
theorem lloydMax1d_no_worse_four :
    quantizerMse ([0, 1, 2, 9] : List ℚ) (lloydMax1d [0, 1, 2, 9] 4 3 [0, 20, 3, 30]) ≤
        quantizerMse [0, 1, 2, 9] (sorted [0, 20, 3, 30]) ∧
      ∀ levels ∈ turns 4 ([0, 1, 2, 9] : List ℚ) 3 (sorted [0, 20, 3, 30]),
        NonDecreasing (bound (entry levels)) (4 - 1) :=
  lloydMax1d_no_worse _ _ _ (by decide) rfl

end SextantTree.LloydMax
