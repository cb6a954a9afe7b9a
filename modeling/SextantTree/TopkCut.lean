import Mathlib.Data.List.TakeWhile
import SextantTree.SearchSpec

/-!
`cut_topk_results_` step by step: sort by row and drop replicas, the gap rule, `nth_element`, the
last sort. Row ids are only compared, so they are counted from the lowest one. Distances are exact;
what the float operations round to is a parameter, and the quotient `0 / 0` is no number.
-/

namespace SextantTree

/-! ### The code -/

/-- `nth_element` by distance, then row id descending: the `n` first are before the others. -/
structure NthElement where
  run : ℕ → List Candidate → List Candidate
  perm : ∀ n l, (run n l).Perm l
  split : ∀ n l, ∀ a ∈ (run n l).take n, ∀ b ∈ (run n l).drop n, totalLe a b

def NthElement.full : NthElement where
  run _ l := l.insertionSort totalLe
  perm _ _ := List.perm_insertionSort _ _
  split n l a ha b hb := by
    have hsorted := List.pairwise_insertionSort totalLe l
    rw [← List.take_append_drop n (l.insertionSort totalLe), List.pairwise_append] at hsorted
    exact hsorted.2.2 a ha b hb

def kMinScale : ℚ := 1 / 10 ^ 12

/-- A float quotient; `none` is not a number. -/
def floatDiv (fl : ℚ → ℚ) (a b : ℚ) : Option ℚ := if b = 0 then none else some (fl (a / b))

/-- `static_cast<float>(k - 1)`. -/
def gapDivisor (k : ℕ) : ℚ := Rounding.roundBits 24 (k - 1)

/-- A gap is wide; nothing is greater than what is not a number. -/
def wideGap (fl : ℚ → ℚ) (gap : ℚ) (g : Option ℚ) (diff : ℚ) : Bool :=
  match g with
  | none => false
  | some g => decide (fl (gap * max g kMinScale) < diff)

/-- The adaptive cut is asked for and there are more than `k` rows. -/
def Adaptive (cfg : SearchConfig) (k : ℕ) (rows : List Candidate) : Prop :=
  0 < cfg.adaptiveWGap ∧ cfg.rerank = true ∧ k < rows.length

instance (cfg : SearchConfig) (k : ℕ) (rows : List Candidate) : Decidable (Adaptive cfg k rows) :=
  inferInstanceAs (Decidable (_ ∧ _))

/-- Where the first wide gap past `k` is. -/
def gapKeep (fl : ℚ → ℚ) (cfg : SearchConfig) (k : ℕ) (sorted : List Candidate) : ℕ :=
  match sorted[0]?, sorted[k - 1]? with
  | some first, some last =>
    let g := floatDiv fl (fl (last.dist - first.dist)) (gapDivisor k)
    k + ((sorted.drop k).takeWhile fun c =>
      !wideGap fl cfg.adaptiveWGap g (fl (c.dist - last.dist))).length
  | _, _ => sorted.length

/-- `cut_topk_results_`. -/
def cutTopkResults (lib : NthElement) (fl : ℚ → ℚ) (cfg : SearchConfig) (k : ℕ)
    (results : List Candidate) : List Candidate :=
  let rows := uniqueRows results
  let adaptive := decide (Adaptive cfg k rows)
  let rows := if adaptive then rows.insertionSort totalLe else rows
  let keep := if adaptive then gapKeep fl cfg k rows else k
  let rows := if keep < rows.length then (lib.run keep rows).take keep else rows
  rows.insertionSort totalLe

def cutDivisors (cfg : SearchConfig) (k : ℕ) (results : List Candidate) : List ℚ :=
  if Adaptive cfg k (uniqueRows results) then [gapDivisor k] else []

/-! ### What the cut is for -/

/-- The nearest replica of every row, by distance and then row id descending. -/
def rankedRows (results : List Candidate) : List Candidate :=
  (nearestReplicas results.toFinset).sort totalLe

def rowCount (results : List Candidate) : ℕ := (results.map Candidate.rowId).toFinset.card

structure CanonicalCut (lib : NthElement) (fl : ℚ → ℚ) (cfg : SearchConfig) (k : ℕ)
    (results : List Candidate) : Prop where
  /-- Neither the order of the results nor the library shows. -/
  order : ∀ lib' results', results'.Perm results →
    cutTopkResults lib' fl cfg k results' = cutTopkResults lib fl cfg k results
  nodup : ((cutTopkResults lib fl cfg k results).map Candidate.rowId).Nodup
  nearest : ∀ c ∈ cutTopkResults lib fl cfg k results, c ∈ results ∧
    ∀ d ∈ results, d.rowId = c.rowId → c.dist ≤ d.dist
  front : cutTopkResults lib fl cfg k results <+: rankedRows results
  enough : min k (rowCount results) ≤ (cutTopkResults lib fl cfg k results).length
  plain : ¬ (0 < cfg.adaptiveWGap ∧ cfg.rerank = true) →
    (cutTopkResults lib fl cfg k results).length = min k (rowCount results)
  /-- No division by zero. -/
  divisors : ∀ d ∈ cutDivisors cfg k results, d ≠ 0

/-! ### The cut is a front of the ranked rows -/

lemma sort_take_nth (lib : NthElement) {n : ℕ} {l : List Candidate} (hn : n ≤ l.length) :
    ((lib.run n l).take n).insertionSort totalLe = (l.insertionSort totalLe).take n := by
  set front := (lib.run n l).take n with hfront
  set rest := (lib.run n l).drop n with hrest
  have hsorted : (front.insertionSort totalLe ++ rest.insertionSort totalLe).Pairwise totalLe := by
    refine List.pairwise_append.mpr ⟨List.pairwise_insertionSort _ _, List.pairwise_insertionSort _ _,
      fun a ha b hb => ?_⟩
    exact lib.split n l a ((List.mem_insertionSort _).mp ha) b ((List.mem_insertionSort _).mp hb)
  have hperm : (l.insertionSort totalLe).Perm
      (front.insertionSort totalLe ++ rest.insertionSort totalLe) := by
    refine (List.perm_insertionSort _ _).trans ((lib.perm n l).symm.trans ?_)
    have hsplit : lib.run n l = front ++ rest := (List.take_append_drop n _).symm
    rw [hsplit]
    exact ((List.perm_insertionSort _ _).append (List.perm_insertionSort _ _)).symm
  have heq := List.Perm.eq_of_pairwise' (r := totalLe) (List.pairwise_insertionSort totalLe _) hsorted hperm
  have hlen : (front.insertionSort totalLe).length = n := by
    rw [List.length_insertionSort, hfront, List.length_take, (lib.perm n l).length_eq]
    omega
  rw [heq]
  conv_rhs => rw [← hlen]
  rw [List.take_left]

def keepOf (fl : ℚ → ℚ) (cfg : SearchConfig) (k : ℕ) (ranked : List Candidate) : ℕ :=
  if Adaptive cfg k ranked then gapKeep fl cfg k ranked else k

lemma length_uniqueRows (results : List Candidate) :
    (uniqueRows results).length = (rankedRows results).length := by
  rw [rankedRows, ← sort_uniqueRows, List.length_insertionSort]

lemma adaptive_congr {cfg : SearchConfig} {k : ℕ} {rows rows' : List Candidate}
    (h : rows.length = rows'.length) : Adaptive cfg k rows ↔ Adaptive cfg k rows' := by
  rw [Adaptive, Adaptive, h]

/-- **The cut** keeps a front of the ranked rows, as long as the gap rule says. -/
lemma cutTopkResults_eq (lib : NthElement) (fl : ℚ → ℚ) (cfg : SearchConfig) (k : ℕ)
    (results : List Candidate) :
    cutTopkResults lib fl cfg k results =
      (rankedRows results).take (keepOf fl cfg k (rankedRows results)) := by
  have hranked : (uniqueRows results).insertionSort totalLe = rankedRows results :=
    sort_uniqueRows results
  have hcut : ∀ (rows : List Candidate) (keep : ℕ), rows.insertionSort totalLe = rankedRows results →
      (if keep < rows.length then (lib.run keep rows).take keep else rows).insertionSort totalLe =
        (rankedRows results).take keep := by
    intro rows keep hrows
    split
    · rename_i hlt
      rw [sort_take_nth lib hlt.le, hrows]
    · rename_i hge
      rw [hrows, List.take_of_length_le]
      rw [← hrows, List.length_insertionSort]
      omega
  unfold cutTopkResults keepOf
  by_cases had : Adaptive cfg k (uniqueRows results)
  · have had' := (adaptive_congr (length_uniqueRows results)).mp had
    simp only [had, decide_true, if_true, had']
    rw [hranked]
    refine hcut _ _ ?_
    rw [← hranked]
    exact List.Perm.eq_of_pairwise' (r := totalLe) (List.pairwise_insertionSort _ _)
      (List.pairwise_insertionSort _ _) (List.perm_insertionSort _ _)
  · have had' : ¬ Adaptive cfg k (rankedRows results) := fun h =>
      had ((adaptive_congr (length_uniqueRows results)).mpr h)
    simp only [had, decide_false, Bool.false_eq_true, if_false]
    rw [if_neg had']
    exact hcut _ k hranked

lemma keepCount_eq {cfg : SearchConfig} {k : ℕ} (hk : 0 < k) (hdiv : gapDivisor k = k - 1)
    (rows : List Candidate) : keepCount cfg k rows = .ok (keepOf id cfg k rows) := by
  by_cases had : Adaptive cfg k rows
  · rw [keepOf, if_pos had, keepCount, if_pos (show _ ∧ _ from had), if_neg hk.ne']
    have hlt : k < rows.length := had.2.2
    have hfirst : rows[0]? = some rows[0] := List.getElem?_eq_getElem (by omega)
    have hlast : rows[k - 1]? = some rows[k - 1] := List.getElem?_eq_getElem (by omega)
    simp only [elemAt, gapKeep, hfirst, hlast, hdiv, id]
    by_cases hone : k = 1
    · subst hone
      have hnone : floatDiv id (rows[0].dist - rows[0].dist) ((1 : ℕ) - 1) = none := by
        rw [floatDiv, if_pos (by norm_num)]
      simp only [if_pos, hnone, wideGap, Bool.not_false]
      rw [List.takeWhile_eq_self_iff.mpr fun _ _ => rfl, List.length_drop]
      congr 1
      omega
    · have hne : (k : ℚ) - 1 ≠ 0 := by
        rw [sub_ne_zero]
        exact_mod_cast hone
      rw [if_neg hone, floatDiv, if_neg hne]
      rfl
  · rw [keepOf, if_neg had, keepCount, if_neg (show ¬ (_ ∧ _) from had)]

/-- With exact arithmetic it is the cut of the search, for a rank that is a float. -/
lemma cutTopk_eq_cutTopkResults (lib : NthElement) (cfg : SearchConfig) {k : ℕ} (hk : 0 < k)
    (hdiv : gapDivisor k = k - 1) (results : List Candidate) :
    cutTopk cfg k results = .ok (cutTopkResults lib id cfg k results) := by
  rw [cutTopk_eq, topk, cutTopkResults_eq]
  rw [show (nearestReplicas results.toFinset).sort totalLe = rankedRows results from rfl,
    keepCount_eq hk hdiv]
  rfl
lemma mem_rankedRows {results : List Candidate} {c : Candidate} :
    c ∈ rankedRows results ↔ c ∈ results ∧ ∀ d ∈ results, d.rowId = c.rowId → c.dist ≤ d.dist := by
  rw [rankedRows, Finset.mem_sort, nearestReplicas, Finset.mem_filter]
  simp only [List.mem_toFinset]

lemma nodup_rankedRows (results : List Candidate) :
    ((rankedRows results).map Candidate.rowId).Nodup := by
  refine (List.nodup_map_iff_inj_on (Finset.sort_nodup _ _)).mpr fun a ha b hb h => ?_
  exact eq_of_mem_nearestReplicas ((Finset.mem_sort _).mp ha) ((Finset.mem_sort _).mp hb) h

lemma exists_nearest_mem {results : List Candidate} {c : Candidate} (hc : c ∈ results) :
    ∃ d ∈ rankedRows results, d.rowId = c.rowId := by
  obtain ⟨d, hd, hmin⟩ := Finset.exists_min_image
    (results.toFinset.filter (·.rowId = c.rowId)) Candidate.dist ⟨c, by simp [hc]⟩
  rw [Finset.mem_filter, List.mem_toFinset] at hd
  refine ⟨d, mem_rankedRows.mpr ⟨hd.1, fun e he heq => hmin e ?_⟩, hd.2⟩
  rw [Finset.mem_filter, List.mem_toFinset]
  exact ⟨he, heq.trans hd.2⟩

lemma length_rankedRows (results : List Candidate) :
    (rankedRows results).length = rowCount results := by
  have hset : ((rankedRows results).map Candidate.rowId).toFinset =
      (results.map Candidate.rowId).toFinset := by
    ext r
    simp only [List.mem_toFinset, List.mem_map]
    constructor
    · rintro ⟨c, hc, rfl⟩
      exact ⟨c, (mem_rankedRows.mp hc).1, rfl⟩
    · rintro ⟨c, hc, rfl⟩
      exact exists_nearest_mem hc
  rw [rowCount, ← hset, List.toFinset_card_of_nodup (nodup_rankedRows results), List.length_map]

lemma le_gapKeep {fl : ℚ → ℚ} {cfg : SearchConfig} {k : ℕ} {sorted : List Candidate}
    (h : k < sorted.length) : k ≤ gapKeep fl cfg k sorted := by
  unfold gapKeep
  split
  · exact Nat.le_add_right _ _
  · exact h.le

lemma gapDivisor_eq_zero {k : ℕ} (hk : 1 ≤ k) : gapDivisor k = 0 ↔ k = 1 := by
  constructor
  · intro h
    by_contra hne
    have hle : Rounding.roundBits 24 1 ≤ Rounding.roundBits 24 (k - 1) :=
      Rounding.roundBits_mono (by norm_num) (by omega)
    have hone : Rounding.roundBits 24 1 = 1 := by decide
    rw [gapDivisor, Nat.cast_eq_zero] at h
    omega
  · rintro rfl
    have : Rounding.roundBits 24 (1 - 1) = 0 := by decide
    rw [gapDivisor, this, Nat.cast_zero]

/-- **The cut is canonical** exactly when it does not divide by zero: unless the adaptive cut is
on, one row is asked for and there are more. -/
theorem cut_canonical_iff (lib : NthElement) (fl : ℚ → ℚ) (cfg : SearchConfig) (k : ℕ)
    (results : List Candidate) (hk : 1 ≤ k) :
    CanonicalCut lib fl cfg k results ↔
      ¬ (0 < cfg.adaptiveWGap ∧ cfg.rerank = true ∧ k = 1 ∧ 1 < rowCount results) := by
  have hrows : (uniqueRows results).length = rowCount results := by
    rw [length_uniqueRows, length_rankedRows]
  constructor
  · rintro h ⟨hgap, hrerank, rfl, hmany⟩
    have had : Adaptive cfg 1 (uniqueRows results) := ⟨hgap, hrerank, by rwa [hrows]⟩
    refine h.divisors (gapDivisor 1) ?_ ((gapDivisor_eq_zero le_rfl).mpr rfl)
    rw [cutDivisors, if_pos had]
    exact List.mem_singleton_self _
  · intro h
    refine ⟨fun lib' results' hperm => ?_, ?_, fun c hc => ?_, ?_, ?_, fun hoff => ?_, fun d hd => ?_⟩
    · have hranked : rankedRows results' = rankedRows results := by
        rw [rankedRows, rankedRows, List.toFinset_eq_of_perm _ _ hperm]
      rw [cutTopkResults_eq, cutTopkResults_eq, hranked]
    · rw [cutTopkResults_eq]
      exact (nodup_rankedRows results).sublist ((List.take_sublist _ _).map _)
    · rw [cutTopkResults_eq] at hc
      exact mem_rankedRows.mp (List.mem_of_mem_take hc)
    · rw [cutTopkResults_eq]
      exact List.take_prefix _ _
    · rw [cutTopkResults_eq, List.length_take, length_rankedRows]
      refine min_le_min ?_ le_rfl
      unfold keepOf
      split
      · rename_i had
        exact le_gapKeep had.2.2
      · exact le_rfl
    · have had : ¬ Adaptive cfg k (rankedRows results) := fun had => hoff ⟨had.1, had.2.1⟩
      rw [cutTopkResults_eq, keepOf, if_neg had, List.length_take, length_rankedRows]
    · unfold cutDivisors at hd
      split at hd
      · rename_i had
        obtain rfl := List.mem_singleton.mp hd
        intro hzero
        obtain rfl := (gapDivisor_eq_zero hk).mp hzero
        exact h ⟨had.1, had.2.1, rfl, by rw [← hrows]; exact had.2.2⟩
      · cases hd

/-- Two rows, one of them twice, and a cut to two. -/
theorem cut_canonical_twoRows : CanonicalCut .full id { adaptiveWGap := 1, rerank := true } 2
    [⟨0, 1⟩, ⟨1, 2⟩, ⟨0, 3⟩] :=
  (cut_canonical_iff .full id _ 2 _ (by decide)).mpr fun h => absurd h.2.2.1 (by decide)

/-- With one row asked for the adaptive cut divides by zero. -/
theorem cut_divides_by_zero : ¬ CanonicalCut .full id { adaptiveWGap := 1, rerank := true } 1
    [⟨0, 1⟩, ⟨1, 2⟩] := by
  intro h
  refine h.divisors 0 ?_ rfl
  have hrows : uniqueRows [⟨0, 1⟩, ⟨1, 2⟩] = [⟨0, 1⟩, ⟨1, 2⟩] := by decide
  have had : Adaptive { adaptiveWGap := 1, rerank := true } 1 [⟨0, 1⟩, ⟨1, 2⟩] :=
    ⟨by norm_num, rfl, by decide⟩
  have hdiv : gapDivisor 1 = 0 := (gapDivisor_eq_zero le_rfl).mpr rfl
  rw [cutDivisors, hrows, if_pos had, hdiv]
  exact List.mem_singleton_self _

end SextantTree
