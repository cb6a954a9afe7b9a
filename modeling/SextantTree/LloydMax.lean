import SextantTree.CellRefit
import Mathlib.Data.List.GetD
import Mathlib.Data.Nat.Count

/-!
Lloyd-Max levels of one dimension: `lloyd_max_1d` and `quantizer_mse`. The array that repairs an
empty level is sorted within the iteration, while sums and counts stay at the places the levels had.
-/

namespace SextantTree.LloydMax

open MidpointCells

variable {α : Type*} [Field α] [LinearOrder α]

/-- Entry `i` of an array. -/
def entry (xs : List α) (i : ℕ) : α := xs.getD i 0

/-- `std::sort`. -/
def sorted (xs : List α) : List α := xs.insertionSort (· ≤ ·)

structure Tally (α : Type*) where
  sums : List α
  counts : List ℕ

/-- `sums[idx] += x; counts[idx]++`. -/
def Tally.add (t : Tally α) (idx : ℕ) (x : α) : Tally α :=
  ⟨t.sums.modify idx (· + x), t.counts.modify idx (· + 1)⟩

/-- Assign and accumulate, with the bounds of these levels. -/
def accumulate (numLevels : ℕ) (data levels : List α) : Tally α :=
  data.foldl (fun t x => t.add (cell numLevels (entry levels) x) x)
    ⟨List.replicate numLevels 0, List.replicate numLevels 0⟩

/-- The number that is served worst, or `levels[k]` when there is none. -/
def worstVal (numLevels : ℕ) (data levels : List α) (k : ℕ) : α :=
  (data.foldl (fun worst x =>
    let err := |x - entry levels (cell numLevels (entry levels) x)|
    if worst.1 < err then (err, x) else worst) (-1, entry levels k)).2

/-- The first empty level is put at the number served worst, and the levels are sorted again. -/
def reseed (numLevels : ℕ) (data levels : List α) (counts : List ℕ) : List α :=
  match (List.range numLevels).find? fun k => counts.getD k 0 = 0 with
  | none => levels
  | some k => sorted (levels.set k (worstVal numLevels data levels k))

def writeMean (t : Tally α) (acc : List α × Bool) (k : ℕ) : List α × Bool :=
  if 0 < t.counts.getD k 0 then
    let newLevel := t.sums.getD k 0 / t.counts.getD k 0
    (acc.1.set k newLevel, acc.2 && !decide (1 / 10 ^ 8 < |newLevel - entry acc.1 k|))
  else acc

/-- The levels become the means of the assigned data; also whether they have converged. -/
def writeMeans (t : Tally α) (numLevels : ℕ) (levels : List α) : List α × Bool :=
  (List.range numLevels).foldl (writeMean t) (levels, true)

def iteration (numLevels : ℕ) (data levels : List α) : List α × Bool :=
  let t := accumulate numLevels data levels
  writeMeans t numLevels (reseed numLevels data levels t.counts)

def iterate (numLevels : ℕ) (data : List α) : ℕ → List α → List α
  | 0, levels => levels
  | iters + 1, levels =>
    let next := iteration numLevels data levels
    if next.2 then next.1 else iterate numLevels data iters next.1

def lloydMax1d (data : List α) (numLevels iters : ℕ) (init : List α) : List α :=
  sorted (iterate numLevels data iters (sorted init))

def quantizerMse (data levels : List α) : α :=
  (data.map fun x =>
    let err := x - entry levels (cell levels.length (entry levels) x)
    err * err).sum / data.length

/-- The levels that each turn of the loop starts with, and takes its bounds from. -/
def turns (numLevels : ℕ) (data : List α) : ℕ → List α → List (List α)
  | 0, _ => []
  | iters + 1, levels =>
    let next := iteration numLevels data levels
    levels :: if next.2 then [] else turns numLevels data iters next.1

/-! ### Sorted arrays -/

lemma countP_le_set {β : Type*} (p : β → Bool) (xs : List β) (k : ℕ) (x : β) :
    xs.countP p ≤ (xs.set k x).countP p + 1 := by
  rcases Nat.lt_or_ge k xs.length with h | h
  · have hle : (if p xs[k] then 1 else 0) ≤ 1 := by split <;> omega
    rw [List.countP_set h]
    omega
  · rw [List.set_eq_of_length_le h]
    omega

lemma countP_set_le {β : Type*} (p : β → Bool) (xs : List β) (k : ℕ) (x : β) :
    (xs.set k x).countP p ≤ xs.countP p + 1 := by
  rcases Nat.lt_or_ge k xs.length with h | h
  · have hle : (if p x then 1 else 0) ≤ 1 := by split <;> omega
    rw [List.countP_set h]
    omega
  · rw [List.set_eq_of_length_le h]
    omega

section Sorted

variable {xs : List α} {i : ℕ} {v : α}

omit [Field α] in
lemma length_sorted (xs : List α) : (sorted xs).length = xs.length :=
  List.length_insertionSort _ _

omit [LinearOrder α] in
lemma entry_eq_getElem (h : i < xs.length) : entry xs i = xs[i] := List.getD_eq_getElem _ _ h

omit [LinearOrder α] in
lemma entry_of_le (h : xs.length ≤ i) : entry xs i = 0 := List.getD_eq_default _ _ h

lemma nonDecreasing_sorted (xs : List α) : NonDecreasing (entry (sorted xs)) xs.length := by
  intro i hi
  have hi' : i + 1 < (sorted xs).length := by rwa [length_sorted]
  rw [entry_eq_getElem (by omega), entry_eq_getElem hi']
  exact List.pairwise_iff_getElem.1 (List.pairwise_insertionSort (· ≤ ·) xs) i (i + 1) _ hi'
    (Nat.lt_succ_self i)

lemma sorted_of_nonDecreasing (h : NonDecreasing (entry xs) xs.length) : sorted xs = xs := by
  refine List.Pairwise.insertionSort_eq (List.pairwise_iff_getElem.2 fun i j hi hj hij => ?_)
  rw [← entry_eq_getElem hi, ← entry_eq_getElem hj]
  exact h.le hij.le hj

omit [LinearOrder α] in
lemma countP_eq_card (p : α → Prop) [DecidablePred p] (xs : List α) :
    xs.countP p = ((Finset.range xs.length).filter fun j => p (entry xs j)).card := by
  have hcount : ∀ n, ((List.range n).countP fun j => decide (p (entry xs j))) =
      Nat.count (fun j => p (entry xs j)) n := by
    intro n
    induction n with
    | zero => simp
    | succ n ih => rw [List.range_succ, List.countP_append, ih, Nat.count_succ, List.countP_singleton]; simp
  have hmap : xs = (List.range xs.length).map (entry xs) :=
    List.ext_getElem (by simp) fun i h₁ h₂ => by simp [entry_eq_getElem h₁]
  rw [← Nat.count_eq_card_filter_range, ← hcount]
  conv_lhs => rw [hmap]
  rw [List.countP_map]
  rfl

lemma sorted_le (h : i < xs.countP (· ≤ v)) : entry (sorted xs) i ≤ v := by
  have hlen := length_sorted xs
  rw [← (List.perm_insertionSort (· ≤ ·) xs).countP_eq, ← sorted, countP_eq_card] at h
  by_contra hgt
  refine absurd h (not_lt.2 ((Finset.card_le_card (t := Finset.range i) fun j hj => ?_).trans_eq
    (Finset.card_range i)))
  obtain ⟨hj, hle⟩ := Finset.mem_filter.1 hj
  rw [Finset.mem_range, hlen] at hj
  by_contra hij
  rw [Finset.mem_range, not_lt] at hij
  exact hgt (((nonDecreasing_sorted xs).le hij hj).trans hle)

lemma le_sorted (h : xs.countP (· < v) ≤ i) (hi : i < xs.length) : v ≤ entry (sorted xs) i := by
  have hlen := length_sorted xs
  rw [← (List.perm_insertionSort (· ≤ ·) xs).countP_eq, ← sorted, countP_eq_card] at h
  by_contra hlt
  refine absurd h (not_le.2 ((Nat.lt_succ_self i).trans_le ((Finset.card_range (i + 1)).ge.trans
    (Finset.card_le_card fun j hj => ?_))))
  have hji : j < i + 1 := Finset.mem_range.1 hj
  exact Finset.mem_filter.2 ⟨Finset.mem_range.2 (by omega),
    ((nonDecreasing_sorted xs).le (Nat.le_of_lt_succ hji) hi).trans_lt (not_le.1 hlt)⟩

lemma sorted_set_le {k : ℕ} {x : α} (s : Finset ℕ) (hs : i + 2 ≤ s.card)
    (h : ∀ j ∈ s, j < xs.length ∧ entry xs j ≤ v) : entry (sorted (xs.set k x)) i ≤ v := by
  have hcard : s.card ≤ xs.countP (· ≤ v) := by
    rw [countP_eq_card]
    exact Finset.card_le_card fun j hj =>
      Finset.mem_filter.2 ⟨Finset.mem_range.2 (h j hj).1, (h j hj).2⟩
  have := countP_le_set (· ≤ v) xs k x
  exact sorted_le (by omega)

lemma le_sorted_set {k : ℕ} {x : α} (s : Finset ℕ) (hs : s.card + 1 ≤ i) (hi : i < xs.length)
    (h : ∀ j < xs.length, j ∉ s → v ≤ entry xs j) : v ≤ entry (sorted (xs.set k x)) i := by
  have hcard : xs.countP (· < v) ≤ s.card := by
    rw [countP_eq_card]
    refine Finset.card_le_card fun j hj => ?_
    obtain ⟨hj, hlt⟩ := Finset.mem_filter.1 hj
    by_contra hno
    exact absurd (h j (Finset.mem_range.1 hj) hno) (not_le.2 hlt)
  have := countP_set_le (· < v) xs k x
  exact le_sorted (by omega) (by rwa [List.length_set])

lemma stale_sorted_set {levels : List α} (h : Spread levels.length (entry levels)) (k : ℕ) (x : α) :
    Stale levels.length (entry levels) (entry (sorted (levels.set k x))) where
  nonDecreasing := by
    have := nonDecreasing_sorted (levels.set k x)
    rwa [List.length_set] at this
  le_two i hi := by
    refine sorted_set_le (insert (i + 2) (Finset.range (i + 1))) ?_ fun j hj => ?_
    · rw [Finset.card_insert_of_notMem (by simp), Finset.card_range]
    · rcases Finset.mem_insert.1 hj with rfl | hj
      · exact ⟨hi, le_rfl⟩
      · have := Finset.mem_range.1 hj
        exact ⟨by omega, h j (i + 2) (by omega) hi⟩
  le_max i hi := by
    refine sorted_set_le (Finset.range (i + 2)) (Finset.card_range _).ge fun j hj => ?_
    have hji := Finset.mem_range.1 hj
    refine ⟨by omega, ?_⟩
    rcases (show j + 2 ≤ i + 1 ∨ j = i ∨ j = i + 1 by omega) with hj | rfl | rfl
    · exact (h j (i + 1) hj hi).trans (le_max_right _ _)
    · exact le_max_left _ _
    · exact le_max_right _ _
  min_le i hi := by
    refine le_sorted_set (Finset.range i) (by rw [Finset.card_range]) hi fun j hj hji => ?_
    rw [Finset.mem_range, not_lt] at hji
    rcases (show j = i ∨ j = i + 1 ∨ i + 2 ≤ j by omega) with rfl | rfl | hij
    · exact min_le_left _ _
    · exact min_le_right _ _
    · exact (min_le_left _ _).trans (h i j hij hj)
  two_le i hi := by
    refine le_sorted_set (insert (i + 1) (Finset.range i)) ?_ hi fun j hj hji => ?_
    · rw [Finset.card_insert_of_notMem (by simp), Finset.card_range]
    · rw [Finset.mem_insert, Finset.mem_range, not_or, not_lt] at hji
      rcases (show j = i ∨ i + 2 ≤ j by omega) with rfl | hij
      · exact le_rfl
      · exact h i j hij hj

end Sorted

end SextantTree.LloydMax
