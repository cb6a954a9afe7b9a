import Mathlib.Data.List.Sort
import Mathlib.Tactic

/-!
`draw_random_sample` up to the reading of the file: a partial Fisher-Yates shuffle of the row
numbers that keeps the changed entries only, and the checks behind it. The generator is a stream of
draws.
-/

namespace SextantTree.SampleDraw

/-! ### The sparse shuffle -/

/-- `swap_map`: an entry that is missing is its own index. -/
abbrev SwapMap : Type := Std.HashMap UInt64 UInt64

def valAt (m : SwapMap) (i : UInt64) : UInt64 := m.getD i i

def setAt (m : SwapMap) (i v : UInt64) : SwapMap := m.insert i v

structure Draw where
  swapMap : SwapMap := ∅
  indices : List UInt64 := []

variable (n : UInt64) (rng : ℕ → UInt64)

/-- `j`: one of the indices from `i` on. -/
def pick (i : UInt64) : UInt64 := i + rng i.toNat % (n - i)

def drawStep (st : Draw) (i : UInt64) : Draw :=
  let j := pick n rng i
  let vi := valAt st.swapMap i
  let vj := valAt st.swapMap j
  let m := setAt st.swapMap i vj
  { swapMap := if j ≠ i then setAt m j vi else m, indices := st.indices ++ [vj] }

/-- The first `k` turns. -/
def draws (k : ℕ) : Draw :=
  (List.range k).foldl (fun st i => drawStep n rng st (UInt64.ofNat i)) {}

/-- The check of the indices from position `i` on, behind the index `prev`. -/
def checkIndices : (i : ℕ) → (prev : Option UInt64) → List UInt64 → Except String Unit
  | _, _, [] => .ok ()
  | i, prev, v :: vs =>
    if v ≥ n then
      .error ("draw_random_sample: index " ++ toString v ++ " >= n=" ++ toString n)
    else if prev.any (v ≤ ·) then
      .error ("draw_random_sample: indices not strictly increasing at position " ++ toString i)
    else checkIndices (i + 1) (some v) vs

/-- `draw_random_sample`: the rows to read, in their order in the file. -/
def drawRandomSample (k : UInt64) : Except String (List UInt64) :=
  if k = 0 then .ok []
  else if k > n then
    .error ("draw_random_sample: k (" ++ toString k ++ ") > n (" ++ toString n ++ ")")
  else
    let indices := (draws n rng k.toNat).indices.mergeSort
    if indices.length ≠ k.toNat then
      .error ("draw_random_sample: produced " ++ toString indices.length ++ " indices, expected "
        ++ toString k)
    else (checkIndices n 0 none indices).map fun _ => indices

/-! ### The shuffle of an array -/

def shuffleStep (a : Array UInt64) (i : UInt64) : Array UInt64 :=
  a.swapIfInBounds i.toNat (pick n rng i).toNat

def allRows : Array UInt64 := ((List.range n.toNat).map UInt64.ofNat).toArray

def shuffled (k : ℕ) : Array UInt64 :=
  (List.range k).foldl (fun a i => shuffleStep n rng a (UInt64.ofNat i)) (allRows n)

/-! ### One turn -/

section Step

variable {n}

lemma valAt_setAt (m : SwapMap) (i v x : UInt64) :
    valAt (setAt m i v) x = if x = i then v else valAt m x := by
  rw [valAt, setAt, Std.HashMap.getD_insert, valAt]
  by_cases h : i = x
  · rw [if_pos (beq_iff_eq.mpr h), if_pos h.symm]
  · rw [if_neg fun hbeq => h (beq_iff_eq.mp hbeq), if_neg (Ne.symm h)]

lemma pick_spec {i : UInt64} (hi : i < n) : i ≤ pick n rng i ∧ pick n rng i < n := by
  have hi' : i.toNat < n.toNat := UInt64.lt_iff_toNat_lt.mp hi
  have hspan : (n - i).toNat = n.toNat - i.toNat :=
    UInt64.toNat_sub_of_le _ _ (UInt64.le_iff_toNat_le.mpr hi'.le)
  have hmod : rng i.toNat % (n - i) < n - i := by
    rw [UInt64.lt_iff_toNat_lt, UInt64.toNat_mod]
    exact Nat.mod_lt _ (by omega)
  have hmod' := UInt64.lt_iff_toNat_lt.mp hmod
  have hadd : (pick n rng i).toNat = i.toNat + (rng i.toNat % (n - i)).toNat := by
    have := UInt64.toNat_lt n
    rw [pick, UInt64.toNat_add]
    exact Nat.mod_eq_of_lt (by omega)
  rw [UInt64.le_iff_toNat_le, UInt64.lt_iff_toNat_lt, hadd]
  omega

/-- The map and the indices drawn say what the array says after `i` turns. -/
structure Follows (n : UInt64) (i : ℕ) (a : Array UInt64) (st : Draw) : Prop where
  perm : a.Perm (allRows n)
  values : ∀ x < n, valAt st.swapMap x = a.getD x.toNat 0
  drawn : st.indices = a.toList.take i

lemma size_allRows (n : UInt64) : (allRows n).size = n.toNat := by
  simp [allRows]

lemma Follows.size {i : ℕ} {a : Array UInt64} {st : Draw} (h : Follows n i a st) :
    a.size = n.toNat := h.perm.size_eq.trans (size_allRows n)

lemma follows_start : Follows n 0 (allRows n) {} := by
  refine ⟨.refl _, fun x hx => ?_, by simp⟩
  have hx' : x.toNat < (allRows n).size := by
    rw [size_allRows]
    exact UInt64.lt_iff_toNat_lt.mp hx
  rw [valAt, Std.HashMap.getD_empty, Array.getD_eq_getD_getElem?, Array.getElem?_eq_getElem hx']
  simp [allRows]

lemma getD_swap {a : Array UInt64} {i j : ℕ} (hi : i < a.size) (hj : j < a.size) (x : ℕ) :
    (a.swapIfInBounds i j).getD x 0 =
      if x = i then a.getD j 0 else if x = j then a.getD i 0 else a.getD x 0 := by
  rw [Array.swapIfInBounds_def, dif_pos hi, dif_pos hj, Array.getD_eq_getD_getElem?,
    Array.getElem?_swap]
  by_cases hxj : x = j
  · by_cases hxi : x = i
    · rw [if_pos hxj.symm, if_pos hxi, ← hxj, hxi]
      simp [hi]
    · rw [if_pos hxj.symm, if_neg hxi, if_pos hxj]
      simp [hi]
  · rw [if_neg (Ne.symm hxj), if_neg hxj]
    by_cases hxi : x = i
    · rw [if_pos hxi.symm, if_pos hxi]
      simp [hj]
    · rw [if_neg (Ne.symm hxi), if_neg hxi, Array.getD_eq_getD_getElem?]

/-- **One turn does to the map what it does to the array.** The order of the two writes matters only
where an index is swapped with itself, and there the second one is left out. -/
lemma follows_step {i : ℕ} {a : Array UInt64} {st : Draw} (hi : i < n.toNat)
    (h : Follows n i a st) :
    Follows n (i + 1) (shuffleStep n rng a (UInt64.ofNat i))
      (drawStep n rng st (UInt64.ofNat i)) := by
  have hword : (UInt64.ofNat i).toNat = i :=
    UInt64.toNat_ofNat_of_lt' (hi.trans (UInt64.toNat_lt n))
  have hin : UInt64.ofNat i < n := UInt64.lt_iff_toNat_lt.mpr (hword.symm ▸ hi)
  obtain ⟨hle, hlt⟩ := pick_spec rng hin
  set j := pick n rng (UInt64.ofNat i) with hj
  have hia : i < a.size := h.size.symm ▸ hi
  have hja : j.toNat < a.size := h.size.symm ▸ UInt64.lt_iff_toNat_lt.mp hlt
  have hij : i ≤ j.toNat := hword ▸ UInt64.le_iff_toNat_le.mp hle
  have hstep : shuffleStep n rng a (UInt64.ofNat i) = a.swapIfInBounds i j.toNat := by
    rw [shuffleStep, hword]
  have hvi := h.values _ hin
  have hvj := h.values _ hlt
  rw [hword] at hvi
  rw [hstep]
  refine ⟨?_, fun x hx => ?_, ?_⟩
  · rw [Array.swapIfInBounds_def, dif_pos hia, dif_pos hja]
    exact (Array.swap_perm hia hja).trans h.perm
  · have hxi : x = UInt64.ofNat i ↔ x.toNat = i := by rw [← UInt64.toNat_inj, hword]
    have hxj : x = j ↔ x.toNat = j.toNat := UInt64.toNat_inj.symm
    have hmap : valAt (drawStep n rng st (UInt64.ofNat i)).swapMap x =
        if x.toNat = i then a.getD j.toNat 0 else if x.toNat = j.toNat then a.getD i 0
          else a.getD x.toNat 0 := by
      simp only [drawStep, ← hj]
      by_cases hne : j = UInt64.ofNat i
      · rw [if_neg (not_not.mpr hne), valAt_setAt, hvj, h.values x hx]
        simp only [hxi]
        split_ifs with h₁ h₂
        · rfl
        · exact absurd (h₂.trans (hne ▸ hword)) h₁
        · rfl
      · rw [if_pos hne, valAt_setAt, valAt_setAt, hvi, hvj, h.values x hx]
        have hne' : j.toNat ≠ i := fun heq => hne (by rw [← UInt64.toNat_inj, hword, heq])
        simp only [hxi, hxj]
        split_ifs with h₁ h₂ <;> first | rfl | exact absurd (h₁.symm.trans h₂) hne'
    rw [hmap, getD_swap hia hja]
  · -- The turns that follow leave entry `i` alone.
    have htake : (a.swapIfInBounds i j.toNat).toList.take i = a.toList.take i := by
      refine List.ext_getElem? fun k => ?_
      rw [List.getElem?_take, List.getElem?_take]
      split_ifs with hk
      · rw [Array.getElem?_toList, Array.getElem?_toList, Array.swapIfInBounds_def, dif_pos hia,
          dif_pos hja, Array.getElem?_swap, if_neg (by omega), if_neg (by omega)]
      · rfl
    have hsize : i < (a.swapIfInBounds i j.toNat).size := by rwa [Array.size_swapIfInBounds]
    have hlast : (a.swapIfInBounds i j.toNat).toList[i]? = some (a.getD j.toNat 0) := by
      have hentry := getD_swap hia hja i
      rw [if_pos rfl, Array.getD_eq_getD_getElem?, Array.getElem?_eq_getElem hsize] at hentry
      rw [Array.getElem?_toList, Array.getElem?_eq_getElem hsize]
      exact congrArg some hentry
    simp only [drawStep, ← hj]
    rw [List.take_add_one, htake, hlast, h.drawn, hvj]
    rfl

end Step

/-! ### The whole shuffle -/

section Run

variable {n}

lemma follows_draws {k : ℕ} (hk : k ≤ n.toNat) :
    Follows n k (shuffled n rng k) (draws n rng k) := by
  induction k with
  | zero => exact follows_start
  | succ k ih =>
    have h := follows_step rng hk (ih (Nat.le_of_succ_le hk))
    rwa [shuffled, draws, List.range_succ, List.foldl_concat, List.foldl_concat]

lemma nodup_allRows (n : UInt64) : (allRows n).toList.Nodup := by
  rw [allRows]
  refine List.Nodup.map_on (fun x hx y hy heq => ?_) List.nodup_range
  have hlt : ∀ z ∈ List.range n.toNat, (UInt64.ofNat z).toNat = z := fun z hz =>
    UInt64.toNat_ofNat_of_lt' ((List.mem_range.mp hz).trans (UInt64.toNat_lt n))
  rw [← hlt x hx, ← hlt y hy, heq]

lemma lt_of_mem_allRows {v : UInt64} (h : v ∈ (allRows n).toList) : v < n := by
  rw [allRows] at h
  obtain ⟨i, hi, rfl⟩ := List.mem_map.mp h
  have hi' := List.mem_range.mp hi
  rwa [UInt64.lt_iff_toNat_lt, UInt64.toNat_ofNat_of_lt' (hi'.trans (UInt64.toNat_lt n))]

lemma checkIndices_ok {l : List UInt64} (hsorted : l.Pairwise (· < ·)) (hlt : ∀ v ∈ l, v < n)
    (i : ℕ) (prev : Option UInt64) (hprev : ∀ p ∈ prev, ∀ v ∈ l, p < v) :
    checkIndices n i prev l = .ok () := by
  induction l generalizing i prev with
  | nil => rfl
  | cons v vs ih =>
    obtain ⟨hhead, htail⟩ := List.pairwise_cons.mp hsorted
    have hany : ¬ prev.any (v ≤ ·) = true := by
      cases prev with
      | none => exact Bool.false_ne_true
      | some p =>
        have := hprev p rfl v List.mem_cons_self
        simpa using this
    rw [checkIndices, if_neg (UInt64.not_le.mpr (hlt v List.mem_cons_self)), if_neg hany]
    exact ih htail (fun w hw => hlt w (List.mem_cons_of_mem v hw)) (i + 1) (some v)
      fun p hp w hw => by cases hp; exact hhead w hw

/-- **The sparse shuffle draws distinct rows**, those of a shuffled array, and none of the checks
behind it fails. -/
theorem draw_random_sample_distinct (n k : UInt64) (hk : k ≤ n) (rng : ℕ → UInt64) :
    (draws n rng k.toNat).indices = (shuffled n rng k.toNat).toList.take k.toNat ∧
      (draws n rng k.toNat).indices.length = k.toNat ∧ (draws n rng k.toNat).indices.Nodup ∧
      (∀ v ∈ (draws n rng k.toNat).indices, v < n) ∧
      drawRandomSample n rng k = .ok (draws n rng k.toNat).indices.mergeSort := by
  have hk' : k.toNat ≤ n.toNat := UInt64.le_iff_toNat_le.mp hk
  have h := follows_draws rng hk'
  have hperm : (shuffled n rng k.toNat).toList.Perm (allRows n).toList :=
    Array.perm_iff_toList_perm.mp h.perm
  have hlen : (draws n rng k.toNat).indices.length = k.toNat := by
    rw [h.drawn, List.length_take, Array.length_toList, h.size]
    exact Nat.min_eq_left hk'
  have hnodup : (draws n rng k.toNat).indices.Nodup := by
    rw [h.drawn]
    exact (hperm.nodup_iff.mpr (nodup_allRows n)).sublist (List.take_sublist _ _)
  have hlt : ∀ v ∈ (draws n rng k.toNat).indices, v < n := by
    intro v hv
    rw [h.drawn] at hv
    exact lt_of_mem_allRows (hperm.mem_iff.mp (List.mem_of_mem_take hv))
  refine ⟨h.drawn, hlen, hnodup, hlt, ?_⟩
  by_cases hzero : k = 0
  · have hnil : (draws n rng k.toNat).indices = [] := by
      rw [List.eq_nil_iff_length_eq_zero, hlen, hzero]
      rfl
    rw [drawRandomSample, if_pos hzero, hnil, List.mergeSort_nil]
  · set l := (draws n rng k.toNat).indices with hl
    have hsort : l.mergeSort.Pairwise (· ≤ ·) := List.pairwise_mergeSort' _ l
    have hdistinct : l.mergeSort.Nodup := (List.mergeSort_perm l _).nodup_iff.mpr hnodup
    have hstrict : l.mergeSort.Pairwise (· < ·) :=
      (hsort.and hdistinct).imp fun h => UInt64.lt_of_le_of_ne h.1 h.2
    have hcheck : checkIndices n 0 none l.mergeSort = .ok () :=
      checkIndices_ok hstrict (fun v hv => hlt v (List.mem_mergeSort.mp hv)) 0 none nofun
    rw [drawRandomSample, if_neg hzero, if_neg (UInt64.not_lt.mpr hk)]
    simp only [← hl, List.length_mergeSort, hlen, ne_eq, not_true, if_false, hcheck]
    rfl

/-- Three rows of five. -/
theorem draw_random_sample_five : (draws 5 (fun _ => 7) 3).indices = [2, 4, 3] ∧
    drawRandomSample 5 (fun _ => 7) 3 = .ok (draws 5 (fun _ => 7) 3).indices.mergeSort := by
  obtain ⟨hdense, -, -, -, hdrawn⟩ := draw_random_sample_distinct 5 3 (by decide) fun _ => 7
  exact ⟨hdense.trans (by decide), hdrawn⟩

end Run

end SextantTree.SampleDraw
