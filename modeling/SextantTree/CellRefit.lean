import SextantTree.CellMeans

/-!
One round over cells. A level becomes the mean of the numbers in its cell, and a level whose cell is
empty becomes what a second array has in its place. The levels can come out of order by it, one place
at most, and still the numbers are in all no farther from the means of their cells than before.
-/

namespace SextantTree.MidpointCells

variable {α : Type*} [Field α] [LinearOrder α]

/-- The levels are in order but for neighbours. -/
def Spread (K : ℕ) (lv : ℕ → α) : Prop := ∀ i j, i + 2 ≤ j → j < K → lv i ≤ lv j

/-- The array is in order, with the levels again but for one. -/
structure Stale (K : ℕ) (lv st : ℕ → α) : Prop where
  nonDecreasing : NonDecreasing st K
  le_two : ∀ i, i + 2 < K → st i ≤ lv (i + 2)
  le_max : ∀ i, i + 1 < K → st i ≤ max (lv i) (lv (i + 1))
  min_le : ∀ i, i + 1 < K → min (lv i) (lv (i + 1)) ≤ st (i + 1)
  two_le : ∀ i, i + 2 < K → lv i ≤ st (i + 2)

/-- Of two neighbours out of order one has numbers, and their mean is on the other's side. -/
def Paired (K : ℕ) (lv : ℕ → α) (data : List α) : Prop :=
  ∀ i, i + 1 < K → lv (i + 1) < lv i →
    (Full K lv data i ∧ mean K lv data i ≤ lv (i + 1)) ∨
      (Full K lv data (i + 1) ∧ lv i ≤ mean K lv data (i + 1))

def refit (K : ℕ) (lv st : ℕ → α) (data : List α) (i : ℕ) : α :=
  if Full K lv data i then mean K lv data i else st i

section Order

variable {K : ℕ} {lv st : ℕ → α} {data : List α} {i : ℕ}

lemma refit_full (h : Full K lv data i) : refit K lv st data i = mean K lv data i := if_pos h

lemma refit_empty (h : ¬ Full K lv data i) : refit K lv st data i = st i := if_neg h

variable [IsStrictOrderedRing α]

lemma Spread.bound (h : Spread K lv) : NonDecreasing (bound lv) (K - 1) := fun i hi => by
  have := h i (i + 2) le_rfl (by omega)
  rw [MidpointCells.bound, MidpointCells.bound]
  linarith

lemma mean_le_mean (hb : NonDecreasing (bound lv) (K - 1)) {j : ℕ} (hij : i ≤ j) (hj : j < K)
    (hi : Full K lv data i) (hfj : Full K lv data j) : mean K lv data i ≤ mean K lv data j := by
  rcases hij.eq_or_lt with rfl | hlt
  · exact le_rfl
  · obtain ⟨k, rfl⟩ : ∃ k, j = k + 1 := ⟨j - 1, by omega⟩
    exact (mean_le_bound hb hi (by omega)).trans
      ((hb.le (Nat.le_of_lt_succ hlt) (by omega)).trans (bound_le_mean hb hfj))

lemma empty_of_inverted (hs : Spread K lv) (hst : Stale K lv st) (hi : i + 1 < K)
    (h : refit K lv st data (i + 1) < refit K lv st data i) :
    (¬ Full K lv data i ∧ Full K lv data (i + 1)) ∨
      (Full K lv data i ∧ ¬ Full K lv data (i + 1)) := by
  by_cases hf : Full K lv data i <;> by_cases hf' : Full K lv data (i + 1)
  · rw [refit_full hf, refit_full hf'] at h
    exact absurd (mean_le_mean hs.bound (Nat.le_succ i) hi hf hf') (not_le.2 h)
  · exact Or.inr ⟨hf, hf'⟩
  · exact Or.inl ⟨hf, hf'⟩
  · rw [refit_empty hf, refit_empty hf'] at h
    exact absurd (hst.nonDecreasing i hi) (not_le.2 h)

section Round

variable (hs : Spread K lv) (hst : Stale K lv st) (hp : Paired K lv data)
include hs hst hp

lemma stale_le_bound (h : ¬ Full K lv data i) (hi : i + 2 < K) : st i ≤ bound lv (i + 1) := by
  have htwo := hst.le_two i hi
  rcases le_max_iff.1 (hst.le_max i (by omega)) with hle | hle
  · rcases le_or_gt (lv i) (lv (i + 1)) with hord | hinv
    · exact le_bound (hle.trans hord) htwo
    · rcases hp i (by omega) hinv with ⟨hf, -⟩ | ⟨hf, hm⟩
      · exact absurd hf h
      · exact (hle.trans hm).trans (mean_le_bound hs.bound hf hi)
  · exact le_bound hle htwo

lemma bound_le_stale (h : ¬ Full K lv data (i + 2)) (hi : i + 2 < K) : bound lv i ≤ st (i + 2) := by
  have htwo := hst.two_le i hi
  rcases min_le_iff.1 (hst.min_le (i + 1) hi) with hle | hle
  · exact bound_le htwo hle
  · rcases le_or_gt (lv (i + 1)) (lv (i + 2)) with hord | hinv
    · exact bound_le htwo (hord.trans hle)
    · rcases hp (i + 1) hi hinv with ⟨hf, hm⟩ | ⟨hf, -⟩
      · exact (bound_le_mean hs.bound hf).trans (hm.trans hle)
      · exact absurd hf h

lemma refit_le_next (h : ¬ Full K lv data (i + 1)) (hi : i + 1 < K) :
    refit K lv st data i ≤ lv (i + 1) := by
  rcases le_or_gt (lv i) (lv (i + 1)) with hord | hinv
  · by_cases hf : Full K lv data i
    · rw [refit_full hf]
      exact (mean_le_bound hs.bound hf hi).trans (bound_le hord le_rfl)
    · rw [refit_empty hf]
      exact (hst.le_max i hi).trans (max_le hord le_rfl)
  · rcases hp i hi hinv with ⟨hf, hm⟩ | ⟨hf, -⟩
    · rwa [refit_full hf]
    · exact absurd hf h

lemma le_refit_next (h : ¬ Full K lv data i) (hi : i + 1 < K) :
    lv i ≤ refit K lv st data (i + 1) := by
  rcases le_or_gt (lv i) (lv (i + 1)) with hord | hinv
  · by_cases hf : Full K lv data (i + 1)
    · rw [refit_full hf]
      exact (le_bound le_rfl hord).trans (bound_le_mean hs.bound hf)
    · rw [refit_empty hf]
      exact (le_min le_rfl hord).trans (hst.min_le i hi)
  · rcases hp i hi hinv with ⟨hf, -⟩ | ⟨hf, hm⟩
    · exact absurd hf h
    · rwa [refit_full hf]

lemma spread_refit : Spread K (refit K lv st data) := fun i j hij hj => by
  have hb := hs.bound
  by_cases hi : Full K lv data i <;> by_cases hfj : Full K lv data j
  · rw [refit_full hi, refit_full hfj]
    exact mean_le_mean hb (by omega) hj hi hfj
  · obtain ⟨k, rfl⟩ : ∃ k, j = k + 2 := ⟨j - 2, by omega⟩
    rw [refit_full hi, refit_empty hfj]
    exact (mean_le_bound hb hi (by omega)).trans
      ((hb.le (by omega) (by omega)).trans (bound_le_stale hs hst hp hfj hj))
  · obtain ⟨k, rfl⟩ : ∃ k, j = k + 1 := ⟨j - 1, by omega⟩
    rw [refit_empty hi, refit_full hfj]
    exact (stale_le_bound hs hst hp hi (by omega)).trans
      ((hb.le (by omega) (by omega)).trans (bound_le_mean hb hfj))
  · rw [refit_empty hi, refit_empty hfj]
    exact hst.nonDecreasing.le (by omega) hj

/-! ### An empty level above its neighbour -/

section Above

variable (he : ¬ Full K lv data i) (hf : Full K lv data (i + 1)) (hi : i + 1 < K)
  (hinv : mean K lv data (i + 1) < st i)
include he hf hi hinv

omit [IsStrictOrderedRing α] hs hf in
lemma above_le : lv i ≤ lv (i + 1) ∧ st i ≤ lv (i + 1) := by
  have hord : lv i ≤ lv (i + 1) := by
    by_contra hno
    have hlt := not_le.1 hno
    rcases hp i hi hlt with ⟨h, -⟩ | ⟨-, hm⟩
    · exact he h
    · have hmax := hst.le_max i hi
      rw [max_eq_left hlt.le] at hmax
      exact absurd (hmax.trans hm) (not_le.2 hinv)
  exact ⟨hord, (hst.le_max i hi).trans (max_le hord le_rfl)⟩

lemma above_bound_le {k : ℕ} (hk : k + 1 = i) :
    bound (refit K lv st data) k ≤ bound lv i := by
  subst hk
  obtain ⟨-, hle⟩ := above_le hst hp he hi hinv
  have hprev := refit_le_next hs hst hp he (by omega)
  rw [bound, bound, refit_empty he]
  linarith

omit hi hinv in
lemma above_bound_le_next (hi' : i + 2 < K) :
    bound (refit K lv st data) i ≤ bound lv (i + 1) := by
  refine bound_le ?_ ?_
  · rw [refit_empty he]
    exact stale_le_bound hs hst hp he hi'
  · rw [refit_full hf]
    exact mean_le_bound hs.bound hf hi'

lemma paired_above : Full K (refit K lv st data) data i ∧
    mean K (refit K lv st data) data i ≤ refit K lv st data (i + 1) := by
  have hb := hs.bound
  have hb' := (spread_refit hs hst hp).bound
  have hlow : ∀ x, bound lv i ≤ x → ∀ k, k + 1 = i → bound (refit K lv st data) k ≤ x :=
    fun x hx k hk => (above_bound_le hs hst hp he hf hi hinv hk).trans hx
  have hmean : mean K lv data (i + 1) < bound (refit K lv st data) i := by
    rw [bound, refit_empty he, refit_full hf]
    linarith
  have hfull : Full K (refit K lv st data) data i := by
    obtain ⟨x, hx, hcell, hle⟩ := exists_le_mean hf
    have hxi : bound lv i ≤ x := bound_le_of_lt_cell hb (by omega)
    rw [← cell_eq hb' (by omega) (hlow x hxi) (fun _ => hle.trans_lt hmean) (by omega)]
    exact full_cell hx
  refine ⟨hfull, ?_⟩
  rw [refit_full hf, mean_le_iff hfull]
  refine (sum_members_le (fun x hx hcell hne => ?_) fun x hx hcell hne => ?_).trans
    (sum_sub_average hf).le
  · -- below the old cell, whose numbers are not above its mean
    by_contra hgt
    have hxi : bound lv i ≤ x := (bound_le_mean hb hf).trans (not_le.1 hgt).le
    have hxb : x < bound (refit K lv st data) i := lt_bound_of_cell_le hb' hcell.le hi
    refine hne (cell_eq hb (by omega) (fun k hk => ?_) (fun hi' => ?_) hi)
    · obtain rfl : k = i := by omega
      exact hxi
    · exact hxb.trans_le (above_bound_le_next hs hst hp he hf hi')
  · -- behind the new cell
    by_contra hlt
    have hxi : bound lv i ≤ x := bound_le_of_lt_cell hb (by omega)
    exact hne (cell_eq hb' (by omega) (hlow x hxi)
      (fun _ => (not_le.1 hlt).trans hmean) (by omega))

end Above

/-! ### An empty level below its neighbour -/

section Below

variable (hf : Full K lv data i) (he : ¬ Full K lv data (i + 1)) (hi : i + 1 < K)
  (hinv : st (i + 1) < mean K lv data i)
include hf he hi hinv

omit [IsStrictOrderedRing α] hs hf in
lemma le_below : lv i ≤ lv (i + 1) ∧ lv i ≤ st (i + 1) := by
  have hord : lv i ≤ lv (i + 1) := by
    by_contra hno
    have hlt := not_le.1 hno
    rcases hp i hi hlt with ⟨-, hm⟩ | ⟨h, -⟩
    · have hmin := hst.min_le i hi
      rw [min_eq_right hlt.le] at hmin
      exact absurd (hm.trans hmin) (not_le.2 hinv)
    · exact he h
  exact ⟨hord, (le_min le_rfl hord).trans (hst.min_le i hi)⟩

omit hf in
lemma bound_le_below (hi' : i + 2 < K) :
    bound lv i ≤ bound (refit K lv st data) (i + 1) := by
  obtain ⟨-, hle⟩ := le_below hst hp he hi hinv
  have hnext := le_refit_next hs hst hp he hi'
  rw [bound, bound, refit_empty he]
  linarith

omit hi hinv in
lemma bound_le_below_prev {k : ℕ} (hk : k + 1 = i) (hi : i + 1 < K) :
    bound lv k ≤ bound (refit K lv st data) i := by
  subst hk
  refine le_bound ?_ ?_
  · rw [refit_full hf]
    exact bound_le_mean hs.bound hf
  · rw [refit_empty he]
    exact bound_le_stale hs hst hp he hi

lemma paired_below : Full K (refit K lv st data) data (i + 1) ∧
    refit K lv st data i ≤ mean K (refit K lv st data) data (i + 1) := by
  have hb := hs.bound
  have hb' := (spread_refit hs hst hp).bound
  have hup : ∀ x, x < bound lv i → i + 2 < K → x < bound (refit K lv st data) (i + 1) :=
    fun x hx hi' => hx.trans_le (bound_le_below hs hst hp he hi hinv hi')
  have hmean : bound (refit K lv st data) i < mean K lv data i := by
    rw [bound, refit_full hf, refit_empty he]
    linarith
  have hcell' : ∀ x, mean K lv data i ≤ x → x < bound lv i →
      cell K (refit K lv st data) x = i + 1 := fun x hx hxi =>
    cell_eq hb' (by omega) (fun k hk => by
      obtain rfl : k = i := by omega
      exact hmean.le.trans hx) (hup x hxi) hi
  have hfull : Full K (refit K lv st data) data (i + 1) := by
    obtain ⟨x, hx, hcell, hle⟩ := exists_mean_le hf
    rw [← hcell' x hle (lt_bound_of_cell_le hb hcell.le hi)]
    exact full_cell hx
  refine ⟨hfull, ?_⟩
  rw [refit_full hf, le_mean_iff hfull]
  refine (sum_sub_average hf).ge.trans
    (sum_members_le (fun x hx hcell hne => ?_) fun x hx hcell hne => ?_)
  · -- below the new cell
    by_contra hgt
    exact hne (hcell' x (not_le.1 hgt).le (lt_bound_of_cell_le hb hcell.le hi))
  · -- behind the old cell, whose numbers are not below its mean
    by_contra hlt
    have hxi : x < bound lv i := (not_le.1 hlt).trans_le (mean_le_bound hb hf hi)
    have hbx : bound (refit K lv st data) i ≤ x := bound_le_of_lt_cell hb' (by omega)
    refine hne (cell_eq hb (by omega) (fun k hk => ?_) (fun _ => hxi) (by omega))
    exact (bound_le_below_prev hs hst hp hf he hk hi).trans hbx

end Below

lemma paired_refit : Paired K (refit K lv st data) data := fun i hi h => by
  rcases empty_of_inverted hs hst hi h with ⟨he, hf⟩ | ⟨hf, he⟩
  · rw [refit_empty he, refit_full hf] at h
    exact Or.inl (paired_above hs hst hp he hf hi h)
  · rw [refit_empty he, refit_full hf] at h
    exact Or.inr (paired_below hs hst hp hf he hi h)

/-! ### The new cells -/

/-- What stands for a new cell: an empty level that came out of order leaves it to its neighbour. -/
def centre (K : ℕ) (lv st : ℕ → α) (data : List α) (j : ℕ) : α :=
  if ¬ Full K lv data j ∧ j + 1 < K ∧ refit K lv st data (j + 1) < refit K lv st data j then
    refit K lv st data (j + 1)
  else if ¬ Full K lv data j ∧ 0 < j ∧ refit K lv st data j < refit K lv st data (j - 1) then
    refit K lv st data (j - 1)
  else refit K lv st data j

lemma refit_le_mean {x : α} {j a : ℕ} (hx : x ∈ data) (hj : cell K (refit K lv st data) x = j)
    (ha : cell K lv x = a) (hja : j < a) (haK : a < K) :
    refit K lv st data (j + 1) ≤ mean K lv data a := by
  have hfa : Full K lv data a := ha ▸ full_cell hx
  have hre : refit K lv st data a = mean K lv data a := refit_full hfa
  rw [← hre]
  rcases Nat.lt_or_ge (j + 2) a with h | h
  · exact spread_refit hs hst hp _ _ h haK
  rcases (show a = j + 1 ∨ a = j + 2 by omega) with rfl | rfl
  · exact le_rfl
  · by_contra hno
    have hinv := not_le.1 hno
    rcases empty_of_inverted hs hst haK hinv with ⟨he, hf⟩ | ⟨-, he⟩
    · rw [refit_empty he, refit_full hf] at hinv
      have hle := above_bound_le hs hst hp he hf haK hinv rfl
      have hup : x < bound (refit K lv st data) j :=
        lt_bound_of_cell_le (spread_refit hs hst hp).bound hj.le (by omega)
      exact absurd ((bound_le_of_lt_cell hs.bound (by omega)).trans_lt hup) (not_lt.2 hle)
    · exact he hfa

lemma mean_le_refit {x : α} {j a : ℕ} (hx : x ∈ data) (hj : cell K (refit K lv st data) x = j + 1)
    (ha : cell K lv x = a) (haj : a ≤ j) (hjK : j + 1 < K) :
    mean K lv data a ≤ refit K lv st data j := by
  have hfa : Full K lv data a := ha ▸ full_cell hx
  have hre : refit K lv st data a = mean K lv data a := refit_full hfa
  rw [← hre]
  rcases Nat.lt_or_ge (a + 1) j with h | h
  · exact spread_refit hs hst hp _ _ h (by omega)
  rcases (show a = j ∨ j = a + 1 by omega) with rfl | rfl
  · exact le_rfl
  · by_contra hno
    have hinv := not_le.1 hno
    rcases empty_of_inverted hs hst (by omega) hinv with ⟨he, -⟩ | ⟨hf, he⟩
    · exact he hfa
    · rw [refit_full hf, refit_empty he] at hinv
      have hle := bound_le_below hs hst hp he (by omega) hinv hjK
      have hlow : bound (refit K lv st data) (a + 1) ≤ x :=
        bound_le_of_lt_cell (spread_refit hs hst hp).bound (by omega)
      exact absurd (lt_bound_of_cell_le hs.bound ha.le (by omega)) (not_lt.2 (hle.trans hlow))

lemma centre_nearer_down {x : α} {j a : ℕ} (hx : x ∈ data)
    (hj : cell K (refit K lv st data) x = j) (ha : cell K lv x = a) (hja : j < a) (haK : a < K) :
    (x - centre K lv st data j) * (x - centre K lv st data j) ≤
      (x - mean K lv data a) * (x - mean K lv data a) := by
  have hb := hs.bound
  have hfa : Full K lv data a := ha ▸ full_cell hx
  have hnext := refit_le_mean hs hst hp hx hj ha hja haK
  have hup : x < bound (refit K lv st data) j :=
    lt_bound_of_cell_le (spread_refit hs hst hp).bound hj.le (by omega)
  rw [centre]
  split_ifs with h₁ h₂
  · obtain ⟨hej, hjK, hinv⟩ := h₁
    rcases Nat.lt_or_ge (j + 1) a with h | h
    · rcases empty_of_inverted hs hst hjK hinv with ⟨he, hf⟩ | ⟨hf, -⟩
      · have hle := above_bound_le_next hs hst hp he hf (by omega)
        exact absurd ((bound_le_of_lt_cell hb (by omega)).trans_lt hup) (not_lt.2 hle)
      · exact absurd hf hej
    · obtain rfl : a = j + 1 := by omega
      rw [refit_full hfa]
  · obtain ⟨hej, hpos, hinv⟩ := h₂
    obtain ⟨k, rfl⟩ : ∃ k, j = k + 1 := ⟨j - 1, by omega⟩
    rw [Nat.add_sub_cancel] at hinv ⊢
    rcases empty_of_inverted hs hst (by omega) hinv with ⟨-, hf⟩ | ⟨hf, -⟩
    · exact absurd hf hej
    · refine sq_sub_le_of_le_mid ?_ (hup.le.trans ?_)
      · rw [refit_full hf]
        exact mean_le_mean hb (by omega) haK hf hfa
      · rw [bound]
        linarith
  · rcases le_or_gt (refit K lv st data j) (refit K lv st data (j + 1)) with hord | hinv
    · refine sq_sub_le_of_le_mid (hord.trans hnext) (hup.le.trans ?_)
      rw [bound]
      linarith
    · have hfj : Full K lv data j := by
        by_contra hej
        exact h₁ ⟨hej, by omega, hinv⟩
      have hle : refit K lv st data j ≤ mean K lv data a := by
        rw [refit_full hfj]
        exact mean_le_mean hb hja.le haK hfj hfa
      refine sq_sub_le_of_le_mid hle (hup.le.trans ?_)
      rw [bound]
      linarith

lemma centre_nearer_up {x : α} {j a : ℕ} (hx : x ∈ data)
    (hj : cell K (refit K lv st data) x = j + 1) (ha : cell K lv x = a) (haj : a ≤ j)
    (hjK : j + 1 < K) :
    (x - centre K lv st data (j + 1)) * (x - centre K lv st data (j + 1)) ≤
      (x - mean K lv data a) * (x - mean K lv data a) := by
  have hb := hs.bound
  have hfa : Full K lv data a := ha ▸ full_cell hx
  have hprev := mean_le_refit hs hst hp hx hj ha haj hjK
  have hlow : bound (refit K lv st data) j ≤ x :=
    bound_le_of_lt_cell (spread_refit hs hst hp).bound (by omega)
  rw [bound] at hlow
  rw [centre]
  split_ifs with h₁ h₂
  · obtain ⟨hej, hjK', hinv⟩ := h₁
    rcases empty_of_inverted hs hst hjK' hinv with ⟨-, hf⟩ | ⟨hf, -⟩
    · refine sq_sub_le_of_mid_le ?_ ?_
      · rw [refit_full hf]
        exact mean_le_mean hb (by omega) hjK' hfa hf
      · linarith
    · exact absurd hf hej
  · obtain ⟨hej, -, hinv⟩ := h₂
    rw [Nat.add_sub_cancel] at hinv ⊢
    rcases Nat.lt_or_ge a j with h | h
    · rcases empty_of_inverted hs hst hjK hinv with ⟨-, hf⟩ | ⟨hf, he⟩
      · exact absurd hf hej
      · obtain ⟨k, rfl⟩ : ∃ k, j = k + 1 := ⟨j - 1, by omega⟩
        have hle := bound_le_below_prev hs hst hp hf he rfl hjK
        exact absurd (lt_bound_of_cell_le hb (show cell K lv x ≤ k by omega) (by omega))
          (not_lt.2 (hle.trans hlow))
    · obtain rfl : a = j := by omega
      rw [refit_full hfa]
  · rcases le_or_gt (refit K lv st data j) (refit K lv st data (j + 1)) with hord | hinv
    · refine sq_sub_le_of_mid_le (hprev.trans hord) ?_
      linarith
    · have hfj : Full K lv data (j + 1) := by
        by_contra hej
        exact h₂ ⟨hej, Nat.succ_pos j, hinv⟩
      have hle : mean K lv data a ≤ refit K lv st data (j + 1) := by
        rw [refit_full hfj]
        exact mean_le_mean hb (by omega) hjK hfa hfj
      refine sq_sub_le_of_mid_le hle ?_
      linarith

/-- **A round brings the numbers no farther** from the means of their cells. -/
theorem scatter_refit (hK : 0 < K) :
    scatter K (refit K lv st data) data ≤ scatter K lv data := by
  refine (scatter_le hK (centre K lv st data)).trans (distortion_le fun x hx => ?_)
  have haK := cell_lt hK lv x
  have hjK := cell_lt hK (refit K lv st data) x
  rcases Nat.lt_trichotomy (cell K (refit K lv st data) x) (cell K lv x) with h | h | h
  · exact centre_nearer_down hs hst hp hx rfl rfl h haK
  · have hf : Full K lv data (cell K lv x) := full_cell hx
    rw [h, centre, if_neg fun h => h.1 hf, if_neg fun h => h.1 hf, refit_full hf]
  · obtain ⟨j, hj⟩ : ∃ j, cell K (refit K lv st data) x = j + 1 :=
      ⟨cell K (refit K lv st data) x - 1, by omega⟩
    rw [hj]
    exact centre_nearer_up hs hst hp hx hj rfl (by omega) (by omega)

end Round

end Order

end SextantTree.MidpointCells
