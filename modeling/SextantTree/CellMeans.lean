import SextantTree.MidpointCells

/-!
Means of cells. A level becomes the mean of the numbers in its cell, and a level whose cell is empty
becomes what a second array has in its place. The levels can come out of order by it, one place at
most, and still the numbers are in all no farther from the means of their cells than before.
-/

namespace SextantTree.MidpointCells

variable {α : Type*} [Field α] [LinearOrder α]

/-! ### Means -/

def members (K : ℕ) (lv : ℕ → α) (data : List α) (i : ℕ) : List α :=
  data.filter fun x => cell K lv x = i

def average (xs : List α) : α := xs.sum / xs.length

def mean (K : ℕ) (lv : ℕ → α) (data : List α) (i : ℕ) : α := average (members K lv data i)

def Full (K : ℕ) (lv : ℕ → α) (data : List α) (i : ℕ) : Prop := 0 < (members K lv data i).length

instance (K : ℕ) (lv : ℕ → α) (data : List α) (i : ℕ) : Decidable (Full K lv data i) :=
  inferInstanceAs (Decidable (_ < _))

/-- How far the numbers are in all from what each has for its own. -/
def distortion (data : List α) (c : α → α) : α := (data.map fun x => (x - c x) * (x - c x)).sum

/-- How far the numbers are in all from the means of their cells. -/
def scatter (K : ℕ) (lv : ℕ → α) (data : List α) : α :=
  distortion data fun x => mean K lv data (cell K lv x)

section Sums

variable {K : ℕ} {lv : ℕ → α} {data : List α}

lemma mem_members {i : ℕ} {x : α} : x ∈ members K lv data i ↔ x ∈ data ∧ cell K lv x = i := by
  rw [members, List.mem_filter, decide_eq_true_iff]

lemma full_cell {x : α} (hx : x ∈ data) : Full K lv data (cell K lv x) :=
  List.length_pos_of_mem (mem_members.2 ⟨hx, rfl⟩)

lemma sum_members (hK : 0 < K) (lv : ℕ → α) (f : α → α) :
    (data.map f).sum = ∑ i ∈ Finset.range K, ((members K lv data i).map f).sum := by
  induction data with
  | nil => simp [members]
  | cons x xs ih =>
    have hsplit : ∀ i, ((members K lv (x :: xs) i).map f).sum =
        (if cell K lv x = i then f x else 0) + ((members K lv xs i).map f).sum := by
      intro i
      rw [members, List.filter_cons]
      by_cases h : cell K lv x = i
      · simp [h, members]
      · simp [h, members]
    have hin : cell K lv x ∈ Finset.range K := Finset.mem_range.2 (cell_lt hK lv x)
    simp only [hsplit, Finset.sum_add_distrib, Finset.sum_ite_eq, if_pos hin, List.map_cons,
      List.sum_cons, ih]

variable [IsStrictOrderedRing α]

lemma distortion_le {c d : α → α}
    (h : ∀ x ∈ data, (x - c x) * (x - c x) ≤ (x - d x) * (x - d x)) :
    distortion data c ≤ distortion data d := List.sum_le_sum h

lemma sum_sub (xs : List α) (c : α) : (xs.map fun x => x - c).sum = xs.sum - xs.length * c := by
  induction xs with
  | nil => simp
  | cons x xs ih =>
    simp only [List.map_cons, List.sum_cons, ih, List.length_cons]
    push_cast
    ring

lemma sum_sub_average {xs : List α} (h : 0 < xs.length) :
    (xs.map fun x => x - average xs).sum = 0 := by
  have hne : (xs.length : α) ≠ 0 := Nat.cast_ne_zero.2 h.ne'
  rw [sum_sub, average, mul_div_cancel₀ _ hne, sub_self]

lemma sum_sq_shift (xs : List α) (m c : α) :
    (xs.map fun x => (x - c) * (x - c)).sum = (xs.map fun x => (x - m) * (x - m)).sum +
      2 * (m - c) * (xs.map fun x => x - m).sum + xs.length * ((m - c) * (m - c)) := by
  induction xs with
  | nil => simp
  | cons x xs ih =>
    simp only [List.map_cons, List.sum_cons, ih, List.length_cons]
    push_cast
    ring

lemma average_le (xs : List α) (c : α) :
    (xs.map fun x => (x - average xs) * (x - average xs)).sum ≤
      (xs.map fun x => (x - c) * (x - c)).sum := by
  rcases Nat.eq_zero_or_pos xs.length with h | h
  · rw [List.length_eq_zero_iff.1 h]
    simp
  · rw [sum_sq_shift xs (average xs) c, sum_sub_average h, mul_zero, add_zero]
    exact le_add_of_nonneg_right (mul_nonneg (Nat.cast_nonneg _) (mul_self_nonneg _))

lemma scatter_le (hK : 0 < K) (c : ℕ → α) :
    scatter K lv data ≤ distortion data fun x => c (cell K lv x) := by
  have hcell : ∀ (d : ℕ → α) (i : ℕ),
      ((members K lv data i).map fun x =>
        (x - d (cell K lv x)) * (x - d (cell K lv x))).sum =
      ((members K lv data i).map fun x => (x - d i) * (x - d i)).sum := fun d i =>
    congrArg List.sum (List.map_congr_left fun x hx => by rw [(mem_members.1 hx).2])
  rw [scatter, distortion, distortion, sum_members hK lv,
    sum_members hK lv]
  refine Finset.sum_le_sum fun i _ => ?_
  rw [hcell (mean K lv data), hcell]
  exact average_le _ _

variable {i : ℕ}

lemma exists_le_mean (h : Full K lv data i) :
    ∃ x ∈ data, cell K lv x = i ∧ x ≤ mean K lv data i := by
  by_contra hno
  push Not at hno
  have hpos : 0 < ((members K lv data i).map fun x => x - mean K lv data i).sum := by
    refine List.sum_pos _ (fun y hy => ?_) fun hnil => ?_
    · obtain ⟨x, hx, rfl⟩ := List.mem_map.1 hy
      obtain ⟨hdata, hcell⟩ := mem_members.1 hx
      exact sub_pos.2 (hno x hdata hcell)
    · rw [Full, List.map_eq_nil_iff.1 hnil] at h
      exact absurd h (lt_irrefl 0)
  exact hpos.ne' (sum_sub_average h)

lemma exists_mean_le (h : Full K lv data i) :
    ∃ x ∈ data, cell K lv x = i ∧ mean K lv data i ≤ x := by
  by_contra hno
  push Not at hno
  have hpos : 0 < ((members K lv data i).map fun x => mean K lv data i - x).sum := by
    refine List.sum_pos _ (fun y hy => ?_) fun hnil => ?_
    · obtain ⟨x, hx, rfl⟩ := List.mem_map.1 hy
      obtain ⟨hdata, hcell⟩ := mem_members.1 hx
      exact sub_pos.2 (hno x hdata hcell)
    · rw [Full, List.map_eq_nil_iff.1 hnil] at h
      exact absurd h (lt_irrefl 0)
  have hneg : ((members K lv data i).map fun x => mean K lv data i - x).sum =
      -((members K lv data i).map fun x => x - mean K lv data i).sum := by
    rw [List.sum_neg, List.map_map]
    exact congrArg List.sum (List.map_congr_left fun x _ => (neg_sub x _).symm)
  rw [hneg, mean, sum_sub_average h, neg_zero] at hpos
  exact absurd hpos (lt_irrefl 0)

lemma mean_le_bound (hb : NonDecreasing (bound lv) (K - 1)) (h : Full K lv data i)
    (hi : i + 1 < K) : mean K lv data i ≤ bound lv i := by
  obtain ⟨x, -, hx, hle⟩ := exists_mean_le h
  exact hle.trans (lt_bound_of_cell_le hb hx.le hi).le

lemma bound_le_mean (hb : NonDecreasing (bound lv) (K - 1)) (h : Full K lv data (i + 1)) :
    bound lv i ≤ mean K lv data (i + 1) := by
  obtain ⟨x, -, hx, hle⟩ := exists_le_mean h
  exact (bound_le_of_lt_cell hb (by omega)).trans hle

lemma mean_le_iff (h : Full K lv data i) (c : α) :
    mean K lv data i ≤ c ↔ ((members K lv data i).map fun x => x - c).sum ≤ 0 := by
  have hpos : (0 : α) < (members K lv data i).length := Nat.cast_pos.2 h
  rw [mean, average, div_le_iff₀ hpos, sum_sub, sub_nonpos, mul_comm]

lemma le_mean_iff (h : Full K lv data i) (c : α) :
    c ≤ mean K lv data i ↔ 0 ≤ ((members K lv data i).map fun x => x - c).sum := by
  have hpos : (0 : α) < (members K lv data i).length := Nat.cast_pos.2 h
  rw [mean, average, le_div_iff₀ hpos, sum_sub, sub_nonneg, mul_comm]

/-- A cell is less above a value than another, when what only it has is below the value and what
only the other has is above. -/
lemma sum_members_le {lv' : ℕ → α} {j : ℕ} {c : α}
    (hlow : ∀ x ∈ data, cell K lv x = i → cell K lv' x ≠ j → x ≤ c)
    (hup : ∀ x ∈ data, cell K lv' x = j → cell K lv x ≠ i → c ≤ x) :
    ((members K lv data i).map fun x => x - c).sum ≤
      ((members K lv' data j).map fun x => x - c).sum := by
  have hite : ∀ (l : ℕ → α) (k : ℕ), ((members K l data k).map fun x => x - c).sum =
      (data.map fun x => if cell K l x = k then x - c else 0).sum := by
    intro l k
    simp only [members, List.sum_map_ite, List.map_const', List.sum_replicate, smul_zero, add_zero]
  rw [hite, hite]
  refine List.sum_le_sum fun x hx => ?_
  by_cases hi : cell K lv x = i <;> by_cases hj : cell K lv' x = j
  · rw [if_pos hi, if_pos hj]
  · rw [if_pos hi, if_neg hj]
    exact sub_nonpos.2 (hlow x hx hi hj)
  · rw [if_neg hi, if_pos hj]
    exact sub_nonneg.2 (hup x hx hj hi)
  · rw [if_neg hi, if_neg hj]

end Sums

end SextantTree.MidpointCells
