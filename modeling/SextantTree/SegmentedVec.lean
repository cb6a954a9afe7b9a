import Mathlib.Algebra.BigOperators.Ring.Finset
import Mathlib.Algebra.Order.BigOperators.Ring.Finset
import Mathlib.Tactic
import SextantTree.Literals

/-!
Vectors whose coordinates come in segments of one length. A vector is a function on positions, of
which the first ones count; products and squared distances are sums over the segments, and a matrix
goes from one side of a product to the other by its transpose.
-/

namespace SextantTree.SegmentedVec

variable {α : Type*} [CommRing α]

/-- The coordinates from position `k` on. -/
def shift (k : ℕ) (x : ℕ → α) : ℕ → α := fun j => x (k + j)

def dot (n : ℕ) (x y : ℕ → α) : α := ∑ i ∈ Finset.range n, x i * y i

def sqDist (n : ℕ) (x y : ℕ → α) : α := ∑ i ∈ Finset.range n, (x i - y i) * (x i - y i)

lemma dot_comm (n : ℕ) (x y : ℕ → α) : dot n x y = dot n y x :=
  Finset.sum_congr rfl fun _ _ => mul_comm _ _

lemma dot_congr {n : ℕ} {x x' y y' : ℕ → α} (hx : ∀ i < n, x i = x' i) (hy : ∀ i < n, y i = y' i) :
    dot n x y = dot n x' y' := by
  refine Finset.sum_congr rfl fun i hi => ?_
  rw [hx i (Finset.mem_range.1 hi), hy i (Finset.mem_range.1 hi)]

lemma sqDist_congr {n : ℕ} {x x' y y' : ℕ → α} (hx : ∀ i < n, x i = x' i)
    (hy : ∀ i < n, y i = y' i) : sqDist n x y = sqDist n x' y' := by
  refine Finset.sum_congr rfl fun i hi => ?_
  rw [hx i (Finset.mem_range.1 hi), hy i (Finset.mem_range.1 hi)]

lemma dot_zero (n : ℕ) (x : ℕ → α) : dot n x (fun _ => 0) = 0 :=
  Finset.sum_eq_zero fun _ _ => mul_zero _

lemma dot_add (n : ℕ) (x y z : ℕ → α) : dot n x (fun i => y i + z i) = dot n x y + dot n x z := by
  rw [dot, dot, dot, ← Finset.sum_add_distrib]
  exact Finset.sum_congr rfl fun _ _ => mul_add _ _ _

lemma dot_sum {ι : Type*} (n : ℕ) (x : ℕ → α) (S : Finset ι) (y : ι → ℕ → α) :
    dot n x (fun i => ∑ l ∈ S, y l i) = ∑ l ∈ S, dot n x (y l) := by
  simp only [dot, Finset.mul_sum]
  exact Finset.sum_comm

lemma sqDist_eq (n : ℕ) (x y : ℕ → α) : sqDist n x y = dot n x x - 2 * dot n x y + dot n y y := by
  rw [sqDist, dot, dot, dot, Finset.mul_sum, ← Finset.sum_sub_distrib, ← Finset.sum_add_distrib]
  exact Finset.sum_congr rfl fun _ _ => by ring

lemma sqDist_eq_dot (n : ℕ) (x y : ℕ → α) :
    sqDist n x y = dot n (fun i => x i - y i) fun i => x i - y i := rfl

lemma sqDist_self (n : ℕ) (x : ℕ → α) : sqDist n x x = 0 :=
  Finset.sum_eq_zero fun _ _ => by rw [sub_self, mul_zero]

lemma sqDist_comm (n : ℕ) (x y : ℕ → α) : sqDist n x y = sqDist n y x :=
  Finset.sum_congr rfl fun _ _ => by ring

/-! ### Segments -/

lemma sum_segments (m d : ℕ) (f : ℕ → α) :
    ∑ i ∈ Finset.range (m * d), f i
      = ∑ s ∈ Finset.range m, ∑ j ∈ Finset.range d, f (s * d + j) := by
  induction m with
  | zero => simp
  | succ m ih => rw [Nat.succ_mul, Finset.sum_range_add, ih, Finset.sum_range_succ]

lemma dot_segments (m d : ℕ) (x y : ℕ → α) :
    dot (m * d) x y = ∑ s ∈ Finset.range m, dot d (shift (s * d) x) (shift (s * d) y) :=
  sum_segments m d _

lemma sqDist_segments (m d : ℕ) (x y : ℕ → α) :
    sqDist (m * d) x y = ∑ s ∈ Finset.range m, sqDist d (shift (s * d) x) (shift (s * d) y) :=
  sum_segments m d _

/-- The vector put together from segments of length `d`. -/
def concat (d : ℕ) (x : ℕ → ℕ → α) : ℕ → α := fun i => x (i / d) (i % d)

omit [CommRing α] in
lemma shift_concat {d : ℕ} (x : ℕ → ℕ → α) (s : ℕ) {j : ℕ} (hj : j < d) :
    shift (s * d) (concat d x) j = x s j := by
  have hd : 0 < d := Nat.zero_lt_of_lt hj
  rw [shift, concat, Nat.mul_comm s d, Nat.mul_add_div hd, Nat.div_eq_of_lt hj, Nat.mul_add_mod,
    Nat.mod_eq_of_lt hj, Nat.add_zero]

lemma dot_concat (m d : ℕ) (x : ℕ → α) (y : ℕ → ℕ → α) :
    dot (m * d) x (concat d y) = ∑ s ∈ Finset.range m, dot d (shift (s * d) x) (y s) := by
  rw [dot_segments]
  exact Finset.sum_congr rfl fun s _ => dot_congr (fun _ _ => rfl) fun j hj => shift_concat y s hj

lemma dot_concat_concat (m d : ℕ) (x y : ℕ → ℕ → α) :
    dot (m * d) (concat d x) (concat d y) = ∑ s ∈ Finset.range m, dot d (x s) (y s) := by
  rw [dot_concat]
  exact Finset.sum_congr rfl fun s _ => dot_congr (fun j hj => shift_concat x s hj) fun _ _ => rfl

lemma sqDist_concat (m d : ℕ) (x : ℕ → α) (y : ℕ → ℕ → α) :
    sqDist (m * d) x (concat d y) = ∑ s ∈ Finset.range m, sqDist d (shift (s * d) x) (y s) := by
  rw [sqDist_segments]
  exact Finset.sum_congr rfl fun s _ => sqDist_congr (fun _ _ => rfl) fun j hj => shift_concat y s hj

lemma sqDist_concat_concat (m d : ℕ) (x y : ℕ → ℕ → α) :
    sqDist (m * d) (concat d x) (concat d y) = ∑ s ∈ Finset.range m, sqDist d (x s) (y s) := by
  rw [sqDist_concat]
  exact Finset.sum_congr rfl fun s _ => sqDist_congr (fun j hj => shift_concat x s hj) fun _ _ => rfl

/-! ### Matrices -/

/-- The product with a matrix of which row `r` starts at position `r * n`. -/
def mulVec (n : ℕ) (R x : ℕ → α) : ℕ → α := fun r => dot n (shift (r * n) R) x

def mulVecT (n : ℕ) (R x : ℕ → α) : ℕ → α := fun c => ∑ r ∈ Finset.range n, R (r * n + c) * x r

/-- The rows have length one and stand at right angles to each other. -/
def Orthogonal (n : ℕ) (R : ℕ → α) : Prop :=
  ∀ r < n, ∀ r' < n, dot n (shift (r * n) R) (shift (r' * n) R) = if r = r' then 1 else 0

lemma dot_mulVecT (n : ℕ) (R x y : ℕ → α) : dot n x (mulVecT n R y) = dot n (mulVec n R x) y := by
  simp only [dot, mulVecT, mulVec, shift, Finset.mul_sum, Finset.sum_mul]
  rw [Finset.sum_comm]
  exact Finset.sum_congr rfl fun _ _ => Finset.sum_congr rfl fun _ _ => by ring

lemma mulVec_mulVecT {n : ℕ} {R : ℕ → α} (h : Orthogonal n R) (x : ℕ → α) {r : ℕ} (hr : r < n) :
    mulVec n R (mulVecT n R x) r = x r := by
  have hrows : ∀ r' ∈ Finset.range n, x r' * dot n (shift (r * n) R) (shift (r' * n) R)
      = if r = r' then x r' else 0 := by
    intro r' hr'
    rw [h r hr r' (Finset.mem_range.1 hr'), mul_ite, mul_one, mul_zero]
  have hswap : mulVec n R (mulVecT n R x) r
      = ∑ r' ∈ Finset.range n, x r' * dot n (shift (r * n) R) (shift (r' * n) R) := by
    simp only [mulVec, mulVecT, dot, shift, Finset.mul_sum]
    rw [Finset.sum_comm]
    exact Finset.sum_congr rfl fun _ _ => Finset.sum_congr rfl fun _ _ => by ring
  rw [hswap, Finset.sum_congr rfl hrows, Finset.sum_ite_eq, if_pos (Finset.mem_range.2 hr)]

/-- **A rotation back** keeps products. -/
lemma dot_mulVecT_mulVecT {n : ℕ} {R : ℕ → α} (h : Orthogonal n R) (x y : ℕ → α) :
    dot n (mulVecT n R x) (mulVecT n R y) = dot n x y := by
  rw [dot_mulVecT]
  exact dot_congr (fun r hr => mulVec_mulVecT h x hr) fun _ _ => rfl

/-! ### Equal products -/

lemma dot_single (n : ℕ) {i : ℕ} (hi : i < n) (x : ℕ → α) :
    dot n (fun j => if j = i then 1 else 0) x = x i := by
  simp only [dot, ite_mul, one_mul, zero_mul]
  rw [Finset.sum_ite_eq' (Finset.range n) i x, if_pos (Finset.mem_range.2 hi)]

lemma eq_of_dot_eq {n : ℕ} {x y : ℕ → α} (h : ∀ q, dot n q x = dot n q y) {i : ℕ} (hi : i < n) :
    x i = y i := by
  have := h fun j => if j = i then 1 else 0
  rwa [dot_single n hi, dot_single n hi] at this

/-! ### Sums of several vectors -/

/-- What the square of a sum has beyond the squares of its terms. -/
def excess (n M : ℕ) (c : ℕ → ℕ → α) : α :=
  dot n (fun i => ∑ l ∈ Finset.range M, c l i) (fun i => ∑ l ∈ Finset.range M, c l i)
    - ∑ l ∈ Finset.range M, dot n (c l) (c l)

def others (M : ℕ) (c : ℕ → ℕ → α) (l : ℕ) : ℕ → α := fun i => ∑ k ∈ (Finset.range M).erase l, c k i

lemma excess_congr {n M : ℕ} {c c' : ℕ → ℕ → α} (h : ∀ l < M, c l = c' l) :
    excess n M c = excess n M c' := by
  have hsum : (fun i => ∑ l ∈ Finset.range M, c l i) = fun i => ∑ l ∈ Finset.range M, c' l i :=
    funext fun i => Finset.sum_congr rfl fun l hl => by rw [h l (Finset.mem_range.1 hl)]
  rw [excess, excess, hsum]
  congr 1
  exact Finset.sum_congr rfl fun l hl => by rw [h l (Finset.mem_range.1 hl)]

lemma others_congr {M l : ℕ} {c c' : ℕ → ℕ → α} (h : ∀ k < M, k ≠ l → c k = c' k) :
    others M c l = others M c' l := by
  funext i
  refine Finset.sum_congr rfl fun k hk => ?_
  rw [h k (Finset.mem_range.1 (Finset.mem_of_mem_erase hk)) (Finset.ne_of_mem_erase hk)]

lemma excess_eq {M l : ℕ} (hl : l < M) (n : ℕ) (c : ℕ → ℕ → α) :
    excess n M c = 2 * dot n (others M c l) (c l)
      + (dot n (others M c l) (others M c l) - ∑ k ∈ (Finset.range M).erase l, dot n (c k) (c k)) := by
  have hmem := Finset.mem_range.2 hl
  have hsum : (fun i => ∑ k ∈ Finset.range M, c k i) = fun i => c l i + others M c l i :=
    funext fun i => (Finset.add_sum_erase _ _ hmem).symm
  have hsquare : dot n (fun i => c l i + others M c l i) (fun i => c l i + others M c l i)
      = dot n (c l) (c l) + 2 * dot n (others M c l) (c l)
        + dot n (others M c l) (others M c l) := by
    rw [dot_add, dot_comm n _ (c l), dot_comm n _ (others M c l), dot_add, dot_add,
      dot_comm n (c l) (others M c l)]
    ring
  rw [excess, hsum, hsquare, ← Finset.add_sum_erase _ _ hmem]
  ring

/-- **Replacing one term** changes the excess by its product with the others. -/
lemma excess_sub {M l : ℕ} (hl : l < M) (n : ℕ) {c c' : ℕ → ℕ → α}
    (h : ∀ k < M, k ≠ l → c k = c' k) :
    excess n M c' - excess n M c
      = 2 * (dot n (others M c l) (c' l) - dot n (others M c l) (c l)) := by
  have hrest : ∑ k ∈ (Finset.range M).erase l, dot n (c k) (c k)
      = ∑ k ∈ (Finset.range M).erase l, dot n (c' k) (c' k) :=
    Finset.sum_congr rfl fun k hk => by
      rw [h k (Finset.mem_range.1 (Finset.mem_of_mem_erase hk)) (Finset.ne_of_mem_erase hk)]
  rw [excess_eq hl, excess_eq hl, ← others_congr h, hrest]
  ring

end SextantTree.SegmentedVec
