import Mathlib.Algebra.BigOperators.Ring.Finset
import Mathlib.Algebra.Order.BigOperators.Group.Finset
import Mathlib.Tactic

/-!
Signed lanes of 32 bits that remember an overflow, and sums whose terms are spread over four of them:
the terms come in chunks of sixteen, and lane `t` takes the terms `4 * t` to `4 * t + 3` of a chunk.
-/

namespace SextantTree.SignedLanes

/-! ### Lanes -/

/-- The value of a lane, and whether a result on the way to it left the range. -/
structure Lane where
  value : Int32
  overflow : Bool
deriving DecidableEq

def Fits (z : ℤ) : Prop := -2 ^ 31 ≤ z ∧ z < 2 ^ 31

instance : DecidablePred Fits := fun z => inferInstanceAs (Decidable (-2 ^ 31 ≤ z ∧ z < 2 ^ 31))

namespace Lane

variable {a b : Lane} {x y z : ℤ}

def put (overflow : Bool) (z : ℤ) : Lane := ⟨Int32.ofInt z, overflow || !decide (Fits z)⟩

def zero : Lane := ⟨0, false⟩

def acc (a : Lane) (z : ℤ) : Lane := put a.overflow (a.value.toInt + z)

def add (a b : Lane) : Lane := put (a.overflow || b.overflow) (a.value.toInt + b.value.toInt)

def shl (a : Lane) (n : ℕ) : Lane := put a.overflow (a.value.toInt * 2 ^ n)

/-- The lane holds the number, and nothing on the way to it overflowed. -/
structure Holds (a : Lane) (z : ℤ) : Prop where
  exact : a.overflow = false
  value : a.value.toInt = z

@[simp] lemma holds_zero : zero.Holds 0 := ⟨rfl, rfl⟩

lemma holds_put {overflow : Bool} (hclean : overflow = false) (h : Fits z) :
    (put overflow z).Holds z := by
  refine ⟨?_, Int32.toInt_ofInt_of_le h.1 h.2⟩
  simp [put, hclean, h]

lemma Holds.acc (ha : a.Holds x) (h : Fits (x + z)) : (a.acc z).Holds (x + z) := by
  rw [Lane.acc, ha.value]
  exact holds_put ha.exact h

lemma Holds.add (ha : a.Holds x) (hb : b.Holds y) (h : Fits (x + y)) : (a.add b).Holds (x + y) := by
  rw [Lane.add, ha.value, hb.value]
  exact holds_put (by rw [ha.exact, hb.exact]; rfl) h

lemma Holds.shl (ha : a.Holds x) {n : ℕ} (h : Fits (x * 2 ^ n)) : (a.shl n).Holds (x * 2 ^ n) := by
  rw [Lane.shl, ha.value]
  exact holds_put ha.exact h

end Lane

/-! ### Sums over the lanes -/

section Sums

variable {f : ℕ → ℤ} {n b : ℕ} {I J : Finset ℕ}

/-- The terms of lane `t` in the chunks `I`. -/
def part (f : ℕ → ℤ) (I : Finset ℕ) (t : ℕ) : ℤ :=
  ∑ i ∈ I, ∑ k ∈ Finset.range 4, f (16 * i + 4 * t + k)

@[simp] lemma part_empty (t : ℕ) : part f ∅ t = 0 := rfl

lemma part_insert {i : ℕ} (hi : i ∉ I) (t : ℕ) :
    part f (insert i I) t = part f I t + ∑ k ∈ Finset.range 4, f (16 * i + 4 * t + k) := by
  rw [part, Finset.sum_insert hi, add_comm, part]

lemma part_union (h : Disjoint I J) (t : ℕ) : part f (I ∪ J) t = part f I t + part f J t :=
  Finset.sum_union h

lemma sum_part_range (n : ℕ) :
    ∑ t ∈ Finset.range 4, part f (Finset.range n) t = ∑ d ∈ Finset.range (16 * n), f d := by
  induction n with
  | zero => simp [part]
  | succ n ih =>
    have hchunk : ∑ t ∈ Finset.range 4, ∑ k ∈ Finset.range 4, f (16 * n + 4 * t + k) =
        ∑ d ∈ Finset.range 16, f (16 * n + d) := by
      simp only [Finset.sum_range_succ, Finset.sum_range_zero, zero_add, add_assoc, Nat.mul_zero,
        Nat.mul_one, Nat.reduceMul, Nat.reduceAdd]
    have hinsert : ∀ t, part f (Finset.range (n + 1)) t =
        part f (Finset.range n) t + ∑ k ∈ Finset.range 4, f (16 * n + 4 * t + k) := fun t => by
      rw [Finset.range_add_one, part_insert Finset.notMem_range_self]
    rw [Finset.sum_congr rfl fun t _ => hinsert t, Finset.sum_add_distrib, ih, hchunk, Nat.mul_succ,
      Finset.sum_range_add]

/-- None of the terms is larger than `b`, and those from `n` on are zero. -/
structure Small (f : ℕ → ℤ) (n b : ℕ) : Prop where
  le : ∀ d, |f d| ≤ b
  zero : ∀ d, n ≤ d → f d = 0

/-- **Whatever chunks and lanes a sum is over**, it has each of the `n` terms at most once. -/
lemma Small.abs_sum_le (h : Small f n b) (I : Finset ℕ) {T : Finset ℕ} (hT : T ⊆ Finset.range 4) :
    |∑ t ∈ T, part f I t| ≤ n * b := by
  set g : ℕ × ℕ × ℕ → ℕ := fun p => 16 * p.2.1 + 4 * p.1 + p.2.2 with hg
  set P := T ×ˢ I ×ˢ Finset.range 4 with hP
  have hsum : ∑ t ∈ T, part f I t = ∑ p ∈ P, f (g p) := by
    rw [hP, Finset.sum_product]
    refine Finset.sum_congr rfl fun t _ => ?_
    rw [part, Finset.sum_product]
  have hinj : Set.InjOn g P := by
    rintro ⟨t, i, k⟩ hp ⟨t', i', k'⟩ hp' heq
    simp only [hP, Finset.coe_product, Set.mem_prod, Finset.mem_coe, Finset.mem_range] at hp hp'
    have ht := Finset.mem_range.mp (hT hp.1)
    have ht' := Finset.mem_range.mp (hT hp'.1)
    have hk := hp.2.2
    have hk' := hp'.2.2
    simp only [hg] at heq
    have h₁ : i = i' := by omega
    have h₂ : t = t' := by omega
    have h₃ : k = k' := by omega
    rw [h₁, h₂, h₃]
  rw [hsum]
  calc |∑ p ∈ P, f (g p)| ≤ ∑ p ∈ P, |f (g p)| := Finset.abs_sum_le_sum_abs _ _
    _ = ∑ d ∈ P.image g, |f d| := by rw [Finset.sum_image hinj]
    _ = ∑ d ∈ (P.image g).filter (· < n), |f d| := by
      rw [Finset.sum_filter]
      refine Finset.sum_congr rfl fun d _ => ?_
      split_ifs with hd
      · rfl
      · rw [h.zero d (not_lt.mp hd), abs_zero]
    _ ≤ ∑ d ∈ Finset.range n, |f d| :=
      Finset.sum_le_sum_of_subset_of_nonneg
        (fun d hd => Finset.mem_range.mpr (Finset.mem_filter.mp hd).2) fun d _ _ => abs_nonneg _
    _ ≤ ∑ _d ∈ Finset.range n, (b : ℤ) := Finset.sum_le_sum fun d _ => h.le d
    _ = n * b := by simp

lemma Small.abs_part_le (h : Small f n b) (I : Finset ℕ) {t : ℕ} (ht : t < 4) :
    |part f I t| ≤ n * b := by
  have hsub : ({t} : Finset ℕ) ⊆ Finset.range 4 := by simpa using ht
  simpa using h.abs_sum_le I hsub

lemma fits_of_abs_le {z : ℤ} {m : ℕ} (h : |z| ≤ m) (hm : m < 2 ^ 31) : Fits z := by
  obtain ⟨hlow, hhigh⟩ := abs_le.mp h
  constructor <;> omega

lemma Small.fits (h : Small f n b) (hroom : n * b < 2 ^ 31) (I : Finset ℕ) {T : Finset ℕ}
    (hT : T ⊆ Finset.range 4) : Fits (∑ t ∈ T, part f I t) :=
  fits_of_abs_le (by exact_mod_cast h.abs_sum_le I hT) hroom

lemma Small.fits_part (h : Small f n b) (hroom : n * b < 2 ^ 31) (I : Finset ℕ) {t : ℕ}
    (ht : t < 4) : Fits (part f I t) :=
  fits_of_abs_le (by exact_mod_cast h.abs_part_le I ht) hroom

/-! ### Four lanes -/

/-- Four lanes hold their terms of the chunks `I`. -/
def LanesHold (f : ℕ → ℤ) (I : Finset ℕ) (l : ℕ → Lane) : Prop := ∀ t < 4, (l t).Holds (part f I t)

variable {l r : ℕ → Lane}

lemma lanesHold_empty : LanesHold f ∅ fun _ => .zero := fun _ _ => Lane.holds_zero

lemma LanesHold.insert (hl : LanesHold f I l) {i : ℕ} (hi : i ∉ I)
    (hr : ∀ t < 4, (l t).Holds (part f I t) →
      (r t).Holds (part f I t + ∑ k ∈ Finset.range 4, f (16 * i + 4 * t + k))) :
    LanesHold f (insert i I) r := fun t ht => by
  rw [part_insert hi]
  exact hr t ht (hl t ht)

lemma LanesHold.acc (hl : LanesHold f I l) (hs : Small f n b) (hroom : n * b < 2 ^ 31) {i : ℕ}
    (hi : i ∉ I) : LanesHold f (Insert.insert i I) fun t =>
      (l t).acc (∑ k ∈ Finset.range 4, f (16 * i + 4 * t + k)) :=
  hl.insert hi fun t ht hold => by
    have hfit := hs.fits_part hroom (Insert.insert i I) ht
    rw [part_insert hi] at hfit
    exact hold.acc hfit

lemma LanesHold.add (hl : LanesHold f I l) (hr : LanesHold f J r) (hs : Small f n b)
    (hroom : n * b < 2 ^ 31) (hIJ : Disjoint I J) :
    LanesHold f (I ∪ J) fun t => (l t).add (r t) := fun t ht => by
  have hfit := hs.fits_part hroom (I ∪ J) ht
  rw [part_union hIJ] at hfit ⊢
  exact (hl t ht).add (hr t ht) hfit

/-- **A run of a loop that adds one chunk a turn.** The state has the four lanes somewhere in it. -/
lemma lanesHold_foldl {σ : Type*} (view : σ → ℕ → Lane) (step : σ → ℕ → σ) {s : σ} {g : ℕ → ℕ}
    (hg : g.Injective) (h : LanesHold f I (view s)) (m : ℕ) (hnew : ∀ i < m, g i ∉ I)
    (hstep : ∀ i < m, ∀ (J : Finset ℕ) (r : σ), g i ∉ J → LanesHold f J (view r) →
      LanesHold f (insert (g i) J) (view (step r i))) :
    LanesHold f (I ∪ (Finset.range m).image g) (view ((List.range m).foldl step s)) := by
  induction m with
  | zero => simpa using h
  | succ m ih =>
    have hprev := ih (fun i hi => hnew i (by omega)) fun i hi => hstep i (by omega)
    have hfresh : g m ∉ I ∪ (Finset.range m).image g := by
      rw [Finset.mem_union, Finset.mem_image]
      rintro (hmem | ⟨j, hj, heq⟩)
      · exact hnew m (by omega) hmem
      · exact absurd (hg heq) (Nat.ne_of_lt (Finset.mem_range.mp hj))
    rw [List.range_succ, List.foldl_concat, Finset.range_add_one, Finset.image_insert,
      Finset.union_insert]
    exact hstep m (by omega) _ _ hfresh hprev

end Sums

end SextantTree.SignedLanes
