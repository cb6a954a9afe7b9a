import Mathlib.Data.Nat.Bitwise
import Mathlib.Tactic

/-!
Bloom filters that carry their own size, size `0` standing for "no filter, anything may be
present". The probe positions of a key depend on the size, so two filters of different
sizes do not speak the same language: `union` takes the larger size and the union of the
bits, and `union_upper_iff` says what is left of it then.
-/

structure Bloom where
  size : ℕ
  bits : ℕ
deriving DecidableEq, Repr

namespace Bloom

variable {κ : Type*} (probe : ℕ → κ → List ℕ)

def setAll (bits : ℕ) (ps : List ℕ) : ℕ := ps.foldl (fun b p => b ||| 2 ^ p) bits

lemma testBit_setAll (bits : ℕ) (ps : List ℕ) (i : ℕ) :
    (setAll bits ps).testBit i = (bits.testBit i || decide (i ∈ ps)) := by
  induction ps generalizing bits with
  | nil => simp [setAll]
  | cons p ps ih =>
    have hstep : setAll bits (p :: ps) = setAll (bits ||| 2 ^ p) ps := rfl
    rw [hstep, ih, Nat.testBit_or, Nat.testBit_two_pow]
    by_cases hp : p = i
    · simp [hp]
    · have hp' : ¬ i = p := fun h => hp h.symm
      simp [hp, hp']

/-- The filter of size `n` that holds the given keys, written over the bits `base`. -/
def ofKeys (n base : ℕ) (keys : List κ) : Bloom where
  size := n
  bits := keys.foldl (fun b k => setAll b (probe n k)) base

lemma testBit_ofKeys (n base : ℕ) (keys : List κ) (i : ℕ) :
    (ofKeys probe n base keys).bits.testBit i = true ↔
      base.testBit i = true ∨ ∃ k ∈ keys, i ∈ probe n k := by
  simp only [ofKeys]
  induction keys generalizing base with
  | nil => simp
  | cons k keys ih =>
    rw [List.foldl_cons, ih, testBit_setAll]
    simp [or_assoc]

def mayContain (b : Bloom) (k : κ) : Bool :=
  b.size == 0 || (probe b.size k).all b.bits.testBit

lemma mayContain_iff {b : Bloom} {k : κ} :
    b.mayContain probe k = true ↔ b.size = 0 ∨ ∀ i ∈ probe b.size k, b.bits.testBit i = true := by
  simp [mayContain]

lemma mayContain_ofKeys {n base : ℕ} {keys : List κ} {k : κ} (h : k ∈ keys) :
    (ofKeys probe n base keys).mayContain probe k = true := by
  rw [mayContain_iff]
  right
  intro i hi
  exact (testBit_ofKeys probe n base keys i).mpr (Or.inr ⟨k, h, hi⟩)

def union (a b : Bloom) : Bloom := ⟨max a.size b.size, a.bits ||| b.bits⟩

/-- `k` is in the joint bits at the size `n`. -/
def Reprobed (a b : Bloom) (n : ℕ) (k : κ) : Prop :=
  ∀ i ∈ probe n k, a.bits.testBit i = true ∨ b.bits.testBit i = true

/-- What `union` needs of a filter `a` that is smaller than its partner `b`: a key it may
contain has its positions at the partner's size in the joint bits. -/
def Widens (a b : Bloom) (k : κ) : Prop :=
  a.size < b.size → a.mayContain probe k = true → Reprobed probe a b b.size k

lemma mayContain_union {a b : Bloom} {k : κ} (h : 0 < max a.size b.size) :
    (union a b).mayContain probe k = true ↔ Reprobed probe a b (max a.size b.size) k := by
  rw [mayContain_iff]
  simp only [union, Nat.testBit_or, Bool.or_eq_true, Reprobed]
  constructor
  · rintro (h₀ | h₁)
    · omega
    · exact h₁
  · exact Or.inr

lemma union_comm (a b : Bloom) : union a b = union b a := by
  simp only [union, Nat.max_comm, Nat.lor_comm]

lemma mayContain_union_of_le {a b : Bloom} {k : κ} (hsize : a.size ≤ b.size)
    (h : b.mayContain probe k = true) : (union a b).mayContain probe k = true := by
  rcases Nat.eq_zero_or_pos b.size with h₀ | h₀
  · rw [mayContain_iff]
    left
    simp only [union]
    omega
  · rw [mayContain_union probe (by omega), Nat.max_eq_right hsize]
    rw [mayContain_iff] at h
    intro i hi
    rcases h with h | h
    · omega
    · exact Or.inr (h i hi)

/-- **When `union` is an upper bound at a key.** It is unless one filter is smaller, may
contain the key, and the key's positions at the larger size are not all set. -/
theorem union_upper_iff {a b : Bloom} {k : κ} :
    (a.mayContain probe k = true ∨ b.mayContain probe k = true →
      (union a b).mayContain probe k = true) ↔ Widens probe a b k ∧ Widens probe b a k := by
  constructor
  · intro h
    constructor
    · intro hlt ha
      have := (mayContain_union probe (by omega)).mp (h (Or.inl ha))
      rwa [Nat.max_eq_right hlt.le] at this
    · intro hlt hb i hi
      have := (mayContain_union probe (by omega)).mp (h (Or.inr hb))
      rw [Nat.max_eq_left hlt.le] at this
      exact (this i hi).symm
  · rintro ⟨hab, hba⟩ (ha | hb)
    · rcases Nat.lt_or_ge a.size b.size with hlt | hge
      · rw [mayContain_union probe (by omega), Nat.max_eq_right hlt.le]
        exact hab hlt ha
      · rw [union_comm]
        exact mayContain_union_of_le probe hge ha
    · rcases Nat.lt_or_ge b.size a.size with hlt | hge
      · rw [union_comm, mayContain_union probe (by omega), Nat.max_eq_right hlt.le]
        exact hba hlt hb
      · exact mayContain_union_of_le probe hge hb

end Bloom
