import Mathlib.Data.Nat.Bitwise
import Mathlib.Algebra.BigOperators.Group.Finset.Piecewise
import Mathlib.Algebra.BigOperators.Ring.Finset
import Mathlib.Algebra.Order.BigOperators.Group.Finset
import Mathlib.Tactic.Positivity
import Mathlib.Tactic.Ring

/-!
Words as sixteen counters of four bits. A counter that is not full goes up by an addition to the word,
which leaves the others as they are; a shift and a mask halve all of them at once; and the odd ones are
counted by the usual sums of neighbouring fields.
-/

namespace SextantTree.Nibbles

/-- Counter `j` of a word. -/
def nibble (w j : ℕ) : ℕ := w / 16 ^ j % 16

lemma nibble_lt (w j : ℕ) : nibble w j < 16 := Nat.mod_lt _ (by norm_num)

lemma testBit_nibble (w j k : ℕ) :
    (nibble w j).testBit k = (decide (k < 4) && w.testBit (4 * j + k)) := by
  have hpow : (16 : ℕ) ^ j = 2 ^ (4 * j) := by rw [pow_mul]; norm_num
  rw [nibble, hpow, show (16 : ℕ) = 2 ^ 4 from rfl, Nat.testBit_mod_two_pow, Nat.testBit_div_two_pow,
    Nat.add_comm]

/-! ### Up by one -/

lemma nibble_add {w j : ℕ} (h : nibble w j ≠ 15) (i : ℕ) :
    nibble (w + 16 ^ j) i = if i = j then nibble w i + 1 else nibble w i := by
  unfold nibble at h ⊢
  rcases Nat.lt_trichotomy i j with hlt | rfl | hgt
  · obtain ⟨d, rfl⟩ := Nat.exists_eq_add_of_lt hlt
    have hpow : (16 : ℕ) ^ (i + d + 1) = 16 ^ i * (16 * 16 ^ d) := by ring
    rw [if_neg (by omega), hpow, Nat.add_mul_div_left _ _ (by positivity), Nat.add_mul_mod_self_left]
  · have hone : (w + 16 ^ i) / 16 ^ i = w / 16 ^ i + 1 :=
      Nat.add_div_right w (by positivity)
    rw [if_pos rfl, hone]
    omega
  · obtain ⟨d, rfl⟩ := Nat.exists_eq_add_of_lt hgt
    have hone : (w + 16 ^ j) / 16 ^ j = w / 16 ^ j + 1 := Nat.add_div_right w (by positivity)
    have hpow : (16 : ℕ) ^ (j + d + 1) = 16 ^ j * (16 * 16 ^ d) := by ring
    have hcarry : (w / 16 ^ j + 1) / 16 = w / 16 ^ j / 16 := by omega
    have hdiv : ∀ x, x / 16 ^ (j + d + 1) = x / 16 ^ j / 16 / 16 ^ d := fun x => by
      rw [hpow, Nat.div_div_eq_div_mul, Nat.div_div_eq_div_mul]
    rw [if_neg (by omega), hdiv, hdiv, hone, hcarry]

lemma add_lt {w j : ℕ} (hw : w < 2 ^ 64) (hj : j < 16) (h : nibble w j ≠ 15) :
    w + 16 ^ j < 2 ^ 64 := by
  unfold nibble at h
  obtain ⟨d, hd⟩ := Nat.exists_eq_add_of_lt hj
  have hpow : (2 : ℕ) ^ 64 = 16 ^ j * (16 * 16 ^ d) := by
    have h16 : (2 : ℕ) ^ 64 = 16 ^ (j + d + 1) := by rw [← hd]; norm_num
    rw [h16]
    ring
  have hpos : (0 : ℕ) < 16 ^ j := by positivity
  have hq : w / 16 ^ j < 16 * 16 ^ d := Nat.div_lt_of_lt_mul (hpow ▸ hw)
  have hsucc : w / 16 ^ j + 1 < 16 * 16 ^ d := by
    rcases Nat.lt_or_ge (w / 16 ^ j + 1) (16 * 16 ^ d) with hlt | hge
    · exact hlt
    · have : w / 16 ^ j = 16 * (16 ^ d - 1) + 15 := by
        have : 0 < (16 : ℕ) ^ d := by positivity
        omega
      omega
  have hmod := Nat.div_add_mod w (16 ^ j)
  have hr := Nat.mod_lt w hpos
  calc w + 16 ^ j = 16 ^ j * (w / 16 ^ j) + w % 16 ^ j + 16 ^ j := by rw [hmod]
    _ < 16 ^ j * (w / 16 ^ j) + 16 ^ j + 16 ^ j := by omega
    _ = 16 ^ j * (w / 16 ^ j + 1 + 1) := by ring
    _ ≤ 16 ^ j * (16 * 16 ^ d) := Nat.mul_le_mul_left _ hsucc
    _ = 2 ^ 64 := hpow.symm

/-! ### Halving -/

/-- The mask that clears the highest bit of every counter. -/
def halveMask : ℕ := 0x7777777777777777

lemma testBit_halveMask {j k : ℕ} (hj : j < 16) (hk : k < 4) :
    halveMask.testBit (4 * j + k) = decide (k < 3) := by
  have h : ∀ j, j < 16 → ∀ k, k < 4 → halveMask.testBit (4 * j + k) = decide (k < 3) := by decide
  exact h j hj k hk

lemma nibble_halve (w : ℕ) {j : ℕ} (hj : j < 16) :
    nibble (w / 2 &&& halveMask) j = nibble w j / 2 := by
  refine Nat.eq_of_testBit_eq fun k => ?_
  rw [testBit_nibble, Nat.testBit_and, Nat.testBit_div_two, Nat.testBit_div_two, testBit_nibble]
  by_cases hk : k < 4
  · rw [testBit_halveMask hj hk]
    by_cases hk' : k < 3
    · have : k + 1 < 4 := by omega
      simp [hk, hk', this, Nat.add_assoc]
    · have : ¬ k + 1 < 4 := by omega
      simp [hk', this]
  · have : ¬ k + 1 < 4 := by omega
    simp [hk, this]

/-! ### Counting the odd ones -/

/-- The mask of the lowest bit of every counter. -/
def oneMask : ℕ := 0x1111111111111111

/-- The sums of the counters of a word, and its odd counters. -/
def total (w : ℕ) : ℕ := ∑ j ∈ Finset.range 16, nibble w j

def odds (w : ℕ) : ℕ := ∑ j ∈ Finset.range 16, nibble w j % 2

lemma total_add {w j : ℕ} (h : nibble w j ≠ 15) (hj : j < 16) : total (w + 16 ^ j) = total w + 1 := by
  unfold total
  have hsplit : ∀ i ∈ Finset.range 16, nibble (w + 16 ^ j) i
      = nibble w i + if i = j then 1 else 0 := fun i _ => by
    rw [nibble_add h]
    split_ifs <;> rfl
  rw [Finset.sum_congr rfl hsplit, Finset.sum_add_distrib, Finset.sum_ite_eq',
    if_pos (Finset.mem_range.2 hj)]

lemma total_halve (w : ℕ) : total w = 2 * total (w / 2 &&& halveMask) + odds w := by
  unfold total odds
  rw [Finset.mul_sum, ← Finset.sum_add_distrib]
  refine Finset.sum_congr rfl fun j hj => ?_
  rw [nibble_halve w (Finset.mem_range.1 hj)]
  omega

lemma odds_le (w : ℕ) : odds w ≤ 16 := by
  have h : odds w ≤ ∑ _j ∈ Finset.range 16, 1 :=
    Finset.sum_le_sum fun _ _ => Nat.le_of_lt_succ (Nat.mod_lt _ (by norm_num))
  simpa using h

lemma add_div {a b j : ℕ} (h : ∀ i, i < j → nibble a i + nibble b i < 16) :
    (a + b) / 16 ^ j = a / 16 ^ j + b / 16 ^ j := by
  induction j with
  | zero => simp
  | succ j ih =>
    have hlast := h j (Nat.lt_succ_self j)
    unfold nibble at hlast
    have hdiv : ∀ x, x / 16 ^ (j + 1) = x / 16 ^ j / 16 := fun x => by
      rw [pow_succ, Nat.div_div_eq_div_mul]
    rw [hdiv, hdiv, hdiv, ih fun i hi => h i (Nat.lt_succ_of_lt hi)]
    omega

lemma nibble_add_of_small {a b j : ℕ} (h : ∀ i, i ≤ j → nibble a i + nibble b i < 16) :
    nibble (a + b) j = nibble a j + nibble b j := by
  have hlast := h j le_rfl
  unfold nibble at hlast ⊢
  rw [add_div fun i hi => h i hi.le, Nat.add_mod, Nat.mod_eq_of_lt hlast]

lemma nibble_div_sixteen (w j : ℕ) : nibble (w / 16) j = nibble w (j + 1) := by
  rw [nibble, nibble, Nat.div_div_eq_div_mul, pow_succ, Nat.mul_comm]

lemma nibble_and_oneMask (w : ℕ) {j : ℕ} (hj : j < 16) :
    nibble (w &&& oneMask) j = nibble w j % 2 := by
  have hmask : ∀ j, j < 16 → ∀ k, k < 4 → oneMask.testBit (4 * j + k) = decide (k = 0) := by decide
  refine Nat.eq_of_testBit_eq fun k => ?_
  rw [testBit_nibble, Nat.testBit_and, show (2 : ℕ) = 2 ^ 1 from rfl, Nat.testBit_mod_two_pow,
    testBit_nibble]
  by_cases hk : k < 4
  · rw [hmask j hj k hk]
    by_cases h0 : k = 0
    · simp [h0]
    · have : ¬ k < 1 := by omega
      simp [h0, this]
  · have : ¬ k < 1 := by omega
    simp [hk, this]

lemma nibble_pairs (w : ℕ) {j : ℕ} (hj : j < 15) :
    nibble ((w &&& oneMask) + (w &&& oneMask) / 16) j = nibble w j % 2 + nibble w (j + 1) % 2 := by
  have hsmall : ∀ i, i ≤ j → nibble (w &&& oneMask) i = nibble w i % 2 ∧
      nibble ((w &&& oneMask) / 16) i = nibble w (i + 1) % 2 := fun i hi =>
    ⟨nibble_and_oneMask w (by omega), by
      rw [nibble_div_sixteen, nibble_and_oneMask w (by omega)]⟩
  rw [nibble_add_of_small fun i hi => ?_, (hsmall j le_rfl).1, (hsmall j le_rfl).2]
  rw [(hsmall i hi).1, (hsmall i hi).2]
  omega

/-- The mask of the lower counter of every byte. -/
def byteMask : ℕ := 0x0f0f0f0f0f0f0f0f

lemma byte_and_byteMask (y : ℕ) {k : ℕ} (hk : k < 8) :
    (y &&& byteMask) / 256 ^ k % 256 = nibble y (2 * k) := by
  have hmask : ∀ k, k < 8 → ∀ i, i < 8 → byteMask.testBit (8 * k + i) = decide (i < 4) := by decide
  have hpow : (256 : ℕ) ^ k = 2 ^ (8 * k) := by rw [pow_mul]; norm_num
  refine Nat.eq_of_testBit_eq fun i => ?_
  rw [hpow, show (256 : ℕ) = 2 ^ 8 from rfl, Nat.testBit_mod_two_pow, Nat.testBit_div_two_pow,
    Nat.testBit_and, testBit_nibble, show 4 * (2 * k) + i = 8 * k + i by ring, Nat.add_comm i]
  by_cases hi : i < 8
  · rw [hmask k hk i hi]
    by_cases h4 : i < 4 <;> simp [hi, h4]
  · have : ¬ i < 4 := by omega
    simp [hi, this]

lemma field_of_parts {low field high : ℕ} (hlow : low < 2 ^ 56) (hfield : field < 2 ^ 8) :
    (low + 2 ^ 56 * field + 2 ^ 64 * high) % 2 ^ 64 / 2 ^ 56 = field := by
  have hlt : low + 2 ^ 56 * field < 2 ^ 64 := by omega
  rw [Nat.add_mul_mod_self_left, Nat.mod_eq_of_lt hlt, Nat.add_mul_div_left _ _ (by omega),
    Nat.div_eq_of_lt hlow, Nat.zero_add]

/-- The product of eight small bytes with `0x01…01` has their sum as its highest byte: the lower ones
do not carry. -/
lemma sum_bytes_of_eq {x c0 c1 c2 c3 c4 c5 c6 c7 : ℕ}
    (hx : x = c0 + 256 * (c1 + 256 * (c2 + 256 * (c3 + 256 * (c4 + 256 * (c5 + 256 * (c6
      + 256 * c7)))))))
    (hsum : c0 + c1 + c2 + c3 + c4 + c5 + c6 + c7 ≤ 16) :
    x * 0x0101010101010101 % 2 ^ 64 / 2 ^ 56 = c0 + c1 + c2 + c3 + c4 + c5 + c6 + c7 := by
  have hproduct : x * 0x0101010101010101
      = c0 + 256 * ((c0 + c1) + 256 * ((c0 + c1 + c2) + 256 * ((c0 + c1 + c2 + c3)
          + 256 * ((c0 + c1 + c2 + c3 + c4) + 256 * ((c0 + c1 + c2 + c3 + c4 + c5)
          + 256 * (c0 + c1 + c2 + c3 + c4 + c5 + c6))))))
        + 2 ^ 56 * (c0 + c1 + c2 + c3 + c4 + c5 + c6 + c7)
        + 2 ^ 64 * ((c1 + c2 + c3 + c4 + c5 + c6 + c7) + 256 * ((c2 + c3 + c4 + c5 + c6 + c7)
          + 256 * ((c3 + c4 + c5 + c6 + c7) + 256 * ((c4 + c5 + c6 + c7) + 256 * ((c5 + c6 + c7)
          + 256 * ((c6 + c7) + 256 * c7)))))) := by
    subst hx
    ring
  rw [hproduct]
  exact field_of_parts (by omega) (by omega)

lemma sum_bytes {x : ℕ} (hx : x < 2 ^ 64) (hb : ∀ k, k < 8 → x / 256 ^ k % 256 ≤ 2) :
    x * 0x0101010101010101 % 2 ^ 64 / 2 ^ 56 = ∑ k ∈ Finset.range 8, x / 256 ^ k % 256 := by
  have hdiv : ∀ k, x / 256 ^ k = x / 256 ^ k % 256 + 256 * (x / 256 ^ (k + 1)) := fun k => by
    rw [pow_succ, ← Nat.div_div_eq_div_mul]
    omega
  have hparts : x = x / 256 ^ 0 % 256 + 256 * (x / 256 ^ 1 % 256 + 256 * (x / 256 ^ 2 % 256
      + 256 * (x / 256 ^ 3 % 256 + 256 * (x / 256 ^ 4 % 256 + 256 * (x / 256 ^ 5 % 256
      + 256 * (x / 256 ^ 6 % 256 + 256 * (x / 256 ^ 7 % 256))))))) := by
    have htop : x / 256 ^ 8 = 0 := Nat.div_eq_of_lt hx
    have h7 : x / 256 ^ 7 = x / 256 ^ 7 % 256 := by
      have := hdiv 7
      omega
    rw [← h7, ← hdiv 6, ← hdiv 5, ← hdiv 4, ← hdiv 3, ← hdiv 2, ← hdiv 1, ← hdiv 0]
    simp
  have hsum : ∑ k ∈ Finset.range 8, x / 256 ^ k % 256 ≤ ∑ _k ∈ Finset.range 8, 2 :=
    Finset.sum_le_sum fun k hk => hb k (Finset.mem_range.1 hk)
  simp only [Finset.sum_range_succ, Finset.sum_range_zero, Nat.zero_add] at hsum ⊢
  exact sum_bytes_of_eq hparts hsum

lemma odds_eq (w : ℕ) :
    (((w &&& oneMask) + (w &&& oneMask) / 16 &&& byteMask) * 0x0101010101010101) % 2 ^ 64 / 2 ^ 56
      = odds w := by
  have hbyte : ∀ k, k < 8 → ((w &&& oneMask) + (w &&& oneMask) / 16 &&& byteMask) / 256 ^ k % 256
      = nibble w (2 * k) % 2 + nibble w (2 * k + 1) % 2 := fun k hk => by
    rw [byte_and_byteMask _ hk, nibble_pairs w (by omega)]
  have hlt : (w &&& oneMask) + (w &&& oneMask) / 16 &&& byteMask < 2 ^ 64 :=
    lt_of_le_of_lt Nat.and_le_right (by decide)
  rw [sum_bytes hlt fun k hk => by rw [hbyte k hk]; omega,
    Finset.sum_congr rfl fun k hk => hbyte k (Finset.mem_range.1 hk)]
  unfold odds
  simp only [Finset.sum_range_succ, Finset.sum_range_zero]
  ring

end SextantTree.Nibbles
