import Mathlib.Algebra.BigOperators.Group.List.Basic
import Mathlib.Tactic.Ring

/-!
Byte memory: `memcpy` in and out at a position, little-endian words, and what a region holds.
-/

namespace SextantTree.ByteMem

/-- Memory, a byte at each position. -/
abbrev Mem := ℕ → UInt8

/-- `memcpy` of `b` to position `pos`. -/
def poke (m : Mem) (pos : ℕ) (b : List UInt8) : Mem := fun i =>
  if pos ≤ i then b[i - pos]?.getD (m i) else m i

/-- The `n` bytes from `pos` on. -/
def peek (m : Mem) (pos n : ℕ) : List UInt8 := (List.range n).map fun i => m (pos + i)

/-- A word of `w` bytes, low byte first. -/
def leBytes : (w n : ℕ) → List UInt8
  | 0, _ => []
  | w + 1, n => UInt8.ofNat n :: leBytes w (n / 256)

/-- The number in some bytes, low byte first. -/
def leNat : List UInt8 → ℕ
  | [] => 0
  | b :: bs => b.toNat + 256 * leNat bs

/-- The word of `w` bytes at `pos`. -/
def word (m : Mem) (w pos : ℕ) : ℕ := leNat (peek m pos w)

@[simp] lemma length_peek (m : Mem) (pos n : ℕ) : (peek m pos n).length = n := by simp [peek]

@[simp] lemma length_leBytes (w n : ℕ) : (leBytes w n).length = w := by
  induction w generalizing n with
  | zero => rfl
  | succ w ih => simp [leBytes, ih]

lemma leNat_leBytes {w n : ℕ} (h : n < 256 ^ w) : leNat (leBytes w n) = n := by
  induction w generalizing n with
  | zero =>
    obtain rfl : n = 0 := by simpa using h
    rfl
  | succ w ih =>
    have hdiv : n / 256 < 256 ^ w := by
      rw [Nat.div_lt_iff_lt_mul (by norm_num)]
      rwa [pow_succ] at h
    rw [leBytes, leNat, ih hdiv]
    simp only [UInt8.toNat_ofNat']
    omega

/-- `m` holds the bytes `b` from `pos` on. -/
def Holds (m : Mem) (pos : ℕ) (b : List UInt8) : Prop :=
  ∀ i x, b[i]? = some x → m (pos + i) = x

lemma poke_apply_of_lt {m : Mem} {pos i : ℕ} {b : List UInt8} (h : i < pos) :
    poke m pos b i = m i := by
  rw [poke, if_neg (by omega)]

lemma poke_apply_of_le {m : Mem} {pos i : ℕ} {b : List UInt8} (h : pos + b.length ≤ i) :
    poke m pos b i = m i := by
  rw [poke, if_pos (by omega), List.getElem?_eq_none (by omega)]
  rfl

@[simp] lemma poke_nil (m : Mem) (pos : ℕ) : poke m pos [] = m := by
  funext i
  simp [poke]

lemma holds_nil (m : Mem) (pos : ℕ) : Holds m pos [] := by
  intro i x h
  simp at h

lemma holds_poke_self (m : Mem) (pos : ℕ) (b : List UInt8) : Holds (poke m pos b) pos b := by
  intro i x h
  rw [poke, if_pos (by omega), Nat.add_sub_cancel_left, h]
  rfl

namespace Holds

variable {m m' : Mem} {pos : ℕ} {b c : List UInt8}

lemma congr (h : Holds m pos b) (heq : ∀ i, pos ≤ i → i < pos + b.length → m' i = m i) :
    Holds m' pos b := by
  intro i x hx
  obtain ⟨hi, -⟩ := List.getElem?_eq_some_iff.mp hx
  rw [heq (pos + i) (by omega) (by omega)]
  exact h i x hx

lemma poke (h : Holds m pos b) {q : ℕ} (hd : q + c.length ≤ pos ∨ pos + b.length ≤ q) :
    Holds (poke m q c) pos b := by
  refine h.congr fun i h₁ h₂ => ?_
  rcases hd with hd | hd
  · exact poke_apply_of_le (by omega)
  · exact poke_apply_of_lt (by omega)

lemma peek (h : Holds m pos b) : peek m pos b.length = b := by
  refine List.ext_getElem (by simp) fun i h₁ h₂ => ?_
  simpa [ByteMem.peek] using h i b[i] (List.getElem?_eq_getElem h₂)

lemma append (hb : Holds m pos b) (hc : Holds m (pos + b.length) c) : Holds m pos (b ++ c) := by
  intro i x hx
  by_cases hi : i < b.length
  · rw [List.getElem?_append_left hi] at hx
    exact hb i x hx
  · rw [List.getElem?_append_right (by omega)] at hx
    have := hc (i - b.length) x hx
    rwa [show pos + b.length + (i - b.length) = pos + i by omega] at this

lemma left (h : Holds m pos (b ++ c)) : Holds m pos b := by
  intro i x hx
  obtain ⟨hi, -⟩ := List.getElem?_eq_some_iff.mp hx
  exact h i x (by rwa [List.getElem?_append_left hi])

lemma right (h : Holds m pos (b ++ c)) : Holds m (pos + b.length) c := by
  intro i x hx
  have := h (b.length + i) x (by rwa [List.getElem?_append_right (by omega), Nat.add_sub_cancel_left])
  rwa [← Nat.add_assoc] at this

lemma poke_end (h : Holds m pos b) {q : ℕ} (hq : q = pos + b.length) :
    Holds (ByteMem.poke m q c) pos (b ++ c) := by
  subst hq
  exact (h.poke (.inr le_rfl)).append (holds_poke_self _ _ _)

lemma word {w n : ℕ} (h : Holds m pos (leBytes w n)) (hn : n < 256 ^ w) : word m w pos = n := by
  have := h.peek
  rw [length_leBytes] at this
  rw [ByteMem.word, this, leNat_leBytes hn]

lemma slice (h : Holds m pos b) {off len : ℕ} (hb : off + len ≤ b.length) :
    ByteMem.peek m (pos + off) len = (b.drop off).take len := by
  have hsplit : b = b.take off ++ ((b.drop off).take len ++ (b.drop off).drop len) := by
    rw [List.take_append_drop, List.take_append_drop]
  rw [hsplit] at h
  have := h.right.left.peek
  rw [List.length_take, List.length_take, List.length_drop, Nat.min_eq_left (by omega),
    Nat.min_eq_left (by omega)] at this
  exact this

lemma item {α : Type*} {f : α → List UInt8} {w : ℕ} {vs : List α} {i : ℕ} {v : α}
    (h : Holds m pos (vs.flatMap f)) (hw : ∀ v ∈ vs, (f v).length = w) (hi : vs[i]? = some v) :
    Holds m (pos + w * i) (f v) := by
  induction vs generalizing pos i with
  | nil => simp at hi
  | cons x xs ih =>
    rw [List.flatMap_cons] at h
    cases i with
    | zero =>
      obtain rfl : x = v := by simpa using hi
      exact h.left
    | succ i =>
      have hx : (f x).length = w := hw x List.mem_cons_self
      have := ih h.right (fun v hv => hw v (List.mem_cons_of_mem _ hv)) (by simpa using hi)
      rwa [hx, show pos + w + w * i = pos + w * (i + 1) by ring] at this

end Holds

lemma length_flatMap_const {α β : Type*} {f : α → List β} {w : ℕ} {vs : List α}
    (hw : ∀ v ∈ vs, (f v).length = w) : (vs.flatMap f).length = w * vs.length := by
  rw [List.length_flatMap, List.map_congr_left hw]
  simp [mul_comm]

lemma leNat_lt (b : List UInt8) : leNat b < 256 ^ b.length := by
  induction b with
  | nil => simp [leNat]
  | cons x b ih =>
    have hx : x.toNat < 256 := x.toNat_lt
    rw [leNat, List.length_cons, pow_succ]
    omega

lemma word_lt (m : Mem) (w pos : ℕ) : word m w pos < 256 ^ w := by
  have := leNat_lt (peek m pos w)
  rwa [length_peek] at this

lemma word_congr {m m' : Mem} {w p : ℕ} (h : ∀ i, p ≤ i → i < p + w → m' i = m i) :
    word m' w p = word m w p := by
  unfold word
  congr 1
  refine List.map_congr_left fun i hi => ?_
  rw [List.mem_range] at hi
  exact h (p + i) (by omega) (by omega)

lemma word_poke {m : Mem} {pos w off : ℕ} {b : List UInt8}
    (h : off + w ≤ pos ∨ pos + b.length ≤ off) : word (poke m pos b) w off = word m w off := by
  refine word_congr fun i h₁ h₂ => ?_
  rcases h with h | h
  · exact poke_apply_of_lt (by omega)
  · exact poke_apply_of_le (by omega)

lemma word_poke_self {m : Mem} {pos w n : ℕ} (hn : n < 256 ^ w) :
    word (poke m pos (leBytes w n)) w pos = n :=
  (holds_poke_self m pos _).word hn

lemma poke_peek_apply (m b : Mem) (pos q n i : ℕ) :
    poke m pos (peek b q n) i = if pos ≤ i ∧ i < pos + n then b (q + (i - pos)) else m i := by
  by_cases hi : pos ≤ i
  · by_cases hn : i < pos + n
    · rw [if_pos ⟨hi, hn⟩, poke, if_pos hi, peek, List.getElem?_map, List.getElem?_range (by omega)]
      rfl
    · rw [if_neg (by omega), poke_apply_of_le (by rw [length_peek]; omega)]
  · rw [if_neg (by omega), poke_apply_of_lt (by omega)]

/-- A loop whose rounds write regions of their own, and read nothing of the memory but these: each
region is as if its round had been the only one. -/
lemma foldl_local {f : Mem → ℕ → Mem} {R : ℕ → ℕ → Prop} {n : ℕ}
    (hdisj : ∀ s < n, ∀ t < n, ∀ p, R s p → R t p → s = t)
    (hframe : ∀ m t p, t < n → ¬ R t p → f m t p = m p)
    (hlocal : ∀ m m' t, t < n → (∀ p, R t p → m p = m' p) → ∀ p, R t p → f m t p = f m' t p)
    (m : Mem) :
    (∀ t < n, ∀ p, R t p → (List.range n).foldl f m p = f m t p) ∧
      ∀ p, (∀ t < n, ¬ R t p) → (List.range n).foldl f m p = m p := by
  induction n with
  | zero => exact ⟨fun t ht => absurd ht (Nat.not_lt_zero t), fun _ _ => rfl⟩
  | succ n ih =>
    obtain ⟨hin, hout⟩ := ih (fun s hs t ht => hdisj s (by omega) t (by omega))
      (fun m t p ht => hframe m t p (by omega)) fun m m' t ht => hlocal m m' t (by omega)
    simp only [List.range_succ, List.foldl_append, List.foldl_cons, List.foldl_nil]
    refine ⟨fun t ht p hp => ?_, fun p hp => ?_⟩
    · by_cases htn : t = n
      · subst htn
        refine hlocal _ _ t (by omega) (fun q hq => hout q fun s hs hsq => ?_) p hp
        have := hdisj s (by omega) t (by omega) q hsq hq
        omega
      · rw [hframe _ n p (by omega) fun hn => htn (hdisj t ht n (by omega) p hp hn)]
        exact hin t (by omega) p hp
    · rw [hframe _ n p (by omega) (hp n (by omega))]
      exact hout p fun t ht => hp t (by omega)

lemma row_lt {i n k w : ℕ} (hi : i < n) (hk : k < w) : i * w + k < n * w := by
  have := Nat.mul_le_mul_right w (show i + 1 ≤ n from hi)
  rw [Nat.add_mul, Nat.one_mul] at this
  omega

lemma row_inj {i j k l w : ℕ} (hk : k < w) (hl : l < w) (h : i * w + k = j * w + l) : i = j := by
  have hdiv := congrArg (· / w) h
  simp only [Nat.mul_comm _ w] at hdiv
  rwa [Nat.mul_add_div (by omega), Nat.mul_add_div (by omega), Nat.div_eq_of_lt hk,
    Nat.div_eq_of_lt hl, Nat.add_zero, Nat.add_zero] at hdiv

/-! ### Pieces laid out one after the other -/

/-- The sizes of the first `n` pieces together. -/
def total (f : ℕ → ℕ) (n : ℕ) : ℕ := ((List.range n).map f).sum

@[simp] lemma total_zero (f : ℕ → ℕ) : total f 0 = 0 := rfl

lemma total_succ (f : ℕ → ℕ) (n : ℕ) : total f (n + 1) = total f n + f n := by
  simp [total, List.range_succ]

lemma total_mono (f : ℕ → ℕ) {n k : ℕ} (h : n ≤ k) : total f n ≤ total f k := by
  induction k, h using Nat.le_induction with
  | base => exact le_rfl
  | succ k _ ih => rw [total_succ]; omega

lemma total_add_le (f : ℕ → ℕ) {i n : ℕ} (h : i < n) : total f i + f i ≤ total f n :=
  (total_succ f i).symm.le.trans (total_mono f h)

lemma flatMap_range_succ {α : Type*} (g : ℕ → List α) (n : ℕ) :
    (List.range (n + 1)).flatMap g = (List.range n).flatMap g ++ g n := by
  simp [List.range_succ, List.flatMap_append]

lemma length_flatMap_range {α : Type*} {g : ℕ → List α} {f : ℕ → ℕ} {n : ℕ}
    (hg : ∀ i < n, (g i).length = f i) : ((List.range n).flatMap g).length = total f n := by
  rw [List.length_flatMap, total]
  refine congrArg List.sum (List.map_congr_left fun i hi => hg i (List.mem_range.mp hi))

lemma slice_flatMap_range {α : Type*} {g : ℕ → List α} {f : ℕ → ℕ} {n i : ℕ}
    (hg : ∀ i < n, (g i).length = f i) (hi : i < n) :
    (((List.range n).flatMap g).drop (total f i)).take (f i) = g i := by
  obtain ⟨k, rfl⟩ : ∃ k, n = i + 1 + k := ⟨n - (i + 1), by omega⟩
  rw [show i + 1 + k = i + (k + 1) by omega, List.range_add, List.flatMap_append,
    ← length_flatMap_range fun j hj => hg j (by omega), List.drop_left, List.range_succ_eq_map,
    List.map_cons, List.flatMap_cons, add_zero, ← hg i hi, List.take_left]

lemma Holds.piece {m : Mem} {pos : ℕ} {g : ℕ → List UInt8} {f : ℕ → ℕ} {n i : ℕ}
    (h : Holds m pos ((List.range n).flatMap g)) (hg : ∀ i < n, (g i).length = f i) (hi : i < n) :
    Holds m (pos + total f i) (g i) := by
  intro j x hj
  obtain ⟨hlt, -⟩ := List.getElem?_eq_some_iff.mp hj
  rw [Nat.add_assoc]
  refine h _ x ?_
  have hs := slice_flatMap_range hg hi
  rw [← hs, List.getElem?_take_of_lt (by rw [← hg i hi]; exact hlt), List.getElem?_drop] at hj
  exact hj

end SextantTree.ByteMem
