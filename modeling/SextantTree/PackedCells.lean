import Mathlib.Logic.Function.Basic
import SextantTree.ByteMem

/-!
Packed cells of byte memory: whole bytes, or two cells of four bits in a byte, the low one first. A
cell is stored, or or-ed into; a cell of a whole byte is stored in both cases. What is or-ed into a
cell that holds zero is there afterwards, and all other cells stay.
-/

namespace SextantTree.PackedCells

open ByteMem

inductive Width where
  | nibble
  | byte
deriving DecidableEq

def byteOf : Width → ℕ → ℕ
  | .nibble, a => a / 2
  | .byte, a => a

def Fits : Width → UInt8 → Prop
  | .nibble, v => v.toNat < 16
  | .byte, _ => True

def cell (w : Width) (m : Mem) (a : ℕ) : UInt8 :=
  match w with
  | .nibble => if a % 2 = 0 then m (a / 2) &&& 0x0F else m (a / 2) >>> 4
  | .byte => m a

def orCell (w : Width) (m : Mem) (a : ℕ) (v : UInt8) : Mem :=
  match w with
  | .nibble => Function.update m (a / 2) (m (a / 2) ||| if a % 2 = 0 then v else v <<< 4)
  | .byte => Function.update m a v

def setCell (w : Width) (m : Mem) (a : ℕ) (v : UInt8) : Mem :=
  match w with
  | .nibble => Function.update m (a / 2)
      (if a % 2 = 0 then (m (a / 2) &&& (0xF0 : UInt8)) ||| v
        else (m (a / 2) &&& (0x0F : UInt8)) ||| (v <<< 4))
  | .byte => Function.update m a v

/-! ### Halves of a byte -/

section Halves

variable (x v : UInt8)

lemma toNat_low : (x &&& 0x0F).toNat = x.toNat % 16 := by
  rw [UInt8.toNat_and]
  exact Nat.and_two_pow_sub_one_eq_mod x.toNat 4

lemma toNat_high : (x >>> 4).toNat = x.toNat / 16 := by
  rw [UInt8.toNat_shiftRight]
  exact Nat.shiftRight_eq_div_pow x.toNat 4

lemma toNat_or_mod : (x ||| v).toNat % 16 = x.toNat % 16 ||| v.toNat % 16 := by
  rw [UInt8.toNat_or]
  exact Nat.or_mod_two_pow (n := 4)

lemma toNat_or_div : (x ||| v).toNat / 16 = x.toNat / 16 ||| v.toNat / 16 := by
  rw [UInt8.toNat_or]
  exact Nat.or_div_two_pow (n := 4)

variable {v}

lemma toNat_shift (hv : v.toNat < 16) : (v <<< 4).toNat = v.toNat * 16 := by
  rw [UInt8.toNat_shiftLeft]
  have : v.toNat <<< 4 = v.toNat * 16 := Nat.shiftLeft_eq v.toNat 4
  show v.toNat <<< 4 % 256 = _
  omega

lemma toNat_keepHigh_mod : (x &&& 0xF0).toNat % 16 = 0 := by
  rw [UInt8.toNat_and]
  have := Nat.and_mod_two_pow (a := x.toNat) (b := 240) (n := 4)
  simpa using this

lemma toNat_keepHigh_div : (x &&& 0xF0).toNat / 16 = x.toNat / 16 := by
  have hx : x.toNat < 256 := x.toNat_lt
  rw [UInt8.toNat_and]
  have := Nat.and_div_two_pow (a := x.toNat) (b := 240) (n := 4)
  have hmod := Nat.and_two_pow_sub_one_eq_mod (x.toNat / 16) 4
  simp only [Nat.reducePow, Nat.reduceDiv, Nat.reduceSub] at this hmod
  rw [show (240 : UInt8).toNat = 240 from rfl, this, hmod, Nat.mod_eq_of_lt (by omega)]

lemma toNat_keepLow_div : (x &&& 0x0F).toNat / 16 = 0 := by
  rw [toNat_low]
  omega

end Halves

variable {w : Width} {m m' : Mem} {a b i : ℕ} {v : UInt8}

lemma fits_cell (w : Width) (m : Mem) (a : ℕ) : Fits w (cell w m a) := by
  cases w with
  | nibble =>
    have hx := (m (a / 2)).toNat_lt
    simp only [cell, Fits]
    split
    · rw [toNat_low]
      omega
    · rw [toNat_high]
      omega
  | byte => trivial

lemma toNat_nibble (m : Mem) (a : ℕ) : (cell .nibble m a).toNat =
    if a % 2 = 0 then (m (a / 2)).toNat % 16 else (m (a / 2)).toNat / 16 := by
  simp only [cell]
  split
  · exact toNat_low _
  · exact toNat_high _

lemma eq_of_cells (h : ∀ a, byteOf w a = i → cell w m a = cell w m' a) : m i = m' i := by
  cases w with
  | nibble =>
    have hlo := congrArg UInt8.toNat (h (2 * i) (by simp [byteOf]))
    have hhi := congrArg UInt8.toNat (h (2 * i + 1) (by simp only [byteOf]; omega))
    rw [toNat_nibble, toNat_nibble, if_pos (by omega), if_pos (by omega)] at hlo
    rw [toNat_nibble, toNat_nibble, if_neg (by omega), if_neg (by omega)] at hhi
    rw [show 2 * i / 2 = i by omega] at hlo
    rw [show (2 * i + 1) / 2 = i by omega] at hhi
    refine UInt8.toNat_inj.mp ?_
    omega
  | byte => exact h i rfl

/-! ### Stores -/

lemma orCell_apply_ne (h : i ≠ byteOf w a) : orCell w m a v i = m i := by
  cases w <;> exact Function.update_of_ne h _ _

lemma setCell_apply_ne (h : i ≠ byteOf w a) : setCell w m a v i = m i := by
  cases w <;> exact Function.update_of_ne h _ _

lemma parity_of_ne (hab : a ≠ b) (h : a / 2 = b / 2) : ¬ (a % 2 = 0 ↔ b % 2 = 0) := by
  omega

lemma cell_congr (h : m (byteOf w a) = m' (byteOf w a)) : cell w m a = cell w m' a := by
  cases w with
  | nibble =>
    simp only [byteOf] at h
    simp only [cell, h]
  | byte => exact h

lemma cell_zero (w : Width) (a : ℕ) : cell w (fun _ => 0) a = 0 := by
  cases w with
  | nibble => simp [cell]
  | byte => rfl

/-- **What is or-ed into zero is there.** -/
lemma cell_orCell_self (hv : Fits w v) (h : cell w m a = 0) : cell w (orCell w m a v) a = v := by
  cases w with
  | nibble =>
    have hz := congrArg UInt8.toNat h
    simp only [Fits] at hv
    refine UInt8.toNat_inj.mp ?_
    rw [toNat_nibble] at hz ⊢
    simp only [orCell, Function.update_self]
    by_cases hp : a % 2 = 0
    · rw [if_pos hp] at hz ⊢
      rw [if_pos hp, toNat_or_mod, hz]
      simpa using hv
    · rw [if_neg hp] at hz ⊢
      rw [if_neg hp, toNat_or_div, hz, toNat_shift hv]
      simp
  | byte => exact Function.update_self _ _ _

lemma cell_orCell_ne (hv : Fits w v) (hab : a ≠ b) : cell w (orCell w m a v) b = cell w m b := by
  by_cases hbyte : byteOf w b = byteOf w a
  · cases w with
    | nibble =>
      simp only [byteOf] at hbyte
      simp only [Fits] at hv
      have hpar := parity_of_ne hab hbyte.symm
      refine UInt8.toNat_inj.mp ?_
      rw [toNat_nibble, toNat_nibble, orCell, hbyte, Function.update_self]
      by_cases hp : a % 2 = 0
      · have hq : ¬ b % 2 = 0 := fun hq => hpar (iff_of_true hp hq)
        simp only [if_pos hp, if_neg hq]
        rw [toNat_or_div, Nat.div_eq_of_lt hv]
        exact Nat.or_zero _
      · have hq : b % 2 = 0 := by_contra fun hq => hpar (iff_of_false hp hq)
        simp only [if_neg hp, if_pos hq]
        rw [toNat_or_mod, toNat_shift hv]
        simp
    | byte => exact absurd hbyte.symm hab
  · exact cell_congr (orCell_apply_ne hbyte)

lemma cell_setCell_self (hv : Fits w v) : cell w (setCell w m a v) a = v := by
  cases w with
  | nibble =>
    simp only [Fits] at hv
    refine UInt8.toNat_inj.mp ?_
    rw [toNat_nibble, setCell, Function.update_self]
    by_cases hp : a % 2 = 0
    · rw [if_pos hp, if_pos hp, toNat_or_mod, toNat_keepHigh_mod, Nat.mod_eq_of_lt hv]
      exact Nat.zero_or _
    · rw [if_neg hp, if_neg hp, toNat_or_div, toNat_keepLow_div, toNat_shift hv]
      simp
  | byte => exact Function.update_self _ _ _

lemma cell_setCell_ne (hv : Fits w v) (hab : a ≠ b) : cell w (setCell w m a v) b = cell w m b := by
  by_cases hbyte : byteOf w b = byteOf w a
  · cases w with
    | nibble =>
      simp only [byteOf] at hbyte
      simp only [Fits] at hv
      have hpar := parity_of_ne hab hbyte.symm
      refine UInt8.toNat_inj.mp ?_
      rw [toNat_nibble, toNat_nibble, setCell, hbyte, Function.update_self]
      by_cases hp : a % 2 = 0
      · have hq : ¬ b % 2 = 0 := fun hq => hpar (iff_of_true hp hq)
        simp only [if_pos hp, if_neg hq]
        rw [toNat_or_div, toNat_keepHigh_div, Nat.div_eq_of_lt hv]
        exact Nat.or_zero _
      · have hq : b % 2 = 0 := by_contra fun hq => hpar (iff_of_false hp hq)
        simp only [if_neg hp, if_pos hq]
        rw [toNat_or_mod, toNat_low, toNat_shift hv]
        simp
    | byte => exact absurd hbyte.symm hab
  · exact cell_congr (setCell_apply_ne hbyte)

/-- One cell is stored: the value is there if the cell was clear, and all other cells stay. -/
structure Stores (w : Width) (m m' : Mem) (a : ℕ) (v : UInt8) : Prop where
  here : cell w m a = 0 → cell w m' a = v
  other : ∀ b, a ≠ b → cell w m' b = cell w m b
  frame : ∀ i, i ≠ byteOf w a → m' i = m i

lemma stores_orCell (hv : Fits w v) (m : Mem) (a : ℕ) : Stores w m (orCell w m a v) a v :=
  ⟨cell_orCell_self hv, fun _ hb => cell_orCell_ne hv hb, fun _ hi => orCell_apply_ne hi⟩

lemma stores_orByte (m : Mem) (a : ℕ) (v : UInt8) :
    Stores .byte m (Function.update m a (m a ||| v)) a v where
  here h := by
    simp only [cell] at h
    rw [cell, Function.update_self, h, UInt8.zero_or]
  other _ hb := Function.update_of_ne (Ne.symm hb) _ _
  frame _ hi := Function.update_of_ne hi _ _

/-! ### Loops over cells -/

section Loops

variable {a : ℕ → ℕ} {g : ℕ → UInt8} {n : ℕ}

lemma foldl_stores {f : Mem → ℕ → Mem} (hf : ∀ m s, s < n → Stores w m (f m s) (a s) (g s))
    (ha : ∀ s < n, ∀ t < n, a s = a t → s = t) (m : Mem) :
    (∀ s < n, cell w m (a s) = 0 → cell w ((List.range n).foldl f m) (a s) = g s) ∧
    (∀ b, (∀ s < n, a s ≠ b) → cell w ((List.range n).foldl f m) b = cell w m b) ∧
    ∀ i, (∀ s < n, i ≠ byteOf w (a s)) → (List.range n).foldl f m i = m i := by
  induction n with
  | zero => exact ⟨fun s hs => absurd hs (Nat.not_lt_zero s), fun _ _ => rfl, fun _ _ => rfl⟩
  | succ n ih =>
    obtain ⟨hin, hout, hframe⟩ := ih (fun m s hs => hf m s (by omega))
      (fun s hs t ht => ha s (by omega) t (by omega))
    have hlast := hf ((List.range n).foldl f m) n (by omega)
    have hfresh : ∀ t < n, a t ≠ a n := fun t ht heq => by
      have := ha t (by omega) n (by omega) heq
      omega
    simp only [List.range_succ, List.foldl_append, List.foldl_cons, List.foldl_nil]
    refine ⟨fun s hs h₀ => ?_, fun b hb => ?_, fun i hi => ?_⟩
    · by_cases hsn : s = n
      · subst hsn
        refine hlast.here ?_
        rw [hout _ hfresh]
        exact h₀
      · rw [hlast.other _ (hfresh s (by omega)).symm]
        exact hin s (by omega) h₀
    · rw [hlast.other b (hb n (by omega))]
      exact hout b fun s hs => hb s (by omega)
    · rw [hlast.frame i (hi n (by omega))]
      exact hframe i fun s hs => hi s (by omega)

lemma cell_foldl_setCell (hg : ∀ s < n, Fits w (g s)) (ha : ∀ s < n, ∀ t < n, a s = a t → s = t) :
    (∀ s < n, cell w ((List.range n).foldl (fun m s => setCell w m (a s) (g s)) m) (a s) = g s) ∧
      ∀ b, (∀ s < n, a s ≠ b) →
        cell w ((List.range n).foldl (fun m s => setCell w m (a s) (g s)) m) b = cell w m b := by
  induction n with
  | zero => exact ⟨fun s hs => absurd hs (Nat.not_lt_zero s), fun _ _ => rfl⟩
  | succ n ih =>
    obtain ⟨hin, hout⟩ := ih (fun s hs => hg s (by omega))
      (fun s hs t ht => ha s (by omega) t (by omega))
    simp only [List.range_succ, List.foldl_append, List.foldl_cons, List.foldl_nil]
    refine ⟨fun s hs => ?_, fun b hb => ?_⟩
    · by_cases hsn : s = n
      · subst hsn
        exact cell_setCell_self (hg s (by omega))
      · have hne : a n ≠ a s := fun heq => hsn (ha s (by omega) n (by omega) heq.symm)
        rw [cell_setCell_ne (hg n (by omega)) hne]
        exact hin s (by omega)
    · rw [cell_setCell_ne (hg n (by omega)) (hb n (by omega))]
      exact hout b fun s hs => hb s (by omega)

end Loops

end SextantTree.PackedCells
