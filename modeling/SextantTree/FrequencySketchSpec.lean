import SextantTree.FrequencySketch
import SextantTree.Nibbles

/-!
The counters of the frequency sketch. An addition raises the four counters of its key and no other, a
reset halves each counter, so a counter is never below the count of any key that uses it. The counters
of the table add up to no more than four for each addition that `size_` counts, and three, so the
correction of a reset is never more than `size_`.
-/

namespace SextantTree.FrequencySketch

open Nibbles

/-! ### Words -/

section Words

variable {w : UInt64} {index : UInt32}

lemma toNat_offset (h : index.toNat < 16) : ((index <<< 2).toUInt64).toNat = 4 * index.toNat := by
  rw [UInt32.toNat_toUInt64, UInt32.toNat_shiftLeft, Nat.shiftLeft_eq]
  have : (2 : UInt32).toNat % 32 = 2 := rfl
  rw [this]
  omega

lemma pow_four_mul (j : ℕ) : 2 ^ (4 * j) = 16 ^ j := by
  rw [pow_mul]
  norm_num

lemma toNat_counter (h : index.toNat < 16) :
    ((w >>> (index <<< 2).toUInt64) &&& 0xf).toUInt32.toNat = nibble w.toNat index.toNat := by
  have hoffset := toNat_offset h
  have hmask : (0xf : UInt64).toNat = 2 ^ 4 - 1 := rfl
  have hlt : w.toNat / 16 ^ index.toNat % 16 < 2 ^ 32 := by omega
  rw [UInt64.toNat_toUInt32, UInt64.toNat_and, UInt64.toNat_shiftRight, hoffset, hmask,
    Nat.and_two_pow_sub_one_eq_mod, Nat.mod_eq_of_lt (by omega : 4 * index.toNat < 64),
    Nat.shiftRight_eq_div_pow, pow_four_mul]
  exact Nat.mod_eq_of_lt hlt

lemma toNat_mask (h : index.toNat < 16) :
    ((0xf : UInt64) <<< (index <<< 2).toUInt64).toNat = 15 * 16 ^ index.toNat := by
  have hoffset := toNat_offset h
  have hle : (16 : ℕ) ^ index.toNat ≤ 16 ^ 15 := Nat.pow_le_pow_right (by norm_num) (by omega)
  rw [UInt64.toNat_shiftLeft, hoffset, Nat.mod_eq_of_lt (by omega : 4 * index.toNat < 64),
    Nat.shiftLeft_eq, pow_four_mul, show (0xf : UInt64).toNat = 15 from rfl]
  exact Nat.mod_eq_of_lt (by norm_num at hle ⊢; omega)

lemma toNat_increment (h : index.toNat < 16) :
    ((1 : UInt64) <<< (index <<< 2).toUInt64).toNat = 16 ^ index.toNat := by
  have hoffset := toNat_offset h
  have hle : (16 : ℕ) ^ index.toNat ≤ 16 ^ 15 := Nat.pow_le_pow_right (by norm_num) (by omega)
  rw [UInt64.toNat_shiftLeft, hoffset, Nat.mod_eq_of_lt (by omega : 4 * index.toNat < 64),
    Nat.shiftLeft_eq, pow_four_mul, show (1 : UInt64).toNat = 1 from rfl, Nat.one_mul]
  exact Nat.mod_eq_of_lt (by norm_num at hle ⊢; omega)

lemma and_mask_eq_iff (a j : ℕ) : a &&& 15 * 16 ^ j = 15 * 16 ^ j ↔ nibble a j = 15 := by
  have hand : a &&& 15 * 16 ^ j = nibble a j * 16 ^ j := by
    rw [← pow_four_mul]
    refine Nat.eq_of_testBit_eq fun k => ?_
    rw [Nat.testBit_and, Nat.testBit_mul_two_pow, Nat.testBit_mul_two_pow, testBit_nibble,
      show 15 = 2 ^ 4 - 1 from rfl, Nat.testBit_two_pow_sub_one]
    by_cases hk : 4 * j ≤ k
    · simp [hk, Bool.and_comm]
    · simp [hk]
  rw [hand]
  have hpos : 0 < 16 ^ j := by positivity
  exact ⟨fun h => Nat.eq_of_mul_eq_mul_right hpos h, fun h => by rw [h]⟩

lemma saturated_iff (h : index.toNat < 16) :
    w &&& ((0xf : UInt64) <<< (index <<< 2).toUInt64) = (0xf : UInt64) <<< (index <<< 2).toUInt64
      ↔ nibble w.toNat index.toNat = 15 := by
  rw [← UInt64.toNat_inj, UInt64.toNat_and, toNat_mask h, and_mask_eq_iff]

lemma toNat_incremented (h : index.toNat < 16) (hlow : nibble w.toNat index.toNat ≠ 15) :
    (w + (1 : UInt64) <<< (index <<< 2).toUInt64).toNat = w.toNat + 16 ^ index.toNat := by
  rw [UInt64.toNat_add, toNat_increment h]
  exact Nat.mod_eq_of_lt (add_lt (UInt64.toNat_lt w) h hlow)

lemma toNat_halved : ((w >>> 1) &&& resetMask).toNat = w.toNat / 2 &&& halveMask := by
  rw [UInt64.toNat_and, UInt64.toNat_shiftRight, Nat.shiftRight_eq_div_pow]
  rfl

lemma toNat_popcount (w : UInt64) : (popcount (w &&& oneMask)).toNat = odds w.toNat := by
  have hshift : ∀ mask : UInt64, ∀ k : UInt64, (oneMask >>> k) &&& mask = 0 →
      ((w &&& oneMask) >>> k) &&& mask = 0 := fun mask k h => by
    rw [UInt64.shiftRight_and, UInt64.and_assoc, h, UInt64.and_zero]
  have h1 := hshift 0x5555555555555555 1 (by decide)
  have h2 := hshift 0x3333333333333333 2 (by decide)
  have hkeep : (w &&& oneMask) &&& 0x3333333333333333 = w &&& oneMask := by
    rw [UInt64.and_assoc]
    rfl
  have hsum : ((w &&& oneMask) + ((w &&& oneMask) >>> 4)).toNat
      = (w.toNat &&& Nibbles.oneMask) + (w.toNat &&& Nibbles.oneMask) / 16 := by
    have hle : w.toNat &&& Nibbles.oneMask ≤ Nibbles.oneMask := Nat.and_le_right
    rw [UInt64.toNat_add, UInt64.toNat_shiftRight, Nat.shiftRight_eq_div_pow, UInt64.toNat_and]
    refine Nat.mod_eq_of_lt ?_
    change (w.toNat &&& Nibbles.oneMask) + (w.toNat &&& Nibbles.oneMask) / 16 < 2 ^ 64
    unfold Nibbles.oneMask at hle ⊢
    omega
  unfold popcount
  dsimp only
  rw [h1, UInt64.sub_zero, hkeep, h2, UInt64.add_zero, UInt64.toNat_shiftRight, UInt64.toNat_mul,
    UInt64.toNat_and, hsum, Nat.shiftRight_eq_div_pow, ← odds_eq]
  rfl

end Words

/-! ### The table -/

/-- Counter `j` of a slot. -/
def counter (t : List UInt64) (slot j : ℕ) : ℕ := nibble (t.getD slot 0).toNat j

/-- The sum of all counters, and the number of the odd ones. -/
def tableTotal (t : List UInt64) : ℕ := (t.map fun w => total w.toNat).sum

def tableOdds (t : List UInt64) : ℕ := (t.map fun w => odds w.toNat).sum

section Table

variable {t : List UInt64} {i j : UInt32}

lemma counter_le (t : List UInt64) (slot j : ℕ) : counter t slot j ≤ 15 :=
  Nat.le_of_lt_succ (nibble_lt _ _)

lemma tableTotal_set {slot : ℕ} {w w' : UInt64} (h : t[slot]? = some w)
    (htotal : total w'.toNat = total w.toNat + 1) :
    tableTotal (t.set slot w') = tableTotal t + 1 := by
  induction t generalizing slot with
  | nil => simp at h
  | cons v t ih =>
    unfold tableTotal at ih ⊢
    cases slot with
    | zero =>
      obtain rfl : v = w := by simpa using h
      rw [List.set_cons_zero, List.map_cons, List.map_cons, List.sum_cons, List.sum_cons, htotal]
      omega
    | succ slot =>
      rw [List.set_cons_succ, List.map_cons, List.map_cons, List.sum_cons, List.sum_cons,
        ih (by simpa using h)]
      omega

lemma incrementAt_spec (hi : i.toNat < t.length) (hj : j.toNat < 16) :
    ∃ t' added, incrementAt t i j = some (t', added) ∧ t'.length = t.length ∧
      (∀ slot k, counter t' slot k = if slot = i.toNat ∧ k = j.toNat then min 15 (counter t slot k + 1)
        else counter t slot k) ∧
      tableTotal t' ≤ tableTotal t + 1 ∧ (added = false → t' = t) := by
  have hget : t[i.toNat]? = some t[i.toNat] := List.getElem?_eq_getElem hi
  have hcounter : counter t i.toNat j.toNat = nibble t[i.toNat].toNat j.toNat := by
    rw [counter, List.getD_eq_getElem?_getD, hget]
    rfl
  by_cases hfull : nibble t[i.toNat].toNat j.toNat = 15
  · refine ⟨t, false, ?_, rfl, fun slot k => ?_, Nat.le_succ _, fun _ => rfl⟩
    · have htest := (saturated_iff hj).2 hfull
      simp only [incrementAt, hget, Option.bind_eq_bind, Option.bind_some, htest, if_true]
      rfl
    · split_ifs with hat
      · obtain ⟨rfl, rfl⟩ := hat
        rw [hcounter, hfull]
        rfl
      · rfl
  · have hword := toNat_incremented hj hfull
    refine ⟨t.set i.toNat (t[i.toNat] + (1 : UInt64) <<< (j <<< 2).toUInt64), true, ?_,
      List.length_set, fun slot k => ?_, ?_, fun h => nomatch h⟩
    · have htest := mt (saturated_iff hj).1 hfull
      simp only [incrementAt, hget, Option.bind_eq_bind, Option.bind_some, if_neg htest]
      rfl
    · by_cases hslot : slot = i.toNat
      · subst hslot
        have hnew : counter (t.set i.toNat (t[i.toNat] + (1 : UInt64) <<< (j <<< 2).toUInt64))
            i.toNat k = if k = j.toNat then counter t i.toNat k + 1 else counter t i.toNat k := by
          simp only [counter, List.getD_eq_getElem?_getD, List.getElem?_set_self hi, hget,
            Option.getD_some]
          rw [hword, nibble_add hfull]
        rw [hnew]
        by_cases hk : k = j.toNat
        · subst hk
          have hlt : counter t i.toNat j.toNat ≤ 15 := counter_le _ _ _
          have hne : counter t i.toNat j.toNat ≠ 15 := hcounter ▸ hfull
          rw [if_pos rfl, if_pos ⟨rfl, rfl⟩]
          omega
        · rw [if_neg hk, if_neg fun h => hk h.2]
      · rw [if_neg fun h => hslot h.1]
        simp only [counter, List.getD_eq_getElem?_getD, List.getElem?_set_ne (Ne.symm hslot)]
    · rw [tableTotal_set hget (by rw [hword, total_add hfull hj])]

lemma counter_halved (t : List UInt64) (slot : ℕ) {k : ℕ} (hk : k < 16) :
    counter (t.map fun (w : UInt64) => (w >>> 1) &&& resetMask) slot k = counter t slot k / 2 := by
  simp only [counter, List.getD_eq_getElem?_getD, List.getElem?_map]
  cases t[slot]? with
  | none => simp [nibble]
  | some w =>
    simp only [Option.map_some, Option.getD_some]
    rw [toNat_halved, nibble_halve _ hk]

lemma tableTotal_halved (t : List UInt64) :
    tableTotal t = 2 * tableTotal (t.map fun (w : UInt64) => (w >>> 1) &&& resetMask) + tableOdds t := by
  unfold tableTotal tableOdds
  induction t with
  | nil => rfl
  | cons w t ih =>
    simp only [List.map_cons, List.sum_cons, List.map_map] at ih ⊢
    rw [toNat_halved, total_halve w.toNat]
    omega

lemma toNat_oddCounters (ht : t.length < 2 ^ 32) : (oddCounters t).toNat = tableOdds t := by
  have hloop : ∀ ws : List UInt64, ∀ count : UInt64, count.toNat + 16 * ws.length < 2 ^ 64 →
      (ws.foldl (fun (count slot : UInt64) => count + popcount (slot &&& oneMask)) count).toNat
        = count.toNat + tableOdds ws := by
    intro ws
    induction ws with
    | nil => simp [tableOdds]
    | cons w ws ih =>
      intro count hcount
      have hodds := odds_le w.toNat
      rw [List.length_cons] at hcount
      have hstep : (count + popcount (w &&& oneMask)).toNat = count.toNat + odds w.toNat := by
        rw [UInt64.toNat_add, toNat_popcount]
        exact Nat.mod_eq_of_lt (by omega)
      rw [List.foldl_cons, ih _ (by rw [hstep]; omega), hstep]
      unfold tableOdds
      rw [List.map_cons, List.sum_cons]
      omega
  have h := hloop t 0 (by simp; omega)
  simpa [oddCounters] using h

end Table

/-! ### The counters of a key -/

section Key

variable {mask : UInt32} {t : List UInt64}

lemma mem_rows {i : UInt32} : i ∈ rows ↔ i = 0 ∨ i = 1 ∨ i = 2 ∨ i = 3 := by simp [rows]

lemma counterOf_spec (hmask : 8 * (mask.toNat + 1) < 2 ^ 32) (key : UInt64) :
    ∃ block, block ≤ mask.toNat ∧ ∀ i ∈ rows, (counterOf mask key i).2.toNat < 16 ∧
      ∃ b, b < 2 ∧ (counterOf mask key i).1.toNat = 8 * block + b + 2 * i.toNat := by
  refine ⟨(spread key.toUInt32 &&& mask).toNat, ?_, fun i hi => ⟨?_, ?_⟩⟩
  · rw [UInt32.toNat_and]
    exact Nat.and_le_right
  · unfold counterOf
    dsimp only
    rw [UInt32.toNat_and]
    exact Nat.lt_of_le_of_lt Nat.and_le_right (by decide)
  · have hblock : (spread key.toUInt32 &&& mask).toNat ≤ mask.toNat := by
      rw [UInt32.toNat_and]
      exact Nat.and_le_right
    have hrow : i.toNat < 4 ∧ (i <<< 1).toNat = 2 * i.toNat := by
      rcases mem_rows.1 hi with rfl | rfl | rfl | rfl <;> decide
    refine ⟨((rehash (spread key.toUInt32) >>> (i <<< 3)) &&& (1 : UInt32)).toNat, ?_, ?_⟩
    · rw [UInt32.toNat_and]
      exact Nat.lt_of_le_of_lt Nat.and_le_right (by decide)
    · have hbit : ((rehash (spread key.toUInt32) >>> (i <<< 3)) &&& (1 : UInt32)).toNat ≤ 1 := by
        rw [UInt32.toNat_and]
        exact Nat.and_le_right
      have hshift : ((spread key.toUInt32 &&& mask) <<< 3).toNat
          = 8 * (spread key.toUInt32 &&& mask).toNat := by
        rw [UInt32.toNat_shiftLeft, Nat.shiftLeft_eq, show (3 : UInt32).toNat % 32 = 3 from rfl]
        omega
      unfold counterOf
      dsimp only
      rw [UInt32.toNat_add, UInt32.toNat_add, hshift, hrow.2]
      omega

def Uses (mask : UInt32) (key : UInt64) (is : List UInt32) (slot k : ℕ) : Prop :=
  ∃ i ∈ is, slot = (counterOf mask key i).1.toNat ∧ k = (counterOf mask key i).2.toNat

lemma incrementRows_spec (hmask : 8 * (mask.toNat + 1) ≤ t.length) (ht : t.length < 2 ^ 32)
    (key : UInt64) (is : List UInt32) (his : ∀ i ∈ is, i ∈ rows) (hnodup : is.Nodup)
    (before : Bool) :
    ∃ t' added, is.foldlM (fun (x : List UInt64 × Bool) i => do
        let (slot, index) := counterOf mask key i
        let (t, a) ← incrementAt x.1 slot index
        return (t, x.2 || a)) (t, before) = some (t', added) ∧ t'.length = t.length ∧
      (∀ slot k, (Uses mask key is slot k → counter t' slot k = min 15 (counter t slot k + 1)) ∧
        (¬ Uses mask key is slot k → counter t' slot k = counter t slot k)) ∧
      tableTotal t' ≤ tableTotal t + is.length ∧ (added = false → t' = t ∧ before = false) := by
  induction is generalizing t before with
  | nil =>
    refine ⟨t, before, rfl, rfl, fun slot k => ⟨?_, fun _ => rfl⟩, le_rfl, fun h => ⟨rfl, h⟩⟩
    rintro ⟨i, hi, -⟩
    cases hi
  | cons i is ih =>
    obtain ⟨block, hblock, hrows⟩ := counterOf_spec (by omega : 8 * (mask.toNat + 1) < 2 ^ 32) key
    obtain ⟨hindex, b, hb, hslot⟩ := hrows i (his i List.mem_cons_self)
    have hi4 : i.toNat < 4 := by
      rcases mem_rows.1 (his i List.mem_cons_self) with rfl | rfl | rfl | rfl <;> decide
    have hrow : (counterOf mask key i).1.toNat < t.length := by
      rw [hslot]
      omega
    obtain ⟨t₁, a, hinc, hlen, hcounter, htotal, hsame⟩ := incrementAt_spec hrow hindex
    obtain ⟨t', added, hfold, hlen', hcounter', htotal', hsame'⟩ := ih (t := t₁) (by omega) (by omega)
      (fun j hj => his j (List.mem_cons_of_mem i hj)) (List.nodup_cons.1 hnodup).2 (before || a)
    have hapart : ∀ slot k, Uses mask key is slot k → slot ≠ (counterOf mask key i).1.toNat := by
      rintro slot k ⟨j, hj, rfl, -⟩ heq
      obtain ⟨-, b', hb', hslot'⟩ := hrows j (his j (List.mem_cons_of_mem i hj))
      have hne : i.toNat ≠ j.toNat := fun h =>
        (List.nodup_cons.1 hnodup).1 (UInt32.toNat_inj.1 h ▸ hj)
      omega
    refine ⟨t', added, ?_, hlen'.trans hlen, fun slot k => ⟨?_, ?_⟩, ?_, ?_⟩
    · rw [List.foldlM_cons]
      simp only [hinc, Option.bind_eq_bind, Option.bind_some, Option.pure_def]
      exact hfold
    · rintro ⟨j, hj, hslot', hk'⟩
      rcases List.mem_cons.1 hj with rfl | hj
      · have hfree : ¬ Uses mask key is slot k := fun huse => hapart slot k huse hslot'
        rw [(hcounter' slot k).2 hfree, hcounter slot k, if_pos ⟨hslot', hk'⟩]
      · have huse : Uses mask key is slot k := ⟨j, hj, hslot', hk'⟩
        rw [(hcounter' slot k).1 huse, hcounter slot k, if_neg fun h => hapart slot k huse h.1]
    · intro hfree
      have hnot : ¬ Uses mask key is slot k := fun ⟨j, hj, h⟩ =>
        hfree ⟨j, List.mem_cons_of_mem i hj, h⟩
      rw [(hcounter' slot k).2 hnot, hcounter slot k,
        if_neg fun h => hfree ⟨i, List.mem_cons_self, h⟩]
    · rw [List.length_cons]
      omega
    · intro hnone
      obtain ⟨rfl, hbefore⟩ := hsame' hnone
      obtain ⟨hbefore, ha⟩ := Bool.or_eq_false_iff.1 hbefore
      exact ⟨hsame ha, hbefore⟩

end Key

end SextantTree.FrequencySketch
