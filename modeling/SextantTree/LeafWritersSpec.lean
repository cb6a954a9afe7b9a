import SextantTree.LeafCodesSpec
import SextantTree.LeafWriters

/-!
What the writers of a leaf leave behind, family by family: the rows of codes and biases, the state of
the leaf and the row ids are at the places that the layout gives for the number of rows, and nothing
else is touched.
-/

namespace SextantTree.LeafCodes

open ByteMem PackedCells

/-! ### Flat rows -/

/-- Codes of `cs` bytes one after the other, and behind them a bias of two bytes for each. -/
structure FlatRows (cs : ℕ) (hasIpBias : Bool) (base count : ℕ) (m : Mem)
    (code bias : ℕ → ℕ → UInt8) : Prop where
  codes : ∀ i < count, ∀ k < cs, m (base + (i * cs + k)) = code i k
  biases : hasIpBias = true → ∀ i < count, ∀ k < 2, m (base + count * cs + (i * 2 + k)) = bias i k

section Flat

variable {cs base count : ℕ} {hasIpBias : Bool} {m : Mem}

/-- A byte of the biases: what the caller gives, or what was there. -/
def biasByte (biases : Option Mem) (m : Mem) (pos j : ℕ) : UInt8 :=
  match biases with
  | some b => b j
  | none => m (pos + j)

lemma putBiases_apply (hasIpBias : Bool) (pos count : ℕ) (biases : Option Mem) (m : Mem) (p : ℕ) :
    putBiases hasIpBias pos count biases m p =
      if pos ≤ p ∧ p < pos + scalarBiasBytes count hasIpBias then biasByte biases m pos (p - pos)
      else m p := by
  cases biases with
  | none =>
    simp only [putBiases, biasByte]
    split
    · congr 1
      omega
    · rfl
  | some b =>
    cases hasIpBias with
    | false => simp only [putBiases, scalarBiasBytes, Bool.false_eq_true, if_false, Nat.add_zero,
        if_neg (show ¬ (pos ≤ p ∧ p < pos) by omega)]
    | true => simp only [putBiases, scalarBiasBytes, if_true, poke_peek_apply, biasByte, Nat.zero_add]

lemma scalarBiasBytes_of_true (h : hasIpBias = true) (count : ℕ) :
    scalarBiasBytes count hasIpBias = count * 2 := by
  rw [scalarBiasBytes, if_pos h]

lemma flatRows_copy (codes : Mem) (biases : Option Mem) (cs base count : ℕ) (hasIpBias : Bool)
    (m : Mem) :
    FlatRows cs hasIpBias base count
      (putBiases hasIpBias (base + count * cs) count biases (poke m base (peek codes 0 (count * cs))))
      (fun i k => codes (i * cs + k)) (fun i k => biasByte biases m (base + count * cs) (i * 2 + k)) ∧
    ∀ p, p < base ∨ base + count * cs + scalarBiasBytes count hasIpBias ≤ p →
      putBiases hasIpBias (base + count * cs) count biases
        (poke m base (peek codes 0 (count * cs))) p = m p := by
  refine ⟨⟨fun i hi k hk => ?_, fun hb i hi k hk => ?_⟩, fun p hp => ?_⟩
  · have := row_lt hi hk
    rw [putBiases_apply, if_neg (by omega), poke_peek_apply, if_pos (by omega)]
    congr 1
    omega
  · have := row_lt hi hk
    rw [putBiases_apply, scalarBiasBytes_of_true hb, if_pos (by omega), Nat.add_sub_cancel_left]
    cases biases with
    | none =>
      simp only [biasByte]
      rw [poke_peek_apply, if_neg (by omega)]
    | some b => rfl
  · rw [putBiases_apply, if_neg (by omega), poke_peek_apply, if_neg (by omega)]

end Flat

/-! ### Appending flat rows -/

/-- A write to `cs` bytes at a position that reads nothing else. -/
structure LocalPut (cs : ℕ) (put : ℕ → Mem → Mem) : Prop where
  frame : ∀ pos m p, p < pos ∨ pos + cs ≤ p → put pos m p = m p
  inside : ∀ pos m m', (∀ p, pos ≤ p → p < pos + cs → m p = m' p) →
    ∀ p, pos ≤ p → p < pos + cs → put pos m p = put pos m' p

lemma localPut_poke (cs : ℕ) (code : Mem) :
    LocalPut cs (fun pos m => poke m pos (peek code 0 cs)) where
  frame pos m p hp := by
    rw [poke_peek_apply, if_neg (by omega)]
  inside pos m m' _ p h₁ h₂ := by
    rw [poke_peek_apply, poke_peek_apply, if_pos ⟨h₁, h₂⟩, if_pos ⟨h₁, h₂⟩]

/-- The row loop of `append_encode` in the flat families. -/
def appendFlat (cs : ℕ) (hasIpBias : Bool) (base oldCount newCount n : ℕ) (put : ℕ → ℕ → Mem → Mem)
    (bias : ℕ → Mem) (m : Mem) : Mem :=
  (List.range n).foldl (fun m ai =>
    let gi := (oldCount + ai) % 2 ^ 32
    let m := put ai (base + gi * cs) m
    if hasIpBias then poke m (base + newCount * cs + gi * 2) (peek (bias ai) 0 2) else m) m

section Append

variable {cs base oldCount newCount n : ℕ} {hasIpBias : Bool} {put : ℕ → ℕ → Mem → Mem}
  {bias : ℕ → Mem} {m old : Mem}

/-- The bytes of row `i`. -/
def RowByte (cs : ℕ) (hasIpBias : Bool) (base newCount i p : ℕ) : Prop :=
  (base + i * cs ≤ p ∧ p < base + i * cs + cs) ∨
    (hasIpBias = true ∧ base + newCount * cs + i * 2 ≤ p ∧ p < base + newCount * cs + i * 2 + 2)

lemma rowByte_inj {i j p : ℕ} (hi : i < newCount) (hj : j < newCount)
    (h₁ : RowByte cs hasIpBias base newCount i p) (h₂ : RowByte cs hasIpBias base newCount j p) :
    i = j := by
  have hiend := Nat.mul_le_mul_right cs (show i + 1 ≤ newCount from hi)
  have hjend := Nat.mul_le_mul_right cs (show j + 1 ≤ newCount from hj)
  rw [Nat.add_mul, Nat.one_mul] at hiend hjend
  rcases h₁ with h₁ | ⟨-, h₁⟩ <;> rcases h₂ with h₂ | ⟨-, h₂⟩
  · refine row_inj (k := p - (base + i * cs)) (l := p - (base + j * cs)) (w := cs) ?_ ?_ ?_ <;> omega
  · omega
  · omega
  · omega

lemma appendFlat_round (hasIpBias : Bool) (base : ℕ) (bias : ℕ → Mem)
    (hput : ∀ ai < n, LocalPut cs (put ai)) (hsum : oldCount + n = newCount)
    (hcount : newCount < 2 ^ 32) (m : Mem) :
    (∀ t < n, (∀ k < cs, appendFlat cs hasIpBias base oldCount newCount n put bias m
        (base + ((oldCount + t) * cs + k)) =
          put t (base + (oldCount + t) * cs) m (base + ((oldCount + t) * cs + k))) ∧
      (hasIpBias = true → ∀ k < 2, appendFlat cs hasIpBias base oldCount newCount n put bias m
        (base + newCount * cs + ((oldCount + t) * 2 + k)) = bias t k)) ∧
    ∀ p, (∀ t < n, ¬ RowByte cs hasIpBias base newCount (oldCount + t) p) →
      appendFlat cs hasIpBias base oldCount newCount n put bias m p = m p := by
  have hmod : ∀ t < n, (oldCount + t) % 2 ^ 32 = oldCount + t := fun t ht =>
    Nat.mod_eq_of_lt (by omega)
  have hend : ∀ t < n, (oldCount + t) * cs + cs ≤ newCount * cs := fun t ht => by
    have := Nat.mul_le_mul_right cs (show oldCount + t + 1 ≤ newCount by omega)
    rwa [Nat.add_mul, Nat.one_mul] at this
  obtain ⟨hin, hout⟩ := foldl_local (n := n)
    (f := fun m ai =>
      let gi := (oldCount + ai) % 2 ^ 32
      let m := put ai (base + gi * cs) m
      if hasIpBias then poke m (base + newCount * cs + gi * 2) (peek (bias ai) 0 2) else m)
    (R := fun t => RowByte cs hasIpBias base newCount (oldCount + t))
    (fun s hs t ht p h₁ h₂ => by
      have := rowByte_inj (by omega) (by omega) h₁ h₂
      omega)
    (fun m t p ht hp => by
      simp only [RowByte, not_or, not_and] at hp
      simp only [hmod t ht]
      have hcode := (hput t ht).frame (base + (oldCount + t) * cs) m p (by omega)
      split
      · rename_i hb
        have := hp.2 hb
        rw [poke_peek_apply, if_neg (by omega)]
        exact hcode
      · exact hcode)
    (fun m m' t ht heq p hp => by
      simp only [hmod t ht]
      have hrow := (hput t ht).inside (base + (oldCount + t) * cs) m m'
        fun q h₁ h₂ => heq q (.inl ⟨h₁, h₂⟩)
      have hside : ∀ q, RowByte cs hasIpBias base newCount (oldCount + t) q →
          ¬ (base + (oldCount + t) * cs ≤ q ∧ q < base + (oldCount + t) * cs + cs) →
          put t (base + (oldCount + t) * cs) m q = put t (base + (oldCount + t) * cs) m' q := by
        intro q hq hne
        rw [(hput t ht).frame _ _ _ (by omega), (hput t ht).frame _ _ _ (by omega)]
        exact heq q hq
      have hput' : put t (base + (oldCount + t) * cs) m p =
          put t (base + (oldCount + t) * cs) m' p := by
        by_cases hmem : base + (oldCount + t) * cs ≤ p ∧ p < base + (oldCount + t) * cs + cs
        · exact hrow p hmem.1 hmem.2
        · exact hside p hp hmem
      split
      · rw [poke_peek_apply, poke_peek_apply]
        split
        · rfl
        · exact hput'
      · exact hput') m
  refine ⟨fun t ht => ⟨fun k hk => ?_, fun hb k hk => ?_⟩, hout⟩
  · have := hend t ht
    refine (hin t ht _ (.inl ⟨by omega, by omega⟩)).trans ?_
    simp only [hmod t ht]
    split
    · rw [poke_peek_apply, if_neg (by omega)]
    · rfl
  · refine (hin t ht _ (.inr ⟨hb, by omega, by omega⟩)).trans ?_
    simp only [hmod t ht, if_pos hb]
    rw [poke_peek_apply, if_pos (by omega)]
    congr 1
    omega

lemma copyRows_apply (cs : ℕ) (hasIpBias : Bool) (base oldCount newCount : ℕ) (old m : Mem) (p : ℕ) :
    copyRows cs hasIpBias base oldCount newCount old m p =
      if hasIpBias = true ∧ base + newCount * cs ≤ p ∧ p < base + newCount * cs + oldCount * 2 then
        old (base + oldCount * cs + (p - (base + newCount * cs)))
      else if base ≤ p ∧ p < base + oldCount * cs then old p
      else m p := by
  have hcodes : poke m base (peek old base (oldCount * cs)) p =
      if base ≤ p ∧ p < base + oldCount * cs then old p else m p := by
    rw [poke_peek_apply]
    split
    · congr 1
      omega
    · rfl
  cases hasIpBias with
  | false => simpa only [copyRows, Bool.false_eq_true, if_false, false_and] using hcodes
  | true => simp only [copyRows, if_true, true_and, poke_peek_apply, hcodes]

/-- **`append_encode` of the flat families**: the old rows at the places for the new number of rows,
and behind them the new ones. -/
lemma appendFlat_spec (hasIpBias : Bool) (base : ℕ) (put : ℕ → ℕ → Mem → Mem) (bias : ℕ → Mem)
    (hput : ∀ ai < n, LocalPut cs (put ai)) (hsum : oldCount + n = newCount)
    (hcount : newCount < 2 ^ 32) (old m : Mem) :
    FlatRows cs hasIpBias base newCount
      (appendFlat cs hasIpBias base oldCount newCount n put bias
        (copyRows cs hasIpBias base oldCount newCount old m))
      (fun i k => if i < oldCount then old (base + (i * cs + k))
        else put (i - oldCount) (base + i * cs) m (base + (i * cs + k)))
      (fun i k => if i < oldCount then old (base + oldCount * cs + (i * 2 + k))
        else bias (i - oldCount) k) ∧
    ∀ p, p < base ∨ base + newCount * cs + scalarBiasBytes newCount hasIpBias ≤ p →
      appendFlat cs hasIpBias base oldCount newCount n put bias
        (copyRows cs hasIpBias base oldCount newCount old m) p = m p := by
  obtain ⟨hin, hout⟩ := appendFlat_round hasIpBias base bias hput hsum hcount
    (copyRows cs hasIpBias base oldCount newCount old m)
  have hold : oldCount * cs ≤ newCount * cs := Nat.mul_le_mul_right cs (by omega)
  have hnew : ∀ t < n, oldCount * cs ≤ (oldCount + t) * cs ∧
      (oldCount + t) * cs + cs ≤ newCount * cs := fun t ht => by
    have := Nat.mul_le_mul_right cs (show oldCount + t + 1 ≤ newCount by omega)
    rw [Nat.add_mul, Nat.one_mul] at this
    exact ⟨Nat.mul_le_mul_right cs (by omega), this⟩
  refine ⟨⟨fun i hi k hk => ?_, fun hb i hi k hk => ?_⟩, fun p hp => ?_⟩
  · by_cases hlt : i < oldCount
    · have := row_lt hlt hk
      rw [if_pos hlt, hout _ fun t ht h => ?_, copyRows_apply, if_neg (by omega), if_pos (by omega)]
      have := hnew t ht
      rcases h with h | h <;> omega
    · obtain ⟨t, rfl⟩ : ∃ t, i = oldCount + t := ⟨i - oldCount, by omega⟩
      have := hnew t (by omega)
      rw [if_neg hlt, (hin t (by omega)).1 k hk, Nat.add_sub_cancel_left]
      refine (hput t (by omega)).inside _ _ _ (fun p h₁ h₂ => ?_) _ (by omega) (by omega)
      rw [copyRows_apply, if_neg (by omega), if_neg (by omega)]
  · by_cases hlt : i < oldCount
    · rw [if_pos hlt, hout _ fun t ht h => ?_, copyRows_apply, if_pos ⟨hb, by omega, by omega⟩,
        Nat.add_sub_cancel_left]
      have := hnew t ht
      rcases h with h | ⟨-, h⟩ <;> omega
    · obtain ⟨t, rfl⟩ : ∃ t, i = oldCount + t := ⟨i - oldCount, by omega⟩
      rw [if_neg hlt, (hin t (by omega)).2 hb k hk, Nat.add_sub_cancel_left]
  · have hbias : hasIpBias = true → scalarBiasBytes newCount hasIpBias = newCount * 2 := fun hb =>
      scalarBiasBytes_of_true hb newCount
    rw [hout _ fun t ht h => ?_, copyRows_apply, if_neg fun h => ?_, if_neg (by omega)]
    · have := hbias h.1
      omega
    · have := hnew t ht
      rcases h with h | ⟨hb, h⟩
      · omega
      · have := hbias hb
        omega

end Append

/-! ### Codes of half bytes in place -/

section EncodeOne

variable {dim : ℕ}

lemma putNibble_congr (out s : ℕ) (nib : UInt8) {m m' : Mem} {p : ℕ} (h : m p = m' p) :
    putNibble out m s nib p = putNibble out m' s nib p := by
  unfold putNibble
  by_cases hp : p = out + s / 2
  · subst hp
    rw [Function.update_self, Function.update_self, h]
  · rw [Function.update_of_ne hp, Function.update_of_ne hp, h]

lemma putNibble_shift (out s k : ℕ) (nib : UInt8) {m m' : Mem} (h : m (out + k) = m' k) :
    putNibble out m s nib (out + k) = putNibble 0 m' s nib k := by
  unfold putNibble
  by_cases hk : k = s / 2
  · subst hk
    rw [Function.update_self, Nat.zero_add, Function.update_self, h]
  · rw [Function.update_of_ne (by omega), Function.update_of_ne (by omega), h]

lemma encodeOne_congr (level : ℕ → UInt8) (out : ℕ) {m m' : Mem} {p : ℕ} (h : m p = m' p) :
    encodeOne dim level out m p = encodeOne dim level out m' p := by
  unfold encodeOne
  induction dim with
  | zero => exact h
  | succ d ih =>
    simp only [List.range_succ, List.foldl_append, List.foldl_cons, List.foldl_nil]
    exact putNibble_congr out d _ ih

lemma encodeOne_shift (level : ℕ → UInt8) (out k : ℕ) {m m' : Mem} (h : m (out + k) = m' k) :
    encodeOne dim level out m (out + k) = encodeOne dim level 0 m' k := by
  unfold encodeOne
  induction dim with
  | zero => exact h
  | succ d ih =>
    simp only [List.range_succ, List.foldl_append, List.foldl_cons, List.foldl_nil]
    exact putNibble_shift out d k _ ih

lemma encodeOne_frame (level : ℕ → UInt8) (out : ℕ) (m : Mem) {p : ℕ}
    (hp : p < out ∨ out + lscCodeSize dim ≤ p) : encodeOne dim level out m p = m p := by
  have hloop : ∀ n, n ≤ dim →
      (List.range n).foldl (fun m d => putNibble out m d (level d &&& 0x0F)) m p = m p := by
    intro n hn
    induction n with
    | zero => rfl
    | succ d ih =>
      simp only [List.range_succ, List.foldl_append, List.foldl_cons, List.foldl_nil]
      have hne : p ≠ out + d / 2 := by
        simp only [lscCodeSize] at hp
        omega
      rw [putNibble, Function.update_of_ne hne]
      exact ih (by omega)
  exact hloop dim le_rfl

lemma localPut_encodeOne (level : ℕ → UInt8) :
    LocalPut (lscCodeSize dim) (fun pos m => encodeOne dim level pos m) where
  frame pos m _ hp := encodeOne_frame level pos m hp
  inside pos _ _ heq p h₁ h₂ := encodeOne_congr level pos (heq p h₁ h₂)

end EncodeOne

/-- The code of the levels as it is in a cleared buffer. -/
def lscCode (dim : ℕ) (level : ℕ → UInt8) : Mem := encodeOne dim level 0 fun _ => 0

lemma encodeRows_spec (dim base count : ℕ) (level : ℕ → ℕ → UInt8) (m : Mem) :
    (∀ i < count, ∀ k < lscCodeSize dim, m (base + (i * lscCodeSize dim + k)) = 0 →
      (List.range count).foldl (fun m i => encodeOne dim (level i) (base + i * lscCodeSize dim) m) m
        (base + (i * lscCodeSize dim + k)) = lscCode dim (level i) k) ∧
    ∀ p, p < base ∨ base + count * lscCodeSize dim ≤ p →
      (List.range count).foldl (fun m i => encodeOne dim (level i) (base + i * lscCodeSize dim) m) m p =
        m p := by
  obtain ⟨hin, hout⟩ := foldl_local (n := count)
    (f := fun m i => encodeOne dim (level i) (base + i * lscCodeSize dim) m)
    (R := fun i p => base + i * lscCodeSize dim ≤ p ∧
      p < base + i * lscCodeSize dim + lscCodeSize dim)
    (fun s _ t _ p h₁ h₂ => by
      refine row_inj (k := p - (base + s * lscCodeSize dim))
        (l := p - (base + t * lscCodeSize dim)) (w := lscCodeSize dim) ?_ ?_ ?_ <;> omega)
    (fun m t p _ hp => encodeOne_frame _ _ _ (by omega))
    (fun m m' t _ heq p hp => encodeOne_congr _ _ (heq p hp)) m
  refine ⟨fun i hi k hk h₀ => ?_, fun p hp => hout p fun t ht h => ?_⟩
  · rw [hin i hi _ ⟨by omega, by omega⟩, ← Nat.add_assoc]
    exact encodeOne_shift _ _ _ (by rwa [← Nat.add_assoc] at h₀)
  · have := row_lt ht (show p - (base + t * lscCodeSize dim) < lscCodeSize dim by omega)
    omega

end SextantTree.LeafCodes
