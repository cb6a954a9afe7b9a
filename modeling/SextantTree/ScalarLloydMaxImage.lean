import SextantTree.ScalarLloydMaxSpec

/-!
A scalar quantizer read back from its blob is the one that was written, but for the array of bounds:
it keeps the size that the object was constructed with.
-/

namespace SextantTree.ScalarLloydMax

open ByteMem MidpointCells LloydMax Quant LocalPq

variable {α : Type} [Field α]

namespace ScalarLloydMaxQuantizer

variable {q : ScalarLloydMaxQuantizer α}

omit [Field α] in
lemma length_numbers (img : Image α) (pos n : ℕ) : (img.numbers pos n).length = n := by
  rw [Image.numbers, List.length_map, List.length_range]

lemma numbers_eq {img : Image α} {pos n : ℕ} {xs : List α} (hn : n = xs.length)
    (h : ∀ i < n, img.floats (pos + 4 * i) = entry xs i) : img.numbers pos n = xs := by
  refine List.ext_getElem (by rw [length_numbers, hn]) fun i h₁ h₂ => ?_
  have hi : i < n := by rwa [length_numbers] at h₁
  simp only [Image.numbers, List.getElem_map, List.getElem_range]
  rw [h i hi, entry_eq_getElem h₂]

lemma serialize_bytes (h : Sized q) :
    word q.serialize.bytes 4 0 = kScalarLloydMaxMagic ∧
      q.serialize.bytes 4 = metricByte q.metric ∧ (q.serialize.bytes 5).toNat = q.bits ∧
      word q.serialize.bytes 4 6 = q.dim ∧
      (q.serialize.bytes (10 + q.levels.length * 4)).toNat = q.mode := by
  have hbyte : ∀ (m : Mem) (pos : ℕ) (b : UInt8), poke m pos [b] pos = b := fun m pos b => by
    simp [poke]
  have hbits : q.bits < 256 := by rcases h.bits with ⟨h, -⟩ | ⟨h, -⟩ <;> omega
  have hmode := h.mode_le
  simp only [serialize]
  refine ⟨?_, ?_, ?_, ?_, ?_⟩
  · rw [word_poke (.inl (by omega)), word_poke (.inl (by decide)), word_poke (.inl (by decide)),
      word_poke (.inl (by decide)), word_poke_self (by decide)]
  · rw [poke_apply_of_lt (by omega), poke_apply_of_lt (by decide), poke_apply_of_lt (by decide),
      hbyte]
  · rw [poke_apply_of_lt (by omega), poke_apply_of_lt (by decide), hbyte, UInt8.toNat_ofNat']
    omega
  · rw [word_poke (.inl (by omega)), word_poke_self h.dim_lt]
  · rw [hbyte, UInt8.toNat_ofNat']
    omega

lemma serialize_levels (h : Sized q) : q.serialize.numbers 10 (q.dim * q.K) = q.levels :=
  numbers_eq h.levels.symm fun i hi => by
    have := h.levels
    simp only [serialize]
    rw [if_pos (by omega), show (10 + 4 * i - 10) / 4 = i by omega]

lemma serialize_f (hf : q.f.length = q.K) :
    q.serialize.numbers (10 + q.levels.length * 4 + 1) q.K = q.f :=
  numbers_eq hf.symm fun i hi => by
    simp only [serialize]
    rw [if_neg (by omega), show (10 + q.levels.length * 4 + 1 + 4 * i -
      (10 + q.levels.length * 4 + 1)) / 4 = i by omega, entry, entry,
      List.getD_append _ _ _ _ (by omega)]

lemma serialize_steps (hf : q.f.length = q.K) (hs : q.steps.length = q.dim) :
    q.serialize.numbers (10 + q.levels.length * 4 + 1 + q.K * 4) q.dim = q.steps :=
  numbers_eq hs.symm fun i hi => by
    simp only [serialize]
    rw [if_neg (by omega), show (10 + q.levels.length * 4 + 1 + q.K * 4 + 4 * i -
      (10 + q.levels.length * 4 + 1)) / 4 = q.f.length + i by omega, entry, entry,
      List.getD_append_right _ _ _ _ (by omega), Nat.add_sub_cancel_left]

lemma metricOf_metricByte (metric : MetricKind) : metricOf (metricByte metric) = metric := by
  cases metric <;> rfl

/-- An object with the fields of another read into it. -/
def readInto (q o : ScalarLloydMaxQuantizer α) : ScalarLloydMaxQuantizer α :=
  { q with
    bounds := o.bounds
    f := if q.mode = 2 then q.f else o.f
    steps := if q.mode = 2 then q.steps
      else if q.mode = 1 then (List.range q.dim).map fun d => q.level d 1 - q.level d 0
      else o.steps }

lemma deserialize_serialize (h : Sized q) (o : ScalarLloydMaxQuantizer α) :
    o.deserialize q.serialize = (q.readInto o).computeBounds := by
  obtain ⟨hmagic, hmetric, hbits, hdim, hmode⟩ := serialize_bytes h
  have hlevels := serialize_levels h
  have hlen := h.levels
  have hK : 2 ^ (q.bits % 32) = q.K := by rcases h.bits with ⟨h, h'⟩ | ⟨h, h'⟩ <;> rw [h, h'] <;> rfl
  have hok : ¬ (q.bits ≠ 4 ∧ q.bits ≠ 8) := by rcases h.bits with ⟨h, -⟩ | ⟨h, -⟩ <;> omega
  have hsize : q.serialize.size = 10 + q.levels.length * 4 + 1 +
      if q.mode = 2 then (q.f.length + q.steps.length) * 4 else 0 := rfl
  have hmetric' : metricOf (q.serialize.bytes 4) = q.metric := by
    rw [hmetric, metricOf_metricByte]
  rw [← hlen] at hlevels
  simp only [deserialize, hmagic, hbits, hdim, hK, hmetric', ← hlen, hlevels, hmode, hsize]
  rw [if_neg (by omega), if_neg (by simp), if_neg hok, if_neg (by omega), if_neg (by omega),
    if_neg (by have := h.mode_le; omega)]
  rcases (show q.mode = 2 ∨ q.mode = 1 ∨ q.mode = 0 by have := h.mode_le; omega) with h2 | h1 | h0
  · obtain ⟨hf, hs⟩ := h.shape h2
    have hf' := serialize_f hf
    have hs' := serialize_steps hf hs
    rw [if_pos h2, if_pos h2, if_neg (by omega), hf', hs', readInto, if_pos h2, if_pos h2]
  · rw [if_neg (by omega), if_pos h1, readInto, if_neg (by omega), if_neg (by omega), if_pos h1]
    simp only [if_pos h.one_lt_K]
    rfl
  · rw [if_neg (by omega), if_neg (by omega), readInto, if_neg (by omega), if_neg (by omega),
      if_neg (by omega)]

lemma Sized.readInto (h : Sized q) {o : ScalarLloydMaxQuantizer α}
    (hroom : q.dim * (q.K - 1) ≤ o.bounds.length) : Sized (q.readInto o) where
  bits := h.bits
  dim_lt := h.dim_lt
  levels := h.levels
  bounds := hroom
  mode_le := h.mode_le
  shape h2 := by
    rw [ScalarLloydMaxQuantizer.readInto]
    simp only [if_pos (show q.mode = 2 from h2)]
    exact h.shape h2

section Nearest

variable [LinearOrder α] [IsStrictOrderedRing α]

/-- **A trained quantizer and its image** pick nearest levels if and only if the object that reads
the image was constructed with room for the bounds. -/
theorem image_picks_nearest_iff (hq : Trained q) (o : ScalarLloydMaxQuantizer α) :
    (PicksNearest q ∧ ∃ q', o.deserialize q.serialize = (q', .ok ()) ∧ PicksNearest q') ↔
      q.dim * (q.K - 1) ≤ o.bounds.length := by
  have hready := hq.ready
  rw [deserialize_serialize hready.sized]
  constructor
  · rintro ⟨-, q', heq, -⟩
    by_contra hroom
    rw [computeBounds_outside (q := q.readInto o) hready.sized.levels (not_le.1 hroom)] at heq
    cases heq
  · intro hroom
    obtain ⟨q', heq, hq'⟩ := ready_computeBounds (hready.sized.readInto hroom) hready.ordered
    exact ⟨hready.picksNearest, q', heq, hq'.picksNearest⟩

end Nearest

section Examples

def fresh (dim : UInt32) : ScalarLloydMaxQuantizer ℚ :=
  { metric := .l2Sq, dim := dim.toNat, bits := 4, K := 16
    levels := List.replicate (dim.toNat * 16) 0, bounds := List.replicate (dim.toNat * 15) 0
    mode := 0, f := [], steps := [] }

/-- The values 0 and 2 in each of two dimensions, with a standard deviation of 1. -/
def twoDim : ScalarLloydMaxQuantizer ℚ :=
  ((fresh 2).trainUniform id (fun i => if i < 2 then 0 else 2) 2).1

lemma held_fresh (dim : UInt32) : Held (fresh dim) :=
  .made (show make .l2Sq dim 4 = .ok (fresh dim) from rfl)

lemma trained_twoDim : Trained twoDim := by
  obtain ⟨q', heq, -⟩ := trainUniform_ready (held_fresh 2).sized id
    (fun i => if i < 2 then (0 : ℚ) else 2) le_rfl
  rw [twoDim, heq]
  exact .trainUniform (held_fresh 2) heq

lemma shape_computeBounds {β : Type} [Field β] (q : ScalarLloydMaxQuantizer β) :
    q.computeBounds.1.dim = q.dim ∧ q.computeBounds.1.K = q.K := by
  rw [computeBounds]
  split <;> exact ⟨rfl, rfl⟩

lemma twoDim_shape : twoDim.dim = 2 ∧ twoDim.K = 16 := by
  rw [twoDim, trainUniform, if_neg (by decide)]
  exact shape_computeBounds _

/-- An image read into an object like the one it is of. -/
theorem image_picks_nearest_twoDim : PicksNearest twoDim ∧
    ∃ q', (fresh 2).deserialize twoDim.serialize = (q', .ok ()) ∧ PicksNearest q' :=
  (image_picks_nearest_iff trained_twoDim (fresh 2)).2 (by
    rw [twoDim_shape.1, twoDim_shape.2]
    decide)

/-- The image of two dimensions overruns the bounds of an object constructed for one. -/
theorem image_overruns_bounds : ¬ ∀ q o : ScalarLloydMaxQuantizer ℚ, Trained q → Held o →
    PicksNearest q ∧ ∃ q', o.deserialize q.serialize = (q', .ok ()) ∧ PicksNearest q' := by
  intro h
  obtain ⟨-, q', heq, -⟩ := h twoDim (fresh 1) trained_twoDim (held_fresh 1)
  have hsized := trained_twoDim.ready.sized
  have hroom : (fresh 1).bounds.length < twoDim.dim * (twoDim.K - 1) := by
    rw [twoDim_shape.1, twoDim_shape.2]
    decide
  rw [deserialize_serialize hsized,
    computeBounds_outside (show (twoDim.readInto (fresh 1)).levels.length = _ from hsized.levels)
      hroom] at heq
  cases heq

end Examples

end ScalarLloydMaxQuantizer

end SextantTree.ScalarLloydMax
