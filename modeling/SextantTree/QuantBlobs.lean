import SextantTree.QuantObjectsSpec

/-!
Which blobs a scalar quantizer takes over safely: it keeps the array of bounds that it was
constructed with. Then the three formats side by side.
-/

namespace SextantTree.QuantObjects

open ByteMem LloydMax Quant ScalarLloydMax
open ScalarLloydMaxQuantizer (length_numbers Sized Held Bounded)

variable {α : Type} [Field α]

/-! ### Scalar quantizers -/

namespace ScalarObject

open ScalarLloydMaxQuantizer

/-- Every index that the methods form lies inside its array. -/
structure Inside (q : ScalarLloydMaxQuantizer α) : Prop where
  /-- `compute_bounds_`, `decode` and the tables of a query. -/
  level : ∀ d < q.dim, ∀ k < q.K, d * q.K + k < q.levels.length
  /-- `compute_bounds_` and `encode`. -/
  bound : ∀ d < q.dim, ∀ i < q.K - 1, d * (q.K - 1) + i < q.bounds.length
  /-- The scan with a shared shape. -/
  shape : q.mode = 2 → ∀ k < q.K, k < q.f.length
  /-- The scan with steps. -/
  step : q.mode ≠ 0 → ∀ d < q.dim, d < q.steps.length
  code : ∀ d < q.dim, (if q.bits = 4 then d / 2 else d) < q.codeSize

structure Header where
  metric : UInt8
  bits : ℕ
  dim : ℕ

def headerOf (img : Image α) : Header :=
  { metric := img.bytes 4, bits := (img.bytes 5).toNat, dim := word img.bytes 4 6 }

namespace Header

variable (h : Header)

def K : ℕ := 2 ^ (h.bits % 32)

def tailOff : ℕ := 10 + h.dim * h.K * 4

def shapeEnd : ℕ := h.tailOff + 1 + (h.K + h.dim) * 4

def modeOf (img : Image α) : ℕ := (img.bytes h.tailOff).toNat

/-- The blob ends where its mode says, or behind. -/
def Whole (img : Image α) : Prop :=
  img.size = h.tailOff ∨
    (h.tailOff < img.size ∧ h.modeOf img ≤ 2 ∧ (h.modeOf img = 2 → h.shapeEnd ≤ img.size))

/-- The levels are there, a shape is announced and is not. -/
def ShapeCut (img : Image α) : Prop :=
  h.tailOff < img.size ∧ h.modeOf img = 2 ∧ img.size < h.shapeEnd

def Same (q : ScalarLloydMaxQuantizer α) : Prop :=
  h.metric = metricByte q.metric ∧ h.bits = q.bits ∧ h.dim = q.dim

end Header

/-- A blob without the magic number; or one with 4 or 8 bits that is whole and whose bounds the
object has room for, or that ends too early and repeats what the object holds. -/
def Clean (q : ScalarLloydMaxQuantizer α) (img : Image α) : Prop :=
  let h := headerOf img
  ¬ HeaderRead img ∨
    ((h.bits = 4 ∨ h.bits = 8) ∧
      ((h.Whole img ∧ h.dim * (h.K - 1) ≤ q.bounds.length) ∨
        (img.size < h.tailOff ∧ h.Same q) ∨
        (h.ShapeCut img ∧ h.Same q ∧ q.levels = img.numbers 10 (h.dim * h.K) ∧ q.mode = 2)))

structure Filled (q : ScalarLloydMaxQuantizer α) : Prop where
  bits : (q.bits = 4 ∧ q.K = 16) ∨ (q.bits = 8 ∧ q.K = 256)
  levels : q.levels.length = q.dim * q.K
  shape : q.mode = 2 → q.f.length = q.K
  step : q.mode ≠ 0 → q.steps.length = q.dim

variable {q : ScalarLloydMaxQuantizer α}

omit [Field α] in
lemma Filled.inside (h : Filled q) (hroom : q.dim * (q.K - 1) ≤ q.bounds.length) : Inside q where
  level d hd k hk := h.levels ▸ index_lt hd hk
  bound d hd i hi := (index_lt hd hi).trans_le hroom
  shape h2 k hk := h.shape h2 ▸ hk
  step h0 d hd := h.step h0 ▸ hd
  code d hd := by
    rw [codeSize]
    rcases h.bits with ⟨hb, -⟩ | ⟨hb, -⟩ <;> rw [hb] <;> simp <;> omega

lemma Filled.settled_iff (h : Filled q) (o : ScalarObject α) (metric : UInt8) :
    Settled (fun o : ScalarObject α => Inside o.quantizer) o
        (⟨q.computeBounds.1, metric⟩, q.computeBounds.2) ↔
      q.dim * (q.K - 1) ≤ q.bounds.length := by
  rcases Nat.lt_or_ge q.bounds.length (q.dim * (q.K - 1)) with hroom | hroom
  · rw [computeBounds_outside h.levels hroom]
    exact iff_of_false id (not_le.2 hroom)
  · obtain ⟨bounds, heq, hlen, -⟩ := computeBounds_room h.levels hroom
    rw [heq]
    have hfilled : Filled { q with bounds := bounds } := ⟨h.bits, h.levels, h.shape, h.step⟩
    exact iff_of_true (hfilled.inside (hroom.trans hlen.ge)) hroom

def withHeader (q : ScalarLloydMaxQuantizer α) (h : Header) : ScalarLloydMaxQuantizer α :=
  { q with metric := metricOf h.metric, bits := h.bits, dim := h.dim, K := h.K }

omit [Field α] in
lemma withHeader_eq (hq : Sized q) {h : Header} (hsame : h.Same q) : withHeader q h = q := by
  obtain ⟨hmetric, hbits, hdim⟩ := hsame
  have hK : 2 ^ (q.bits % 32) = q.K := by
    rcases hq.bits with ⟨hb, hK⟩ | ⟨hb, hK⟩ <;> rw [hb, hK] <;> rfl
  rw [withHeader, Header.K, hmetric, hbits, hdim, metricOf_metricByte, hK]

omit [Field α] in
lemma same_of_eq {h : Header} (q' : ScalarLloydMaxQuantizer α)
    (hbits : q'.bits = h.bits) (hdim : q'.dim = h.dim)
    (heq : (⟨q', h.metric⟩ : ScalarObject α) = of q) : h.Same q := by
  have hq : q' = q := congrArg ScalarObject.quantizer heq
  exact ⟨congrArg ScalarObject.metric heq, by rw [← hbits, hq], by rw [← hdim, hq]⟩

lemma deserialize_headerRead (q : ScalarLloydMaxQuantizer α) {img : Image α}
    (hread : HeaderRead img) :
    let h := headerOf img
    let q₀ := withHeader q h
    let q₁ := { q₀ with levels := img.numbers 10 (h.dim * h.K) }
    let q₂ := { q₁ with mode := h.modeOf img }
    q.deserialize img =
      if h.bits ≠ 4 ∧ h.bits ≠ 8 then
        (q₀, .error (.thrown "ScalarLloydMax deserialize: invalid bits"))
      else if img.size < h.tailOff then
        (q₀, .error (.thrown "ScalarLloydMax deserialize: levels truncated"))
      else if img.size = h.tailOff then { q₁ with mode := 0 }.computeBounds
      else if 2 < h.modeOf img then
        (q₂, .error (.thrown "ScalarLloydMax deserialize: invalid mode"))
      else if h.modeOf img = 2 then
        if img.size < h.shapeEnd then
          (q₂, .error (.thrown "ScalarLloydMax deserialize: shape tail truncated"))
        else
          { q₂ with
            f := img.numbers (h.tailOff + 1) h.K
            steps := img.numbers (h.tailOff + 1 + h.K * 4) h.dim }.computeBounds
      else if h.modeOf img = 1 then
        { q₂ with steps := (List.range h.dim).map fun d =>
            if 1 < h.K then q₂.level d 1 - q₂.level d 0 else 0 }.computeBounds
      else q₂.computeBounds := by
  rw [ScalarLloydMaxQuantizer.deserialize, if_neg hread.1, if_neg (not_not.2 hread.2)]
  rfl

theorem settled_iff (hq : Sized q) (img : Image α) :
    Settled (fun o : ScalarObject α => Inside o.quantizer) (of q) ((of q).deserialize img) ↔
      Clean q img := by
  by_cases hread : HeaderRead img
  swap
  · refine iff_of_true ?_ (.inl hread)
    rw [deserialize, if_neg hread, ScalarLloydMaxQuantizer.deserialize]
    rw [HeaderRead, Classical.not_and_iff_not_or_not, not_not] at hread
    split_ifs with hsmall hmagic
    · exact rfl
    · exact rfl
    · exact absurd hread (not_or.2 ⟨hsmall, hmagic⟩)
  rw [Clean, or_iff_right (not_not.2 hread), deserialize, if_pos hread]
  dsimp only [of]
  rw [deserialize_headerRead q hread]
  dsimp only
  generalize hh : headerOf img = h
  have hmetric : img.bytes 4 = h.metric := by rw [← hh]; rfl
  rw [hmetric]
  by_cases hbits : h.bits = 4 ∨ h.bits = 8
  swap
  · rw [if_pos (by omega)]
    refine iff_of_false (fun heq => hbits ?_) fun hno => hbits hno.1
    have hsame := same_of_eq (withHeader q h) rfl rfl heq
    rcases hq.bits with ⟨hb, -⟩ | ⟨hb, -⟩ <;> rw [hsame.2.1, hb]
    · exact .inl rfl
    · exact .inr rfl
  have hK : (h.bits = 4 ∧ h.K = 16) ∨ (h.bits = 8 ∧ h.K = 256) := by
    rcases hbits with hb | hb
    · exact .inl ⟨hb, by rw [Header.K, hb]; rfl⟩
    · exact .inr ⟨hb, by rw [Header.K, hb]; rfl⟩
  have hlen : (img.numbers 10 (h.dim * h.K)).length = h.dim * h.K := length_numbers ..
  rw [if_neg (by omega), and_iff_right hbits]
  by_cases hcut : img.size < h.tailOff
  · rw [if_pos hcut]
    have hwhole : ¬ h.Whole img := by rw [Header.Whole]; omega
    have hshape : ¬ h.ShapeCut img := by rw [Header.ShapeCut]; omega
    rw [or_iff_right (fun hno => hwhole hno.1), or_iff_left (fun hno => hshape hno.1),
      and_iff_right hcut]
    refine ⟨same_of_eq (withHeader q h) rfl rfl, fun hsame => ?_⟩
    exact congrArg₂ ScalarObject.mk (withHeader_eq hq hsame) hsame.1
  rw [if_neg hcut]
  by_cases hend : img.size = h.tailOff
  · rw [if_pos hend]
    have hshape : ¬ h.ShapeCut img := by rw [Header.ShapeCut]; omega
    rw [or_iff_left (by tauto), and_iff_right (.inl hend)]
    exact Filled.settled_iff ⟨hK, hlen, fun h2 => (by cases h2), fun h0 => absurd rfl h0⟩ ..
  have hlt : h.tailOff < img.size := by omega
  rw [if_neg hend]
  by_cases hmode : 2 < h.modeOf img
  · rw [if_pos hmode]
    have hwhole : ¬ h.Whole img := by rw [Header.Whole]; omega
    have hshape : ¬ h.ShapeCut img := by rw [Header.ShapeCut]; omega
    refine iff_of_false (fun heq => ?_) (by tauto)
    have hm : h.modeOf img = q.mode :=
      congrArg (fun o : ScalarObject α => o.quantizer.mode) heq
    have := hq.mode_le
    omega
  rw [if_neg hmode]
  by_cases hmode2 : h.modeOf img = 2
  · rw [if_pos hmode2]
    by_cases hcut2 : img.size < h.shapeEnd
    · rw [if_pos hcut2]
      have hwhole : ¬ h.Whole img := by rw [Header.Whole]; omega
      rw [or_iff_right (fun hno => hwhole hno.1), or_iff_right (fun hno => hcut hno.1),
        and_iff_right (show h.ShapeCut img from ⟨hlt, hmode2, hcut2⟩), hmode2]
      constructor
      · intro heq
        refine ⟨same_of_eq { withHeader q h with
          levels := img.numbers 10 (h.dim * h.K), mode := 2 } rfl rfl heq, ?_, ?_⟩
        · exact congrArg (fun o : ScalarObject α => o.quantizer.levels) heq.symm
        · exact congrArg (fun o : ScalarObject α => o.quantizer.mode) heq.symm
      · rintro ⟨hsame, hlevels, hm⟩
        refine congrArg₂ ScalarObject.mk ?_ hsame.1
        rw [← hlevels, ← hm, withHeader_eq hq hsame]
    · rw [if_neg hcut2]
      have hwhole : h.Whole img := .inr ⟨hlt, by omega, fun _ => by omega⟩
      have hshape : ¬ h.ShapeCut img := by rw [Header.ShapeCut]; omega
      rw [or_iff_left (by tauto), and_iff_right hwhole]
      exact Filled.settled_iff ⟨hK, hlen, fun _ => length_numbers .., fun _ => length_numbers ..⟩ ..
  rw [if_neg hmode2]
  have hwhole : h.Whole img := .inr ⟨hlt, by omega, fun h2 => absurd h2 hmode2⟩
  have hshape : ¬ h.ShapeCut img := by rw [Header.ShapeCut]; omega
  rw [or_iff_left (by tauto), and_iff_right hwhole]
  by_cases hmode1 : h.modeOf img = 1
  · rw [if_pos hmode1]
    exact Filled.settled_iff ⟨hK, hlen, fun h2 => absurd h2 hmode2,
      fun _ => (List.length_map ..).trans List.length_range⟩ ..
  · rw [if_neg hmode1]
    exact Filled.settled_iff ⟨hK, hlen, fun h2 => absurd h2 hmode2, fun h0 =>
      absurd (show h.modeOf img = 0 by omega) h0⟩ ..

/-! #### Reading back -/

section ReadBack

variable [LinearOrder α]

/-- The object that a blob is read into is the one that was written, for all that encoding and
decoding do. -/
structure Agrees (q' q : ScalarLloydMaxQuantizer α) : Prop where
  metric : q'.metric = q.metric
  dim : q'.dim = q.dim
  bits : q'.bits = q.bits
  K : q'.K = q.K
  levels : q'.levels = q.levels
  mode : q'.mode = q.mode
  shape : q.mode = 2 → q'.f = q.f ∧ q'.steps = q.steps
  encode : ∀ vec, ∀ i < q.codeSize, q'.encode vec i = q.encode vec i
  decode : ∀ code, q'.decode code = q.decode code

lemma encode_congr {q' : ScalarLloydMaxQuantizer α} (hq' : Bounded q') (hq : Bounded q)
    (hdim : q'.dim = q.dim) (hbits : q'.bits = q.bits) (hK : q'.K = q.K)
    (hlevels : q'.levels = q.levels) (h48 : q.bits = 4 ∨ q.bits = 8) (vec : ℕ → α) :
    ∀ i < q.codeSize, q'.encode vec i = q.encode vec i := by
  have hlevel : q'.level = q.level := by
    funext d k
    rw [level, level, hlevels, hK]
  have hindex : ∀ d < q.dim, q'.index vec d = q.index vec d := fun d hd => by
    rw [index_eq hq' vec (hdim ▸ hd), index_eq hq vec hd, hlevel, hK]
  intro i hi
  rw [encode, encode, hbits, hdim]
  split_ifs with hb
  · congr 1
    funext d
    split_ifs with hd
    · rw [hindex d hd]
    · rfl
  · obtain hb := h48.resolve_left hb
    rw [codeSize, hb] at hi
    dsimp only
    rw [hindex i (by omega)]

omit [LinearOrder α] in
lemma bounded_of_replicate {n n' : ℕ} (hlevels : q.levels = List.replicate n 0)
    (hbounds : q.bounds = List.replicate n' 0) : Bounded q := by
  have hzero : ∀ n i, entry (List.replicate n (0 : α)) i = 0 := fun n i => by
    rw [entry, List.getD_eq_getElem?_getD, List.getElem?_replicate]
    split_ifs <;> rfl
  intro d _ i _
  rw [MidpointCells.bound, level, level, hlevels, hbounds, hzero, hzero, hzero, add_zero, zero_div]

omit [LinearOrder α] in
lemma bounded_make {metric : MetricKind} {dim : UInt32} {bits : UInt8}
    (h : make metric dim bits = .ok q) : Bounded q := by
  rw [make] at h
  split_ifs at h
  cases h
  exact bounded_of_replicate rfl rfl

lemma bounded_of_trains {r : Result α} (h : Trains q r) (hq : Bounded q) : Bounded r.1 := by
  rcases h with ⟨what, rfl⟩ | ⟨q', rfl, hq'⟩
  · exact hq
  · exact hq'.bounded

variable [IsStrictOrderedRing α]

lemma bounded_of_held (h : Held q) : Bounded q := by
  induction h with
  | made h => exact bounded_make h
  | train samples n nRestarts lloydIters drawn hq ih =>
    exact bounded_of_trains (train_spec hq.sized ..) ih
  | trainUniform sqrt samples n hq ih => exact bounded_of_trains (trainUniform_spec hq.sized ..) ih
  | trainShape samples n nRestarts lloydIters drawn hq ih =>
    exact bounded_of_trains (trainShape_spec hq.sized ..) ih

/-- A blob is read back in full if and only if the object it is read into has room for the bounds. -/
theorem deserialize_serialize_iff (hq : Held q) (o : ScalarLloydMaxQuantizer α) :
    (∃ o', (of o).deserialize q.serialize = (o', .ok ()) ∧ o'.metric = (of q).metric ∧
        Agrees o'.quantizer q) ↔
      q.dim * (q.K - 1) ≤ o.bounds.length := by
  have hsized := hq.sized
  obtain ⟨hmagic, hmetric, -⟩ := serialize_bytes hsized
  have hsize : ¬ q.serialize.size < 10 := by
    have : q.serialize.size = 10 + q.levels.length * 4 + 1 +
      if q.mode = 2 then (q.f.length + q.steps.length) * 4 else 0 := rfl
    omega
  have hlevels : (q.readInto o).levels.length = (q.readInto o).dim * (q.readInto o).K :=
    hsized.levels
  rw [deserialize, if_pos ⟨hsize, hmagic⟩, hmetric]
  dsimp only [of]
  rw [ScalarLloydMaxQuantizer.deserialize_serialize hsized]
  rcases Nat.lt_or_ge o.bounds.length (q.dim * (q.K - 1)) with hroom | hroom
  · rw [computeBounds_outside hlevels hroom]
    refine iff_of_false ?_ (not_le.2 hroom)
    rintro ⟨o', heq, -⟩
    cases heq
  · obtain ⟨bounds, heq, -, hbounded⟩ := computeBounds_room hlevels hroom
    rw [heq]
    have h48 : q.bits = 4 ∨ q.bits = 8 := hsized.bits.imp And.left And.left
    refine iff_of_true ⟨_, rfl, rfl, ⟨rfl, rfl, rfl, rfl, rfl, rfl, fun h2 => ⟨if_pos h2, if_pos h2⟩,
      encode_congr hbounded (bounded_of_held hq) rfl rfl rfl rfl h48, fun code => rfl⟩⟩ hroom

end ReadBack

end ScalarObject

/-! ### The three formats -/

section Formats

variable [LinearOrder α]

def PqObject.ReadBack (q o : PqObject α) : Prop :=
  ∃ o', o.deserialize q.serialize = (o', .ok ()) ∧ o'.toPqCoder = q.toPqCoder

def PrqObject.ReadBack (q o : PrqObject α) : Prop :=
  ∃ o', o.deserialize q.serialize = (o', .ok ()) ∧ o'.toPrqCoder = q.toPrqCoder

def ScalarObject.ReadBack (q o : ScalarLloydMaxQuantizer α) : Prop :=
  ∃ o', (of o).deserialize q.serialize = (o', .ok ()) ∧ o'.metric = (of q).metric ∧
    Agrees o'.quantizer q

/-- An object reads its blobs back, and settles on any other. -/
structure BlobsConsistent (α : Type) [Field α] [LinearOrder α] : Prop where
  pq_readBack : ∀ q o : PqObject α, q.Held → o.Held → PqObject.ReadBack q o
  pq_settled : ∀ o : PqObject α, o.Held → ∀ img, Settled PqObject.Inside o (o.deserialize img)
  prq_readBack : ∀ q o : PrqObject α, q.Held → o.Held → PrqObject.ReadBack q o
  prq_settled : ∀ o : PrqObject α, o.Held → ∀ img, Settled PrqObject.Inside o (o.deserialize img)
  scalar_readBack : ∀ q o : ScalarLloydMaxQuantizer α, Held q → Held o → ScalarObject.ReadBack q o
  scalar_settled : ∀ o : ScalarLloydMaxQuantizer α, Held o → ∀ img,
    Settled (fun o : ScalarObject α => ScalarObject.Inside o.quantizer) (.of o)
      ((ScalarObject.of o).deserialize img)

/-- **Blobs are taken over safely** exactly where they are clean, and read back exactly where the
object they are read into suits them. -/
theorem blobs_consistent_iff [IsStrictOrderedRing α] :
    (∀ q o : PqObject α, q.Held → o.Held → PqObject.ReadBack q o) ∧
    (∀ o : PqObject α, o.Held → ∀ img,
      (Settled PqObject.Inside o (o.deserialize img) ↔ PqObject.Clean o img)) ∧
    (∀ q o : PrqObject α, q.Held → o.Held →
      (PrqObject.ReadBack q o ↔
        0 < q.dim ∧ PrqObject.params o.toPrqCoder = PrqObject.params q.toPrqCoder)) ∧
    (∀ o : PrqObject α, o.Held → ∀ img,
      (Settled PrqObject.Inside o (o.deserialize img) ↔ PrqObject.Clean o img)) ∧
    (∀ q o : ScalarLloydMaxQuantizer α, Held q → Held o →
      (ScalarObject.ReadBack q o ↔ q.dim * (q.K - 1) ≤ o.bounds.length)) ∧
    ∀ o : ScalarLloydMaxQuantizer α, Held o → ∀ img,
      (Settled (fun o : ScalarObject α => ScalarObject.Inside o.quantizer) (.of o)
        ((ScalarObject.of o).deserialize img) ↔ ScalarObject.Clean o img) :=
  ⟨fun _ o hq _ => PqObject.deserialize_serialize hq.sound o,
    fun _ ho img => PqObject.settled_iff ho.sound img,
    fun _ o hq _ => PrqObject.deserialize_serialize_iff hq.sound o,
    fun _ ho img => PrqObject.settled_iff ho.sound img,
    fun _ o hq _ => ScalarObject.deserialize_serialize_iff hq o,
    fun _ ho img => ScalarObject.settled_iff ho.sized img⟩

def zeros : Image ℚ := ⟨8, fun _ => 0, fun _ => 0⟩

def onePq : PqObject ℚ :=
  { metric := 0, m := 1, bits := 2, dim := 1, K := 4, subDim := 1, codebook := List.replicate 4 0
    hasRotation := false, rotation := [], opqEnabled := false, centroidSqnorms := []
    crossDistanceTable := [] }

lemma held_onePq : PqObject.Held onePq :=
  .made (show PqObject.make .l2Sq 1 1 2 = .ok onePq from rfl)

/-- A codebook of four zeros is read back, and a header of zeros is not clean. -/
theorem blobs_consistent_onePq : PqObject.ReadBack onePq onePq ∧
    (Settled PqObject.Inside onePq (onePq.deserialize zeros) ↔ PqObject.Clean onePq zeros) :=
  ⟨(blobs_consistent_iff (α := ℚ)).1 onePq onePq held_onePq held_onePq,
    (blobs_consistent_iff (α := ℚ)).2.1 onePq held_onePq zeros⟩

/-- Eight bytes of zeros are refused, and leave an object of no segments. -/
theorem zeros_left_behind : ¬ BlobsConsistent ℚ := by
  intro h
  have hsettled := h.pq_settled onePq held_onePq zeros
  have hinvalid : onePq.deserialize zeros = ({ onePq with toPqHeader := ⟨0, 0, 0, 0⟩ },
    .error (.thrown "PQ deserialize: invalid header")) := rfl
  rw [hinvalid] at hsettled
  have hm : (0 : ℕ) = 1 := congrArg (fun o : PqObject ℚ => o.m) hsettled
  exact absurd hm (by decide)

end Formats

end SextantTree.QuantObjects
