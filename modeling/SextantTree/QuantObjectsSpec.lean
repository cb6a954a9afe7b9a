import SextantTree.QuantObjects

/-!
Which blobs product and residual quantizers take over safely. A header is assigned before it is
checked, so that most refused blobs leave their fields behind, and a residual quantizer takes the
number of its levels from the blob.
-/

namespace SextantTree.QuantObjects

open ByteMem LloydMax Quant ScalarLloydMax
open ScalarLloydMaxQuantizer (length_numbers numbers_eq)

variable {α : Type} [Field α]

/-- A call that leaves the object as it was, or one with all indices inside. -/
def Settled {ω : Type} (Inside : ω → Prop) (o : ω) : ω × Except Fault Unit → Prop
  | (o', .error (.thrown _)) => o' = o
  | (_, .error .outOfRange) => False
  | (o', .ok ()) => Inside o'

lemma index_lt {s c m K : ℕ} (hs : s < m) (hc : c < K) : s * K + c < m * K := by
  have : (s + 1) * K ≤ m * K := Nat.mul_le_mul_right _ hs
  rw [Nat.succ_mul] at this
  omega

lemma poke_self (m : Mem) (pos : ℕ) (b : UInt8) : poke m pos [b] pos = b := by simp [poke]

lemma book_lt {s c d m K n : ℕ} (hs : s < m) (hc : c < K) (hd : d < n) :
    s * K * n + c * n + d < m * K * n := by
  rw [← Nat.add_mul]
  exact index_lt (index_lt hs hc) hd

/-! ### Product quantizers -/

def PqHeader.bookFloats (h : PqHeader) : ℕ := h.m * 2 ^ h.bits * (h.dim / h.m)

/-- A header that is valid, whose codebook and rotation the blob ends with. -/
structure PqHeader.WellSized (h : PqHeader) (img : Image α) : Prop where
  valid : h.Valid
  ends : (img.bytes (8 + h.bookFloats * 4) = 0 ∧ img.size = 8 + h.bookFloats * 4 + 1) ∨
    (img.bytes (8 + h.bookFloats * 4) ≠ 0 ∧ h.dim * h.dim < maxFloats ∧
      img.size = 8 + h.bookFloats * 4 + 1 + h.dim * h.dim * 4)

namespace PqHeader

lemma Valid.m_pos {h : PqHeader} (hv : h.Valid) : 0 < h.m :=
  Nat.pos_of_ne_zero fun h0 => hv (.inl h0)

lemma Valid.divides {h : PqHeader} (hv : h.Valid) : h.m * (h.dim / h.m) = h.dim :=
  Nat.mul_div_cancel' (Nat.dvd_of_mod_eq_zero (by_contra fun h0 => hv (.inr (.inl h0))))

lemma Valid.bits {h : PqHeader} (hv : h.Valid) : h.bits = 2 ∨ h.bits = 4 ∨ h.bits = 8 := by
  by_contra hno
  exact hv (.inr (.inr (by omega)))

lemma bookFloats_le {h : PqHeader} (hv : h.Valid) : h.bookFloats ≤ h.dim * 256 := by
  have hK : 2 ^ h.bits ≤ 256 := by rcases hv.bits with hb | hb | hb <;> rw [hb] <;> decide
  calc h.bookFloats = h.m * (h.dim / h.m) * 2 ^ h.bits := Nat.mul_right_comm _ _ _
    _ = h.dim * 2 ^ h.bits := by rw [hv.divides]
    _ ≤ h.dim * 256 := Nat.mul_le_mul_left _ hK

end PqHeader

namespace PqObject

/-- Every index that the methods form lies inside its array. -/
structure Inside (o : PqObject α) : Prop where
  /-- `encode`, the tables of a query and those of the object. -/
  centroid : ∀ s < o.m, ∀ c < o.K, ∀ d < o.subDim, o.bookAt s c d < o.codebook.length
  /-- `decode_code`. -/
  gathered : ∀ s < o.m, ∀ c < o.K, ∀ d < o.subDim,
    s * o.K * o.subDim + c * o.subDim + d < o.codebook.length
  /-- `encode` and the tables of a query. -/
  rotated : o.hasRotation = true → ∀ r < o.dim, ∀ c < o.dim,
    r * o.dim % 2 ^ 32 + c < o.rotation.length
  /-- `decode_code`. -/
  unrotated : o.hasRotation = true → ∀ r < o.dim, ∀ c < o.dim,
    (r * o.dim + c) % 2 ^ 32 < o.rotation.length
  /-- The tables of a query, where there is no rotation. -/
  sqnorm : ∀ s < o.m, ∀ c < o.K, s * o.K + c < o.centroidSqnorms.length
  code : ∀ s < o.m, codeByte o.bits s < o.codeSize

/-- The arrays of an object have the sizes that its fields say. -/
structure Sound (o : PqObject α) : Prop where
  valid : o.Valid
  m_lt : o.m < 256 ^ 2
  dim_lt : o.dim < 256 ^ 4
  K_eq : o.K = 2 ^ o.bits
  subDim_eq : o.subDim = o.dim / o.m
  codebook : o.codebook.length = o.m * o.K * o.subDim
  plain : o.hasRotation = false → o.rotation = []
  rotation : o.hasRotation = true →
    o.rotation.length = o.dim * o.dim ∧ o.dim * o.dim < maxFloats

variable {o : PqObject α}

omit [Field α] in
lemma Sound.inside (h : Sound o) (hn : o.centroidSqnorms.length = o.m * o.K) : Inside o where
  centroid s hs c hc d hd := by
    have := book_lt hs hc hd
    have hmod := Nat.mod_le (c * o.subDim) (2 ^ 32)
    rw [h.codebook, PqCoder.bookAt]
    omega
  gathered s hs c hc d hd := h.codebook ▸ book_lt hs hc hd
  rotated hr r hr' c hc := by
    have := index_lt hr' hc
    have hmod := Nat.mod_le (r * o.dim) (2 ^ 32)
    rw [(h.rotation hr).1]
    omega
  unrotated hr r hr' c hc := by
    rw [(h.rotation hr).1]
    exact (Nat.mod_le _ _).trans_lt (index_lt hr' hc)
  sqnorm s hs c hc := hn ▸ index_lt hs hc
  code s hs := by
    rw [codeByte, PqCoder.codeSize]
    rcases h.valid.bits with hb | hb | hb <;> rw [hb] <;> simp <;> omega

/-! #### The quantizer of an object -/

/-- The object as a quantizer with its arrays as functions. -/
def quantizer (o : PqObject α) : PqQuantizer α :=
  { metric := metricOf o.metric, dim := o.dim, m := o.m, bits := o.bits
    rotation := if o.hasRotation then some (entry o.rotation) else none
    codebook := entry o.codebook, centroidSqnorms := entry o.centroidSqnorms
    crossDistanceTable := some (entry o.crossDistanceTable) }

/-- The two decode alike where no index of the rotation wraps. -/
lemma Sound.decodeCode_eq (h : Sound o) (hdim : o.dim ≤ 2 ^ 16) (code : Mem) {c : ℕ} (hc : c < o.dim) :
    o.decodeCode code c = o.quantizer.decodeCode code c := by
  have hgather : (SegmentedVec.concat o.subDim fun s d =>
      entry o.codebook (s * o.K * o.subDim + LocalPq.readCode code o.bits s * o.subDim + d)) =
      o.quantizer.gather code := by
    rw [h.K_eq, h.subDim_eq]
    rfl
  unfold PqCoder.decodeCode PqQuantizer.decodeCode
  rw [hgather]
  cases hr : o.hasRotation with
  | false => simp only [quantizer, hr, Bool.false_eq_true, if_false]
  | true =>
    simp only [quantizer, hr, if_true, SegmentedVec.mulVecT]
    refine Finset.sum_congr rfl fun r hr => ?_
    have hle : (r + 1) * o.dim ≤ 2 ^ 16 * 2 ^ 16 :=
      Nat.mul_le_mul (by have := Finset.mem_range.1 hr; omega) hdim
    rw [Nat.mod_eq_of_lt (by rw [Nat.succ_mul] at hle; omega)]

/-! #### Objects -/

/-- The states of an object: as constructed, and after any training. -/
inductive Held : PqObject α → Prop
  | made {metric : MetricKind} {dim : UInt32} {m : UInt16} {bits : UInt8} {o : PqObject α} :
      make metric dim m bits = .ok o → Held o
  | enableOpq {o : PqObject α} : Held o → Held o.enableOpq
  | train {o : PqObject α} (n : ℕ) (pca : Option (ℕ → α)) (centroids : ℕ → α) :
      Held o → Held (o.train n pca centroids).1

lemma sound_make {metric : MetricKind} {dim : UInt32} {m : UInt16} {bits : UInt8}
    (h : make metric dim m bits = .ok o) : Sound o := by
  rw [make] at h
  split_ifs at h with hm hdiv hbits
  cases h
  exact ⟨fun hno => hno.elim hm fun hno => hno.elim hdiv hbits, m.toNat_lt, dim.toNat_lt, rfl, rfl,
    List.length_replicate .., fun _ => rfl, fun h => by cases h⟩

lemma Sound.train (h : Sound o) (n : ℕ) (pca : Option (ℕ → α)) (centroids : ℕ → α) :
    Sound (o.train n pca centroids).1 := by
  have hlen : ((List.range (o.m * o.K * o.subDim)).map centroids).length = o.m * o.K * o.subDim := by
    rw [List.length_map, List.length_range]
  rw [PqObject.train]
  dsimp only
  split_ifs with hn hfinds hf
  · exact h
  · exact { h with codebook := List.length_replicate .. }
  · cases pca with
    | none =>
      exact { h with
        codebook := hlen, plain := fun _ => rfl, rotation := fun h => absurd h Bool.false_ne_true }
    | some R =>
      refine { h with
        codebook := hlen, plain := fun h => absurd h.symm Bool.false_ne_true
        rotation := fun _ => ⟨?_, ?_⟩ }
      · exact (List.length_map ..).trans List.length_range
      · exact show o.dim * o.dim < maxFloats by
          by_contra hlong
          exact hfinds ⟨hf, by omega⟩
  · exact { h with codebook := hlen }

lemma Held.sound (h : Held o) : Sound o := by
  induction h with
  | made h => exact sound_make h
  | enableOpq _ ih => exact { ih with }
  | train n pca centroids _ ih => exact ih.train n pca centroids

/-! #### Blobs -/

/-- What is assigned by the time a size is found wrong. -/
def assigned (o : PqObject α) (h : PqHeader) : PqObject α :=
  { o with
    toPqHeader := h, K := 2 ^ h.bits, subDim := h.dim / h.m, hasRotation := false, rotation := []
    opqEnabled := false }

def loaded (o : PqObject α) (img : Image α) : PqObject α :=
  let h := headerOf img
  let off := 8 + h.bookFloats * 4
  let rotated := decide (img.bytes off ≠ 0)
  { o.assigned h with
    hasRotation := rotated
    rotation := if rotated then img.numbers (off + 1) (h.dim * h.dim) else []
    codebook := img.numbers 8 h.bookFloats }.buildCrossDistanceTable.computeCentroidSqnorms

lemma deserialize_wellSized (o : PqObject α) {img : Image α} (hw : (headerOf img).WellSized img) :
    o.deserialize img = (o.loaded img, .ok ()) := by
  obtain ⟨hv, hends⟩ := hw
  have hbook := PqHeader.bookFloats_le hv
  have hdim : (headerOf img).dim < 256 ^ 4 := word_lt ..
  have hbig : (256 ^ 4 : ℕ) = 4294967296 := rfl
  have hmax : maxFloats = 2305843009213693952 := rfl
  have hkey : (headerOf img).m * 2 ^ (headerOf img).bits * ((headerOf img).dim / (headerOf img).m) =
      (headerOf img).bookFloats := rfl
  rw [deserialize]
  dsimp only
  rw [hkey]
  rcases hends with ⟨hflag, hsize⟩ | ⟨hflag, hlen, hsize⟩
  · rw [if_neg (by omega), if_neg (not_not.2 hv), if_neg (by omega), if_neg (not_not.2 hflag),
      if_neg (by omega)]
    simp only [loaded, hflag, ne_eq, not_true_eq_false, decide_false, Bool.false_eq_true, if_false]
    rfl
  · rw [if_neg (by omega), if_neg (not_not.2 hv), if_neg (by omega), if_pos hflag,
      if_neg (by omega), if_neg (by omega)]
    simp only [loaded, hflag, ne_eq, not_false_eq_true, decide_true, if_true]
    rfl

lemma sound_loaded (o : PqObject α) {img : Image α} (hw : (headerOf img).WellSized img) :
    Sound (o.loaded img) where
  valid := hw.valid
  m_lt := word_lt ..
  dim_lt := word_lt ..
  K_eq := rfl
  subDim_eq := rfl
  codebook := length_numbers ..
  plain h := if_neg (by rw [show decide _ = false from h]; decide)
  rotation h := by
    have hflag : img.bytes (8 + (headerOf img).bookFloats * 4) ≠ 0 := of_decide_eq_true h
    refine ⟨?_, ?_⟩
    · exact (congrArg List.length (if_pos h)).trans (length_numbers ..)
    · rcases hw.ends with ⟨h0, -⟩ | ⟨-, hlt, -⟩
      · exact absurd h0 hflag
      · exact hlt

lemma inside_loaded (o : PqObject α) {img : Image α} (hw : (headerOf img).WellSized img) :
    Inside (o.loaded img) :=
  (sound_loaded o hw).inside (by simp [loaded, computeCentroidSqnorms, buildCrossDistanceTable])

lemma deserialize_missized (o : PqObject α) {img : Image α} (hsmall : ¬ img.size < 8)
    (hv : (headerOf img).Valid) (hw : ¬ (headerOf img).WellSized img) :
    ∃ what, o.deserialize img = (o.assigned (headerOf img), .error (.thrown what)) := by
  have hbook := PqHeader.bookFloats_le hv
  have hdim : (headerOf img).dim < 256 ^ 4 := word_lt ..
  have hbig : (256 ^ 4 : ℕ) = 4294967296 := rfl
  have hmax : maxFloats = 2305843009213693952 := rfl
  have hkey : (headerOf img).m * 2 ^ (headerOf img).bits * ((headerOf img).dim / (headerOf img).m) =
      (headerOf img).bookFloats := rfl
  rw [deserialize]
  dsimp only
  rw [hkey, if_neg hsmall, if_neg (not_not.2 hv)]
  split_ifs with hmin hflag hrot hlong hsize
  · exact ⟨_, rfl⟩
  · exact ⟨_, rfl⟩
  · exact ⟨_, rfl⟩
  · exact absurd ⟨hv, .inr ⟨hflag, by omega, by omega⟩⟩ hw
  · exact ⟨_, rfl⟩
  · exact absurd ⟨hv, .inl ⟨not_not.1 hflag, not_not.1 hsize⟩⟩ hw

/-- A blob that is too small, or sized as its header says, or whose header is the object's, which
has no rotation and asks for none. -/
def Clean (o : PqObject α) (img : Image α) : Prop :=
  img.size < 8 ∨ (headerOf img).WellSized img ∨
    (headerOf img = o.toPqHeader ∧ o.hasRotation = false ∧ o.opqEnabled = false)

omit [Field α] in
lemma Sound.assigned_eq_iff (ho : Sound o) (h : PqHeader) :
    o.assigned h = o ↔ h = o.toPqHeader ∧ o.hasRotation = false ∧ o.opqEnabled = false := by
  constructor
  · intro heq
    have hrot := congrArg (fun q : PqObject α => (q.hasRotation, q.opqEnabled)) heq
    exact ⟨congrArg (fun q : PqObject α => q.toPqHeader) heq, (Prod.mk.inj hrot).1.symm,
      (Prod.mk.inj hrot).2.symm⟩
  · rintro ⟨rfl, hrot, hopq⟩
    have hK := ho.K_eq
    have hsub := ho.subDim_eq
    have hplain := ho.plain hrot
    rcases o with ⟨⟨header, K, subDim, codebook, hasRotation, rotation⟩, opq, sqnorms, table⟩
    dsimp only at hrot hopq hK hsub hplain
    rw [hrot, hopq, hK, hsub, hplain]
    rfl

theorem settled_iff (ho : Sound o) (img : Image α) :
    Settled Inside o (o.deserialize img) ↔ Clean o img := by
  by_cases hsmall : img.size < 8
  · rw [deserialize, if_pos hsmall]
    exact iff_of_true rfl (.inl hsmall)
  by_cases hw : (headerOf img).WellSized img
  · rw [deserialize_wellSized o hw]
    exact iff_of_true (inside_loaded o hw) (.inr (.inl hw))
  have hclean : Clean o img ↔
      headerOf img = o.toPqHeader ∧ o.hasRotation = false ∧ o.opqEnabled = false := by
    rw [Clean, or_iff_right hsmall, or_iff_right hw]
  by_cases hv : (headerOf img).Valid
  · obtain ⟨what, heq⟩ := deserialize_missized o hsmall hv hw
    rw [heq, hclean]
    exact ho.assigned_eq_iff _
  · rw [deserialize, if_neg hsmall, hclean]
    dsimp only
    rw [if_pos hv]
    refine iff_of_false (fun heq => hv ?_) fun heq => hv (heq.1 ▸ ho.valid)
    have : headerOf img = o.toPqHeader := congrArg (fun q : PqObject α => q.toPqHeader) heq
    exact this ▸ ho.valid

lemma serialize_bytes (h : Sound o) : headerOf o.serialize = o.toPqHeader ∧
    o.serialize.bytes (8 + o.codebook.length * 4) = if o.hasRotation then 1 else 0 := by
  have hbits : o.bits < 256 := by rcases h.valid.bits with hb | hb | hb <;> omega
  refine ⟨?_, ?_⟩
  · have hmetric : o.serialize.bytes 0 = o.metric := by
      simp only [serialize]
      rw [poke_apply_of_lt (by omega), poke_apply_of_lt (by decide), poke_apply_of_lt (by decide),
        poke_apply_of_lt (by decide), poke_self]
    have hm : word o.serialize.bytes 2 1 = o.m := by
      simp only [serialize]
      rw [word_poke (.inl (by omega)), word_poke (.inl (by decide)), word_poke (.inl (by decide)),
        word_poke_self h.m_lt]
    have hb : (o.serialize.bytes 3).toNat = o.bits := by
      simp only [serialize]
      rw [poke_apply_of_lt (by omega), poke_apply_of_lt (by decide), poke_self, UInt8.toNat_ofNat']
      omega
    have hdim : word o.serialize.bytes 4 4 = o.dim := by
      simp only [serialize]
      rw [word_poke (.inl (by omega)), word_poke_self h.dim_lt]
    rw [headerOf, hmetric, hm, hb, hdim]
  · simp only [serialize]
    rw [poke_self]

/-- A blob read into any object gives all that encoding and decoding read. -/
theorem deserialize_serialize (h : Sound o) (o' : PqObject α) :
    ∃ q, o'.deserialize o.serialize = (q, .ok ()) ∧ q.toPqCoder = o.toPqCoder := by
  obtain ⟨hheader, hflag⟩ := serialize_bytes h
  have hbook : o.toPqHeader.bookFloats = o.codebook.length := by
    rw [h.codebook, h.K_eq, h.subDim_eq, PqHeader.bookFloats]
  have hw : (headerOf o.serialize).WellSized o.serialize := by
    rw [hheader]
    refine ⟨h.valid, ?_⟩
    rw [hbook, hflag]
    cases hrot : o.hasRotation with
    | false => exact .inl ⟨rfl, by simp [serialize, hrot]⟩
    | true => exact .inr ⟨by decide, (h.rotation hrot).2, by simp [serialize, hrot]⟩
  refine ⟨_, deserialize_wellSized o' hw, ?_⟩
  have hcodebook : o.serialize.numbers 8 o.codebook.length = o.codebook :=
    numbers_eq rfl fun i hi => by
      simp only [serialize]
      rw [if_pos (by omega), show (8 + 4 * i - 8) / 4 = i by omega]
  have hrotation : (if o.hasRotation then
      o.serialize.numbers (8 + o.codebook.length * 4 + 1) (o.dim * o.dim) else []) =
      o.rotation := by
    cases hrot : o.hasRotation with
    | false => exact (h.plain hrot).symm
    | true =>
      refine numbers_eq (h.rotation hrot).1.symm fun i hi => ?_
      simp only [serialize]
      rw [if_neg (by omega), show (8 + o.codebook.length * 4 + 1 + 4 * i -
        (8 + o.codebook.length * 4 + 1)) / 4 = i by omega]
  have hrot : decide (o.serialize.bytes (8 + o.codebook.length * 4) ≠ 0) = o.hasRotation := by
    rw [hflag]
    cases o.hasRotation <;> rfl
  simp only [loaded, assigned, computeCentroidSqnorms, buildCrossDistanceTable]
  rw [hheader, hbook, hrot, hcodebook, hrotation, ← h.K_eq, ← h.subDim_eq]

end PqObject

/-! ### Residual quantizers -/

def PrqHeader.bookFloats (h : PrqHeader) : ℕ :=
  h.nsplits * h.mSub * 2 ^ h.bits * (h.dim / h.nsplits)

/-- The segments of all levels have room in a code. -/
def PrqHeader.CodesFit (h : PrqHeader) : Prop := h.nsplits * h.mSub ≤ 2 * ((h.m * h.bits + 7) / 8)

namespace PrqHeader

variable {h : PrqHeader}

lemma Valid.bits (hv : h.Valid) : h.bits = 4 :=
  by_contra fun hno => hv (by tauto)

lemma bookFloats_lt (hv : h.Valid) (hfit : h.CodesFit) (hm : h.m < 256 ^ 2)
    (hdim : h.dim < 256 ^ 4) : h.bookFloats < 2 ^ 54 := by
  rw [CodesFit, hv.bits] at hfit
  have hle : h.nsplits * h.mSub ≤ 2 ^ 17 := by omega
  have hquot : h.dim / h.nsplits ≤ 2 ^ 32 - 1 := (Nat.div_le_self _ _).trans (by omega)
  calc h.bookFloats = h.nsplits * h.mSub * 16 * (h.dim / h.nsplits) := by
        rw [bookFloats, hv.bits]
        norm_num
    _ ≤ 2 ^ 17 * 16 * (2 ^ 32 - 1) := Nat.mul_le_mul (Nat.mul_le_mul_right _ hle) hquot
    _ < 2 ^ 54 := by decide

end PrqHeader

/-- The rows of the tables of a query fit into them when there are no more levels than segments. -/
lemma PrqCoder.tables_fit_iff (q : PrqCoder α) (query : ℕ → α) :
    (q.encoder.preprocessQuery query).isSome = true ↔ q.nsplits * q.mSub ≤ q.m := by
  have hK : 0 < q.encoder.K := Nat.two_pow_pos _
  unfold ProductResidualQuantizer.preprocessQuery ProductResidualQuantizer.preprocessQueryAs
  split_ifs with hlt
  · exact iff_of_false Bool.false_ne_true (Nat.not_le.2 (Nat.lt_of_mul_lt_mul_right hlt))
  · exact iff_of_true rfl (Nat.le_of_mul_le_mul_right (Nat.not_lt.1 hlt) hK)

namespace PrqObject

/-- Every index that the methods form lies inside its array; the tables of a query are the
caller's. -/
structure Inside (o : PrqObject α) : Prop where
  /-- `encode`, `decode_code` and the tables of a query. -/
  centroid : o.BooksInside
  /-- The tables of a query. -/
  sqnorm : ∀ s < o.nsplits, ∀ lev < o.mSub, ∀ c < o.K,
    o.globalSeg s lev * o.K + c < o.rqCentroidSqnorms.length
  /-- `encode` and `decode_code`. -/
  code : ∀ s < o.nsplits, ∀ lev < o.mSub, codeByte o.bits (o.globalSeg s lev) < o.codeSize

/-- The arrays of an object have the sizes that its fields say. -/
structure Sound (o : PrqObject α) : Prop where
  m_pos : 0 < o.m
  m_lt : o.m < 256 ^ 2
  bits : o.bits = 4
  dim_lt : o.dim < 256 ^ 4
  nsplits_pos : 0 < o.nsplits
  nsplits_lt : o.nsplits < 256 ^ 4
  mSub_pos : 0 < o.mSub
  m_eq : o.nsplits * o.mSub = o.m
  dim_divides : o.dim % o.nsplits = 0
  beam_lt : o.beamSize < 256 ^ 4
  K_eq : o.K = 2 ^ o.bits
  subDim_eq : o.subDim = o.dim / o.m
  subDimPrq_eq : o.subDimPrq = o.dim / o.nsplits
  books : o.rqCodebooks.length = o.nsplits * o.mSub * o.K * o.subDimPrq

variable {o : PrqObject α}

omit [Field α] in
lemma Inside.codesFit (h : Inside o) (hbits : o.bits = 4) (hm : o.m < 256 ^ 2) :
    o.CodesFit := by
  by_contra hno
  rw [PrqHeader.CodesFit, hbits] at hno
  have hpos : 0 < o.mSub := Nat.pos_of_ne_zero fun h0 => by
    rw [h0, Nat.mul_zero] at hno
    exact hno (Nat.zero_le _)
  have hs : 2 * ((o.m * 4 + 7) / 8) / o.mSub < o.nsplits :=
    (Nat.div_lt_iff_lt_mul hpos).2 (not_le.1 hno)
  have hlast := h.code _ hs _ (Nat.mod_lt (2 * ((o.m * 4 + 7) / 8)) hpos)
  rw [PrqCoder.globalSeg, Nat.div_add_mod', Nat.mod_eq_of_lt (by omega), codeByte, hbits,
    if_neg (by decide), if_neg (by decide), PrqCoder.codeSize, hbits] at hlast
  omega

omit [Field α] in
lemma Sound.codesFit (h : Sound o) : o.CodesFit := by
  rw [PrqHeader.CodesFit, h.m_eq, h.bits]
  omega

omit [Field α] in
lemma inside_of_sizes (hbits : o.bits = 4) (hfit : o.CodesFit)
    (hbooks : o.rqCodebooks.length = o.nsplits * o.mSub * o.K * o.subDimPrq)
    (hsqnorms : o.rqCentroidSqnorms.length = o.nsplits * o.mSub * o.K) : Inside o where
  centroid s hs lev hlev c hc d hd := by
    have := book_lt (index_lt hs hlev) hc hd
    have h₁ := Nat.mod_le ((s * o.mSub + lev) * o.K * o.subDimPrq) (2 ^ 64)
    have h₂ := Nat.mod_le (c * o.subDimPrq) (2 ^ 32)
    rw [hbooks, PrqCoder.bookAt]
    omega
  sqnorm s hs lev hlev c hc := by
    rw [hsqnorms]
    exact index_lt ((Nat.mod_le _ _).trans_lt (index_lt hs hlev)) hc
  code s hs lev hlev := by
    have hseg : o.globalSeg s lev < o.nsplits * o.mSub :=
      (Nat.mod_le _ _).trans_lt (index_lt hs hlev)
    rw [PrqHeader.CodesFit, hbits] at hfit
    rw [codeByte, hbits, if_neg (by decide), if_neg (by decide), PrqCoder.codeSize, hbits]
    omega

/-! #### Objects -/

/-- The states of an object: as constructed, and after any training. -/
inductive Held : PrqObject α → Prop
  | made {metric : MetricKind} {dim : UInt32} {m : UInt16} {bits : UInt8} {nsplits beam : UInt32}
      {seed : UInt64} {mode : String} {icm ils perturb : UInt32} {o : PrqObject α} :
      make metric dim m bits nsplits beam seed mode icm ils perturb = .ok o → Held o
  | train {o : PrqObject α} (n : ℕ) (centroids : ℕ → α) :
      Held o → Held (o.train n centroids).1

lemma sound_make {metric : MetricKind} {dim : UInt32} {m : UInt16} {bits : UInt8}
    {nsplits beam : UInt32} {seed : UInt64} {mode : String} {icm ils perturb : UInt32}
    (h : make metric dim m bits nsplits beam seed mode icm ils perturb = .ok o) : Sound o := by
  rw [make] at h
  cases hpq : PqObject.make (α := α) metric dim m bits with
  | error e =>
    rw [hpq] at h
    cases h
  | ok pq =>
    rw [hpq] at h
    have hs := PqObject.sound_make hpq
    replace h : (if nsplits.toNat = 0 then _ else _) = Except.ok o := h
    split_ifs at h with hns hm hdim hbits hsub
    cases h
    exact {
      m_pos := hs.valid.m_pos, m_lt := hs.m_lt, bits := not_not.1 hbits, dim_lt := hs.dim_lt
      nsplits_pos := Nat.pos_of_ne_zero hns, nsplits_lt := nsplits.toNat_lt
      mSub_pos := Nat.pos_of_ne_zero hsub
      m_eq := Nat.mul_div_cancel' (Nat.dvd_of_mod_eq_zero (not_not.1 hm))
      dim_divides := not_not.1 hdim, beam_lt := beam.toNat_lt, K_eq := hs.K_eq
      subDim_eq := hs.subDim_eq, subDimPrq_eq := rfl, books := List.length_replicate .. }

lemma Sound.train (h : Sound o) (n : ℕ) (centroids : ℕ → α) : Sound (o.train n centroids).1 := by
  rw [PrqObject.train]
  split_ifs
  · exact h
  · exact { h with books := (List.length_map ..).trans List.length_range }

lemma Held.sound (h : Held o) : Sound o := by
  induction h with
  | made h => exact sound_make h
  | train n centroids _ ih => exact ih.train n centroids

/-! #### Blobs -/

/-- What is assigned by the time a size is found wrong. -/
def assigned (o : PrqObject α) (h : PrqHeader) : PrqObject α :=
  { o with
    toPrqHeader := h, K := 2 ^ h.bits, subDim := h.dim / h.m, subDimPrq := h.dim / h.nsplits }

def loaded (o : PrqObject α) (img : Image α) : PrqObject α :=
  { o.assigned (headerOf img) with
    rqCodebooks := img.numbers 21 (headerOf img).bookFloats }.computeRqCentroidSqnorms

lemma inside_loaded (o : PrqObject α) {img : Image α} (hv : (headerOf img).Valid)
    (hfit : (headerOf img).CodesFit) : Inside (o.loaded img) :=
  inside_of_sizes hv.bits hfit (length_numbers ..)
    ((List.length_map ..).trans List.length_range)

lemma deserialize_valid (o : PrqObject α) {img : Image α} (hsmall : ¬ img.size < 21)
    (hmagic : img.bytes 0 = kMagic) (hv : (headerOf img).Valid) :
    (∃ what, o.deserialize img = (o.assigned (headerOf img), .error (.thrown what))) ∨
      (∃ q, o.deserialize img = (q, .error .outOfRange)) ∨
      ∃ q, o.deserialize img = (q, .ok ()) ∧ q.toPrqHeader = headerOf img := by
  rw [deserialize]
  dsimp only
  rw [if_neg hsmall, if_neg (not_not.2 hmagic), if_neg (not_not.2 hv)]
  split_ifs
  · exact .inl ⟨_, rfl⟩
  · exact .inl ⟨_, rfl⟩
  · exact .inr (.inr ⟨_, rfl, rfl⟩)
  · exact .inr (.inl ⟨_, rfl⟩)

lemma deserialize_fit (o : PrqObject α) {img : Image α} (hsmall : ¬ img.size < 21)
    (hmagic : img.bytes 0 = kMagic) (hv : (headerOf img).Valid)
    (hfit : (headerOf img).CodesFit) :
    o.deserialize img = if img.size = 21 + (headerOf img).bookFloats * 4 then
      (o.loaded img, .ok ())
    else (o.assigned (headerOf img), .error (.thrown "PRQ deserialize: size mismatch")) := by
  have hlt := PrqHeader.bookFloats_lt hv hfit (word_lt ..) (word_lt ..)
  have hmax : maxFloats = 2305843009213693952 := rfl
  have hkey : (headerOf img).nsplits * (headerOf img).mSub * 2 ^ (headerOf img).bits *
      ((headerOf img).dim / (headerOf img).nsplits) = (headerOf img).bookFloats := rfl
  rw [deserialize]
  dsimp only
  rw [hkey, if_neg hsmall, if_neg (not_not.2 hmagic), if_neg (not_not.2 hv),
    Nat.mod_eq_of_lt (show (headerOf img).bookFloats < 2 ^ 64 by omega),
    Nat.mod_eq_of_lt (show (headerOf img).bookFloats * 4 < 2 ^ 64 by omega),
    Nat.mod_eq_of_lt (show 21 + (headerOf img).bookFloats * 4 < 2 ^ 64 by omega)]
  by_cases hsize : img.size = 21 + (headerOf img).bookFloats * 4
  · rw [if_neg (not_not.2 hsize), if_pos hsize, if_neg (by omega)]
    exact if_pos (inside_loaded o hv hfit).centroid
  · rw [if_pos hsize, if_neg hsize]
    rfl

/-- A blob that is too small, of something else, or with an invalid header that begins like the
object's; or one with a valid header whose codes fit, which is sized as it says or is the object's. -/
def Clean (o : PrqObject α) (img : Image α) : Prop :=
  let h := headerOf img
  img.size < 21 ∨ img.bytes 0 ≠ kMagic ∨
    (¬ h.Valid ∧ h.metric = o.metric ∧ h.m = o.m ∧ h.bits = o.bits ∧ h.dim = o.dim) ∨
    (h.Valid ∧ h.CodesFit ∧ (img.size = 21 + h.bookFloats * 4 ∨ h = o.toPrqHeader))

omit [Field α] in
lemma Sound.assigned_eq_iff (ho : Sound o) (h : PrqHeader) :
    o.assigned h = o ↔ h = o.toPrqHeader := by
  constructor
  · exact fun heq => congrArg (fun q : PrqObject α => q.toPrqHeader) heq
  · rintro rfl
    rw [assigned, ← ho.K_eq, ← ho.subDim_eq, ← ho.subDimPrq_eq]

theorem settled_iff (ho : Sound o) (img : Image α) :
    Settled Inside o (o.deserialize img) ↔ Clean o img := by
  by_cases hsmall : img.size < 21
  · rw [deserialize, if_pos hsmall]
    exact iff_of_true rfl (.inl hsmall)
  by_cases hmagic : img.bytes 0 = kMagic
  swap
  · rw [deserialize, if_neg hsmall, if_pos hmagic]
    exact iff_of_true rfl (.inr (.inl hmagic))
  rw [Clean, or_iff_right hsmall, or_iff_right (not_not.2 hmagic)]
  by_cases hv : (headerOf img).Valid
  · rw [or_iff_right (fun h => h.1 hv)]
    by_cases hfit : (headerOf img).CodesFit
    · rw [deserialize_fit o hsmall hmagic hv hfit]
      split_ifs with hsize
      · exact iff_of_true (inside_loaded o hv hfit) ⟨hv, hfit, .inl hsize⟩
      · rw [and_iff_right hv, and_iff_right hfit, or_iff_right hsize]
        exact ho.assigned_eq_iff _
    · refine iff_of_false (fun hsettled => hfit ?_) fun h => hfit h.2.1
      rcases deserialize_valid o hsmall hmagic hv with ⟨what, heq⟩ | ⟨q, heq⟩ | ⟨q, heq, hq⟩
      · rw [heq] at hsettled
        rw [(ho.assigned_eq_iff _).1 hsettled]
        exact ho.codesFit
      · rw [heq] at hsettled
        exact hsettled.elim
      · rw [heq] at hsettled
        rw [← hq]
        exact Inside.codesFit hsettled (hq ▸ hv.bits) (hq ▸ word_lt ..)
  · rw [or_iff_left (fun h => hv h.1), and_iff_right hv, deserialize, if_neg hsmall,
      if_neg (not_not.2 hmagic)]
    dsimp only
    rw [if_pos hv]
    constructor
    · intro heq
      have hfour := congrArg (fun q : PrqObject α => (q.metric, q.m, q.bits, q.dim)) heq
      simpa only [Prod.mk.injEq] using hfour
    · rintro ⟨hmetric, hm, hbits, hdim⟩
      rw [Settled, hmetric, hm, hbits, hdim]

lemma serialize_bytes (h : Sound o) :
    o.serialize.bytes 0 = kMagic ∧ headerOf o.serialize = o.toPrqHeader := by
  have hbits := h.bits
  have hmetric : o.serialize.bytes 0 = kMagic ∧ o.serialize.bytes 1 = o.metric ∧
      (o.serialize.bytes 4).toNat = o.bits := by
    simp only [serialize]
    refine ⟨?_, ?_, ?_⟩
    · repeat rw [poke_apply_of_lt (by decide)]
      exact poke_self ..
    · repeat rw [poke_apply_of_lt (by decide)]
      exact poke_self ..
    · repeat rw [poke_apply_of_lt (by decide)]
      rw [poke_self, UInt8.toNat_ofNat']
      omega
  have hm : word o.serialize.bytes 2 2 = o.m := by
    simp only [serialize]
    repeat rw [word_poke (.inl (by decide))]
    exact word_poke_self h.m_lt
  have hdim : word o.serialize.bytes 4 5 = o.dim := by
    simp only [serialize]
    repeat rw [word_poke (.inl (by decide))]
    exact word_poke_self h.dim_lt
  have hns : word o.serialize.bytes 4 9 = o.nsplits := by
    simp only [serialize]
    repeat rw [word_poke (.inl (by decide))]
    exact word_poke_self h.nsplits_lt
  have hmSub : word o.serialize.bytes 4 13 = o.mSub := by
    simp only [serialize]
    rw [word_poke (.inl (by decide))]
    refine word_poke_self (lt_of_le_of_lt ?_ h.m_lt |>.trans (by decide))
    rw [← h.m_eq]
    exact Nat.le_mul_of_pos_left _ h.nsplits_pos
  have hbeam : word o.serialize.bytes 4 17 = o.beamSize := by
    simp only [serialize]
    exact word_poke_self h.beam_lt
  refine ⟨hmetric.1, ?_⟩
  rw [headerOf, hmetric.2.1, hmetric.2.2, hm, hdim, hns, hmSub, hbeam]

/-- The settings of encoding that a blob does not carry. -/
def params (q : PrqCoder α) : ℕ × String × ℕ × ℕ × ℕ :=
  (q.seed, q.encodeMode, q.icmIters, q.ilsIters, q.ilsPerturb)

/-- A blob is read back in full if and only if there are dimensions, and the object it is read into
has been constructed with the same settings. -/
theorem deserialize_serialize_iff (h : Sound o) (o' : PrqObject α) :
    (∃ q, o'.deserialize o.serialize = (q, .ok ()) ∧ q.toPrqCoder = o.toPrqCoder) ↔
      0 < o.dim ∧ params o'.toPrqCoder = params o.toPrqCoder := by
  obtain ⟨hmagic, hheader⟩ := serialize_bytes h
  have hsmall : ¬ o.serialize.size < 21 := not_lt.2 (Nat.le_add_right ..)
  have hbook : o.toPrqHeader.bookFloats = o.rqCodebooks.length := by
    rw [h.books, h.K_eq, h.subDimPrq_eq, PrqHeader.bookFloats]
  rcases Nat.eq_zero_or_pos o.dim with hdim | hdim
  · refine iff_of_false ?_ fun hno => absurd hno.1 (by omega)
    rintro ⟨q, heq, -⟩
    have hv : ¬ (headerOf o.serialize).Valid := by
      rw [hheader]
      exact not_not.2 (.inr (.inr (.inr (.inl hdim))))
    rw [deserialize, if_neg hsmall, if_neg (not_not.2 hmagic)] at heq
    dsimp only at heq
    rw [if_pos hv] at heq
    cases heq
  · have hmod : o.m % o.nsplits = 0 := by
      rw [← h.m_eq]
      exact Nat.mul_mod_right ..
    have hv : (headerOf o.serialize).Valid := by
      rw [hheader]
      rintro (h0 | h0 | h0 | h0 | h0 | h0 | h0)
      · exact absurd h.m_pos (by omega)
      · exact absurd h.nsplits_pos (by omega)
      · exact absurd h.mSub_pos (by omega)
      · omega
      · exact h0 hmod
      · exact h0 h.dim_divides
      · exact h0 h.bits
    have hbooks : o.serialize.numbers 21 o.rqCodebooks.length = o.rqCodebooks :=
      numbers_eq rfl fun i _ => by
        simp only [serialize]
        rw [show (21 + 4 * i - 21) / 4 = i by omega]
    have heq : o'.deserialize o.serialize = (o'.loaded o.serialize, .ok ()) := by
      rw [deserialize_fit o' hsmall hmagic hv (hheader ▸ h.codesFit), hheader, hbook]
      exact if_pos rfl
    have hcoder : (o'.loaded o.serialize).toPrqCoder =
        { o'.toPrqCoder with
          toPrqHeader := o.toPrqHeader, K := o.K, subDimPrq := o.subDimPrq
          rqCodebooks := o.rqCodebooks } := by
      simp only [loaded, assigned, computeRqCentroidSqnorms]
      rw [hheader, hbook, hbooks, ← h.K_eq, ← h.subDimPrq_eq]
    rw [and_iff_right hdim, heq]
    constructor
    · rintro ⟨q, hq, hsame⟩
      cases hq
      rw [hcoder] at hsame
      have hparams := congrArg params hsame
      exact hparams
    · intro hparams
      refine ⟨_, rfl, ?_⟩
      simp only [params, Prod.mk.injEq] at hparams
      obtain ⟨hseed, hmode, hicm, hils, hperturb⟩ := hparams
      rw [hcoder]
      dsimp only
      rw [hseed, hmode, hicm, hils, hperturb]

end PrqObject

end SextantTree.QuantObjects
