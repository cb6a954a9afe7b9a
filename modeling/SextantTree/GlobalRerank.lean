import SextantTree.LocalRerank
import SextantTree.LutRank

/-!
The two ways of `GlobalPqCoder::rerank`. With a scan setup it adds up products of the query as it is
with the centroids; without one it takes the code out of the leaf, decodes it and measures. A
decoded vector is turned back, the centroids are not.
-/

namespace SextantTree.Quant

open ByteMem LeafCodes PackedCells SegmentedVec LocalPq

variable {α : Type} [CommRing α]

/-! ### The coder -/

/-- The parameters of a coder and a quantizer of that shape. -/
structure GlobalPqCoder (α : Type) [CommRing α] where
  metric : MetricKind
  dim : ℕ
  m4 : ℕ
  bits : ℕ
  quantizer : Quantizer α
  made : quantizer.Made
  dim_eq : quantizer.base.dim = dim
  m_eq : quantizer.base.m = m4
  bits_eq : quantizer.base.bits = bits
  m4_lt : m4 < 2 ^ 16
  bitsOk : BitsOk bits

/-- The tables of `GlobalPqCoder::Setup` that `rerank` reads. -/
structure Setup (α : Type) where
  rerankDot : ℕ → α
  rerankNrm : ℕ → α
  querySq : α

namespace GlobalPqCoder

variable (c : GlobalPqCoder α)

/-- `scan_setup`, without the tables of the scan. -/
def scanSetup (query : ℕ → α) : Setup α :=
  let K := c.quantizer.base.K
  let sub := c.quantizer.base.subDim
  let cw := fun k => shift (k * sub) c.quantizer.base.codebook
  { rerankDot := fun k => if k < c.m4 * K then dot sub (shift (k / K * sub) query) (cw k) else 0
    rerankNrm := fun k => if k < c.m4 * K then dot sub (cw k) (cw k) else 0
    querySq := dot c.dim query query }

/-- `rerank` without a setup, into a fresh code. -/
def rerankDecoded (query : ℕ → α) (leaf : Mem) (localIdx : ℕ) : α :=
  let m4 := word leaf 2 24
  let bits := word leaf 1 26
  let code := extractCodeFromLeaf leaf localIdx m4 bits (leafCodesOffset (word leaf 4 48)) 0
    fun _ => 0
  c.metric.distance c.dim query (c.quantizer.decodeCode code)

/-- `rerank` with a setup. -/
def rerank (query : ℕ → α) (s : Setup α) (leaf : Mem) (localIdx : ℕ) : α :=
  match c.quantizer with
  | .prq _ => c.rerankDecoded query leaf localIdx
  | .pq q | .anisotropic q =>
    let m := word leaf 2 24
    let bits := word leaf 1 26
    let codesPerBlock := codesPerBlockRead bits
    let slot := localIdx % codesPerBlock
    let blk := leafCodesOffset (word leaf 4 48) + localIdx / codesPerBlock * (m * 16)
    let entry := fun sg => (if bits = 8 then leaf (blk + (sg * 16 + slot))
      else readNibble leaf blk slot sg).toNat
    let acc := ∑ sg ∈ Finset.range m, s.rerankDot (sg * q.K + entry sg)
    let nacc := ∑ sg ∈ Finset.range m, s.rerankNrm (sg * q.K + entry sg)
    match c.metric with
    | .innerProduct => -acc
    | .l2Sq => s.querySq - 2 * acc + nacc

def OwnLeaf (leaf : Mem) : Prop := word leaf 2 24 = c.m4 ∧ word leaf 1 26 = c.bits

def RerankAgrees : Prop :=
  ∀ query leaf localIdx, c.OwnLeaf leaf →
    c.rerank query (c.scanSetup query) leaf localIdx = c.rerankDecoded query leaf localIdx

end GlobalPqCoder

/-! ### Rows of centroids -/

lemma MetricKind.distance_congr (metric : MetricKind) {n : ℕ} {q x y : ℕ → α}
    (h : ∀ i < n, x i = y i) : metric.distance n q x = metric.distance n q y := by
  cases metric with
  | l2Sq => exact sqDist_congr (fun _ _ => rfl) h
  | innerProduct => exact congrArg Neg.neg (dot_congr (fun _ _ => rfl) h)

lemma MetricKind.eq_of_distance_eq [IsDomain α] [CharZero α] {metric : MetricKind} {n : ℕ}
    {x y : ℕ → α} (h : ∀ q, metric.distance n q x = metric.distance n q y) {i : ℕ} (hi : i < n) :
    x i = y i := by
  refine eq_of_dot_eq (fun q => ?_) hi
  cases metric with
  | innerProduct => exact neg_injective (h q)
  | l2Sq =>
    have hlength : dot n x x = dot n y y := by
      have hzero := h fun _ => 0
      simp only [MetricKind.distance, sqDist_eq] at hzero
      rw [dot_comm n (fun _ => 0) x, dot_comm n (fun _ => 0) y] at hzero
      simp only [dot_zero] at hzero
      linear_combination hzero
    have hq := h q
    simp only [MetricKind.distance, sqDist_eq] at hq
    have htwice : (2 : α) * dot n q x = 2 * dot n q y := by linear_combination hlength - hq
    exact mul_left_cancel₀ two_ne_zero htwice

namespace PqQuantizer

variable (q : PqQuantizer α)

/-- The centroids of some numbers side by side. -/
def sideBySide (ids : ℕ → ℕ) : ℕ → α := concat q.subDim fun s => q.centroid s (ids s)

/-- What `decode_code` does to a row of centroids. -/
def turnedBack (x : ℕ → α) : ℕ → α :=
  match q.rotation with
  | none => x
  | some R => mulVecT q.dim R x

/-- Turning back changes no row of centroids. -/
def KeepsRows : Prop :=
  ∀ ids : ℕ → ℕ, (∀ s, ids s < q.K) → ∀ r < q.dim,
    q.turnedBack (q.sideBySide ids) r = q.sideBySide ids r

lemma decodeCode_eq_turnedBack (code : Mem) :
    q.decodeCode code = q.turnedBack (q.sideBySide (readCode code q.bits)) := by
  unfold decodeCode turnedBack
  cases q.rotation <;> rfl

variable {q}

lemma turnedBack_congr {x y : ℕ → α} (h : ∀ r < q.dim, x r = y r) :
    ∀ r < q.dim, q.turnedBack x r = q.turnedBack y r := by
  intro r hr
  unfold turnedBack
  cases q.rotation with
  | none => exact h r hr
  | some R => exact Finset.sum_congr rfl fun r' hr' => by rw [h r' (Finset.mem_range.1 hr')]

lemma Ok.segment_lt (h : q.Ok) {r : ℕ} (hr : r < q.dim) : r / q.subDim < q.m := by
  rw [h.dim_eq] at hr
  exact Nat.div_lt_of_lt_mul (by rwa [Nat.mul_comm])

lemma Ok.sideBySide_congr (h : q.Ok) {ids ids' : ℕ → ℕ} (hids : ∀ s < q.m, ids s = ids' s) :
    ∀ r < q.dim, q.sideBySide ids r = q.sideBySide ids' r := by
  intro r hr
  have hs : r / q.subDim < q.m := h.segment_lt hr
  rw [sideBySide, sideBySide, concat, concat, hids _ hs]

end PqQuantizer

/-- The quantizer is a residual one, or its rotation keeps the rows. -/
def Quantizer.Unturned : Quantizer α → Prop
  | .prq _ => True
  | .pq q | .anisotropic q => q.KeepsRows

/-! ### Through the tables -/

namespace GlobalPqCoder

variable (c : GlobalPqCoder α)

def leafIds (leaf : Mem) (localIdx s : ℕ) : ℕ :=
  (cell (widthOf c.bits) leaf
    (laneAddr c.bits c.m4 (leafCodesOffset (word leaf 4 48)) localIdx s)).toNat

variable {c}

lemma leafIds_lt (leaf : Mem) (localIdx s : ℕ) :
    c.leafIds leaf localIdx s < c.quantizer.base.K := by
  rw [PqQuantizer.K, c.bits_eq]
  exact LocalPqCoder.toNat_cell_lt c.bitsOk _ _

lemma rerankDot_eq (query : ℕ → α) {s e : ℕ} (hs : s < c.m4) (he : e < c.quantizer.base.K) :
    (c.scanSetup query).rerankDot (s * c.quantizer.base.K + e)
      = dot c.quantizer.base.subDim (shift (s * c.quantizer.base.subDim) query)
        (c.quantizer.base.centroid s e) := by
  simp only [scanSetup]
  rw [if_pos (entry_lt hs he), row_div s he, Nat.add_mul]
  rfl

lemma rerankNrm_eq (query : ℕ → α) {s e : ℕ} (hs : s < c.m4) (he : e < c.quantizer.base.K) :
    (c.scanSetup query).rerankNrm (s * c.quantizer.base.K + e)
      = dot c.quantizer.base.subDim (c.quantizer.base.centroid s e)
        (c.quantizer.base.centroid s e) := by
  simp only [scanSetup]
  rw [if_pos (entry_lt hs he), Nat.add_mul]
  rfl

lemma sum_rerankDot (hok : c.quantizer.base.Ok) (query : ℕ → α) {ids : ℕ → ℕ}
    (hids : ∀ s, ids s < c.quantizer.base.K) :
    ∑ s ∈ Finset.range c.m4, (c.scanSetup query).rerankDot (s * c.quantizer.base.K + ids s)
      = dot c.dim query (c.quantizer.base.sideBySide ids) := by
  rw [← c.dim_eq, hok.dim_eq, c.m_eq, PqQuantizer.sideBySide, dot_concat]
  exact Finset.sum_congr rfl fun s hs => rerankDot_eq query (Finset.mem_range.1 hs) (hids s)

lemma sum_rerankNrm (hok : c.quantizer.base.Ok) (query : ℕ → α) {ids : ℕ → ℕ}
    (hids : ∀ s, ids s < c.quantizer.base.K) :
    ∑ s ∈ Finset.range c.m4, (c.scanSetup query).rerankNrm (s * c.quantizer.base.K + ids s)
      = dot c.dim (c.quantizer.base.sideBySide ids) (c.quantizer.base.sideBySide ids) := by
  rw [← c.dim_eq, hok.dim_eq, c.m_eq, PqQuantizer.sideBySide, dot_concat_concat]
  exact Finset.sum_congr rfl fun s hs => rerankNrm_eq query (Finset.mem_range.1 hs) (hids s)

lemma entry_eq (leaf : Mem) (localIdx s : ℕ) :
    (if c.bits = 8 then
      leaf (leafCodesOffset (word leaf 4 48) + localIdx / codesPerBlockRead c.bits * (c.m4 * 16)
        + (s * 16 + localIdx % codesPerBlockRead c.bits))
    else readNibble leaf
      (leafCodesOffset (word leaf 4 48) + localIdx / codesPerBlockRead c.bits * (c.m4 * 16))
      (localIdx % codesPerBlockRead c.bits) s).toNat = c.leafIds leaf localIdx s := by
  rw [leafIds]
  rcases c.bitsOk with hb | hb
  · rw [hb, if_neg (by decide)]
    exact congrArg UInt8.toNat (readNibble_eq leaf)
  · rw [hb, if_pos rfl]
    rfl

/-- **With a setup** the distance to the row of centroids comes out. -/
lemma rerank_eq (hprq : ∀ q, c.quantizer ≠ .prq q) (hok : c.quantizer.base.Ok) {leaf : Mem}
    (hleaf : c.OwnLeaf leaf) (query : ℕ → α) (localIdx : ℕ) :
    c.rerank query (c.scanSetup query) leaf localIdx
      = c.metric.distance c.dim query (c.quantizer.base.sideBySide (c.leafIds leaf localIdx)) := by
  have hdot := sum_rerankDot hok query fun s => leafIds_lt leaf localIdx s
  have hnrm := sum_rerankNrm hok query fun s => leafIds_lt leaf localIdx s
  unfold rerank
  rw [hleaf.1, hleaf.2]
  simp only [entry_eq]
  split
  · exact absurd ‹_› (hprq _)
  all_goals
    rename_i hq
    simp only [hq, Quantizer.base] at hdot hnrm ⊢
    rw [hdot, hnrm]
    cases c.metric with
    | innerProduct => rfl
    | l2Sq => exact (sqDist_eq _ _ _).symm

/-- **Without one** the distance to that row turned back. -/
lemma rerankDecoded_eq (hprq : ∀ q, c.quantizer ≠ .prq q) (hok : c.quantizer.base.Ok) {leaf : Mem}
    (hleaf : c.OwnLeaf leaf) (query : ℕ → α) (localIdx : ℕ) :
    c.rerankDecoded query leaf localIdx = c.metric.distance c.dim query
      (c.quantizer.base.turnedBack
        (c.quantizer.base.sideBySide (c.leafIds leaf localIdx))) := by
  have hdecode : ∀ code, c.quantizer.decodeCode code = c.quantizer.base.decodeCode code := by
    intro code
    cases hq : c.quantizer with
    | prq q => exact absurd hq (hprq q)
    | pq q | anisotropic q => rfl
  unfold rerankDecoded
  rw [hleaf.1, hleaf.2]
  dsimp only
  rw [hdecode, PqQuantizer.decodeCode_eq_turnedBack, ← c.dim_eq, c.bits_eq]
  refine c.metric.distance_congr (PqQuantizer.turnedBack_congr (hok.sideBySide_congr ?_))
  intro s hs
  rw [c.m_eq] at hs
  exact LocalPqCoder.readCode_extract c.bitsOk _ _ _ _ _ hs

/-! ### A leaf for any numbers -/

/-- A leaf of which the first row has these numbers. -/
def leafOf (c : GlobalPqCoder α) (ids : ℕ → ℕ) : Mem :=
  poke (poke (fun p => if p < 112 then 0 else UInt8.ofNat (ids ((p - 112) / 16))) 24
    (leBytes 2 c.m4)) 26 (leBytes 1 c.bits)

lemma ownLeaf_leafOf (c : GlobalPqCoder α) (ids : ℕ → ℕ) : c.OwnLeaf (c.leafOf ids) := by
  have hbits : c.bits < 256 ^ 1 := by
    rcases c.bitsOk with hb | hb <;> rw [hb] <;> norm_num
  have h₂ := length_leBytes 2 c.m4
  have h₁ := length_leBytes 1 c.bits
  refine ⟨?_, word_poke_self hbits⟩
  rw [leafOf, word_poke (.inl (by omega)), word_poke_self c.m4_lt]

lemma leafIds_leafOf (c : GlobalPqCoder α) {ids : ℕ → ℕ} (hids : ∀ s, ids s < c.quantizer.base.K)
    (s : ℕ) : c.leafIds (c.leafOf ids) 0 s = ids s := by
  have h₂ := length_leBytes 2 c.m4
  have h₁ := length_leBytes 1 c.bits
  have hoff : leafCodesOffset (word (c.leafOf ids) 4 48) = 112 := by
    have hzero : word (c.leafOf ids) 4 48 = 0 := by
      rw [leafOf, word_poke (.inr (by omega)), word_poke (.inr (by omega))]
      rfl
    rw [hzero]
    rfl
  have hbyte : ((c.leafOf ids) (112 + s * 16)).toNat = ids s := by
    have hsmall := hids s
    rw [PqQuantizer.K, c.bits_eq] at hsmall
    have hle : 2 ^ c.bits ≤ 2 ^ 8 := Nat.pow_le_pow_right (by decide) (by
      rcases c.bitsOk with hb | hb <;> omega)
    have hplace : (112 + s * 16 - 112) / 16 = s := by omega
    rw [leafOf, poke_apply_of_le (by omega), poke_apply_of_le (by omega), if_neg (by omega), hplace,
      UInt8.toNat_ofNat']
    exact Nat.mod_eq_of_lt (hsmall.trans_le hle)
  rw [leafIds, hoff]
  have hsmall := hids s
  rw [PqQuantizer.K, c.bits_eq] at hsmall
  rcases c.bitsOk with hb | hb
  · rw [hb] at hsmall ⊢
    have haddr : laneAddr 4 c.m4 112 0 s = 2 * (112 + s * 16) := by
      simp only [laneAddr, if_true]
      omega
    have heven : 2 * (112 + s * 16) % 2 = 0 := by omega
    have hhalf : 2 * (112 + s * 16) / 2 = 112 + s * 16 := by omega
    show (cell .nibble (c.leafOf ids) _).toNat = ids s
    have hlow := LocalPqCoder.low_of_lt (hbyte.trans_lt hsmall)
    rw [haddr, cell, if_pos heven, hhalf, hlow, hbyte]
  · rw [hb]
    have haddr : laneAddr 8 c.m4 112 0 s = 112 + s * 16 := by
      simp only [laneAddr, Nat.reduceEqDiff, if_false]
      omega
    show (cell .byte (c.leafOf ids) _).toNat = ids s
    rw [haddr, cell, hbyte]

/-- **Both ways give the same value** exactly when turning back changes no row of centroids. -/
theorem rerank_agrees_iff [IsDomain α] [CharZero α] (c : GlobalPqCoder α) :
    c.RerankAgrees ↔ c.quantizer.Unturned := by
  by_cases hprq : ∃ q, c.quantizer = .prq q
  · obtain ⟨q, hq⟩ := hprq
    refine ⟨fun _ => by rw [hq]; trivial, fun _ query leaf localIdx _ => ?_⟩
    unfold rerank
    rw [hq]
  · push Not at hprq
    have hplain : c.quantizer.base.Ok ∧ (c.quantizer.Unturned ↔ c.quantizer.base.KeepsRows) := by
      have hmade := c.made
      cases hq : c.quantizer with
      | prq q => exact absurd hq (hprq q)
      | pq q | anisotropic q =>
        rw [hq] at hmade
        exact ⟨PqQuantizer.Made.ok hmade, Iff.rfl⟩
    obtain ⟨hok, hkeeps⟩ := hplain
    rw [hkeeps]
    constructor
    · intro hagrees ids hids r hr
      have hvalue : ∀ query, c.metric.distance c.dim query (c.quantizer.base.sideBySide ids)
          = c.metric.distance c.dim query
            (c.quantizer.base.turnedBack (c.quantizer.base.sideBySide ids)) := by
        intro query
        have hboth := hagrees query (c.leafOf ids) 0 (c.ownLeaf_leafOf ids)
        have hrow : c.leafIds (c.leafOf ids) 0 = ids := funext (c.leafIds_leafOf hids)
        rw [rerank_eq hprq hok (c.ownLeaf_leafOf ids),
          rerankDecoded_eq hprq hok (c.ownLeaf_leafOf ids), hrow] at hboth
        exact hboth
      rw [c.dim_eq] at hr
      exact (MetricKind.eq_of_distance_eq hvalue hr).symm
    · intro hkeep query leaf localIdx hleaf
      rw [rerank_eq hprq hok hleaf, rerankDecoded_eq hprq hok hleaf, ← c.dim_eq]
      exact c.metric.distance_congr fun r hr =>
        (hkeep _ (fun s => leafIds_lt leaf localIdx s) r hr).symm

end GlobalPqCoder

/-! ### On a line -/

section Line

/-- A coder of one coordinate, one segment and four bits. -/
def lineCoder (q : PqQuantizer ℚ) (made : q.Made) (hdim : q.dim = 1) (hm : q.m = 1)
    (hbits : q.bits = 4) : GlobalPqCoder ℚ :=
  ⟨.l2Sq, 1, 1, 4, .pq q, made, hdim, hm, hbits, by decide, .inl rfl⟩

def plainLine : PqQuantizer ℚ := .trained (lineShape .l2Sq) none fun k => k

theorem rerank_agrees_plain :
    (lineCoder plainLine (.inl ⟨_, _, _, rfl⟩) rfl rfl rfl).RerankAgrees :=
  (GlobalPqCoder.rerank_agrees_iff _).2 fun _ _ _ _ => rfl

/-- A blob with the rotation `-1`. -/
def reflectedBlob : PqBlob ℚ :=
  { size := 77, metric := .l2Sq, m := 1, bits := 4, dim := 1, codebook := fun k => k
    hasRotation := true, rotation := fun _ => -1 }

lemma deserialize_reflectedBlob :
    PqQuantizer.deserialize reflectedBlob = .ok reflectedLine := rfl

def reflectedCoder : GlobalPqCoder ℚ :=
  lineCoder reflectedLine (.inr ⟨_, deserialize_reflectedBlob⟩) rfl rfl rfl

/-- The code `1` decodes to `-1`; for the query `1` one way gives 0, the other 4. -/
theorem rerank_drops_rotation :
    ¬ reflectedCoder.RerankAgrees ∧ ∃ leaf, reflectedCoder.OwnLeaf leaf ∧
      reflectedCoder.rerank (fun _ => 1) (reflectedCoder.scanSetup fun _ => 1) leaf 0 = 0 ∧
      reflectedCoder.rerankDecoded (fun _ => 1) leaf 0 = 4 := by
  have hown := reflectedCoder.ownLeaf_leafOf fun _ => 1
  have htables : reflectedCoder.rerank (fun _ => 1) (reflectedCoder.scanSetup fun _ => 1)
      (reflectedCoder.leafOf fun _ => 1) 0 = 0 := by decide +kernel
  have hdecoded : reflectedCoder.rerankDecoded (fun _ => 1) (reflectedCoder.leafOf fun _ => 1) 0
      = 4 := by decide +kernel
  refine ⟨fun hagrees => ?_, _, hown, htables, hdecoded⟩
  have hboth := hagrees (fun _ => 1) _ 0 hown
  rw [htables, hdecoded] at hboth
  norm_num at hboth

end Line

end SextantTree.Quant
