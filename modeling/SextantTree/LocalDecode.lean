import SextantTree.LocalPq

/-!
Decoding of local leaves against what was stored. Whatever writers made a leaf, its lanes hold the
codes that were handed to them, and the scan sums over these. `decode_one` returns the vectors of the
same codes for 4 bits, and does not for 8.
-/

namespace SextantTree.LocalPq

open ByteMem LeafCodes PackedCells

namespace LocalPqCoder

variable {c : LocalPqCoder}

lemma bits_cases (c : LocalPqCoder) : c.bits = 2 ∨ c.bits = 4 ∨ c.bits = 8 := .inr c.bitsOk

/-- The offsets in the header of a leaf have 32 bits. -/
def OffsetsFit (c : LocalPqCoder) : Prop := localCodebookOffset (summarySize c.schema) c.dim < 2 ^ 32

lemma OffsetsFit.centroid (h : c.OffsetsFit) : localCentroidOffset (summarySize c.schema) < 2 ^ 32 := by
  have hle := centroid_le_codebook (summarySize c.schema) c.dim
  unfold OffsetsFit at h
  omega

lemma OffsetsFit.summary (h : c.OffsetsFit) : summarySize c.schema < 2 ^ 32 := by
  have hle := summary_le_centroid (summarySize c.schema)
  have := h.centroid
  omega

def base (c : LocalPqCoder) : ℕ := localCodesOffset (summarySize c.schema) c.dim c.m4 c.bits

/-- A leaf with its header, and centroid and codebook where the header says. -/
structure Framed (c : LocalPqCoder) (leaf : Mem) (count : ℕ) (centroid codebook : Mem) : Prop where
  header : c.Header leaf count
  centroidOff : word leaf 4 92 = localCentroidOffset (summarySize c.schema)
  codebookOff : word leaf 4 96 = localCodebookOffset (summarySize c.schema) c.dim
  state : StateHolds c.dim c.m4 c.bits (summarySize c.schema) centroid codebook leaf

/-- Such a leaf with the codes of its first `rows` rows. -/
structure Stored (c : LocalPqCoder) (leaf : Mem) (count rows : ℕ) (stored : ℕ → ℕ → UInt8)
    (centroid codebook : Mem) : Prop extends c.Framed leaf count centroid codebook where
  lanes : ∀ i < rows, RowHolds c.bits c.m4 c.base leaf i (stored i)
  scanned : c.storedRows count ≤ rows
  full : count + codesPerBlock c.bits - 1 < 2 ^ 32 → rows = count
  codes : count + codesPerBlock c.bits - 1 < 2 ^ 32 →
    HoldsCodes c.bits c.m4 c.base leaf count stored

lemma storedRows_of_fits {count : ℕ} (h : count + codesPerBlock c.bits - 1 < 2 ^ 32) :
    c.storedRows count = count := by
  have hpos := codesPerBlock_pos c.bits
  have := Nat.lt_div_mul_add (a := count + codesPerBlock c.bits - 1) hpos
  rw [storedRows, blockCount_eq h]
  omega

lemma storedRows_of_wrap {count : ℕ} (hcount : count < 2 ^ 32)
    (h : 2 ^ 32 ≤ count + codesPerBlock c.bits - 1) : c.storedRows count = 0 := by
  rw [storedRows, blockCount_of_wrap hcount h, Nat.zero_mul, Nat.min_zero]

lemma header_of_agree {m m' : Mem} {count : ℕ} (h : c.Header m count)
    (heq : ∀ p < 88, m' p = m p) : c.Header m' count := by
  have hword : ∀ w off, off + w ≤ 88 → word m' w off = word m w off := fun w off hle =>
    word_congr fun i _ hi => heq i (by omega)
  exact ⟨(hword 8 8 (by omega)).trans h.count, (hword 2 24 (by omega)).trans h.m4,
    (hword 1 26 (by omega)).trans h.bits, (hword 4 48 (by omega)).trans h.summarySize⟩

lemma localState_words (hoff : c.OffsetsFit) (centroid codebook m : Mem) :
    word (localState c.dim c.m4 c.bits (summarySize c.schema) centroid codebook m) 4 92 =
        localCentroidOffset (summarySize c.schema) ∧
      word (localState c.dim c.m4 c.bits (summarySize c.schema) centroid codebook m) 4 96 =
        localCodebookOffset (summarySize c.schema) c.dim := by
  have hcen := hoff.centroid
  have hcb : localCodebookOffset (summarySize c.schema) c.dim < 2 ^ 32 := hoff
  have h₁ := summary_le_centroid (summarySize c.schema)
  have h₂ := centroid_le_codebook (summarySize c.schema) c.dim
  have hlen := length_leBytes 4 (localCodebookOffset (summarySize c.schema) c.dim)
  simp only [localState]
  constructor
  · rw [word_poke (.inl (by omega)), word_poke (.inl (by omega)), word_poke (.inl (by omega)),
      word_poke_self (by simpa using hcen)]
  · rw [word_poke (.inl (by omega)), word_poke (.inl (by omega)), word_poke_self (by simpa using hcb)]

lemma stored_of_state (hoff : c.OffsetsFit) {leaf m : Mem} {count : ℕ} {stored : ℕ → ℕ → UInt8} {centroid codebook : Mem}
    (hcount : count < 2 ^ 32) (header : c.Header m count)
    (hlow : ∀ p < c.base, leaf p =
      localState c.dim c.m4 c.bits (summarySize c.schema) centroid codebook m p)
    (hcodes : count + codesPerBlock c.bits - 1 < 2 ^ 32 →
      HoldsCodes c.bits c.m4 c.base leaf count stored) :
    c.Stored leaf count (c.storedRows count) stored centroid codebook := by
  have hsum := summary_le_centroid (summarySize c.schema)
  have hcen := centroid_le_codebook (summarySize c.schema) c.dim
  have hcb := codebook_le_codes (summarySize c.schema) c.dim c.m4 c.bits
  have hbase : 112 ≤ c.base := by simp only [base]; omega
  obtain ⟨hw₁, hw₂⟩ := localState_words hoff centroid codebook m
  obtain ⟨hstate, honly⟩ :=
    localState_spec c.dim c.m4 (summarySize c.schema) c.bits_cases centroid codebook m
  refine ⟨⟨header_of_agree header fun p hp => ?_, ?_, ?_, hstate.of_agree c.bits_cases hlow⟩,
    fun i hi => ?_, le_rfl, storedRows_of_fits, hcodes⟩
  · rw [hlow p (by omega)]
    exact honly p (.inl (by omega)) (.inl (by omega))
  · rw [← hw₁]
    exact word_congr fun p _ hp => hlow p (by omega)
  · rw [← hw₂]
    exact word_congr fun p _ hp => hlow p (by omega)
  · by_cases hfits : count + codesPerBlock c.bits - 1 < 2 ^ 32
    · rw [storedRows_of_fits hfits] at hi
      exact (hcodes hfits).rows i hi
    · rw [storedRows_of_wrap hcount (not_lt.mp hfits)] at hi
      exact absurd hi (Nat.not_lt_zero i)

/-- **Whatever writers made a leaf, it holds what they were handed.** -/
lemma LocalLeaf.stored (hoff : c.OffsetsFit) {leaf : Mem} {count rows : ℕ} {stored : ℕ → ℕ → UInt8}
    {centroid codebook : Mem} (h : c.LocalLeaf leaf count rows stored centroid codebook) :
    count < 2 ^ 32 ∧ c.Stored leaf count rows stored centroid codebook := by
  have hsum := summary_le_centroid (summarySize c.schema)
  have hcen := centroid_le_codebook (summarySize c.schema) c.dim
  have hcb := codebook_le_codes (summarySize c.schema) c.dim c.m4 c.bits
  have hbase : 112 ≤ c.base := by simp only [base]; omega
  induction h with
  | flushed centroid codebook codes m count hcount header =>
    have hframe := (flushBlocks_spec codes
      (localState c.dim c.m4 c.bits (summarySize c.schema) centroid codebook m) c.bits c.m4 c.base
      count (blockCount c.bits count)).2
    exact ⟨hcount, stored_of_state hoff hcount header (fun p hp => hframe p (.inl hp)) fun hfits =>
      (flushCodes_spec codes _ c.bits c.m4 c.base count hfits).1⟩
  | grouped centroid codebook codes rowIds m count hcount header =>
    have hframe := (flushBlocks_spec codes
      (localState c.dim c.m4 c.bits (summarySize c.schema) centroid codebook m) c.bits c.m4 c.base
      count (blockCount c.bits count)).2
    refine ⟨hcount, stored_of_state hoff hcount header (fun p hp => ?_) fun hfits => ?_⟩
    · refine (poke_apply_of_lt ?_).trans (hframe p (.inl hp))
      exact hp.trans_le (Nat.le_add_right _ _)
    · refine holdsCodes_poke (flushCodes_spec codes _ c.bits c.m4 c.base count hfits).1 ?_ _
      rw [blockCount_eq hfits]
      exact le_rfl
  | @appended old count _ _ centroid codebook hold n new m hcount hfits header hcopy hclear ih =>
    obtain ⟨-, hst⟩ := ih
    set copied := poke m (localCentroidOffset (summarySize c.schema)) (peek old
      (localCentroidOffset (summarySize c.schema))
      (c.base - localCentroidOffset (summarySize c.schema))) with hcopied
    have hfar : ∀ p, c.base ≤ p → copied p = m p := fun p hp => by
      rw [hcopied, poke_peek_apply, if_neg (by omega)]
    have hnear : ∀ p, p < localCentroidOffset (summarySize c.schema) → copied p = m p := fun p hp =>
      poke_apply_of_lt hp
    obtain ⟨hcodes, hframe⟩ := appendCodes_spec copied c.bits c.m4 c.base count n new (hst.codes hfits)
      hcount hfits fun i hi => (hclear i hi).congr fun s hs => cell_congr (hfar _
        ((Nat.le_add_right _ _).trans (byteOf_laneAddr c.bits c.base i hs).1))
    have hlow : ∀ p < localCentroidOffset (summarySize c.schema),
        localAppend c.dim c.m4 c.bits (summarySize c.schema) count n old new m p = m p := fun p hp =>
      (hframe p (.inl (by simp only [base]; omega))).trans (hnear p hp)
    have hmid : ∀ p, localCentroidOffset (summarySize c.schema) ≤ p → p < c.base →
        localAppend c.dim c.m4 c.bits (summarySize c.schema) count n old new m p = old p := by
      intro p h₁ h₂
      refine (hframe p (.inl h₂)).trans ?_
      rw [hcopied, poke_peek_apply, if_pos (by omega)]
      exact congrArg old (by omega)
    refine ⟨hcount, ⟨header_of_agree header fun p hp => hlow p (by omega), ?_, ?_, ⟨fun k hk => ?_,
      fun k hk => ?_⟩⟩, hcodes.rows, min_le_left _ _, fun _ => rfl, fun _ => hcodes⟩
    · rw [← hst.centroidOff]
      exact word_congr fun p h₁ h₂ => (hlow p (by omega)).trans (hcopy p (by omega) (by omega))
    · rw [← hst.codebookOff]
      exact word_congr fun p h₁ h₂ => (hlow p (by omega)).trans (hcopy p (by omega) (by omega))
    · simp only [localCentroidBytes] at hcen
      rw [hmid _ (by omega) (by simp only [base]; omega)]
      exact hst.state.centroid k hk
    · have hfit := codebook_fits c.m4 c.dim c.bits_cases
      rw [hmid _ (by omega) (by simp only [base]; omega)]
      exact hst.state.codebook k hk

end LocalPqCoder

/-! ### Decoding -/

lemma flatMap_range_eq {α : Type*} (f : ℕ → ℕ → α) (m k : ℕ) :
    (List.range m).flatMap (fun s => (List.range k).map (f s)) =
      (List.range (m * k)).map fun d => f (d / k) (d % k) := by
  induction m with
  | zero => simp
  | succ m ih =>
    rw [List.range_succ, List.flatMap_append, ih, Nat.succ_mul, List.range_add, List.map_append,
      List.map_map]
    congr 1
    simp only [List.flatMap_cons, List.flatMap_nil, List.append_nil]
    refine List.map_congr_left fun e he => ?_
    have he := List.mem_range.mp he
    simp only [Function.comp]
    rw [Nat.mul_comm m k, Nat.mul_add_div (by omega), Nat.div_eq_of_lt he, Nat.mul_add_mod,
      Nat.mod_eq_of_lt he, Nat.add_zero]

lemma floatAt_eq {m m' : Mem} {pos k d : ℕ} (h : ∀ i < k * 4, m (pos + i) = m' i) (hd : d < k) :
    floatAt m pos d = floatAt m' 0 d := by
  unfold floatAt word
  congr 1
  refine List.map_congr_left fun i hi => ?_
  have hi := List.mem_range.mp hi
  have := h (4 * d + i) (by omega)
  rw [Nat.zero_add, Nat.add_assoc, this]

namespace LocalPqCoder

variable {c : LocalPqCoder} {fl : FloatUnit} {leaf centroid codebook : Mem} {count rows : ℕ}
  {stored : ℕ → ℕ → UInt8}

lemma mul_subDim (c : LocalPqCoder) : c.m4 * (c.dim / c.m4) = c.dim :=
  Nat.mul_div_cancel' (Nat.dvd_of_mod_eq_zero c.divides)

lemma subDim_pos (c : LocalPqCoder) : 0 < c.dim / c.m4 :=
  Nat.div_pos (Nat.le_of_dvd c.dim_pos (Nat.dvd_of_mod_eq_zero c.divides)) c.m4_pos

lemma vectorOf_eq (code : ℕ → UInt8) : c.vectorOf fl centroid codebook code =
    (List.range c.dim).map fun d => fl.add (floatAt codebook 0
      ((d / (c.dim / c.m4) * 2 ^ c.bits + (code (d / (c.dim / c.m4))).toNat) * (c.dim / c.m4) +
        d % (c.dim / c.m4))) (floatAt centroid 0 d) := by
  rw [vectorOf, flatMap_range_eq, c.mul_subDim]
  refine List.map_congr_left fun d _ => ?_
  rw [Nat.div_add_mod']

lemma Framed.codesOff_eq (h : c.Framed leaf count centroid codebook) : c.codesOff leaf = c.base := by
  rw [codesOff, h.header.m4, h.header.bits, h.header.summarySize]
  rfl

def entries (c : LocalPqCoder) (codebook : Mem) : List ℕ :=
  (List.range (c.m4 * 2 ^ c.bits * (c.dim / c.m4))).map (floatAt codebook 0)

lemma Framed.addCentroid_entries (h : c.Framed leaf count centroid codebook) {cb code : Mem}
    {ids : ℕ → UInt8} (hcode : ∀ s < c.m4, readCode code c.bits s = (ids s).toNat)
    (hids : ∀ s < c.m4, (ids s).toNat < 2 ^ c.bits) :
    c.addCentroid fl (PqQuantizer.decodeCode
      { dim := c.dim, m := c.m4, bits := c.bits, codebook := c.entries cb } code) leaf =
      c.vectorOf fl centroid cb ids := by
  have hdim := c.mul_subDim
  have hpos := c.subDim_pos
  rw [vectorOf_eq, addCentroid]
  refine List.map_congr_left fun d hd => ?_
  have hd := List.mem_range.mp hd
  have hs : d / (c.dim / c.m4) < c.m4 := (Nat.div_lt_iff_lt_mul hpos).mpr (by omega)
  have hidx : (d / (c.dim / c.m4) * 2 ^ c.bits + (ids (d / (c.dim / c.m4))).toNat) * (c.dim / c.m4) +
      d % (c.dim / c.m4) < c.m4 * 2 ^ c.bits * (c.dim / c.m4) :=
    row_lt (row_lt hs (hids _ hs)) (Nat.mod_lt _ hpos)
  have hentry : (PqQuantizer.decodeCode
      { dim := c.dim, m := c.m4, bits := c.bits, codebook := c.entries cb } code).getD d 0 =
      floatAt cb 0 ((d / (c.dim / c.m4) * 2 ^ c.bits +
        (ids (d / (c.dim / c.m4))).toNat) * (c.dim / c.m4) + d % (c.dim / c.m4)) := by
    simp only [PqQuantizer.decodeCode, PqQuantizer.K, PqQuantizer.subDim]
    rw [flatMap_range_eq, hdim, List.getD_eq_getElem?_getD, List.getElem?_map,
      List.getElem?_range hd, Option.map_some, Option.getD_some, hcode _ hs, ← Nat.add_mul,
      List.getD_eq_getElem?_getD, entries, List.getElem?_map, List.getElem?_range hidx]
    rfl
  rw [hentry, h.centroidOff, floatAt_eq h.state.centroid hd]

lemma Framed.setCodebookData_eq (h : c.Framed leaf count centroid codebook) :
    PqQuantizer.setCodebookData { dim := c.dim, m := c.m4, bits := c.bits } leaf (word leaf 4 96) =
      { dim := c.dim, m := c.m4, bits := c.bits, codebook := c.entries codebook } := by
  simp only [PqQuantizer.setCodebookData, PqQuantizer.K, PqQuantizer.subDim, entries, h.codebookOff]
  congr 1
  exact List.map_congr_left fun d hd => floatAt_eq h.state.codebook (List.mem_range.mp hd)

lemma readCode_four (code : Mem) (s : ℕ) : readCode code 4 s = (cell .nibble code s).toNat := by
  have hlt := (code (s / 2)).toNat_lt
  rw [toNat_nibble]
  simp only [readCode, Nat.reduceEqDiff, if_false]
  split
  · rw [show s % 2 = 0 by assumption]
    omega
  · rw [show s % 2 = 1 by omega]
    omega

lemma low_of_lt {v : UInt8} (h : v.toNat < 16) : v &&& 0x0F = v := by
  apply UInt8.toNat_inj.mp
  rw [toNat_low]
  exact Nat.mod_eq_of_lt h

lemma toNat_cell_lt {bits : ℕ} (hb : BitsOk bits) (m : Mem) (a : ℕ) :
    (cell (widthOf bits) m a).toNat < 2 ^ bits := by
  rcases hb with rfl | rfl
  · simpa [widthOf, Fits] using fits_cell (widthOf 4) m a
  · exact UInt8.toNat_lt _

lemma readCode_cell {bits : ℕ} (hb : BitsOk bits) (code : Mem) (s : ℕ) :
    readCode code bits s = (cell (widthOf bits) code s).toNat := by
  rcases hb with rfl | rfl
  · exact readCode_four code s
  · rfl

lemma readCode_extract {bits : ℕ} (hb : BitsOk bits) (m4 base i : ℕ) (leaf m : Mem) {s : ℕ}
    (hs : s < m4) : readCode (extractCodeFromLeaf leaf i m4 bits base 0 m) bits s
      = (cell (widthOf bits) leaf (laneAddr bits m4 base i s)).toNat := by
  have hseg : segAddr bits 0 s = s := by
    unfold segAddr
    split <;> omega
  have hcell := (extractCode_spec hb m4 base i 0 leaf m).1 s hs
  rw [hseg] at hcell
  rw [readCode_cell hb, hcell]

lemma Stored.lt_entries (h : c.Stored leaf count rows stored centroid codebook) {i s : ℕ} (hi : i < rows)
    (hs : s < c.m4) : (stored i s).toNat < 2 ^ c.bits := by
  rw [← h.lanes i hi s hs]
  exact toNat_cell_lt c.bitsOk _ _

/-- **With 4 bits `decode_one` returns the vector of the code that is stored.** -/
lemma Stored.decodeOne_eq (h : c.Stored leaf count rows stored centroid codebook) (hb : c.bits = 4)
    {i : ℕ} (hi : i < rows) :
    c.decodeOne fl leaf i = c.vectorOf fl centroid codebook (stored i) := by
  have hlane : ∀ s < c.m4, readNibble leaf (c.base + i / 32 * (c.m4 * 16)) (i % 32) s = stored i s := by
    intro s hs
    have hrow := h.lanes i hi s hs
    rw [hb] at hrow
    rw [readNibble_eq]
    exact hrow
  have hoff := h.codesOff_eq
  have hlt : ∀ s < c.m4, (stored i s).toNat < 16 := fun s hs => by
    rw [← hlane s hs]
    exact toNat_readNibble _ _ _ _
  simp only [decodeOne, h.header.m4, h.header.bits, hoff]
  rw [h.setCodebookData_eq]
  refine h.addCentroid_entries (fun s hs => ?_) fun s hs => h.lt_entries hi hs
  rw [hb, readCode_four]
  congr 1
  -- The loop packs the lanes half byte by half byte.
  have hpack : (List.range c.m4).foldl (fun code sg => putNibble 0 code sg
      ((if (4 : ℕ) = 8 then leaf (c.base + i / codesPerBlockRead 4 * (c.m4 * 16) +
        (sg * 16 + i % codesPerBlockRead 4))
        else readNibble leaf (c.base + i / codesPerBlockRead 4 * (c.m4 * 16))
          (i % codesPerBlockRead 4) sg) &&& 0x0F)) (fun _ => 0) =
      (List.range c.m4).foldl (fun m s => setCell .nibble m (segAddr 4 0 s) (stored i s))
        fun _ => 0 := by
    refine List.foldl_ext _ _ _ fun m s hs => ?_
    have hs := List.mem_range.mp hs
    simp only [Nat.reduceEqDiff, if_false, codesPerBlockRead]
    rw [hlane s hs, low_of_lt (hlt s hs), putNibble_eq]
  rw [hpack]
  have hcell := (cell_foldl_setCell (w := .nibble) (m := fun _ => 0) (g := stored i)
    (a := segAddr 4 0) hlt fun s _ t _ heq => segAddr_inj heq).1 s hs
  simpa only [segAddr, if_true, Nat.mul_zero, Nat.zero_add] using hcell

/-! ### Scanning -/

lemma codesPerBlockRead_eq (c : LocalPqCoder) : codesPerBlockRead c.bits = codesPerBlock c.bits := by
  rcases c.bitsOk with hb | hb <;> rw [hb] <;> rfl

lemma filter_lanes (p count k : ℕ) :
    (List.range k).filter (fun j => decide (p + j < count)) = List.range (min (count - p) k) := by
  induction k with
  | zero => simp
  | succ k ih =>
    rw [List.range_succ, List.filter_append, ih]
    by_cases h : p + k < count
    · rw [Nat.min_eq_right (by omega), Nat.min_eq_right (by omega), List.range_succ]
      simp [h]
    · rw [Nat.min_eq_left (by omega), Nat.min_eq_left (by omega)]
      simp [h]

lemma flatMap_lanes {α : Type*} (g : ℕ → α) (count n k : ℕ) :
    (List.range n).flatMap (fun b =>
      ((List.range k).filter fun j => decide (b * k + j < count)).map fun j => g (b * k + j)) =
      (List.range (min count (n * k))).map g := by
  induction n with
  | zero => simp
  | succ n ih =>
    rw [List.range_succ, List.flatMap_append, ih]
    simp only [List.flatMap_cons, List.flatMap_nil, List.append_nil, Nat.succ_mul, filter_lanes]
    by_cases h : count ≤ n * k
    · rw [Nat.min_eq_left h, Nat.min_eq_left (show count ≤ n * k + k by omega),
        Nat.sub_eq_zero_of_le h]
      simp
    · rw [Nat.min_eq_right (by omega),
        show min count (n * k + k) = n * k + min (count - n * k) k by omega, List.range_add,
        List.map_append, List.map_map]
      rfl

lemma valid_iff (c : LocalPqCoder) {count b j : ℕ}
    (hb : b < (count + codesPerBlock c.bits - 1) / codesPerBlock c.bits)
    (hj : j < codesPerBlock c.bits) :
    (decide (b + 1 < (count + codesPerBlock c.bits - 1) / codesPerBlock c.bits) ||
      count - count / codesPerBlock c.bits * codesPerBlock c.bits == 0 ||
      decide (j < count - count / codesPerBlock c.bits * codesPerBlock c.bits)) =
      decide (b * codesPerBlock c.bits + j < count) := by
  rw [Bool.eq_iff_iff]
  simp only [Bool.or_eq_true, decide_eq_true_eq, beq_iff_eq]
  rcases c.bitsOk with hbits | hbits <;>
  · simp only [hbits, codesPerBlock, if_true, Nat.reduceEqDiff, if_false] at hb hj ⊢
    omega

lemma Stored.sum_eq (h : c.Stored leaf count rows stored centroid codebook) (lut : ℕ → ℕ) {i : ℕ}
    (hi : i < rows) :
    (if c.bits = 8 then fastscanBlock16 leaf
        (c.base + i / codesPerBlock c.bits * (c.m4 * 16)) lut c.m4 (i % codesPerBlock c.bits)
      else pq4Block32 leaf (c.base + i / codesPerBlock c.bits * (c.m4 * 16)) lut c.m4
        (i % codesPerBlock c.bits)) = c.scoreOf lut (stored i) := by
  rcases c.bitsOk with hb | hb
  · rw [if_neg (by omega), scoreOf]
    simp only [hb, codesPerBlock, if_true, pq4Block32]
    have hlane : ∀ s < c.m4,
        readNibble leaf (c.base + i / 32 * (c.m4 * 16)) (i % 32) s = stored i s := by
      intro s hs
      have hrow := h.lanes i hi s hs
      rw [hb] at hrow
      rw [readNibble_eq]
      exact hrow
    split
    · refine congrArg List.sum (List.map_congr_left fun s hs => ?_)
      rw [← hlane s (List.mem_range.mp hs), readNibble, if_neg (by omega),
        show i % 32 % 16 = i % 32 by omega]
      rfl
    · refine congrArg List.sum (List.map_congr_left fun s hs => ?_)
      rw [← hlane s (List.mem_range.mp hs), readNibble, if_pos (by omega),
        show i % 32 - 16 = i % 32 % 16 by omega]
      rfl
  · rw [if_pos hb, scoreOf]
    simp only [hb, codesPerBlock, Nat.reduceEqDiff, if_false, fastscanBlock16]
    refine congrArg List.sum (List.map_congr_left fun s hs => ?_)
    have hrow := h.lanes i hi s (List.mem_range.mp hs)
    rw [hb] at hrow
    rw [← hrow]
    rfl

/-- **`scan_leaf` scores the stored codes**, of all rows unless their blocks are counted as none. -/
lemma Stored.scanLeaf_eq (h : c.Stored leaf count rows stored centroid codebook)
    (hcount : count < 2 ^ 32) (lut : ℕ → ℕ) :
    c.scanLeaf lut leaf =
      (List.range (c.storedRows count)).map fun i => (i, c.scoreOf lut (stored i)) := by
  have hoff := h.codesOff_eq
  have hpos := codesPerBlock_pos c.bits
  simp only [scanLeaf, h.header.count, h.header.m4, h.header.bits, hoff, Nat.mod_eq_of_lt hcount,
    c.codesPerBlockRead_eq]
  by_cases hfits : count + codesPerBlock c.bits - 1 < 2 ^ 32
  · rw [Nat.mod_eq_of_lt hfits, storedRows, blockCount_eq hfits, ← flatMap_lanes]
    refine List.flatMap_congr fun b hb => ?_
    have hb := List.mem_range.mp hb
    rw [List.filter_congr fun j hj => c.valid_iff hb (List.mem_range.mp hj)]
    refine List.map_congr_left fun j hj => ?_
    have hj' := List.mem_filter.mp hj
    have hjk := List.mem_range.mp hj'.1
    have hlt := of_decide_eq_true hj'.2
    have hrow : b * codesPerBlock c.bits + j < rows := by
      rw [h.full hfits]
      exact hlt
    have hdiv : (b * codesPerBlock c.bits + j) / codesPerBlock c.bits = b := by
      rw [Nat.mul_comm, Nat.mul_add_div hpos, Nat.div_eq_of_lt hjk, Nat.add_zero]
    have hmod : (b * codesPerBlock c.bits + j) % codesPerBlock c.bits = j := by
      rw [Nat.mul_comm, Nat.mul_add_mod, Nat.mod_eq_of_lt hjk]
    rw [← h.sum_eq lut hrow, hdiv, hmod]
  · have hzero := blockCount_of_wrap hcount (not_lt.mp hfits)
    rw [blockCount] at hzero
    rw [hzero, storedRows_of_wrap hcount (not_lt.mp hfits)]
    rfl

/-! ### Eight bits -/

def oneHeader (c : LocalPqCoder) : Mem :=
  let m : Mem := poke (fun _ => 0) 8 (leBytes 8 1)
  let m := poke m 24 (leBytes 2 c.m4)
  let m := poke m 26 (leBytes 1 c.bits)
  poke m 48 (leBytes 4 (summarySize c.schema))

lemma header_oneHeader (hoff : c.OffsetsFit) : c.Header c.oneHeader 1 := by
  have hm : c.m4 < 256 ^ 2 := by
    have := Nat.le_of_dvd c.dim_pos (Nat.dvd_of_mod_eq_zero c.divides)
    have := c.dim_lt
    omega
  have hb : c.bits < 256 ^ 1 := by
    rcases c.bitsOk with hb | hb <;> rw [hb] <;> norm_num
  have hs := hoff.summary
  have h₁ := length_leBytes 8 1
  have h₂ := length_leBytes 2 c.m4
  have h₃ := length_leBytes 1 c.bits
  refine ⟨?_, ?_, ?_, word_poke_self (by omega)⟩ <;> simp only [oneHeader]
  · rw [word_poke (.inl (by omega)), word_poke (.inl (by omega)), word_poke (.inl (by omega)),
      word_poke_self (by norm_num)]
  · rw [word_poke (.inl (by omega)), word_poke (.inl (by omega)), word_poke_self hm]
  · rw [word_poke (.inl (by omega)), word_poke_self hb]

/-- A code with entry 16 for the first segment and entry 0 for all others. -/
def sixteenCode : Mem := fun i => if i = 0 then 16 else 0

/-- A codebook with 1.0 as the first float of entry 16, and 0.0 otherwise. -/
def oneCodebook (c : LocalPqCoder) : Mem :=
  poke (fun _ => 0) (4 * (16 * (c.dim / c.m4))) (leBytes 4 0x3F800000)

lemma floatAt_oneCodebook (c : LocalPqCoder) :
    floatAt c.oneCodebook 0 (16 * (c.dim / c.m4)) = 0x3F800000 := by
  rw [floatAt, oneCodebook, Nat.zero_add, word_poke_self (by norm_num)]

/-- A leaf with that code, that codebook and the centroid zero. -/
def oneLeaf (c : LocalPqCoder) : Mem :=
  (localFlush c.dim c.m4 c.bits (summarySize c.schema) 1 (fun _ => 0) c.oneCodebook sixteenCode
    c.oneHeader).1

lemma localLeaf_oneLeaf (hoff : c.OffsetsFit) :
    c.LocalLeaf c.oneLeaf 1 1 (flushSegments c.bits c.m4 sixteenCode) (fun _ => 0) c.oneCodebook := by
  have hrows : c.storedRows 1 = 1 := storedRows_of_fits (by
    have := codesPerBlock_le c.bits
    omega)
  have := LocalLeaf.flushed (c := c) (fun _ => 0) c.oneCodebook sixteenCode c.oneHeader 1 (by norm_num)
    (header_oneHeader hoff)
  rwa [hrows] at this

lemma decodeOne_oneLeaf (hoff : c.OffsetsFit) (fl : FloatUnit) (hb : c.bits = 8) : c.decodeOne fl c.oneLeaf 0 =
    c.vectorOf fl (fun _ => 0) c.oneCodebook fun _ => 0 := by
  obtain ⟨-, h⟩ := (localLeaf_oneLeaf hoff).stored hoff
  have hoff := h.codesOff_eq
  have hlane : ∀ s < c.m4, c.oneLeaf (c.base + 0 / 16 * (c.m4 * 16) + (s * 16 + 0 % 16)) &&& 0x0F = 0 := by
    intro s hs
    have hrow := h.lanes 0 (by norm_num) s hs
    rw [hb] at hrow
    simp only [widthOf, cell, laneAddr, flushSegments, segmentOf, Nat.reduceEqDiff, if_false,
      codeSize_eight, if_pos hs] at hrow
    rw [hrow]
    simp only [sixteenCode]
    split <;> rfl
  simp only [decodeOne, h.header.m4, h.header.bits, hoff]
  rw [h.setCodebookData_eq]
  refine h.addCentroid_entries (fun s hs => ?_) fun s _ => Nat.two_pow_pos _
  have hpack : (List.range c.m4).foldl (fun code sg => putNibble 0 code sg
      ((if c.bits = 8 then c.oneLeaf (c.base + 0 / codesPerBlockRead c.bits * (c.m4 * 16) +
        (sg * 16 + 0 % codesPerBlockRead c.bits))
        else readNibble c.oneLeaf (c.base + 0 / codesPerBlockRead c.bits * (c.m4 * 16))
          (0 % codesPerBlockRead c.bits) sg) &&& 0x0F)) (fun _ => 0) = fun _ => 0 := by
    refine List.foldlRecOn (motive := fun code => code = fun _ => 0) _ _ rfl fun code hcode sg hsg => ?_
    rw [hcode, if_pos hb, hb]
    simp only [codesPerBlockRead, if_true]
    rw [hlane sg (List.mem_range.mp hsg)]
    funext p
    simp only [putNibble, Function.update_apply]
    split
    · split <;> rfl
    · rfl
  rw [hpack, hb]
  rfl

lemma vectorOf_oneLeaf (fl : FloatUnit) (hb : c.bits = 8) :
    (c.vectorOf fl (fun _ => 0) c.oneCodebook fun _ => 0)[0]? = some 0 ∧
      (c.vectorOf fl (fun _ => 0) c.oneCodebook
        (flushSegments c.bits c.m4 sixteenCode 0))[0]? = some 0x3F800000 := by
  have hzero : floatAt (fun _ => 0) 0 0 = 0 := by decide
  have hsub := c.subDim_pos
  have hseg : flushSegments c.bits c.m4 sixteenCode 0 0 = 16 := by
    rw [hb]
    simp only [flushSegments, segmentOf, Nat.reduceEqDiff, if_false, codeSize_eight, if_pos c.m4_pos,
      Nat.zero_mul]
    rfl
  rw [vectorOf_eq, vectorOf_eq]
  simp only [List.getElem?_map, List.getElem?_range c.dim_pos, Option.map_some, Nat.zero_div,
    Nat.zero_mod, Nat.zero_mul, Nat.zero_add, Nat.add_zero, hzero, hseg]
  constructor
  · have hfirst : floatAt c.oneCodebook 0 0 = 0 := by
      rw [floatAt, oneCodebook, word_poke (.inl (by omega))]
      exact hzero
    rw [show (0 : UInt8).toNat = 0 from rfl, Nat.zero_mul, hfirst, fl.zero_add_zero]
  · rw [show (16 : UInt8).toNat = 16 from rfl, c.floatAt_oneCodebook, fl.one_add_zero]

/-! ### Exactly 4 bits -/

/-- `decode_one` returns the vectors of the codes stored, and the scan scores the same codes. -/
def Consistent (c : LocalPqCoder) (fl : FloatUnit) (leaf : Mem) (count rows : ℕ)
    (stored : ℕ → ℕ → UInt8) (centroid codebook : Mem) : Prop :=
  (∀ i < rows, c.decodeOne fl leaf i = c.vectorOf fl centroid codebook (stored i)) ∧
    ∀ lut, c.scanLeaf lut leaf =
      (List.range (c.storedRows count)).map fun i => (i, c.scoreOf lut (stored i))

end LocalPqCoder

/-- **Decoding of local leaves is consistent with their storage** exactly for 4 bits. -/
theorem local_decode_consistent_iff (c : LocalPqCoder) (hoff : c.OffsetsFit) (fl : FloatUnit) :
    (∀ leaf count rows stored centroid codebook,
      c.LocalLeaf leaf count rows stored centroid codebook →
      c.Consistent fl leaf count rows stored centroid codebook) ↔ c.bits = 4 := by
  constructor
  · intro h
    refine c.bitsOk.resolve_right fun hb => ?_
    have hdecode := (h _ _ _ _ _ _ (LocalPqCoder.localLeaf_oneLeaf hoff)).1 0 (by norm_num)
    obtain ⟨h₁, h₂⟩ := LocalPqCoder.vectorOf_oneLeaf (c := c) fl hb
    rw [LocalPqCoder.decodeOne_oneLeaf hoff fl hb] at hdecode
    rw [hdecode, h₂] at h₁
    exact absurd (Option.some.inj h₁) (by norm_num)
  · intro hb leaf count rows stored centroid codebook hleaf
    obtain ⟨hcount, hst⟩ := hleaf.stored hoff
    exact ⟨fun i hi => hst.decodeOne_eq hb hi, fun lut => hst.scanLeaf_eq hcount lut⟩

lemma byteCoder_dim_lt : 1 < 2 ^ 16 := by decide

lemma byteCoder_divides : 1 % 1 = 0 := rfl

lemma byteCoder_bitsOk : 8 = 4 ∨ 8 = 8 := .inr rfl

/-- One dimension, one segment of 8 bits, no columns. -/
def byteCoder : LocalPqCoder where
  dim := 1
  m4 := 1
  bits := 8
  schema := { columns := [] }
  innerProduct := false
  dim_pos := Nat.one_pos
  dim_lt := byteCoder_dim_lt
  m4_pos := Nat.one_pos
  divides := byteCoder_divides
  bitsOk := byteCoder_bitsOk

/-- Bit patterns added as numbers, which is right for sums with 0.0. -/
def patternSum : FloatUnit := ⟨(· + ·), rfl, rfl⟩

lemma byteCoder_offsetsFit : byteCoder.OffsetsFit := by
  norm_num [LocalPqCoder.OffsetsFit, byteCoder, summarySize, localCodebookOffset, localCentroidOffset,
    localCentroidBytes]

lemma nibbleCoder_bitsOk : BitsOk 4 := .inl rfl

/-- The same with 4 bits. -/
def nibbleCoder : LocalPqCoder := { byteCoder with bits := 4, bitsOk := nibbleCoder_bitsOk }

theorem local_decode_consistent_nibble :
    nibbleCoder.Consistent patternSum nibbleCoder.oneLeaf 1 1 (flushSegments 4 1 LocalPqCoder.sixteenCode)
      (fun _ => 0) nibbleCoder.oneCodebook := by
  have hoff : nibbleCoder.OffsetsFit := byteCoder_offsetsFit
  exact (local_decode_consistent_iff nibbleCoder hoff patternSum).2 rfl _ _ _ _ _ _
    (LocalPqCoder.localLeaf_oneLeaf hoff)

/-- A row of that coder whose vector is 1.0 is decoded as 0.0. -/
theorem decode_one_drops_high_half :
    byteCoder.LocalLeaf byteCoder.oneLeaf 1 1 (flushSegments 8 1 LocalPqCoder.sixteenCode)
      (fun _ => 0) byteCoder.oneCodebook ∧
    (byteCoder.decodeOne patternSum byteCoder.oneLeaf 0)[0]? = some 0 ∧
    (byteCoder.vectorOf patternSum (fun _ => 0) byteCoder.oneCodebook
      (flushSegments 8 1 LocalPqCoder.sixteenCode 0))[0]? = some 0x3F800000 := by
  obtain ⟨h₁, h₂⟩ := LocalPqCoder.vectorOf_oneLeaf (c := byteCoder) patternSum rfl
  refine ⟨LocalPqCoder.localLeaf_oneLeaf byteCoder_offsetsFit, ?_, h₂⟩
  rw [LocalPqCoder.decodeOne_oneLeaf byteCoder_offsetsFit patternSum rfl]
  exact h₁

end SextantTree.LocalPq
