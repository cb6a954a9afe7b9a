import SextantTree.LeafCodes

/-!
What the writers of codes leave in the lanes of a leaf and what the reader takes out of them. All
operations are loops over packed cells. The lanes behind the last row hold zero, so what an append
or-s in is there afterwards.
-/

namespace SextantTree.LeafCodes

open ByteMem PackedCells

/-! ### Lanes -/

def widthOf (bits : ℕ) : Width := if bits = 4 then .nibble else .byte

/-- The cell of row `i` and segment `s` in blocks from `base` on. -/
def laneAddr (bits m4 base i s : ℕ) : ℕ :=
  if bits = 4 then 2 * (base + i / 32 * (m4 * 16) + (s * 16 + i % 16)) + i % 32 / 16
  else base + i / 16 * (m4 * 16) + (s * 16 + i % 16)

/-- The cell of segment `s` in a packed code that starts at byte `out`. -/
def segAddr (bits out s : ℕ) : ℕ := if bits = 4 then 2 * out + s else out + s

def BitsOk (bits : ℕ) : Prop := bits = 4 ∨ bits = 8

lemma lt_codeSize {m4 s : ℕ} (hs : s < m4) : s / 2 < codeSize m4 4 := by
  simp only [codeSize]
  omega

lemma codeSize_eight (m4 : ℕ) : codeSize m4 8 = m4 := by
  simp only [codeSize]
  omega

section Lanes

variable {bits m4 base : ℕ} {m m' leaf : Mem} {i j s t : ℕ}

lemma laneAddr_inj (hs : s < m4) (ht : t < m4)
    (h : laneAddr bits m4 base i s = laneAddr bits m4 base j t) : i = j ∧ s = t := by
  have key : ∀ a b : ℕ, a * m4 + s = b * m4 + t → a = b ∧ s = t := by
    intro a b hab
    have hdiv : (m4 * a + s) / m4 = (m4 * b + t) / m4 := by rw [Nat.mul_comm m4, hab, Nat.mul_comm m4]
    rw [Nat.mul_add_div (by omega), Nat.mul_add_div (by omega), Nat.div_eq_of_lt hs,
      Nat.div_eq_of_lt ht] at hdiv
    obtain rfl : a = b := hdiv
    exact ⟨rfl, by omega⟩
  simp only [laneAddr] at h
  split at h
  · have hrow : i / 32 * m4 + s = j / 32 * m4 + t := by
      have h₁ : i / 32 * (m4 * 16) = i / 32 * m4 * 16 := by ring
      have h₂ : j / 32 * (m4 * 16) = j / 32 * m4 * 16 := by ring
      omega
    obtain ⟨hblock, rfl⟩ := key _ _ hrow
    rw [hblock] at h
    have hi : i % 32 / 16 < 2 := by omega
    have hj : j % 32 / 16 < 2 := by omega
    have hcell : i % 16 = j % 16 ∧ i % 32 / 16 = j % 32 / 16 := by
      generalize i % 16 = x, j % 16 = y, i % 32 / 16 = u, j % 32 / 16 = v at *
      omega
    exact ⟨by omega, rfl⟩
  · have hrow : i / 16 * m4 + s = j / 16 * m4 + t := by
      have h₁ : i / 16 * (m4 * 16) = i / 16 * m4 * 16 := by ring
      have h₂ : j / 16 * (m4 * 16) = j / 16 * m4 * 16 := by ring
      omega
    obtain ⟨hblock, rfl⟩ := key _ _ hrow
    rw [hblock] at h
    exact ⟨by omega, rfl⟩

lemma byteOf_laneAddr (bits base i : ℕ) (hs : s < m4) :
    base + i / codesPerBlock bits * (m4 * 16) ≤ byteOf (widthOf bits) (laneAddr bits m4 base i s) ∧
      byteOf (widthOf bits) (laneAddr bits m4 base i s) <
        base + i / codesPerBlock bits * (m4 * 16) + m4 * 16 := by
  by_cases hb : bits = 4
  · subst hb
    simp only [widthOf, byteOf, laneAddr, codesPerBlock, if_true]
    generalize i / 32 * (m4 * 16) = x
    omega
  · simp only [widthOf, byteOf, laneAddr, codesPerBlock, if_neg hb]
    generalize i / 16 * (m4 * 16) = x
    omega

lemma segAddr_inj (h : segAddr bits j s = segAddr bits j t) : s = t := by
  simp only [segAddr] at h
  split at h <;> omega

def codeCells (m4 bits : ℕ) : ℕ := (if bits = 4 then 2 else 1) * codeSize m4 bits

lemma lt_codeCells (hb : BitsOk bits) (hs : s < m4) : s < codeCells m4 bits := by
  rcases hb with rfl | rfl
  · have := lt_codeSize hs
    simp only [codeCells, if_true]
    omega
  · rw [codeCells, codeSize_eight]
    simp only [Nat.reduceEqDiff, if_false]
    omega

lemma segAddr_ne (hij : i ≠ j) (hs : s < codeCells m4 bits) (ht : t < codeCells m4 bits) :
    segAddr bits (i * codeSize m4 bits) s ≠ segAddr bits (j * codeSize m4 bits) t := by
  intro h
  have heq : codeCells m4 bits * i + s = codeCells m4 bits * j + t := by
    simp only [segAddr] at h
    simp only [codeCells]
    split at h
    · rw [if_pos ‹_›, Nat.mul_assoc, Nat.mul_comm _ i, Nat.mul_assoc, Nat.mul_comm _ j]
      exact h
    · rw [if_neg ‹_›, Nat.one_mul, Nat.mul_comm _ i, Nat.mul_comm _ j]
      exact h
  have hdiv := congrArg (· / codeCells m4 bits) heq
  rw [Nat.mul_add_div (by omega), Nat.mul_add_div (by omega), Nat.div_eq_of_lt hs,
    Nat.div_eq_of_lt ht] at hdiv
  exact hij hdiv

/-! ### The rounds are stores of cells -/

lemma laneAddr_byte :
    laneAddr 4 m4 base i s / 2 = base + i / 32 * (m4 * 16) + (s * 16 + i % 32 % 16) := by
  simp only [laneAddr, if_true]
  generalize i / 32 * (m4 * 16) = x
  omega

lemma laneAddr_half : laneAddr 4 m4 base i s % 2 = 0 ↔ ¬ 16 ≤ i % 32 := by
  simp only [laneAddr, if_true]
  rw [Nat.mul_add_mod]
  omega

lemma segmentOf_eq (hb : BitsOk bits) (hs : s < m4) (code : Mem) :
    segmentOf bits (codeSize m4 bits) code s = cell (widthOf bits) code s := by
  rcases hb with rfl | rfl
  · simp only [segmentOf, if_true, if_pos (lt_codeSize hs), widthOf, cell]
  · simp only [segmentOf, Nat.reduceEqDiff, if_false, codeSize_eight, if_pos hs, widthOf, cell]

lemma fits_segmentOf (bits cs : ℕ) (code : Mem) (s : ℕ) :
    Fits (widthOf bits) (segmentOf bits cs code s) := by
  by_cases hb : bits = 4
  · simp only [widthOf, segmentOf, if_pos hb, Fits]
    have := (code (s / 2)).toNat_lt
    split
    · split
      · rw [toNat_low]
        omega
      · rw [toNat_high]
        omega
    · decide
  · simp only [widthOf, if_neg hb, Fits]

lemma stores_writeSegment (bits cs base i s : ℕ) (code m : Mem) :
    Stores (widthOf bits) m (writeSegment (base + i / codesPerBlock bits * (m4 * 16))
      (i % codesPerBlock bits) bits cs code m s) (laneAddr bits m4 base i s)
      (segmentOf bits cs code s) := by
  have heq : writeSegment (base + i / codesPerBlock bits * (m4 * 16)) (i % codesPerBlock bits) bits
      cs code m s = orCell (widthOf bits) m (laneAddr bits m4 base i s) (segmentOf bits cs code s) := by
    by_cases hb : bits = 4
    · subst hb
      simp only [writeSegment, codesPerBlock, if_true, widthOf, orCell, laneAddr_byte, laneAddr_half,
        ite_not]
      split <;> rfl
    · simp only [writeSegment, codesPerBlock, if_neg hb, widthOf, orCell, laneAddr]
  rw [heq]
  exact stores_orCell (fits_segmentOf bits cs code s) _ _

lemma readNibble_eq (leaf : Mem) :
    readNibble leaf (base + i / 32 * (m4 * 16)) (i % 32) s =
      cell .nibble leaf (laneAddr 4 m4 base i s) := by
  simp only [readNibble, cell, laneAddr_byte, laneAddr_half, ite_not]

lemma putNibble_eq (out : ℕ) (m : Mem) (nib : UInt8) :
    putNibble out m s nib = setCell .nibble m (segAddr 4 out s) nib := by
  have hbyte : (2 * out + s) / 2 = out + s / 2 := by omega
  have hhalf : (2 * out + s) % 2 = 0 ↔ s % 2 = 0 := by omega
  simp only [putNibble, setCell, segAddr, if_true, hbyte, hhalf]

lemma extractSegment_eq (hb : BitsOk bits) (leaf m : Mem) (out : ℕ) :
    extractSegment leaf (base + i / codesPerBlockRead bits * (m4 * 16))
        (i % codesPerBlockRead bits) bits out m s =
      setCell (widthOf bits) m (segAddr bits out s)
        (cell (widthOf bits) leaf (laneAddr bits m4 base i s)) := by
  rcases hb with rfl | rfl
  · simp only [extractSegment, codesPerBlockRead, Nat.reduceEqDiff, if_false, readNibble_eq,
      putNibble_eq, widthOf, if_true]
  · simp only [extractSegment, codesPerBlockRead, if_true, widthOf, Nat.reduceEqDiff, if_false,
      setCell, cell, laneAddr, segAddr]

/-- What `compact` takes of a lane. -/
def movedSegment (bits : ℕ) (old : Mem) (blk j s : ℕ) : UInt8 :=
  if bits = 8 then old (blk + (s * 16 + j)) else readNibble old blk j s

lemma movedSegment_eq (hb : BitsOk bits) (old : Mem) :
    movedSegment bits old (base + i / codesPerBlock bits * (m4 * 16)) (i % codesPerBlock bits) s =
      cell (widthOf bits) old (laneAddr bits m4 base i s) := by
  rcases hb with rfl | rfl
  · simp only [movedSegment, codesPerBlock, Nat.reduceEqDiff, if_false, if_true, readNibble_eq, widthOf]
  · simp only [movedSegment, codesPerBlock, Nat.reduceEqDiff, if_false, if_true, widthOf, laneAddr,
      cell]

lemma toNat_readNibble (old : Mem) (blk j s : ℕ) : (readNibble old blk j s).toNat < 16 := by
  have := (old (blk + (s * 16 + j % 16))).toNat_lt
  unfold readNibble
  split
  · rw [toNat_high]
    omega
  · rw [toNat_low]
    omega

lemma stores_moveSegment (bits base oldBlk oldJ i s : ℕ) (old m : Mem) :
    Stores (widthOf bits) m (moveSegment old oldBlk oldJ
      (base + i / codesPerBlock bits * (m4 * 16)) (i % codesPerBlock bits) bits m s)
      (laneAddr bits m4 base i s) (movedSegment bits old oldBlk oldJ s) := by
  by_cases h4 : bits = 4
  · subst h4
    have heq : moveSegment old oldBlk oldJ (base + i / codesPerBlock 4 * (m4 * 16))
        (i % codesPerBlock 4) 4 m s =
        orCell (widthOf 4) m (laneAddr 4 m4 base i s) (movedSegment 4 old oldBlk oldJ s) := by
      simp only [moveSegment, movedSegment, codesPerBlock, Nat.reduceEqDiff, if_false, if_true,
        widthOf, orCell, laneAddr_byte, laneAddr_half, ite_not]
      split <;> rfl
    rw [heq]
    refine stores_orCell ?_ _ _
    simp only [movedSegment, Nat.reduceEqDiff, if_false, widthOf, if_true, Fits]
    exact toNat_readNibble old oldBlk oldJ s
  · have hlane : laneAddr bits m4 base i s =
        base + i / codesPerBlock bits * (m4 * 16) + (s * 16 + i % codesPerBlock bits % 16) := by
      simp only [laneAddr, codesPerBlock, if_neg h4, Nat.mod_mod]
    have hj : i % codesPerBlock bits < 16 := by
      simp only [codesPerBlock, if_neg h4]
      omega
    simp only [widthOf, if_neg h4]
    by_cases h8 : bits = 8
    · simp only [moveSegment, movedSegment, if_pos h8]
      rw [hlane, Nat.mod_eq_of_lt hj]
      exact stores_orCell (w := .byte) trivial _ _
    · simp only [moveSegment, movedSegment, if_neg h8, if_neg (not_le.mpr hj)]
      rw [hlane]
      exact stores_orByte _ _ _

end Lanes

/-! ### Rows -/

section Rows

variable {bits m4 base : ℕ} {m old leaf : Mem} {n : ℕ}

/-- Row `i` of the blocks holds the segments `c`. -/
def RowHolds (bits m4 base : ℕ) (m : Mem) (i : ℕ) (c : ℕ → UInt8) : Prop :=
  ∀ s < m4, cell (widthOf bits) m (laneAddr bits m4 base i s) = c s

lemma RowHolds.congr {i : ℕ} {c : ℕ → UInt8} {m' : Mem} (h : RowHolds bits m4 base m i c)
    (heq : ∀ s < m4, cell (widthOf bits) m' (laneAddr bits m4 base i s) =
      cell (widthOf bits) m (laneAddr bits m4 base i s)) : RowHolds bits m4 base m' i c :=
  fun s hs => (heq s hs).trans (h s hs)

/-- A row that is written: it holds the values, and all other rows stay. -/
structure RowWritten (bits m4 base : ℕ) (m m' : Mem) (i : ℕ) (c : ℕ → UInt8) : Prop where
  row : RowHolds bits m4 base m i (fun _ => 0) → RowHolds bits m4 base m' i c
  other : ∀ j d, j ≠ i → RowHolds bits m4 base m j d → RowHolds bits m4 base m' j d
  frame : ∀ p, p < base + i / codesPerBlock bits * (m4 * 16) ∨
    base + i / codesPerBlock bits * (m4 * 16) + m4 * 16 ≤ p → m' p = m p

lemma rowWritten_foldl {f : Mem → ℕ → Mem} {i : ℕ} {c : ℕ → UInt8}
    (hf : ∀ m s, Stores (widthOf bits) m (f m s) (laneAddr bits m4 base i s) (c s)) (m : Mem) :
    RowWritten bits m4 base m ((List.range m4).foldl f m) i c := by
  obtain ⟨hin, hout, hframe⟩ := foldl_stores (n := m4) (fun m s _ => hf m s)
    (fun s hs t ht h => (laneAddr_inj hs ht h).2) m
  refine ⟨fun h₀ s hs => hin s hs (h₀ s hs), fun j d hj hd => ?_, fun p hp => ?_⟩
  · refine hd.congr fun t ht => hout _ fun s hs heq => ?_
    exact hj (laneAddr_inj hs ht heq).1.symm
  · refine hframe p fun s hs heq => ?_
    have := byteOf_laneAddr bits base i hs
    omega

lemma writeCode_spec (bits m4 base i : ℕ) (code m : Mem) :
    RowWritten bits m4 base m
      (writeCodeToFsBlock m (base + i / codesPerBlock bits * (m4 * 16)) (i % codesPerBlock bits) m4
        bits (codeSize m4 bits) code) i (segmentOf bits (codeSize m4 bits) code) :=
  rowWritten_foldl (fun m s => stores_writeSegment bits _ base i s code m) m

lemma moveRow_spec (bits m4 base oldBlk oldJ i : ℕ) (old m : Mem) :
    RowWritten bits m4 base m
      ((List.range m4).foldl (moveSegment old oldBlk oldJ
        (base + i / codesPerBlock bits * (m4 * 16)) (i % codesPerBlock bits) bits) m) i
      (movedSegment bits old oldBlk oldJ) :=
  rowWritten_foldl (fun m s => stores_moveSegment bits base oldBlk oldJ i s old m) m

/-! ### Reading a row -/

lemma extractCode_spec (hb : BitsOk bits) (m4 base i out : ℕ) (leaf m : Mem) :
    (∀ s < m4, cell (widthOf bits) (extractCodeFromLeaf leaf i m4 bits base out m)
      (segAddr bits out s) = cell (widthOf bits) leaf (laneAddr bits m4 base i s)) ∧
      ∀ b, (∀ s < m4, segAddr bits out s ≠ b) →
        cell (widthOf bits) (extractCodeFromLeaf leaf i m4 bits base out m) b =
          cell (widthOf bits) m b := by
  have heq : extractCodeFromLeaf leaf i m4 bits base out m =
      (List.range m4).foldl (fun m s => setCell (widthOf bits) m (segAddr bits out s)
        (cell (widthOf bits) leaf (laneAddr bits m4 base i s))) m :=
    List.foldl_ext _ _ _ fun m s _ => extractSegment_eq hb leaf m out
  rw [heq]
  exact cell_foldl_setCell (fun s _ => fits_cell _ _ _) fun s _ t _ h => segAddr_inj h

lemma extractCodes_spec (hb : BitsOk bits) (m4 base : ℕ) (leaf m : Mem) (n : ℕ) :
    (∀ i < n, ∀ s < m4, cell (widthOf bits) (extractCodes leaf base n m4 bits m)
      (segAddr bits (i * codeSize m4 bits) s) =
        cell (widthOf bits) leaf (laneAddr bits m4 base i s)) ∧
      ∀ b, (∀ i < n, ∀ s < m4, segAddr bits (i * codeSize m4 bits) s ≠ b) →
        cell (widthOf bits) (extractCodes leaf base n m4 bits m) b = cell (widthOf bits) m b := by
  induction n with
  | zero => exact ⟨fun i hi => absurd hi (Nat.not_lt_zero i), fun _ _ => rfl⟩
  | succ n ih =>
    obtain ⟨hin, hout⟩ := ih
    have hstep : extractCodes leaf base (n + 1) m4 bits m =
        extractCodeFromLeaf leaf n m4 bits base (n * codeSize m4 bits)
          (extractCodes leaf base n m4 bits m) := by
      simp only [extractCodes, List.range_succ, List.foldl_append, List.foldl_cons, List.foldl_nil]
    obtain ⟨hrow, hrest⟩ := extractCode_spec hb m4 base n (n * codeSize m4 bits) leaf
      (extractCodes leaf base n m4 bits m)
    rw [hstep]
    refine ⟨fun i hi s hs => ?_, fun b h => ?_⟩
    · by_cases hin' : i = n
      · subst hin'
        exact hrow s hs
      · rw [hrest _ fun t ht => segAddr_ne (Ne.symm hin') (lt_codeCells hb ht) (lt_codeCells hb hs)]
        exact hin i (by omega) s hs
    · rw [hrest b fun s hs => h n (by omega) s hs]
      exact hout b fun i hi s hs => h i (by omega) s hs

/-! ### Rows one after the other -/

lemma rows_foldl {f : Mem → ℕ → Mem} {c : ℕ → ℕ → UInt8} {k : ℕ}
    (hstep : ∀ m t, t < n → RowWritten bits m4 base m (f m t) (k + t) (c (k + t))) (m : Mem) :
    (∀ t < n, RowHolds bits m4 base m (k + t) (fun _ => 0) →
      RowHolds bits m4 base ((List.range n).foldl f m) (k + t) (c (k + t))) ∧
    (∀ j d, j < k ∨ k + n ≤ j → RowHolds bits m4 base m j d →
      RowHolds bits m4 base ((List.range n).foldl f m) j d) ∧
    ∀ p, (∀ t < n, p < base + (k + t) / codesPerBlock bits * (m4 * 16) ∨
      base + (k + t) / codesPerBlock bits * (m4 * 16) + m4 * 16 ≤ p) →
      (List.range n).foldl f m p = m p := by
  induction n with
  | zero => exact ⟨fun t ht => absurd ht (Nat.not_lt_zero t), fun _ _ _ h => h, fun _ _ => rfl⟩
  | succ n ih =>
    obtain ⟨hin, hout, hframe⟩ := ih fun m t ht => hstep m t (by omega)
    have hlast := hstep ((List.range n).foldl f m) n (by omega)
    simp only [List.range_succ, List.foldl_append, List.foldl_cons, List.foldl_nil]
    refine ⟨fun t ht h₀ => ?_, fun j d hj hd => ?_, fun p hp => ?_⟩
    · by_cases htn : t = n
      · subst htn
        exact hlast.row (hout _ _ (.inr le_rfl) h₀)
      · exact hlast.other _ _ (by omega) (hin t (by omega) h₀)
    · exact hlast.other j d (by omega) (hout j d (by omega) hd)
    · rw [hlast.frame p (hp n (by omega))]
      exact hframe p fun t ht => hp t (by omega)

lemma codesPerBlock_pos (bits : ℕ) : 0 < codesPerBlock bits := by
  unfold codesPerBlock
  split <;> decide

lemma codesPerBlock_le (bits : ℕ) : codesPerBlock bits ≤ 32 := by
  unfold codesPerBlock
  split <;> decide

lemma memzero_rows (bits m4 base : ℕ) (m : Mem) (b : ℕ) :
    (∀ i, i / codesPerBlock bits = b →
      RowHolds bits m4 base (memzero m (base + b * (m4 * 16)) (m4 * 16)) i (fun _ => 0)) ∧
    ∀ i d, i / codesPerBlock bits ≠ b → RowHolds bits m4 base m i d →
      RowHolds bits m4 base (memzero m (base + b * (m4 * 16)) (m4 * 16)) i d := by
  refine ⟨fun i hi s hs => ?_, fun i d hi hd => hd.congr fun s hs => ?_⟩
  · have hbyte := byteOf_laneAddr bits base i hs
    rw [hi] at hbyte
    have hzero : memzero m (base + b * (m4 * 16)) (m4 * 16)
        (byteOf (widthOf bits) (laneAddr bits m4 base i s)) = 0 := if_pos hbyte
    exact (cell_congr hzero).trans (cell_zero _ _)
  · have hbyte := byteOf_laneAddr bits base i hs
    refine cell_congr (if_neg fun h => ?_)
    -- Two blocks have no byte in common.
    rcases Nat.lt_or_gt_of_ne hi with hlt | hgt
    · have := Nat.mul_le_mul_right (m4 * 16) (show i / codesPerBlock bits + 1 ≤ b from hlt)
      rw [Nat.add_mul, Nat.one_mul] at this
      omega
    · have := Nat.mul_le_mul_right (m4 * 16) (show b + 1 ≤ i / codesPerBlock bits from hgt)
      rw [Nat.add_mul, Nat.one_mul] at this
      omega

/-! ### Leaves -/

/-- The rows of a leaf: the first `n` hold their codes, the others of the last block hold zero. -/
structure HoldsCodes (bits m4 base : ℕ) (m : Mem) (n : ℕ) (c : ℕ → ℕ → UInt8) : Prop where
  rows : ∀ i < n, RowHolds bits m4 base m i (c i)
  rest : ∀ i, n ≤ i → i / codesPerBlock bits < (n + codesPerBlock bits - 1) / codesPerBlock bits →
    RowHolds bits m4 base m i (fun _ => 0)

lemma HoldsCodes.congr {c d : ℕ → ℕ → UInt8} (h : HoldsCodes bits m4 base leaf n c)
    (hcd : ∀ i < n, ∀ s < m4, c i s = d i s) : HoldsCodes bits m4 base leaf n d :=
  ⟨fun i hi s hs => (h.rows i hi s hs).trans (hcd i hi s hs), h.rest⟩

def Untouched (lo hi : ℕ) (m m' : Mem) : Prop := ∀ p, p < lo ∨ hi ≤ p → m' p = m p

/-- The code region up to block `b` is clear. -/
def ClearTo (bits m4 base : ℕ) (m : Mem) (b : ℕ) : Prop :=
  ∀ i, i / codesPerBlock bits < b → RowHolds bits m4 base m i (fun _ => 0)

/-- The segments of code `i` in a buffer of packed codes. -/
def packedSegments (bits m4 : ℕ) (codes : Mem) (i s : ℕ) : UInt8 :=
  segmentOf bits (codeSize m4 bits) (fun k => codes (i * codeSize m4 bits + k)) s

/-- The segments of the code that `flush_leaf` takes for row `i`. -/
def flushSegments (bits m4 : ℕ) (codes : Mem) (i s : ℕ) : UInt8 :=
  segmentOf bits (codeSize m4 bits) (fun k => codes (i * codeSize m4 bits % 2 ^ 32 + k)) s

lemma cell_shift (codes : Mem) (p s : ℕ) :
    cell (widthOf bits) (fun k => codes (p + k)) s = cell (widthOf bits) codes (segAddr bits p s) := by
  unfold widthOf segAddr
  split
  · have hbyte : (2 * p + s) / 2 = p + s / 2 := by omega
    have hhalf : (2 * p + s) % 2 = 0 ↔ s % 2 = 0 := by omega
    simp only [cell, hbyte, hhalf]
  · rfl

lemma flushSegments_eq {codes : Mem} {i : ℕ} (h : i * codeSize m4 bits < 2 ^ 32) :
    flushSegments bits m4 codes i = packedSegments bits m4 codes i := by
  funext s
  rw [flushSegments, Nat.mod_eq_of_lt h, packedSegments]

/-- **One block of `flush_leaf`.** -/
lemma flushBlock_spec (codes m : Mem) (bits m4 base count b : ℕ) :
    (∀ i, i / codesPerBlock bits = b →
      RowHolds bits m4 base (flushBlock codes base count m4 bits m b) i
        (if i < count then flushSegments bits m4 codes i else fun _ => 0)) ∧
    (∀ i d, i / codesPerBlock bits ≠ b → RowHolds bits m4 base m i d →
      RowHolds bits m4 base (flushBlock codes base count m4 bits m b) i d) ∧
    ∀ p, p < base + b * (m4 * 16) ∨ base + b * (m4 * 16) + m4 * 16 ≤ p →
      flushBlock codes base count m4 bits m b p = m p := by
  have hpos := codesPerBlock_pos bits
  have hdiv : ∀ j < codesPerBlock bits, (b * codesPerBlock bits + j) / codesPerBlock bits = b := by
    intro j hj
    rw [Nat.mul_comm, Nat.mul_add_div hpos, Nat.div_eq_of_lt hj, Nat.add_zero]
  have hmod : ∀ j < codesPerBlock bits, (b * codesPerBlock bits + j) % codesPerBlock bits = j := by
    intro j hj
    rw [Nat.mul_comm, Nat.mul_add_mod, Nat.mod_eq_of_lt hj]
  obtain ⟨hzero, hkeep⟩ := memzero_rows bits m4 base m b
  -- Round `j` writes row `j` of the block, or nothing behind the last row.
  obtain ⟨hin, hout, hframe⟩ := rows_foldl (n := codesPerBlock bits) (k := b * codesPerBlock bits)
    (f := fun m j =>
      if b * codesPerBlock bits + j < count then
        writeCodeToFsBlock m (base + b * (m4 * 16)) j m4 bits (codeSize m4 bits)
          (fun k => codes ((b * codesPerBlock bits + j) * codeSize m4 bits % 2 ^ 32 + k))
      else m)
    (c := fun i => if i < count then flushSegments bits m4 codes i else fun _ => 0)
    (fun m j hj => by
      have hrow := writeCode_spec bits m4 base (b * codesPerBlock bits + j)
        (fun k => codes ((b * codesPerBlock bits + j) * codeSize m4 bits % 2 ^ 32 + k)) m
      rw [hdiv j hj, hmod j hj] at hrow
      by_cases hlt : b * codesPerBlock bits + j < count
      · simp only [if_pos hlt]
        exact hrow
      · simp only [if_neg hlt]
        exact ⟨id, fun _ _ _ h => h, fun _ _ => rfl⟩)
    (memzero m (base + b * (m4 * 16)) (m4 * 16))
  refine ⟨fun i hi => ?_, fun i d hi hd => ?_, fun p hp => ?_⟩
  · have hi' : i = b * codesPerBlock bits + i % codesPerBlock bits := by
      rw [← hi, Nat.mul_comm, Nat.div_add_mod]
    have hlt := Nat.mod_lt i hpos
    rw [hi']
    exact hin _ hlt (hzero _ (hdiv _ hlt))
  · refine hout i d ?_ (hkeep i d hi hd)
    by_contra hmid
    refine hi ?_
    rw [show i = b * codesPerBlock bits + (i - b * codesPerBlock bits) by omega]
    exact hdiv _ (by omega)
  · refine (hframe p fun j hj => ?_).trans (if_neg (by omega))
    rw [hdiv j hj]
    exact hp

lemma flushBlocks_spec (codes m : Mem) (bits m4 base count nb : ℕ) :
    (∀ i, i / codesPerBlock bits < nb →
      RowHolds bits m4 base ((List.range nb).foldl (flushBlock codes base count m4 bits) m) i
        (if i < count then flushSegments bits m4 codes i else fun _ => 0)) ∧
    ∀ p, p < base ∨ base + nb * (m4 * 16) ≤ p →
      (List.range nb).foldl (flushBlock codes base count m4 bits) m p = m p := by
  induction nb with
  | zero => exact ⟨fun i hi => absurd hi (Nat.not_lt_zero _), fun _ _ => rfl⟩
  | succ nb ih =>
    obtain ⟨hrows, hframe⟩ := ih
    obtain ⟨hin, hout, hlast⟩ := flushBlock_spec codes
      ((List.range nb).foldl (flushBlock codes base count m4 bits) m) bits m4 base count nb
    simp only [List.range_succ, List.foldl_append, List.foldl_cons, List.foldl_nil]
    refine ⟨fun i hi => ?_, fun p hp => ?_⟩
    · by_cases heq : i / codesPerBlock bits = nb
      · exact hin i heq
      · exact hout i _ heq (hrows i (by omega))
    · rw [Nat.add_mul, Nat.one_mul] at hp
      rw [hlast p (by omega)]
      exact hframe p (by omega)

lemma blockCount_eq {count : ℕ} (h : count + codesPerBlock bits - 1 < 2 ^ 32) :
    blockCount bits count = (count + codesPerBlock bits - 1) / codesPerBlock bits := by
  rw [blockCount, Nat.mod_eq_of_lt h]

lemma blockCount_of_wrap {count : ℕ} (hcount : count < 2 ^ 32)
    (h : 2 ^ 32 ≤ count + codesPerBlock bits - 1) : blockCount bits count = 0 := by
  have hpos := codesPerBlock_pos bits
  have hle := codesPerBlock_le bits
  rw [blockCount, Nat.mod_eq_sub_mod h, Nat.mod_eq_of_lt (by omega), Nat.div_eq_of_lt (by omega)]

lemma div_lt_of_lt {count i : ℕ} (hi : i < count) :
    i / codesPerBlock bits < (count + codesPerBlock bits - 1) / codesPerBlock bits := by
  have hpos := codesPerBlock_pos bits
  rw [Nat.div_lt_iff_lt_mul hpos]
  have := Nat.lt_div_mul_add (a := count + codesPerBlock bits - 1) hpos
  omega

lemma block_end_le (m4 : ℕ) {n nb i : ℕ} (hi : i < n)
    (hnb : (n + codesPerBlock bits - 1) / codesPerBlock bits ≤ nb) :
    i / codesPerBlock bits * (m4 * 16) + m4 * 16 ≤ nb * (m4 * 16) := by
  have hlt := lt_of_lt_of_le (div_lt_of_lt hi) hnb
  have := Nat.mul_le_mul_right (m4 * 16) (show i / codesPerBlock bits + 1 ≤ nb from hlt)
  rwa [Nat.add_mul, Nat.one_mul] at this

/-- **`flush_leaf`** leaves the rows and clear lanes behind them, as long as the blocks are counted
right. -/
lemma flushCodes_spec (codes m : Mem) (bits m4 base count : ℕ)
    (h : count + codesPerBlock bits - 1 < 2 ^ 32) :
    HoldsCodes bits m4 base (flushCodes codes base count m4 bits m) count
      (flushSegments bits m4 codes) ∧
    Untouched base (base + (count + codesPerBlock bits - 1) / codesPerBlock bits * (m4 * 16)) m
      (flushCodes codes base count m4 bits m) := by
  obtain ⟨hrows, hframe⟩ := flushBlocks_spec codes m bits m4 base count (blockCount bits count)
  rw [blockCount_eq h] at hframe
  refine ⟨⟨fun i hi => ?_, fun i hi hlt => ?_⟩, fun p hp => ?_⟩
  · have := hrows i (by rw [blockCount_eq h]; exact div_lt_of_lt hi)
    rwa [if_pos hi] at this
  · have := hrows i (by rw [blockCount_eq h]; exact hlt)
    rwa [if_neg (by omega)] at this
  · rw [flushCodes, blockCount_eq h]
    exact hframe p hp

/-- **`encode_group`** into a clear buffer. -/
lemma groupCodes_spec (codes m : Mem) (bits m4 base count : ℕ)
    (hclear : ClearTo bits m4 base m ((count + codesPerBlock bits - 1) / codesPerBlock bits)) :
    HoldsCodes bits m4 base (groupCodes codes base count m4 bits m) count
      (packedSegments bits m4 codes) ∧
    Untouched base (base + (count + codesPerBlock bits - 1) / codesPerBlock bits * (m4 * 16)) m
      (groupCodes codes base count m4 bits m) := by
  obtain ⟨hin, hout, hframe⟩ := rows_foldl (n := count) (k := 0)
    (f := fun m i => writeCodeToFsBlock m (base + i / codesPerBlock bits * (m4 * 16))
      (i % codesPerBlock bits) m4 bits (codeSize m4 bits) (fun k => codes (i * codeSize m4 bits + k)))
    (c := packedSegments bits m4 codes)
    (fun m i _ => by
      rw [Nat.zero_add]
      exact writeCode_spec bits m4 base i (fun k => codes (i * codeSize m4 bits + k)) m) m
  simp only [Nat.zero_add] at hin hout hframe
  refine ⟨⟨fun i hi => hin i hi (hclear i (div_lt_of_lt hi)),
    fun i hi hlt => hout i _ (.inr hi) (hclear i hlt)⟩, fun p hp => hframe p fun i hi => ?_⟩
  have := block_end_le m4 hi (le_refl ((_ + codesPerBlock bits - 1) / codesPerBlock bits))
  omega

/-- **`compact`** into a clear buffer: row `i` is what was taken of row `keep[i]`. -/
lemma compactCodes_spec (old m : Mem) (bits m4 base : ℕ) (keep : List ℕ)
    (hclear : ClearTo bits m4 base m
      ((keep.length + codesPerBlock bits - 1) / codesPerBlock bits)) :
    HoldsCodes bits m4 base (compactCodes old base m4 bits keep m) keep.length
      (fun i => movedSegment bits old (base + keep.getD i 0 / codesPerBlock bits * (m4 * 16))
        (keep.getD i 0 % codesPerBlock bits)) ∧
    Untouched base (base + (keep.length + codesPerBlock bits - 1) / codesPerBlock bits * (m4 * 16)) m
      (compactCodes old base m4 bits keep m) := by
  obtain ⟨hin, hout, hframe⟩ := rows_foldl (n := keep.length) (k := 0)
    (f := fun m i => (List.range m4).foldl
      (moveSegment old (base + keep.getD i 0 / codesPerBlock bits * (m4 * 16))
        (keep.getD i 0 % codesPerBlock bits) (base + i / codesPerBlock bits * (m4 * 16))
        (i % codesPerBlock bits) bits) m)
    (c := fun i => movedSegment bits old (base + keep.getD i 0 / codesPerBlock bits * (m4 * 16))
      (keep.getD i 0 % codesPerBlock bits))
    (fun m i _ => by
      rw [Nat.zero_add]
      exact moveRow_spec bits m4 base _ _ i old m) m
  simp only [Nat.zero_add] at hin hout hframe
  refine ⟨⟨fun i hi => hin i hi (hclear i (div_lt_of_lt hi)),
    fun i hi hlt => hout i _ (.inr hi) (hclear i hlt)⟩, fun p hp => hframe p fun i hi => ?_⟩
  have := block_end_le m4 hi (le_refl ((_ + codesPerBlock bits - 1) / codesPerBlock bits))
  omega

lemma rowHolds_copied {nb i : ℕ} {d : ℕ → UInt8} (hi : i / codesPerBlock bits < nb)
    (h : RowHolds bits m4 base old i d) (m : Mem) :
    RowHolds bits m4 base (poke m base (peek old base (nb * (m4 * 16)))) i d := by
  refine h.congr fun s hs => cell_congr ?_
  have hbyte := byteOf_laneAddr bits base i hs
  have hend := Nat.mul_le_mul_right (m4 * 16) (show i / codesPerBlock bits + 1 ≤ nb from hi)
  rw [Nat.add_mul, Nat.one_mul] at hend
  generalize byteOf (widthOf bits) (laneAddr bits m4 base i s) = p at hbyte
  rw [poke, if_pos (by omega), peek, List.getElem?_map, List.getElem?_range (by omega)]
  exact congrArg old (by omega)

lemma rowHolds_behind {nb i : ℕ} {d : ℕ → UInt8}
    (hi : nb ≤ i / codesPerBlock bits) (h : RowHolds bits m4 base m i d) (old : Mem) :
    RowHolds bits m4 base (poke m base (peek old base (nb * (m4 * 16)))) i d := by
  refine h.congr fun s hs => cell_congr ?_
  have hbyte := byteOf_laneAddr bits base i hs
  have hstart := Nat.mul_le_mul_right (m4 * 16) hi
  refine poke_apply_of_le ?_
  rw [length_peek]
  omega

/-- The row loop of `append_encode`. -/
def appendRows (oldCount base m4 bits n : ℕ) (new : ℕ → Mem) (m : Mem) : Mem :=
  (List.range n).foldl (fun m ai => writeCodeToFsBlock m
    (base + (oldCount + ai) % 2 ^ 32 / codesPerBlock bits * (m4 * 16))
    ((oldCount + ai) % 2 ^ 32 % codesPerBlock bits) m4 bits (codeSize m4 bits) (new ai)) m

lemma appendCodes_eq (oldCount base m4 bits n : ℕ) (new : ℕ → Mem) (m : Mem) :
    appendCodes old oldCount base m4 bits n new m = appendRows oldCount base m4 bits n new
      (poke m base (peek old base (blockCount bits oldCount * (m4 * 16)))) := rfl

lemma appendRows_spec (bits m4 base oldCount n : ℕ) (new : ℕ → Mem)
    (hsum : oldCount + n < 2 ^ 32) (m : Mem) :
    (∀ t < n, RowHolds bits m4 base m (oldCount + t) (fun _ => 0) →
      RowHolds bits m4 base (appendRows oldCount base m4 bits n new m) (oldCount + t)
        (segmentOf bits (codeSize m4 bits) (new t))) ∧
    (∀ j d, j < oldCount ∨ oldCount + n ≤ j → RowHolds bits m4 base m j d →
      RowHolds bits m4 base (appendRows oldCount base m4 bits n new m) j d) ∧
    ∀ p, (∀ t < n, p < base + (oldCount + t) / codesPerBlock bits * (m4 * 16) ∨
      base + (oldCount + t) / codesPerBlock bits * (m4 * 16) + m4 * 16 ≤ p) →
      appendRows oldCount base m4 bits n new m p = m p := by
  obtain ⟨hin, hout, hframe⟩ := rows_foldl (n := n) (k := oldCount)
    (f := fun m ai => writeCodeToFsBlock m
      (base + (oldCount + ai) % 2 ^ 32 / codesPerBlock bits * (m4 * 16))
      ((oldCount + ai) % 2 ^ 32 % codesPerBlock bits) m4 bits (codeSize m4 bits) (new ai))
    (c := fun i => segmentOf bits (codeSize m4 bits) (new (i - oldCount)))
    (fun m ai hai => by
      rw [Nat.mod_eq_of_lt (show oldCount + ai < 2 ^ 32 by omega), Nat.add_sub_cancel_left]
      exact writeCode_spec bits m4 base (oldCount + ai) (new ai) m) m
  simp only [Nat.add_sub_cancel_left] at hin
  exact ⟨hin, hout, hframe⟩

/-- **`append_encode`** into a clear buffer: the old rows, and behind them the new ones. -/
lemma appendCodes_spec (m : Mem) (bits m4 base oldCount n : ℕ) (new : ℕ → Mem)
    {c : ℕ → ℕ → UInt8} (hold : HoldsCodes bits m4 base old oldCount c)
    (hsum : oldCount + n < 2 ^ 32) (hblocks : oldCount + codesPerBlock bits - 1 < 2 ^ 32)
    (hclear : ClearTo bits m4 base m
      ((oldCount + n + codesPerBlock bits - 1) / codesPerBlock bits)) :
    HoldsCodes bits m4 base (appendCodes old oldCount base m4 bits n new m) (oldCount + n)
      (fun i => if i < oldCount then c i else
        segmentOf bits (codeSize m4 bits) (new (i - oldCount))) ∧
    Untouched base (base + (oldCount + n + codesPerBlock bits - 1) / codesPerBlock bits * (m4 * 16)) m
      (appendCodes old oldCount base m4 bits n new m) := by
  obtain ⟨hin, hout, hframe⟩ := appendRows_spec bits m4 base oldCount n new hsum
    (poke m base (peek old base (blockCount bits oldCount * (m4 * 16))))
  rw [blockCount_eq hblocks] at hin hout hframe
  -- A lane behind the old rows is clear: in the last old block as it was, behind it as given.
  have hzero : ∀ i, oldCount ≤ i →
      i / codesPerBlock bits < (oldCount + n + codesPerBlock bits - 1) / codesPerBlock bits →
      RowHolds bits m4 base (poke m base (peek old base
        ((oldCount + codesPerBlock bits - 1) / codesPerBlock bits * (m4 * 16)))) i (fun _ => 0) := by
    intro i hi hlt
    by_cases hblock : i / codesPerBlock bits < (oldCount + codesPerBlock bits - 1) / codesPerBlock bits
    · exact rowHolds_copied hblock (hold.rest i hi hblock) m
    · exact rowHolds_behind (not_lt.mp hblock) (hclear i hlt) old
  rw [appendCodes_eq, blockCount_eq hblocks]
  refine ⟨⟨fun i hi => ?_, fun i hi hlt => hout i _ (.inr hi) (hzero i (by omega) hlt)⟩, fun p hp => ?_⟩
  · by_cases hlt : i < oldCount
    · rw [if_pos hlt]
      exact hout i _ (.inl hlt) (rowHolds_copied (div_lt_of_lt hlt) (hold.rows i hlt) m)
    · have := hin (i - oldCount) (by omega)
      rw [show oldCount + (i - oldCount) = i by omega] at this
      rw [if_neg hlt]
      exact this (hzero i (by omega) (div_lt_of_lt hi))
  · have hmono : (oldCount + codesPerBlock bits - 1) / codesPerBlock bits * (m4 * 16) ≤
        (oldCount + n + codesPerBlock bits - 1) / codesPerBlock bits * (m4 * 16) :=
      Nat.mul_le_mul_right _ (Nat.div_le_div_right (by omega))
    rw [hframe p fun t ht => ?_, poke_peek_apply, if_neg (by omega)]
    have := block_end_le m4 (show oldCount + t < oldCount + n by omega)
      (le_refl ((_ + codesPerBlock bits - 1) / codesPerBlock bits))
    omega

end Rows

end SextantTree.LeafCodes
