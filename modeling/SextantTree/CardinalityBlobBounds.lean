import SextantTree.ByteExtent
import SextantTree.CardinalityBlob

/-!
Reading a blob of any bytes: when it stays inside, and what it leaves.
-/

namespace SextantTree.Cardinality

open ByteMem Reader

/-! What a column of the blob says of its size. -/

def recordFlags (b : List UInt8) : UInt8 := (b.drop 4).headD 0

def recordEntries (b : List UInt8) : ℕ := leNat ((b.drop 5).take 4)

/-- The entries of the column are counted: it is tracked and has no bins. -/
def entriesFollow (flags : UInt8) : Bool :=
  (modeFromFlags flags).counts && decide (flags &&& 2 = 0)

def bodySize (flags : UInt8) (entries : ℕ) : ℕ :=
  match modeFromFlags flags with
  | .off => 0
  | .rejected => 8
  | _ =>
    if flags &&& 2 ≠ 0 then 8 + (8 + (8 + (8 + (8 + kCardinalityNumBins * 4))))
    else if flags &&& 1 = 0 then 4 + (8 + entries * 8)
    else 4 + entries * 12

def recordSize (b : List UInt8) : ℕ := 5 + bodySize (recordFlags b) (recordEntries b)

variable {b : List UInt8}

lemma takesAt_word32 (e : BlobEnd) (b : List UInt8) : TakesAt (word32 e) e 4 b :=
  (takesAt_word e 4 b).bind_pure

lemma takesAt_word64 (e : BlobEnd) (b : List UInt8) : TakesAt (word64 e) e 8 b :=
  (takesAt_word e 8 b).bind_pure

lemma takesAt_pair {α β : Type} {r : Reader BlobEnd α} {r' : Reader BlobEnd β} {e : BlobEnd}
    {w w' : ℕ} (h : ∀ b, TakesAt r e w b) (h' : ∀ b, TakesAt r' e w' b) (b : List UInt8) :
    TakesAt (readPair r r') e (w + w') b :=
  (h b).bind fun x _ => (h' _).bind_pure (f := fun y => (x, y))

lemma byte_of_pos (e : BlobEnd) (hb : 0 < b.length) : byte e b = .ok (b.headD 0, b.drop 1) := by
  cases b with
  | nil => cases hb
  | cons x b => rfl

lemma takesAt_byte (e : BlobEnd) (b : List UInt8) : TakesAt (byte e) e 1 b :=
  (takesAt_take e 1 b).bind_pure

lemma takesAt_readBins (col : ColumnCardinality) (b : List UInt8) :
    TakesAt (readBins col) .outside (8 + (8 + (8 + (8 + (8 + kCardinalityNumBins * 4))))) b :=
  (takesAt_word64 .outside b).bind fun _ _ => (takesAt_word64 .outside _).bind fun _ _ =>
    (takesAt_word64 .outside _).bind fun _ _ => (takesAt_word64 .outside _).bind fun _ _ =>
      (takesAt_word64 .outside _).bind fun _ _ =>
        (takesAt_many (takesAt_word32 .outside) kCardinalityNumBins _).bind_pure

lemma takesAt_counted {α : Type} {f : ℕ → Reader BlobEnd α} {w : ℕ → ℕ}
    (h : ∀ n b, TakesAt (f n) .outside (w n) b) (b : List UInt8) :
    TakesAt (word .outside 4 >>= f) .outside (4 + w (leNat (b.take 4))) b := by
  refine (takesAt_word BlobEnd.outside 4 b).bind fun n hn => ?_
  obtain rfl := number_of_word hn
  exact h _ _

lemma takesAt_readHist (col : ColumnCardinality) (b : List UInt8) :
    TakesAt (readHist col) .outside (4 + leNat (b.take 4) * 12) b :=
  takesAt_counted (w := fun n => n * 12) (fun n _ =>
    (takesAt_many (takesAt_pair (takesAt_word64 .outside) (takesAt_word32 .outside)) n _).bind_pure)
    b

lemma takesAt_readFreq (col : ColumnCardinality) (b : List UInt8) :
    TakesAt (readFreq col) .outside (4 + (8 + leNat (b.take 4) * 8)) b :=
  takesAt_counted (w := fun n => 8 + n * 8) (fun n _ =>
    (takesAt_word64 .outside _).bind fun _ _ =>
      (takesAt_many (takesAt_pair (takesAt_word32 .outside) (takesAt_word32 .outside)) n
        _).bind_pure)
    b

lemma takesAt_readTracked {flags : UInt8} {col : ColumnCardinality}
    (hm : (modeFromFlags flags).counts = true)
    (hnum : col.isNumeric = decide (flags &&& 1 ≠ 0)) (b : List UInt8) :
    TakesAt (readTracked flags col) .outside (bodySize flags (leNat (b.take 4))) b := by
  have hsize : bodySize flags (leNat (b.take 4))
      = if flags &&& 2 ≠ 0 then 8 + (8 + (8 + (8 + (8 + kCardinalityNumBins * 4))))
        else if flags &&& 1 = 0 then 4 + (8 + leNat (b.take 4) * 8)
        else 4 + leNat (b.take 4) * 12 := by
    unfold bodySize
    cases h : modeFromFlags flags with
    | off | rejected => rw [h] at hm; cases hm
    | on | auto => rfl
  rw [hsize]
  unfold readTracked
  by_cases hb : flags &&& 2 ≠ 0
  · rw [if_pos hb, if_pos hb]
    exact takesAt_readBins col b
  · rw [if_neg hb, if_neg hb, hnum]
    by_cases hn : flags &&& 1 = 0
    · rw [if_pos hn, if_neg (by simp [hn])]
      exact takesAt_readFreq col b
    · rw [if_neg hn, if_pos (by simp [hn])]
      exact takesAt_readHist col b

lemma flags_of_byte {e : BlobEnd} {flags : UInt8} {rest : List UInt8}
    (h : byte e (b.drop 4) = .ok (flags, rest)) : flags = recordFlags b := by
  by_cases hb : 0 < (b.drop 4).length
  · rw [byte_of_pos e hb] at h
    exact (congrArg Prod.fst (Except.ok.inj h)).symm
  · rw [(takesAt_byte e _).error (by omega)] at h
    cases h

lemma takesAt_readColumn (b : List UInt8) :
    TakesAt readColumn .outside (recordSize b) b := by
  have hsize : recordSize b = 4 + (1 + bodySize (recordFlags b) (recordEntries b)) := by
    unfold recordSize
    omega
  rw [hsize]
  refine (takesAt_word BlobEnd.outside 4 b).bind fun c _ =>
    (takesAt_byte .outside _).bind fun flags hflags => ?_
  obtain rfl := flags_of_byte hflags
  have hentries : recordEntries b = leNat (((b.drop 4).drop 1).take 4) := by
    rw [List.drop_drop]
    rfl
  rw [hentries]
  dsimp only
  cases hm : modeFromFlags (recordFlags b) with
  | off =>
    have hzero : bodySize (recordFlags b) (leNat (((b.drop 4).drop 1).take 4)) = 0 := by
      simp only [bodySize, hm]
    rw [hzero]
    exact takesAt_pure _ _ _
  | rejected =>
    have height : bodySize (recordFlags b) (leNat (((b.drop 4).drop 1).take 4)) = 8 := by
      simp only [bodySize, hm]
    rw [height]
    exact (takesAt_word64 .outside _).bind_pure
  | on | auto =>
    exact (takesAt_readTracked (by rw [hm]; rfl) rfl _).bind_pure

lemma readColumn_number {e : ℕ × ColumnCardinality} {rest : List UInt8}
    (h : readColumn b = .ok (e, rest)) : e.1 = leNat (b.take 4) := by
  obtain ⟨c, mid, hc, h⟩ := exists_of_bind_ok h
  obtain ⟨flags, mid', -, h⟩ := exists_of_bind_ok h
  rw [← number_of_word hc]
  dsimp only at h
  cases hm : modeFromFlags flags with
  | off =>
    rw [hm] at h
    obtain ⟨rfl, -⟩ := Prod.mk.inj (Except.ok.inj h)
    rfl
  | rejected | on | auto =>
    rw [hm] at h
    obtain ⟨x, mid'', -, h⟩ := exists_of_bind_ok h
    obtain ⟨rfl, -⟩ := Prod.mk.inj (Except.ok.inj h)
    rfl

/-! The sizing pass. -/

lemma peekTracked_eq {flags : UInt8} (hm : (modeFromFlags flags).counts = true)
    (b : List UInt8) :
    peekTracked flags b =
      if entriesFollow flags = true ∧ b.length < 4 then .error .cut
      else .ok ((), b.drop (bodySize flags (leNat (b.take 4)))) := by
  have hsize : ∀ n, bodySize flags n
      = if flags &&& 2 ≠ 0 then 8 + (8 + (8 + (8 + (8 + kCardinalityNumBins * 4))))
        else if flags &&& 1 = 0 then 4 + (8 + n * 8) else 4 + n * 12 := by
    intro n
    unfold bodySize
    cases h : modeFromFlags flags with
    | off | rejected => rw [h] at hm; cases hm
    | on | auto => rfl
  rw [hsize]
  unfold peekTracked entriesFollow
  rw [hm]
  by_cases hb : flags &&& 2 ≠ 0
  · rw [if_pos hb, if_pos hb, if_neg (by simp [hb])]
    rfl
  · have hb' : flags &&& 2 = 0 := not_not.1 hb
    rw [if_neg hb, if_neg hb]
    by_cases hlen : b.length < 4
    · rw [if_pos ⟨by simp [hb'], hlen⟩]
      exact bind_of_error (word_of_lt BlobEnd.cut hlen)
    · rw [if_neg (fun h => hlen h.2)]
      refine (bind_of_ok (word_of_le BlobEnd.cut (by omega))).trans ?_
      split_ifs
      · rw [← List.drop_drop]
        rfl
      · rw [← List.drop_drop]
        rfl

/-- How the sizing pass goes past a column: it looks at the number, the flags and the count only. -/
lemma peekColumn_eq (b : List UInt8) :
    peekColumn b =
      if b.length < 4 then .error .cut
      else if b.length < 5 then .error .outside
      else if entriesFollow (recordFlags b) = true ∧ b.length < 9 then .error .cut
      else .ok (leNat (b.take 4), b.drop (recordSize b)) := by
  by_cases h4 : b.length < 4
  · rw [if_pos h4]
    exact bind_of_error (word_of_lt BlobEnd.cut h4)
  rw [if_neg h4]
  refine (bind_of_ok (word_of_le BlobEnd.cut (by omega))).trans ?_
  by_cases h5 : b.length < 5
  · rw [if_pos h5]
    exact bind_of_error ((takesAt_byte .outside _).error (by simp; omega))
  rw [if_neg h5]
  refine (bind_of_ok (byte_of_pos BlobEnd.outside (by simp; omega))).trans ?_
  have hrest : (b.drop 4).drop 1 = b.drop 5 := List.drop_drop
  have hsize : b.drop (recordSize b)
      = (b.drop 5).drop (bodySize (recordFlags b) (recordEntries b)) := by
    rw [List.drop_drop]
    rfl
  rw [hrest, hsize]
  change (match modeFromFlags (recordFlags b) with
    | .off => pure (leNat (b.take 4))
    | .rejected => do
      skip 8
      pure (leNat (b.take 4))
    | _ => do
      peekTracked (recordFlags b)
      pure (leNat (b.take 4)) : Reader BlobEnd ℕ) (b.drop 5) = _
  cases hm : modeFromFlags (recordFlags b) with
  | off =>
    have hno : entriesFollow (recordFlags b) = false := by rw [entriesFollow, hm]; rfl
    rw [if_neg (by simp [hno]), bodySize, hm]
    rfl
  | rejected =>
    have hno : entriesFollow (recordFlags b) = false := by rw [entriesFollow, hm]; rfl
    rw [if_neg (by simp [hno]), bodySize, hm]
    rfl
  | on | auto =>
    have hpeek := peekTracked_eq (by rw [hm]; rfl) (b.drop 5)
    have hlen : (b.drop 5).length < 4 ↔ b.length < 9 := by
      rw [List.length_drop]
      omega
    simp only [hlen] at hpeek
    dsimp only
    by_cases hcut : entriesFollow (recordFlags b) = true ∧ b.length < 9
    · rw [if_pos hcut] at hpeek ⊢
      exact bind_of_error hpeek
    · rw [if_neg hcut] at hpeek ⊢
      exact bind_of_ok hpeek

/-! The columns one after the other. -/

/-- The bytes from column `i` on, as the sizes before it have it. -/
def recordsFrom : ℕ → List UInt8 → List UInt8
  | 0, b => b
  | i + 1, b => recordsFrom i (b.drop (recordSize b))

def Whole (b : List UInt8) : Prop := recordSize b ≤ b.length

/-- The number, the flags and the count of the column are there. -/
def Headed (b : List UInt8) : Prop :=
  5 ≤ b.length ∧ (entriesFollow (recordFlags b) = true → 9 ≤ b.length)

def Cut (b : List UInt8) : Prop :=
  b.length < 4 ∨ 5 ≤ b.length ∧ entriesFollow (recordFlags b) = true ∧ b.length < 9

def recordNumber (b : List UInt8) : ℕ := leNat (b.take 4)

lemma entries_le_size (h : entriesFollow (recordFlags b) = true) : 9 ≤ recordSize b := by
  unfold entriesFollow at h
  rw [Bool.and_eq_true, decide_eq_true_eq] at h
  unfold recordSize bodySize
  cases hm : modeFromFlags (recordFlags b) with
  | off | rejected =>
    rw [hm] at h
    cases h.1
  | on | auto =>
    dsimp only
    rw [if_neg (not_not.2 h.2)]
    split_ifs <;> omega

lemma Whole.headed (h : Whole b) : Headed b := by
  unfold Whole at h
  refine ⟨?_, fun he => (entries_le_size he).trans h⟩
  unfold recordSize at h
  omega

lemma Headed.not_cut (h : Headed b) : ¬ Cut b := by
  rintro (hlt | ⟨-, he, hlt⟩)
  · have := h.1
    omega
  · have := h.2 he
    omega

lemma peekColumn_headed (h : Headed b) :
    peekColumn b = .ok (recordNumber b, b.drop (recordSize b)) := by
  have h5 := h.1
  rw [peekColumn_eq, if_neg (by omega), if_neg (by omega), if_neg]
  · rfl
  · rintro ⟨he, hlt⟩
    have := h.2 he
    omega

lemma peekColumns_spec (n m : ℕ) (b : List UInt8) :
    (∃ mx rest, peekColumns n m b = .ok (mx, rest) ∧ (∀ i < n, Headed (recordsFrom i b)) ∧
      m ≤ mx ∧ (∀ i < n, recordNumber (recordsFrom i b) ≤ mx) ∧
      (mx = m ∨ ∃ i < n, mx = recordNumber (recordsFrom i b))) ∨
    (peekColumns n m b = .error .cut ∧
      ∃ k < n, Cut (recordsFrom k b) ∧ ∀ i < k, Headed (recordsFrom i b)) ∨
    (peekColumns n m b = .error .outside ∧
      ∃ k < n, (recordsFrom k b).length = 4 ∧ ∀ i < k, Headed (recordsFrom i b)) := by
  induction n generalizing m b with
  | zero => exact .inl ⟨m, b, rfl, by simp, le_rfl, by simp, .inl rfl⟩
  | succ n ih =>
    by_cases hh : Headed b
    · have hstep : peekColumns (n + 1) m b
          = peekColumns n (max m (recordNumber b)) (b.drop (recordSize b)) :=
        bind_of_ok (peekColumn_headed hh)
      have hcons : ∀ {P : List UInt8 → Prop} {k : ℕ}, P b →
          (∀ i < k, P (recordsFrom i (b.drop (recordSize b)))) →
          ∀ i < k + 1, P (recordsFrom i b) := by
        intro P k h0 hs i hi
        cases i with
        | zero => exact h0
        | succ i => exact hs i (by omega)
      rw [hstep]
      rcases ih (max m (recordNumber b)) (b.drop (recordSize b)) with
        ⟨mx, rest, hok, hall, hle, hnum, hmax⟩ | ⟨herr, k, hk, hcut, hall⟩ |
        ⟨herr, k, hk, hfour, hall⟩
      · refine .inl ⟨mx, rest, hok, hcons hh hall, (le_max_left _ _).trans hle,
          hcons (P := fun x => recordNumber x ≤ mx) ((le_max_right _ _).trans hle) hnum, ?_⟩
        rcases hmax with hmax | ⟨i, hi, hmax⟩
        · rcases max_choice m (recordNumber b) with hc | hc
          · exact .inl (hmax.trans hc)
          · exact .inr ⟨0, by omega, hmax.trans hc⟩
        · exact .inr ⟨i + 1, by omega, hmax⟩
      · exact .inr (.inl ⟨herr, k + 1, by omega, hcut, hcons hh hall⟩)
      · exact .inr (.inr ⟨herr, k + 1, by omega, hfour, hcons hh hall⟩)
    · have hpeek := peekColumn_eq b
      by_cases h4 : b.length < 4
      · rw [if_pos h4] at hpeek
        exact .inr (.inl ⟨bind_of_error hpeek, 0, by omega, .inl h4, by simp⟩)
      · rw [if_neg h4] at hpeek
        by_cases h5 : b.length < 5
        · rw [if_pos h5] at hpeek
          refine .inr (.inr ⟨bind_of_error hpeek, 0, by omega, ?_, by simp⟩)
          change b.length = 4
          omega
        · have hcut : entriesFollow (recordFlags b) = true ∧ b.length < 9 := by
            by_contra hno
            refine hh ⟨by omega, fun he => ?_⟩
            by_contra hlt
            exact hno ⟨he, by omega⟩
          rw [if_neg h5, if_pos hcut] at hpeek
          have hb : Cut b := .inr ⟨by omega, hcut⟩
          exact .inr (.inl ⟨bind_of_error hpeek, 0, by omega, hb, by simp⟩)

namespace CardinalityTable

def Placed (t : CardinalityTable) : Prop := ∀ c ci, t.place c = some ci → ci < t.columns.length

lemma Placed.placed {t : CardinalityTable} (h : t.Placed) (c : ℕ) (col : ColumnCardinality) :
    (t.placed c col).Placed := by
  intro d ci hd
  unfold place CardinalityTable.placed at hd
  rw [List.getElem?_set] at hd
  have hlen : (t.placed c col).columns.length = t.columns.length + 1 := by
    simp [CardinalityTable.placed]
  rw [hlen]
  split_ifs at hd
  · have : t.columns.length = ci := by simpa using hd
    omega
  · simp at hd
  · have := h d ci hd
    omega

lemma placed_new (n : ℕ) (v : UInt64) :
    Placed { colToIdx := List.replicate n none, nVectors := v } := by
  intro c ci h
  unfold place at h
  rw [List.getElem?_replicate] at h
  split_ifs at h
  · cases h
  · cases h

lemma readColumns_spec (n : ℕ) (t : CardinalityTable) (b : List UInt8) :
    ((∀ i < n, Whole (recordsFrom i b) ∧ recordNumber (recordsFrom i b) < t.colToIdx.length) ∧
      ∃ u rest, readColumns n t b = .ok (u, rest) ∧ u.columns.length = t.columns.length + n ∧
        u.nVectors = t.nVectors ∧ (t.Placed → u.Placed)) ∨
    (¬ (∀ i < n, Whole (recordsFrom i b) ∧
        recordNumber (recordsFrom i b) < t.colToIdx.length) ∧
      readColumns n t b = .error .outside) := by
  induction n generalizing t b with
  | zero => exact .inl ⟨by simp, t, b, rfl, rfl, rfl, id⟩
  | succ n ih =>
    have hread := takesAt_readColumn b
    by_cases hw : Whole b
    · obtain ⟨e, he⟩ := hread.ok hw
      have hnum : e.1 = recordNumber b := readColumn_number he
      have hstep : readColumns (n + 1) t b
          = (if e.1 < t.colToIdx.length then readColumns n (t.placed e.1 e.2) else outOfRange)
            (b.drop (recordSize b)) := bind_of_ok he
      rw [hstep, hnum]
      by_cases hc : recordNumber b < t.colToIdx.length
      · rw [if_pos hc]
        have hlen : (t.placed (recordNumber b) e.2).colToIdx.length = t.colToIdx.length :=
          List.length_set
        have hiff : (∀ i < n + 1, Whole (recordsFrom i b) ∧
              recordNumber (recordsFrom i b) < t.colToIdx.length) ↔
            ∀ i < n, Whole (recordsFrom i (b.drop (recordSize b))) ∧
              recordNumber (recordsFrom i (b.drop (recordSize b))) < t.colToIdx.length := by
          refine ⟨fun h i hi => h (i + 1) (by omega), fun h i hi => ?_⟩
          cases i with
          | zero => exact ⟨hw, hc⟩
          | succ i => exact h i (by omega)
        rw [hiff]
        rcases ih (t.placed (recordNumber b) e.2) (b.drop (recordSize b)) with
          ⟨hall, u, rest, hu, hcols, hvec, hplaced⟩ | ⟨hno, herr⟩
        · rw [hlen] at hall
          refine .inl ⟨hall, u, rest, hu, ?_, hvec, fun h => hplaced (h.placed _ _)⟩
          rw [hcols]
          simp only [CardinalityTable.placed, List.length_append, List.length_singleton]
          omega
        · rw [hlen] at hno
          exact .inr ⟨hno, herr⟩
      · rw [if_neg hc]
        exact .inr ⟨fun h => hc (h 0 (by omega)).2, rfl⟩
    · refine .inr ⟨fun h => hw (h 0 (by omega)).1, bind_of_error (hread.error ?_)⟩
      unfold Whole at hw
      omega

/-! Blobs. -/

/-- Too short for a blob, or of another format. -/
def Foreign (data : List UInt8) : Prop :=
  data.length < 12 ∨ leNat (data.take 4) ≠ kCardMagic ∨ data.getD 4 0 ≠ kCardVersion

def blobVectors (data : List UInt8) : UInt64 := UInt64.ofNat (leNat ((data.drop 5).take 8))

def blobColumns (data : List UInt8) : ℕ := leNat (((data.drop 5).drop 8).take 4)

def blobBody (data : List UInt8) : List UInt8 := (data.drop 5).drop 12

/-- All columns of the blob are there, and their numbers are below the largest. -/
def AllThere (data : List UInt8) : Prop :=
  ∀ i < blobColumns data, Whole (recordsFrom i (blobBody data)) ∧
    recordNumber (recordsFrom i (blobBody data)) < 2 ^ 32 - 1

/-- Up to some column, the blob has what the sizing pass looks at. -/
def CutShort (data : List UInt8) : Prop :=
  ∃ k < blobColumns data, Cut (recordsFrom k (blobBody data)) ∧
    ∀ i < k, Headed (recordsFrom i (blobBody data))

structure Loaded (data : List UInt8) (t : CardinalityTable) : Prop where
  columns : t.columns.length = blobColumns data
  nVectors : t.nVectors = blobVectors data
  placed : t.Placed

/-- Nothing outside is read, and the table is what the blob announces, or empty. -/
def ReadsSafely (data : List UInt8) : Prop :=
  ∃ t, deserialize data = .ok t ∧ (t.columns = [] ∧ t.nVectors = 0 ∨ Loaded data t)

lemma readCounts_eq {data : List UInt8} (h : 17 ≤ data.length) :
    readCounts (data.drop 5) = .ok ((blobVectors data, blobColumns data), blobBody data) := by
  have hlen : (data.drop 5).length = data.length - 5 := List.length_drop
  have hvec : word64 BlobEnd.outside (data.drop 5) = .ok (blobVectors data, (data.drop 5).drop 8) :=
    bind_of_ok (word_of_le BlobEnd.outside (by omega))
  have hcols : word BlobEnd.outside 4 ((data.drop 5).drop 8)
      = .ok (blobColumns data, ((data.drop 5).drop 8).drop 4) :=
    word_of_le BlobEnd.outside (by rw [List.length_drop]; omega)
  have hbody : ((data.drop 5).drop 8).drop 4 = blobBody data := List.drop_drop
  rw [hbody] at hcols
  exact (bind_of_ok hvec).trans (bind_of_ok hcols)

lemma deserialize_of_foreign {data : List UInt8} (h : Foreign data) :
    deserialize data = .ok {} := by
  unfold deserialize
  split_ifs with h12 hmagic hversion
  · rfl
  · rfl
  · rfl
  · exact (h.elim h12 fun h => h.elim hmagic hversion).elim

lemma deserialize_of_native {data : List UInt8} (h : ¬ Foreign data) :
    deserialize data = match readCounts (data.drop 5) with
      | .error e => .error e
      | .ok ((nVectors, nCols), rest) => readTable nVectors nCols rest := by
  unfold Foreign at h
  push Not at h
  obtain ⟨h12, hmagic, hversion⟩ := h
  unfold deserialize
  rw [if_neg (by omega), if_neg (not_not.2 hmagic)]
  exact if_neg (not_not.2 hversion)

lemma deserialize_of_headless {data : List UInt8} (h : ¬ Foreign data) (h17 : data.length < 17) :
    deserialize data = .error .outside := by
  have hcounts : readCounts (data.drop 5) = .error .outside :=
    (takesAt_pair (takesAt_word64 BlobEnd.outside) (takesAt_word BlobEnd.outside 4) _).error
      (by rw [List.length_drop]; omega)
  rw [deserialize_of_native h, hcounts]

lemma CutShort.not_headed {data : List UInt8} (h : CutShort data) :
    ¬ ∀ i < blobColumns data, Headed (recordsFrom i (blobBody data)) := by
  obtain ⟨k, hk, hcut, -⟩ := h
  exact fun hall => (hall k hk).not_cut hcut

/-- For every string of bytes. Reading it as a blob is safe exactly when it is no blob of this
format, or has its header and either all its columns, or no vectors and only what the sizing pass
stops at. -/
theorem deserialize_safe_iff (data : List UInt8) :
    ReadsSafely data ↔ Foreign data ∨
      17 ≤ data.length ∧ (AllThere data ∨ blobVectors data = 0 ∧ CutShort data) := by
  by_cases hf : Foreign data
  · exact ⟨fun _ => .inl hf, fun _ => ⟨{}, deserialize_of_foreign hf, .inl ⟨rfl, rfl⟩⟩⟩
  by_cases h17 : data.length < 17
  · refine ⟨fun ⟨t, ht, _⟩ => ?_, fun h => h.elim (fun h => absurd h hf) fun h => ?_⟩
    · rw [deserialize_of_headless hf h17] at ht
      cases ht
    · omega
  have hdes : deserialize data
      = readTable (blobVectors data) (blobColumns data) (blobBody data) := by
    rw [deserialize_of_native hf, readCounts_eq (by omega)]
  have hgoal : (Foreign data ∨ 17 ≤ data.length ∧
      (AllThere data ∨ blobVectors data = 0 ∧ CutShort data)) ↔
        AllThere data ∨ blobVectors data = 0 ∧ CutShort data :=
    ⟨fun h => (h.resolve_left hf).2, fun h => .inr ⟨by omega, h⟩⟩
  rw [hgoal, ReadsSafely, hdes, readTable]
  rcases peekColumns_spec (blobColumns data) 0 (blobBody data) with
    ⟨mx, rest, hok, hheaded, -, hle, hmax⟩ | ⟨herr, hcut⟩ | ⟨herr, k, hk, hfour, hheaded⟩
  · have hnocut : ¬ CutShort data := fun hcut => hcut.not_headed hheaded
    have hright : (AllThere data ∨ blobVectors data = 0 ∧ CutShort data) ↔ AllThere data :=
      ⟨fun h => h.resolve_right fun h => hnocut h.2, .inl⟩
    rw [hok, hright]
    dsimp only
    rcases readColumns_spec (blobColumns data)
        { colToIdx := List.replicate ((mx + 1) % 2 ^ 32) none, nVectors := blobVectors data }
        (blobBody data) with ⟨hall, u, rest', hu, hcols, hvec, hplaced⟩ | ⟨hno, herr⟩
    · rw [hu]
      rw [List.length_replicate] at hall
      have hsmall : AllThere data := by
        intro i hi
        obtain ⟨hw, hnum⟩ := hall i hi
        refine ⟨hw, ?_⟩
        have := hle i hi
        omega
      exact ⟨fun _ => hsmall, fun _ => ⟨u, rfl, .inr ⟨by rw [hcols]; simp, hvec,
        hplaced (placed_new _ _)⟩⟩⟩
    · rw [herr]
      rw [List.length_replicate] at hno
      refine ⟨fun ⟨t, ht, _⟩ => (by cases ht), fun hall => (hno fun i hi => ?_).elim⟩
      obtain ⟨hw, hnum⟩ := hall i hi
      refine ⟨hw, ?_⟩
      have hmx : mx < 2 ^ 32 - 1 := by
        rcases hmax with rfl | ⟨j, hj, rfl⟩
        · omega
        · exact (hall j hj).2
      have := hle i hi
      rw [Nat.mod_eq_of_lt (by omega)]
      omega
  · -- the table has its number of vectors, and nothing else
    have hright : (AllThere data ∨ blobVectors data = 0 ∧ CutShort data) ↔
        blobVectors data = 0 := by
      refine ⟨fun h => ?_, fun h => .inr ⟨h, hcut⟩⟩
      rcases h with hall | h
      · exact (CutShort.not_headed hcut fun i hi => (hall i hi).1.headed).elim
      · exact h.1
    rw [herr, hright]
    dsimp only
    refine ⟨fun ⟨t, ht, hsafe⟩ => ?_, fun h => ⟨_, rfl, .inl ⟨rfl, h⟩⟩⟩
    obtain rfl := Except.ok.inj ht
    rcases hsafe with h | h
    · exact h.2
    · obtain ⟨k, hk, -⟩ := hcut
      have hcols := h.columns
      simp only [List.length_nil] at hcols
      omega
  · rw [herr]
    dsimp only
    refine ⟨fun ⟨t, ht, _⟩ => (by cases ht), fun h => ?_⟩
    rcases h with hall | ⟨-, k', hk', hcut, hheaded'⟩
    · have := (hall k hk).1.headed.1
      omega
    · rcases lt_trichotomy k' k with hlt | rfl | hlt
      · exact ((hheaded k' hlt).not_cut hcut).elim
      · rcases hcut with h | h <;> omega
      · have := (hheaded' k hlt).1
        omega

/-- A blob that announces five vectors and one column, and ends there. -/
def cutBlob : List UInt8 := [0x03, 0x00, 0xDA, 0xC4, 3, 5, 0, 0, 0, 0, 0, 0, 0, 1, 0, 0, 0]

/-- The table keeps the five vectors. -/
theorem cut_blob_leaves_vectors :
    deserialize cutBlob = .ok { nVectors := 5 } ∧ ¬ ReadsSafely cutBlob := by
  have h : deserialize cutBlob = .ok { nVectors := 5 } := rfl
  refine ⟨h, fun ⟨t, ht, hsafe⟩ => ?_⟩
  rw [h] at ht
  obtain rfl := Except.ok.inj ht
  rcases hsafe with hsafe | hsafe
  · exact absurd hsafe.2 (by decide)
  · exact absurd hsafe.columns (by decide)

end CardinalityTable

end SextantTree.Cardinality
