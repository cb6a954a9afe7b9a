import SextantTree.CardinalityBlob
import SextantTree.CardinalityCount

/-!
What is read back from the blob of a table, whatever follows it.
-/

namespace SextantTree.Cardinality

open ByteMem Reader FilterHash

variable {A : CardinalityPlatform} {s : Schema} {t : CardinalityTable} {col : ColumnCardinality}

/-! Words and pairs. -/

lemma reads_word32 (e : BlobEnd) (x : UInt32) : Reads (word32 e) (leBytes 4 x.toNat) x := by
  have h := (reads_word e (w := 4) x.toNat_lt).bind_pure (f := UInt32.ofNat)
  rwa [UInt32.ofNat_toNat] at h

lemma reads_word64 (e : BlobEnd) (x : UInt64) : Reads (word64 e) (leBytes 8 x.toNat) x := by
  have h := (reads_word e (w := 8) x.toNat_lt).bind_pure (f := UInt64.ofNat)
  rwa [UInt64.ofNat_toNat] at h

lemma reads_byte (e : BlobEnd) (b : UInt8) : Reads (byte e) [b] b :=
  Reads.bind_pure (f := fun bs : List UInt8 => bs.headD 0)
    (reads_take e (b := [b]) (n := 1) rfl)

lemma reads_pair {α β : Type} {r : Reader BlobEnd α} {r' : Reader BlobEnd β} {b b' : List UInt8}
    {x : α} {y : β} (h : Reads r b x) (h' : Reads r' b' y) :
    Reads (readPair r r') (b ++ b') (x, y) :=
  h.bind (h'.bind_pure (f := fun y => (x, y)))

/-! Flags. -/

lemma columnFlags_mode (col : ColumnCardinality) :
    modeFromFlags (columnFlags col) = col.mode.written := by
  unfold columnFlags
  cases col.isNumeric <;> cases col.binned <;> cases col.overflowed <;> cases col.mode <;> rfl

lemma columnFlags_bits (col : ColumnCardinality) :
    decide (columnFlags col &&& 1 ≠ 0) = col.isNumeric ∧
      decide (columnFlags col &&& 2 ≠ 0) = col.binned ∧
      decide (columnFlags col &&& 4 ≠ 0) = col.overflowed := by
  unfold columnFlags
  cases col.isNumeric <;> cases col.binned <;> cases col.overflowed <;> cases col.mode <;>
    decide

lemma flag_numeric (col : ColumnCardinality) :
    columnFlags col &&& 1 = 0 ↔ col.isNumeric = false := by
  rw [← (columnFlags_bits col).1]
  simp

lemma flag_binned (col : ColumnCardinality) :
    columnFlags col &&& 2 ≠ 0 ↔ col.binned = true := by
  rw [← (columnFlags_bits col).2.1]
  simp

/-! Data. -/

lemma reads_bins (h : col.bins.length = kCardinalityNumBins) (col' : ColumnCardinality) :
    Reads (readBins col') (writeBins col)
      { col' with
        binned := true
        binMin := col.binMin
        binMax := col.binMax
        frameLo := col.frameLo
        frameHi := col.frameHi
        binTotal := col.binTotal
        bins := col.bins } := by
  have hmany := reads_many (r := word32 .outside)
    col.bins fun x _ => reads_word32 .outside x
  have hbins : (List.range kCardinalityNumBins).flatMap
      (fun b => leBytes 4 (col.bins.getD b 0).toNat)
      = col.bins.flatMap fun x => leBytes 4 x.toNat := by
    conv_rhs => rw [← map_getD_range h, List.flatMap_map]
  rw [h] at hmany
  unfold writeBins
  rw [hbins]
  simp only [List.append_assoc]
  exact (reads_word64 .outside _).bind ((reads_word64 .outside _).bind
    ((reads_word64 .outside _).bind ((reads_word64 .outside _).bind
      ((reads_word64 .outside _).bind (hmany.bind_pure)))))

lemma foldl_freqPut {es : List (UInt32 × UInt32)} (h : (es.map (·.1)).Nodup) :
    es.foldl (fun freq e => freqPut freq e.1 e.2) [] = es := by
  induction es using List.reverseRecOn with
  | nil => rfl
  | append_singleton es e ih =>
    rw [List.map_append, List.nodup_append] at h
    obtain ⟨hnd, -, hne⟩ := h
    have hnew : (es.lookup e.1).isSome = false := by
      rw [Bool.eq_false_iff]
      intro hsome
      rw [lookup_isSome] at hsome
      exact hne _ hsome _ (by simp) rfl
    rw [List.foldl_append, ih hnd, List.foldl_cons, List.foldl_nil, freqPut,
      if_neg (by simp [hnew])]

lemma histPut_of_below {es : List (UInt64 × UInt32)} {v : UInt64} (c : UInt32)
    (h : ∀ e ∈ es, Double.lt e.1 v = true) : histPut es v c = es ++ [(v, c)] := by
  induction es with
  | nil => rfl
  | cons e es ih =>
    rw [histPut, if_pos (h e List.mem_cons_self), ih fun x hx => h x (List.mem_cons_of_mem e hx)]
    rfl

lemma foldl_histPut {es : List (UInt64 × UInt32)} (h : Unmixed es) :
    es.foldl (fun hist e => histPut hist e.1 e.2) [] = es := by
  rcases h with ⟨-, hsorted⟩ | ⟨v, n, rfl, -⟩
  · induction es using List.reverseRecOn with
    | nil => rfl
    | append_singleton es e ih =>
      rw [List.pairwise_append] at hsorted
      obtain ⟨hes, -, hbelow⟩ := hsorted
      rw [List.foldl_append, ih hes, List.foldl_cons, List.foldl_nil]
      exact histPut_of_below e.2 fun x hx => hbelow x hx e (by simp)
  · rfl

lemma reads_hist (hlen : col.numericHist.length < 2 ^ 32) (h : Unmixed col.numericHist)
    (col' : ColumnCardinality) :
    Reads (readHist col') (writeHist col.numericHist)
      { col' with numericHist := col.numericHist } := by
  have hmany := reads_many (r := readPair (word64 .outside) (word32 .outside))
    col.numericHist
    fun e _ => reads_pair (reads_word64 .outside e.1) (reads_word32 .outside e.2)
  have hread := hmany.bind_pure (f := fun es =>
    ({ col' with numericHist := es.foldl (fun hist e => histPut hist e.1 e.2) [] } :
      ColumnCardinality))
  rw [foldl_histPut h] at hread
  exact (reads_word BlobEnd.outside (w := 4) hlen).bind hread

lemma reads_freq (hlen : col.freq.length < 2 ^ 32) (h : (col.freq.map (·.1)).Nodup)
    (col' : ColumnCardinality) :
    Reads (readFreq col') (writeFreq A col)
      { col' with
        estDistinctStored := A.toUInt64 (distinctEstimate A col)
        freq := A.walk col.freq } := by
  have hperm := A.walk_perm col.freq
  have hmany := reads_many (r := readPair (word32 .outside) (word32 .outside))
    (A.walk col.freq)
    fun e _ => reads_pair (reads_word32 .outside e.1) (reads_word32 .outside e.2)
  rw [hperm.length_eq] at hmany
  have hread := hmany.bind_pure (f := fun es =>
    ({ col' with
      estDistinctStored := A.toUInt64 (distinctEstimate A col)
      freq := es.foldl (fun freq e => freqPut freq e.1 e.2) [] } : ColumnCardinality))
  rw [foldl_freqPut ((hperm.map _).nodup_iff.2 h)] at hread
  unfold writeFreq
  rw [List.append_assoc]
  exact (reads_word BlobEnd.outside (w := 4) hlen).bind
    ((reads_word64 BlobEnd.outside (A.toUInt64 (distinctEstimate A col))).bind hread)

/-! Columns. -/

structure Storable (col : ColumnCardinality) : Prop where
  numeric : col.binned = true → col.isNumeric = true
  bins : col.binned = true → col.bins.length = kCardinalityNumBins
  hist : Unmixed col.numericHist
  histSmall : col.numericHist.length < 2 ^ 32
  freq : (col.freq.map (·.1)).Nodup
  freqSmall : col.freq.length < 2 ^ 32

def restoredData (A : CardinalityPlatform) (col col' : ColumnCardinality) : ColumnCardinality :=
  if col.binned then
    { col' with
      binned := true
      binMin := col.binMin
      binMax := col.binMax
      frameLo := col.frameLo
      frameHi := col.frameHi
      binTotal := col.binTotal
      bins := col.bins }
  else if col.isNumeric then { col' with numericHist := col.numericHist }
  else
    { col' with
      estDistinctStored := A.toUInt64 (distinctEstimate A col)
      freq := A.walk col.freq }

def restored (A : CardinalityPlatform) (col : ColumnCardinality) : ColumnCardinality :=
  let col' : ColumnCardinality :=
    { isNumeric := col.isNumeric
      overflowed := col.overflowed
      mode := col.mode.written }
  match col.mode with
  | .off => col'
  | .rejected => { col' with estDistinctStored := Max.max col.estDistinctStored 1 }
  | _ => restoredData A col col'

lemma length_writeBins (col : ColumnCardinality) :
    (writeBins col).length = 8 + 8 + 8 + 8 + 8 + kCardinalityNumBins * 4 := by
  simp only [writeBins, List.length_append, length_leBytes, List.length_flatMap,
    List.map_const', List.length_range, List.sum_replicate, smul_eq_mul]

lemma reads_peekTracked (h : Storable col) :
    Reads (peekTracked (columnFlags col)) (writeTracked A col) () := by
  unfold peekTracked writeTracked
  by_cases hb : col.binned = true
  · rw [if_pos ((flag_binned col).2 hb), if_pos (h.numeric hb), if_pos hb]
    exact reads_skip (length_writeBins col)
  · rw [if_neg (mt (flag_binned col).1 hb), if_neg hb]
    cases hn : col.isNumeric with
    | true =>
      have hflag : columnFlags col &&& 1 ≠ 0 := fun h0 => by
        rw [flag_numeric, hn] at h0
        cases h0
      refine (reads_word BlobEnd.cut (w := 4) h.histSmall).bind ?_
      rw [if_neg hflag]
      exact reads_skip ((length_flatMap_const fun e _ => by simp).trans (Nat.mul_comm _ _))
    | false =>
      rw [if_neg Bool.false_ne_true, writeFreq, List.append_assoc]
      refine (reads_word BlobEnd.cut (w := 4) h.freqSmall).bind ?_
      rw [if_pos ((flag_numeric col).2 hn)]
      refine reads_skip ?_
      rw [List.length_append, length_leBytes,
        @length_flatMap_const _ _ _ 8 (A.walk col.freq) fun e _ => by simp,
        (A.walk_perm col.freq).length_eq, Nat.mul_comm 8]

lemma reads_peekColumn {c : ℕ} (hc : c < 2 ^ 32)
    (h : col.mode.counts = true → Storable col) :
    Reads peekColumn (writeColumn A c col) c := by
  refine (reads_word BlobEnd.cut (w := 4) hc).bind
    ((reads_byte .outside (columnFlags col)).bind ?_)
  rw [columnFlags_mode]
  cases hm : col.mode with
  | off => exact reads_pure c
  | rejected => exact (reads_skip (length_leBytes 8 _)).bind_pure (f := fun _ => c)
  | on | auto =>
    exact (reads_peekTracked (h (by rw [hm]; rfl))).bind_pure (f := fun _ => c)

lemma reads_readTracked (h : Storable col) (col' : ColumnCardinality)
    (hnum : col'.isNumeric = col.isNumeric) :
    Reads (readTracked (columnFlags col) col') (writeTracked A col)
      (restoredData A col col') := by
  unfold readTracked writeTracked restoredData
  by_cases hb : col.binned = true
  · rw [if_pos ((flag_binned col).2 hb), if_pos (h.numeric hb), if_pos hb, if_pos hb]
    exact reads_bins (h.bins hb) col'
  · rw [if_neg (mt (flag_binned col).1 hb), if_neg hb, if_neg hb, ← hnum]
    split_ifs
    · exact reads_hist h.histSmall h.hist col'
    · exact reads_freq (A := A) h.freqSmall h.freq col'

lemma reads_readColumn {c : ℕ} (hc : c < 2 ^ 32)
    (h : col.mode.counts = true → Storable col) :
    Reads readColumn (writeColumn A c col) (c, restored A col) := by
  obtain ⟨hnum, -, hover⟩ := columnFlags_bits col
  refine (reads_word BlobEnd.outside (w := 4) hc).bind
    ((reads_byte .outside (columnFlags col)).bind ?_)
  rw [hnum, hover, columnFlags_mode]
  unfold restored
  cases hm : col.mode with
  | off => exact reads_pure _
  | rejected =>
    exact (reads_word64 .outside (Max.max col.estDistinctStored 1)).bind_pure
      (f := fun est =>
        ((c, { isNumeric := col.isNumeric
               overflowed := col.overflowed
               mode := .rejected
               estDistinctStored := est }) : ℕ × ColumnCardinality))
  | on | auto =>
    exact (reads_readTracked (h (by rw [hm]; rfl))
      { isNumeric := col.isNumeric, overflowed := col.overflowed, mode := .on } rfl).bind_pure
        (f := fun col => (c, col))

namespace CardinalityTable

/-! Tables. -/

/-- The numbers of the columns fit, and the tracked ones can be held. -/
def Writable (es : List (ℕ × ColumnCardinality)) : Prop :=
  ∀ e ∈ es, e.1 < 2 ^ 32 - 1 ∧ (e.2.mode.counts = true → Storable e.2)

lemma Writable.tail {e : ℕ × ColumnCardinality} {es : List (ℕ × ColumnCardinality)}
    (h : Writable (e :: es)) : Writable es := fun x hx => h x (List.mem_cons_of_mem e hx)

lemma reads_peekColumns {es : List (ℕ × ColumnCardinality)} (h : Writable es) (m : ℕ) :
    Reads (peekColumns es.length m) (es.flatMap fun e => writeColumn A e.1 e.2)
      (es.foldl (fun m e => max m e.1) m) := by
  induction es generalizing m with
  | nil => exact reads_pure m
  | cons e es ih =>
    obtain ⟨hlt, hok⟩ := h e List.mem_cons_self
    exact (reads_peekColumn (by omega) hok).bind (ih h.tail _)

def placedAll (A : CardinalityPlatform) (t : CardinalityTable)
    (es : List (ℕ × ColumnCardinality)) : CardinalityTable :=
  es.foldl (fun t e => t.placed e.1 (restored A e.2)) t

lemma placedAll_append (t : CardinalityTable) (es : List (ℕ × ColumnCardinality))
    (e : ℕ × ColumnCardinality) :
    placedAll A t (es ++ [e]) = (placedAll A t es).placed e.1 (restored A e.2) := by
  rw [placedAll, List.foldl_append]
  rfl

lemma reads_readColumns {es : List (ℕ × ColumnCardinality)} (h : Writable es)
    (t : CardinalityTable) (hroom : ∀ e ∈ es, e.1 < t.colToIdx.length) :
    Reads (readColumns es.length t) (es.flatMap fun e => writeColumn A e.1 e.2)
      (t.placedAll A es) := by
  induction es generalizing t with
  | nil => exact reads_pure t
  | cons e es ih =>
    obtain ⟨hlt, hok⟩ := h e List.mem_cons_self
    refine (reads_readColumn (by omega) hok).bind ?_
    change Reads (if e.1 < t.colToIdx.length then
      readColumns es.length (t.placed e.1 (restored A e.2)) else outOfRange) _ _
    rw [if_pos (hroom e List.mem_cons_self)]
    refine ih h.tail _ fun x hx => ?_
    rw [placed, List.length_set]
    exact hroom x (List.mem_cons_of_mem e hx)

lemma le_foldl_max (es : List (ℕ × ColumnCardinality)) (m : ℕ) :
    m ≤ es.foldl (fun m e => max m e.1) m ∧
      ∀ e ∈ es, e.1 ≤ es.foldl (fun m e => max m e.1) m := by
  induction es generalizing m with
  | nil => simp
  | cons e es ih =>
    obtain ⟨hm, hes⟩ := ih (max m e.1)
    refine ⟨(le_max_left _ _).trans hm, fun x hx => ?_⟩
    rcases List.mem_cons.1 hx with rfl | hx
    · exact (le_max_right _ _).trans hm
    · exact hes x hx

lemma foldl_max_lt {es : List (ℕ × ColumnCardinality)} {m b : ℕ} (hm : m < b)
    (h : ∀ e ∈ es, e.1 < b) : es.foldl (fun m e => max m e.1) m < b := by
  induction es generalizing m with
  | nil => exact hm
  | cons e es ih =>
    exact ih (max_lt hm (h e List.mem_cons_self)) fun x hx => h x (List.mem_cons_of_mem e hx)

lemma place_placed {c : ℕ} (hc : c < t.colToIdx.length) (d : ℕ) :
    (t.placed c col).place d = if c = d then some t.columns.length else t.place d := by
  unfold place placed
  rw [List.getElem?_set]
  by_cases h : c = d
  · subst h
    simp [hc]
  · simp [h]

lemma column_placed {c : ℕ} (hc : c < t.colToIdx.length)
    (hin : ∀ d ci, t.place d = some ci → ci < t.columns.length) (d : ℕ) :
    (t.placed c col).column d = if c = d then some col else t.column d := by
  unfold column
  rw [place_placed hc]
  split_ifs
  · simp [placed]
  · cases hd : t.place d with
    | none => rfl
    | some di =>
      have := hin d di hd
      simp [placed, List.getElem?_append_left this]

lemma column_placedAll {n : ℕ} (nVectors : UInt64) (es : List (ℕ × ColumnCardinality))
    (hnd : (es.map (·.1)).Nodup) (hroom : ∀ e ∈ es, e.1 < n)
    {u : CardinalityTable}
    (hu : u = placedAll A { colToIdx := List.replicate n none, nVectors := nVectors } es) :
    u.nVectors = nVectors ∧ u.colToIdx.length = n ∧
      (∀ d ci, u.place d = some ci → ci < u.columns.length) ∧
      ∀ c, u.column c = (es.lookup c).map (restored A) := by
  induction es using List.reverseRecOn generalizing u with
  | nil =>
    subst hu
    have hnone : ∀ d : ℕ, (List.replicate n (none : Option ℕ))[d]?.join = none := by
      intro d
      rw [List.getElem?_replicate]
      split_ifs <;> rfl
    exact ⟨rfl, List.length_replicate, fun d ci h => by simp [placedAll, place, hnone] at h,
      fun c => by simp [placedAll, column, place, hnone]⟩
  | append_singleton es e ih =>
    obtain ⟨k, kcol⟩ := e
    rw [List.map_append, List.nodup_append] at hnd
    obtain ⟨hnd, -, hne⟩ := hnd
    obtain ⟨hvec, hlen, hin, hcol⟩ := ih hnd (fun x hx => hroom x (List.mem_append_left _ hx)) rfl
    rw [placedAll_append] at hu
    generalize placedAll A { colToIdx := List.replicate n none, nVectors := nVectors } es = w
      at hu hvec hlen hin hcol
    subst hu
    have hk : k < w.colToIdx.length := hlen ▸ hroom (k, kcol) (by simp)
    have hgrow : (w.placed k (restored A kcol)).columns.length = w.columns.length + 1 := by
      simp [placed]
    refine ⟨hvec, by simp [placed, hlen], fun d ci h => ?_, fun c => ?_⟩
    · rw [place_placed hk] at h
      rw [hgrow]
      split_ifs at h
      · obtain rfl := Option.some.inj h
        omega
      · exact (hin d ci h).trans (by omega)
    · rw [column_placed hk hin, List.lookup_append, hcol c]
      by_cases hc : k = c
      · have hnew : es.lookup c = none := by
          rw [← Option.not_isSome_iff_eq_none, lookup_isSome]
          exact fun hmem => hne c hmem c (by simp [hc]) rfl
        simp [hc, hnew]
      · have : (c == k) = false := by simpa using Ne.symm hc
        simp [hc, List.lookup_cons, this]

/-! The columns that are written. -/

lemma lookup_filterMap {β : Type} (f : ℕ → Option β) (l : List ℕ) (c : ℕ) :
    (l.filterMap fun d => (f d).map fun x => (d, x)).lookup c = if c ∈ l then f c else none := by
  induction l with
  | nil => rfl
  | cons d l ih =>
    cases hd : f d with
    | none =>
      simp only [List.filterMap_cons, hd, Option.map_none, ih, List.mem_cons]
      by_cases hc : c = d
      · subst hc
        simp [hd]
      · simp [hc]
    | some x =>
      simp only [List.filterMap_cons, hd, Option.map_some, List.lookup_cons, ih, List.mem_cons]
      by_cases hc : c = d
      · subst hc
        simp [hd]
      · have : (c == d) = false := by simpa using hc
        simp [hc, this]

lemma lookup_entries (t : CardinalityTable) (c : ℕ) : t.entries.lookup c = t.column c := by
  rw [entries, lookup_filterMap]
  split_ifs with h
  · rfl
  · have : t.place c = none := by
      unfold place
      rw [List.getElem?_eq_none (by simpa using h)]
      rfl
    simp [column, this]

lemma mem_entries {e : ℕ × ColumnCardinality} (h : e ∈ t.entries) :
    e.1 < t.colToIdx.length ∧ t.column e.1 = some e.2 := by
  obtain ⟨c, hc, he⟩ := List.mem_filterMap.1 h
  obtain ⟨col, hcol, rfl⟩ := Option.map_eq_some_iff.1 he
  exact ⟨List.mem_range.1 hc, hcol⟩

lemma nodup_entries (t : CardinalityTable) : (t.entries.map (·.1)).Nodup := by
  rw [entries, List.map_filterMap]
  refine List.nodup_range.filterMap fun c d e hc hd => ?_
  simp only [Option.map_map, Option.mem_def, Option.map_eq_some_iff, Function.comp_apply,
    exists_and_right] at hc hd
  exact hc.2.trans hd.2.symm

structure Complete (s : Schema) (t : CardinalityTable) : Prop where
  laidOut : LaidOut s t
  columns : t.columns.length = (s.columns.filter fun col => counted col.type).length

lemma columns_places (cols : List FilterColumn) (n : ℕ) (data : List ColumnCardinality)
    (h : data.length = n + (cols.filter fun col => counted col.type).length) :
    ((List.range cols.length).filterMap fun c =>
      ((places cols n)[c]?.join).bind fun ci => data[ci]?) = data.drop n := by
  induction cols generalizing n with
  | nil =>
    rw [List.drop_eq_nil_of_le (by simpa using h.le)]
    rfl
  | cons col cols ih =>
    rw [List.length_cons, List.range_succ_eq_map, List.filterMap_cons, List.filterMap_map]
    by_cases hc : counted col.type = true
    · have hlen : data.length = n + 1 + (cols.filter fun col => counted col.type).length := by
        simpa [List.filter_cons, hc, Nat.add_assoc, Nat.add_comm] using h
      have hn : n < data.length := by omega
      rw [List.drop_eq_getElem_cons hn, ← ih (n + 1) hlen]
      simp [places, hc, hn]
    · have hlen : data.length = n + (cols.filter fun col => counted col.type).length := by
        simpa [List.filter_cons, hc] using h
      rw [← ih n hlen]
      simp [places, hc]

lemma length_places (cols : List FilterColumn) (n : ℕ) :
    (places cols n).length = cols.length := by
  induction cols generalizing n with
  | nil => rfl
  | cons col cols ih =>
    simp only [places]
    split_ifs <;> simp [ih]

lemma LaidOut.length (h : LaidOut s t) : t.colToIdx.length = s.columns.length := by
  rw [h, length_places]

lemma Complete.length_entries (h : Complete s t) : t.entries.length = t.columns.length := by
  have hdata := columns_places s.columns 0 t.columns (by rw [h.columns, Nat.zero_add])
  have hmap : t.entries.map (·.2) = t.columns := by
    rw [List.drop_zero] at hdata
    rw [← hdata, entries, List.map_filterMap, h.laidOut.length]
    refine List.filterMap_congr fun c _ => ?_
    rw [Option.map_map]
    change (t.column c).map id = _
    rw [Option.map_id, column, place, h.laidOut]
    rfl
  rw [← List.length_map (f := (·.2)), hmap]

lemma deserialize_of_header {rest : List UInt8} (hlen : 7 ≤ rest.length) :
    deserialize (leBytes 4 kCardMagic ++ kCardVersion :: rest) =
      match readCounts rest with
      | .error e => .error e
      | .ok ((nVectors, nCols), rest) => readTable nVectors nCols rest := by
  have hmagic : leBytes 4 kCardMagic = [0x03, 0x00, 0xDA, 0xC4] := by decide
  have hnat : leNat [0x03, 0x00, 0xDA, 0xC4] = kCardMagic := by decide
  have hlong : ¬ (0x03 :: 0x00 :: 0xDA :: 0xC4 :: kCardVersion :: rest).length < 12 := by
    simp only [List.length_cons]
    omega
  rw [hmagic]
  exact (if_neg hlong).trans ((if_neg (not_not.2 hnat)).trans (if_neg (not_not.2 rfl)))

/-- Whatever follows the blob, the table comes back column by column. -/
theorem deserialize_serialize (hcols : s.columns.length < 2 ^ 32 - 1) (h : Complete s t)
    (hok : ∀ c col, t.column c = some col → col.mode.counts = true → Storable col)
    (pad : List UInt8) :
    ∃ u, deserialize (t.serialize A ++ pad) = .ok u ∧ u.nVectors = t.nVectors ∧
      ∀ c, u.column c = (t.column c).map (restored A) := by
  set es := t.entries with hes
  have hwritable : Writable es := by
    intro e he
    obtain ⟨hlt, hcol⟩ := mem_entries he
    rw [h.laidOut.length] at hlt
    exact ⟨by omega, hok e.1 e.2 hcol⟩
  have hn : es.length = t.columns.length := h.length_entries
  have hn32 : es.length < 256 ^ 4 := by
    have hle := List.length_filter_le (fun col => counted col.type) s.columns
    rw [hn, h.columns]
    omega
  set m := es.foldl (fun m e => max m e.1) 0 with hm
  have hbound : m < 2 ^ 32 - 1 := foldl_max_lt (by decide) fun e he => (hwritable e he).1
  have hmod : (m + 1) % 2 ^ 32 = m + 1 := Nat.mod_eq_of_lt (by omega)
  have hroom : ∀ e ∈ es, e.1 < m + 1 := fun e he =>
    Nat.lt_succ_of_le ((le_foldl_max es 0).2 e he)
  have hcounts : Reads readCounts (leBytes 8 t.nVectors.toNat ++ leBytes 4 es.length)
      (t.nVectors, es.length) :=
    reads_pair (reads_word64 .outside _) (reads_word .outside (w := 4) hn32)
  set body := es.flatMap fun e => writeColumn A e.1 e.2 with hbody
  obtain ⟨u, hu⟩ : ∃ u, u = placedAll A
      { colToIdx := List.replicate (m + 1) none, nVectors := t.nVectors } es := ⟨_, rfl⟩
  obtain ⟨hvec, -, -, hcol⟩ := column_placedAll t.nVectors es (nodup_entries t) hroom hu
  refine ⟨u, ?_, hvec, fun c => by rw [hcol c, hes, lookup_entries]⟩
  have hblob : t.serialize A ++ pad = leBytes 4 kCardMagic ++ kCardVersion ::
      ((leBytes 8 t.nVectors.toNat ++ leBytes 4 es.length) ++ (body ++ pad)) := by
    rw [serialize, ← hn]
    simp [← hes, ← hbody]
  have hread : readTable t.nVectors es.length (body ++ pad) = .ok u := by
    rw [readTable, reads_peekColumns hwritable 0 pad, ← hm]
    dsimp only
    rw [hmod, reads_readColumns hwritable _ (by simpa using hroom) pad, ← hu]
    rfl
  rw [hblob, deserialize_of_header (by simp; omega), hcounts (body ++ pad)]
  exact hread

end CardinalityTable

end SextantTree.Cardinality
