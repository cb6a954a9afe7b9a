import SextantTree.CardinalityBlobSpec
import SextantTree.CardinalityConserves

/-!
The tables that a build or a vacuum makes, and what holds of their columns throughout.
-/

namespace SextantTree.Cardinality

open FilterHash CardinalityTable

variable {A : CardinalityPlatform} {s : Schema} {t u : CardinalityTable}
  {col dst src : ColumnCardinality} {cap : ℕ}

/-! Maps stay within the cap. -/

structure FreqOk (cap : ℕ) (freq : List (UInt32 × UInt32)) : Prop where
  nodup : (freq.map (·.1)).Nodup
  cap : cap ≠ 0 → freq.length ≤ cap

lemma freqOk_nil (cap : ℕ) : FreqOk cap [] := ⟨List.nodup_nil, fun _ => Nat.zero_le cap⟩

lemma freqAdd_eq (hok : FreqOk cap col.freq) (h c : UInt32) :
    ∃ freq o, freqAdd cap col h c = { col with freq := freq, overflowed := o } ∧
      FreqOk cap freq := by
  unfold freqAdd
  split_ifs with hmem hroom
  · refine ⟨_, _, rfl, ?_, by simpa using hok.cap⟩
    have hkeys : (col.freq.map fun e => if e.1 = h then (e.1, satAdd e.2 c) else e).map (·.1)
        = col.freq.map (·.1) := by
      rw [List.map_map]
      refine List.map_congr_left fun e _ => ?_
      simp only [Function.comp_apply]
      split_ifs <;> rfl
    rw [hkeys]
    exact hok.nodup
  · have hnot : h ∉ col.freq.map (·.1) := fun hm => hmem (lookup_isSome.2 hm)
    refine ⟨_, _, rfl, ?_, fun hcap => ?_⟩
    · rw [List.map_append, List.map_singleton, List.nodup_append]
      refine ⟨hok.nodup, List.nodup_singleton h, fun a ha b hb hab => ?_⟩
      rw [hab, List.mem_singleton.1 hb] at ha
      exact hnot ha
    · have := hroom.resolve_left hcap
      simpa using this
  · exact ⟨_, _, rfl, hok⟩

lemma addHashes_eq (hok : FreqOk cap col.freq) (hs : List UInt32) :
    ∃ adds freq o hll, addHashes cap hs col
        = { col with adds := adds, freq := freq, overflowed := o, hll := hll } ∧
      FreqOk cap freq := by
  unfold addHashes
  split_ifs
  · induction hs using List.reverseRecOn with
    | nil => exact ⟨_, _, _, _, rfl, hok⟩
    | append_singleton hs h ih =>
      obtain ⟨adds, freq, o, hll, heq, hfreq⟩ := ih
      rw [List.foldl_append, List.foldl_cons, List.foldl_nil, heq, addHash]
      have hstep : FreqOk cap { col with
          adds := adds, freq := freq, overflowed := o, hll := hllAdd hll (hllFinalize h) }.freq :=
        hfreq
      obtain ⟨freq', o', heq', hfreq'⟩ := freqAdd_eq hstep h 1
      exact ⟨adds, freq', o', _, heq', hfreq'⟩
  · exact ⟨_, _, _, _, rfl, hok⟩

lemma mergeHashes_eq (hok : FreqOk cap dst.freq) (src : ColumnCardinality) :
    ∃ adds freq o hll, mergeHashes A cap dst src
        = { dst with adds := adds, freq := freq, overflowed := o, hll := hll } ∧
      FreqOk cap freq := by
  unfold mergeHashes
  induction A.walk src.freq using List.reverseRecOn with
  | nil => exact ⟨_, _, _, _, rfl, hok⟩
  | append_singleton es e ih =>
    obtain ⟨adds, freq, o, hll, heq, hfreq⟩ := ih
    rw [List.foldl_append, List.foldl_cons, List.foldl_nil, heq]
    have hstep : FreqOk cap { dst with
        adds := adds, freq := freq, overflowed := o, hll := hll }.freq := hfreq
    obtain ⟨freq', o', heq', hfreq'⟩ := freqAdd_eq hstep e.1 e.2
    exact ⟨adds, freq', o', hll, heq', hfreq'⟩

/-! Histograms, as long as there are no bins. -/

structure HistOk (cap : ℕ) (hist : List (UInt64 × UInt32)) : Prop where
  unmixed : Unmixed hist
  cap : cap ≠ 0 → hist.length ≤ cap

lemma histOk_nil (cap : ℕ) : HistOk cap [] :=
  ⟨.inl ⟨by simp, List.Pairwise.nil⟩, fun _ => Nat.zero_le cap⟩

lemma binned_numericToBinned (h : col.numericHist ≠ []) :
    (numericToBinned A col).binned = true := by
  rw [numericToBinned, if_neg h]

lemma addNumericColumn_exact {v : UInt64} (hnum : col.mode.counts = true → NumbersOk col)
    (hh : HistOk cap col.numericHist) (hb : (addNumericColumn A cap v col).binned = false) :
    ∃ adds hist, addNumericColumn A cap v col
        = { col with adds := adds, numericHist := hist } ∧ HistOk cap hist := by
  unfold addNumericColumn at hb ⊢
  by_cases hmode : col.mode.counts = true
  · rw [if_pos hmode] at hb ⊢
    dsimp only at hb ⊢
    by_cases hbin : col.binned = true
    · exfalso
      have hok := (hnum hmode).bins hbin
      have hstart : BinsOk { col with adds := col.adds + 1 } := ⟨hok.length, hok.total⟩
      rw [if_pos hbin, (hstart.add (A := A) v 1).2.2.binned, hbin] at hb
      cases hb
    · rw [if_neg hbin] at hb ⊢
      by_cases hover : col.numericHist.length < (histAdd col.numericHist v 1).length ∧ cap ≠ 0 ∧
          cap < (histAdd col.numericHist v 1).length
      · rw [if_pos hover, binned_numericToBinned (histAdd_ne_nil _ _ _)] at hb
        cases hb
      · rw [if_neg hover]
        refine ⟨_, _, rfl, unmixed_histAdd v 1 hh.unmixed, fun hcap => ?_⟩
        have := hh.cap hcap
        by_contra hlong
        exact hover ⟨by omega, hcap, by omega⟩
  · rw [if_neg hmode]
    exact ⟨_, _, rfl, hh⟩

lemma mergeNumbers_exact (hnum : NumbersOk dst) (hs : NumbersOk src)
    (hh : HistOk cap dst.numericHist) (hb : (mergeNumbers A cap dst src).binned = false) :
    ∃ hist, mergeNumbers A cap dst src = { dst with numericHist := hist } ∧ HistOk cap hist := by
  by_cases hdb : dst.binned = true
  · rw [mergeNumbers_of_binned hdb, (mergeIntoBins_spec (A := A) hnum hs hdb).2.2] at hb
    cases hb
  have hdb' : dst.binned = false := by simpa using hdb
  by_cases hsb : src.binned = true
  · by_cases hnil : dst.numericHist = []
    · exact ⟨_, mergeNumbers_of_loses hs ⟨hsb, hdb', hnil⟩ cap, hh⟩
    · exfalso
      have hbin := binned_numericToBinned (A := A) hnil
      have hok := (numericToBinned_spec (A := A) hdb' hnil).1
      have heq := (mergeNumbers_of_bins (A := A) cap hdb' hsb).resolve_right
        fun hself => by
          rw [hself, hdb'] at hbin
          cases hbin
      rw [heq, mergeNumbers_of_binned hbin, (mergeIntoBins_spec (A := A) hok hs hbin).2.2] at hb
      cases hb
  · rw [mergeNumbers_of_exact hdb' (by simpa using hsb)] at hb ⊢
    by_cases hover : cap ≠ 0 ∧ cap < (histMerge dst.numericHist src.numericHist).length
    · have hne : histMerge dst.numericHist src.numericHist ≠ [] := by
        intro hnil
        rw [hnil] at hover
        exact absurd hover.2 (Nat.not_lt_zero cap)
      rw [if_pos hover, binned_numericToBinned hne] at hb
      cases hb
    · rw [if_neg hover]
      refine ⟨_, rfl, unmixed_histMerge _ hh.unmixed, fun hcap => ?_⟩
      by_contra hlong
      exact hover ⟨hcap, by omega⟩

/-! Columns. -/

/-- What holds of a column: it has values of its kind, a tracked one is in order, and the others
are empty, but for what a rejected one keeps on record. -/
structure ColumnOk (cap : ℕ) (numeric : Bool) (col : ColumnCardinality) : Prop where
  isNumeric : col.isNumeric = numeric
  plain : numeric = false → col.numericHist = [] ∧ col.binned = false
  hashless : numeric = true → col.freq = []
  numbers : col.mode.counts = true → NumbersOk col
  hist : HistOk cap col.numericHist
  freq : FreqOk cap col.freq
  bins : col.binned = false → col.bins = []
  untracked : col.mode.counts = false → col.freq = [] ∧ col.numericHist = [] ∧ col.bins = []
  rejected : col.mode = .rejected → 0 < col.estDistinctStored
  off : col.mode = .off → col.estDistinctStored = 0

lemma columnOk_new {numeric : Bool} {mode : CardinalityMode} {est : UInt64}
    (hrej : mode = .rejected → 0 < est) (hoff : mode = .off → est = 0) :
    ColumnOk cap numeric
      { isNumeric := numeric, mode := mode, estDistinctStored := est } where
  isNumeric := rfl
  plain _ := ⟨rfl, rfl⟩
  hashless _ := rfl
  numbers _ := ⟨nofun, nofun, nofun⟩
  hist := histOk_nil cap
  freq := freqOk_nil cap
  bins _ := rfl
  untracked _ := ⟨rfl, rfl, rfl⟩
  rejected := hrej
  off := hoff

lemma ColumnOk.addHashes (h : ColumnOk cap false col) (hs : List UInt32) :
    ColumnOk cap false (addHashes cap hs col) := by
  have hnum : col.mode.counts = true → NumbersOk (Cardinality.addHashes cap hs col) :=
    fun hm => (addHashes_numbers (h.numbers hm) cap hs).1
  by_cases hm : col.mode.counts = true
  · obtain ⟨adds, freq, o, hll, heq, hfreq⟩ := addHashes_eq h.freq hs
    rw [heq] at hnum ⊢
    exact
      { isNumeric := h.isNumeric
        plain := h.plain
        hashless := nofun
        numbers := hnum
        hist := h.hist
        freq := hfreq
        bins := h.bins
        untracked := fun hf => by
          rw [show col.mode.counts = false from hf] at hm
          cases hm
        rejected := h.rejected
        off := h.off }
  · rw [Cardinality.addHashes, if_neg hm]
    exact h

lemma ColumnOk.ofNumbers {numeric : Bool} {col' : ColumnCardinality}
    (h : ColumnOk cap numeric col) (hm : col.mode.counts = true) (hnum : Numbers col col')
    (hplain : numeric = false → col'.numericHist = [] ∧ col'.binned = false)
    (hexact : col'.binned = false → ∃ adds hist,
      col' = { col with adds := adds, numericHist := hist } ∧ HistOk cap hist) :
    ColumnOk cap numeric col' := by
  have hm' : col'.mode.counts = true := by rw [hnum.mode, hm]
  refine
    { isNumeric := hnum.isNumeric.trans h.isNumeric
      plain := hplain
      hashless := fun hn => by rw [hnum.freq, h.hashless hn]
      numbers := fun _ => hnum.ok
      hist := ?_
      freq := by rw [hnum.freq]; exact h.freq
      bins := fun hb => ?_
      untracked := fun hf => by rw [hf] at hm'; cases hm'
      rejected := fun hr => by rw [hr] at hm'; cases hm'
      off := fun ho => by rw [ho] at hm'; cases hm' }
  · by_cases hb : col'.binned = true
    · rw [hnum.ok.hist hb]
      exact histOk_nil cap
    · obtain ⟨adds, hist, rfl, hok⟩ := hexact (by simpa using hb)
      exact hok
  · obtain ⟨adds, hist, rfl, -⟩ := hexact hb
    exact h.bins hb

lemma ColumnOk.addNumeric (h : ColumnOk cap true col) (v : UInt64) :
    ColumnOk cap true (addNumericColumn A cap v col) := by
  by_cases hm : col.mode.counts = true
  · exact h.ofNumbers hm (addNumericColumn_spec (h.numbers hm) hm cap v).1 nofun
      (addNumericColumn_exact h.numbers h.hist)
  · rw [addNumericColumn, if_neg hm]
    exact h

lemma ColumnOk.mergeHashes {numeric : Bool} (h : ColumnOk cap numeric dst)
    (hm : dst.mode.counts = true) (hsrc : numeric = true → src.freq = []) :
    ColumnOk cap numeric (mergeHashes A cap dst src) := by
  have hless : numeric = true → (Cardinality.mergeHashes A cap dst src).freq = [] := by
    intro hn
    have hwalk : A.walk src.freq = [] := by
      rw [hsrc hn]
      exact (A.walk_perm []).eq_nil
    rw [Cardinality.mergeHashes, hwalk]
    exact h.hashless hn
  obtain ⟨hhist, hbins, htotal, hbinned, hmode, hover⟩ := mergeHashes_keeps (A := A)
    cap
  have hnum := (h.numbers hm).congr hbins htotal hbinned hhist fun hf => (hover hf).1
  obtain ⟨adds, freq, o, hll, heq, hfreq⟩ := mergeHashes_eq (A := A) h.freq src
  rw [heq] at hnum hless ⊢
  exact
    { isNumeric := h.isNumeric
      plain := h.plain
      hashless := hless
      numbers := fun _ => hnum
      hist := h.hist
      freq := hfreq
      bins := h.bins
      untracked := fun hf => by
        rw [show dst.mode.counts = false from hf] at hm
        cases hm
      rejected := h.rejected
      off := h.off }

lemma ColumnOk.mergeColumn {numeric : Bool} {cap' : ℕ} (h : ColumnOk cap numeric dst)
    (hs : ColumnOk cap' numeric src)
    (hread : dst.mode.counts = true → src.binned = true → src.bins ≠ []) :
    ColumnOk cap numeric (mergeColumn A cap dst src) := by
  by_cases hm : dst.mode.counts = true
  · have hsrc : NumbersOk src := by
      by_cases hb : src.binned = true
      · refine hs.numbers ?_
        by_contra hmode
        exact hread hm hb (hs.untracked (by simpa using hmode)).2.2
      · exact ⟨fun h => absurd h hb, fun h => absurd h hb, fun h => absurd h hb⟩
    rw [Cardinality.mergeColumn, if_pos hm]
    have hmid := h.mergeHashes (A := A) hm hs.hashless
    have hmmode : (Cardinality.mergeHashes A cap dst src).mode.counts = true := by
      rw [(mergeHashes_keeps cap).2.2.2.2.1, hm]
    generalize Cardinality.mergeHashes A cap dst src = mid at hmid hmmode
    have hok := hmid.numbers hmmode
    have hnum : Numbers mid (mergeNumbers A cap mid src) := by
      by_cases hl : Loses mid src
      · rw [mergeNumbers_of_loses hsrc hl]
        exact ⟨.refl mid, hok, id⟩
      · exact (mergeNumbers_spec hok hsrc hl cap).1
    refine hmid.ofNumbers hmmode hnum (fun hn => ?_) fun hb => ?_
    · obtain ⟨hmh, hmb⟩ := hmid.plain hn
      obtain ⟨hsh, hsb⟩ := hs.plain hn
      have hnil : histMerge mid.numericHist src.numericHist = [] := by
        rw [hmh, hsh]
        rfl
      rw [mergeNumbers_of_exact hmb hsb, hnil, if_neg (by simp)]
      exact ⟨rfl, hmb⟩
    · obtain ⟨hist, heq, hh⟩ := mergeNumbers_exact hok hsrc hmid.hist hb
      exact ⟨mid.adds, hist, heq, hh⟩
  · rw [Cardinality.mergeColumn, if_neg hm]
    exact h

lemma ColumnOk.evaluateColumn {numeric : Bool} (h : ColumnOk cap numeric col) :
    ColumnOk cap numeric (evaluateColumn A col) := by
  unfold Cardinality.evaluateColumn
  by_cases hwait : col.mode ≠ .auto ∨ col.adds.toNat < kCardinalitySample
  · rw [if_pos hwait]
    exact h
  · have hauto : col.mode = .auto := by
      by_contra hne
      exact hwait (.inl hne)
    rw [if_neg hwait]
    generalize (if col.isNumeric then
        A.ofNat (if col.binned then Nat.min col.binTotal.toNat col.adds.toNat
          else col.numericHist.length)
      else distinctEstimate A col) = distinct
    dsimp only
    split_ifs
    · exact
        { isNumeric := h.isNumeric
          plain := fun hn => ⟨rfl, (h.plain hn).2⟩
          hashless := fun _ => rfl
          numbers := nofun
          hist := histOk_nil cap
          freq := freqOk_nil cap
          bins := fun _ => rfl
          untracked := fun _ => ⟨rfl, rfl, rfl⟩
          rejected := fun _ => A.toUInt64_pos distinct
          off := nofun }
    · exact
        { isNumeric := h.isNumeric
          plain := h.plain
          hashless := h.hashless
          numbers := fun _ => by
            have hnum := h.numbers (by rw [hauto]; rfl)
            exact hnum.congr rfl rfl rfl rfl id
          hist := h.hist
          freq := h.freq
          bins := h.bins
          untracked := nofun
          rejected := nofun
          off := nofun }

/-! Tables. -/

/-- The column of the schema is one of numbers. -/
def numericAt (s : Schema) (c : ℕ) : Bool := (s.columns[c]?).any (·.type.isNumeric)

structure TableOk (s : Schema) (t : CardinalityTable) : Prop where
  complete : Complete s t
  cap : t.cap < 2 ^ 32
  columns : ∀ c col, t.column c = some col → ColumnOk t.cap (numericAt s c) col

/-- The modes of a configuration, none of which is the outcome of a decision. -/
def Configured (spec : Option CardinalitySpec) : Prop :=
  ∀ sp ∈ spec, sp.defaultMode ≠ .rejected ∧ ∀ e ∈ sp.perColumn, e.2 ≠ .rejected

/-- Every rejected column of the table has its estimate. -/
def Frozen (t : CardinalityTable) : Prop :=
  ∀ c col, t.column c = some col → col.mode = .rejected → 0 < col.estDistinctStored

/-- The tables that a build or a vacuum makes: modes are taken over right after `init`, values go
to columns of their type, and a merge reads bins that are there. -/
inductive Built (A : CardinalityPlatform) (s : Schema) : CardinalityTable → Prop
  | init {spec : Option CardinalitySpec} {n : UInt64} {cap : ℕ} {t : CardinalityTable}
      (hcap : cap < 2 ^ 32) (hspec : Configured spec) (h : init s n cap spec = .ok t) : Built A s t
  | rebuilt {spec : Option CardinalitySpec} {n : UInt64} {cap : ℕ} {t src : CardinalityTable}
      (hcap : cap < 2 ^ 32) (hspec : Configured spec) (h : init s n cap spec = .ok t)
      (hsrc : Frozen src) : Built A s (t.copyModesFrom src)
  | addString {t : CardinalityTable} {c : ℕ} (val : Bytes) (hc : numericAt s c = false)
      (h : Built A s t) : Built A s (t.addString c val)
  | addSet {t : CardinalityTable} {c : ℕ} (set : SetColumn) (row : ℕ) (hc : numericAt s c = false)
      (h : Built A s t) : Built A s (t.addSet c set row)
  | addNumeric {t : CardinalityTable} {c : ℕ} (v : UInt64) (hc : numericAt s c = true)
      (h : Built A s t) : Built A s (t.addNumeric A c v)
  | merge {t u : CardinalityTable} (h : Built A s t) (hu : Built A s u)
      (hread : ∀ c dst src, t.column c = some dst → u.column c = some src →
        dst.mode.counts = true → src.binned = true → src.bins ≠ []) :
      Built A s (t.mergeFrom A u)
  | evaluate {t : CardinalityTable} (h : Built A s t) : Built A s (t.evaluateAuto A)

namespace CardinalityTable

lemma filter_places (cols : List FilterColumn) (n : ℕ) {c ci : ℕ}
    (h : (places cols n)[c]?.join = some ci) :
    ∃ i col, ci = n + i ∧ (cols.filter fun col => counted col.type)[i]? = some col ∧
      cols[c]? = some col := by
  induction cols generalizing n c with
  | nil => simp [places] at h
  | cons col cols ih =>
    simp only [places] at h
    by_cases hc : counted col.type = true
    · rw [if_pos hc] at h
      simp only [List.filter_cons, hc, if_true]
      cases c with
      | zero =>
        simp only [List.getElem?_cons_zero, Option.join_some, Option.some.injEq] at h
        exact ⟨0, col, by omega, rfl, rfl⟩
      | succ c =>
        obtain ⟨i, found, hi, hcol⟩ := ih (n + 1) (by simpa using h)
        exact ⟨i + 1, found, by omega, by simpa using hcol⟩
    · rw [if_neg hc] at h
      simp only [List.filter_cons, hc, Bool.false_eq_true, if_false]
      cases c with
      | zero => simp at h
      | succ c =>
        obtain ⟨i, found, hi, hcol⟩ := ih n (by simpa using h)
        exact ⟨i, found, hi, by simpa using hcol⟩

lemma Complete.isSome_column (h : Complete s t) (c : ℕ) :
    (t.column c).isSome = ((places s.columns 0)[c]?.join).isSome := by
  unfold column place
  rw [h.laidOut]
  cases hp : (places s.columns 0)[c]?.join with
  | none => rfl
  | some ci =>
    obtain ⟨i, col, rfl, hi, -⟩ := filter_places s.columns 0 hp
    obtain ⟨hlt, -⟩ := List.getElem?_eq_some_iff.1 hi
    rw [← h.columns] at hlt
    simp [hlt]

lemma Complete.modify (h : Complete s t) (c : ℕ) (f : ColumnCardinality → ColumnCardinality) :
    Complete s (t.modify c f) := by
  refine ⟨h.laidOut.modify c f, ?_⟩
  unfold CardinalityTable.modify
  split
  · rw [List.length_modify, h.columns]
  · exact h.columns

/-! New tables. -/

/-- Nothing was added to the column, and no decision was made on it. -/
def Blank (numeric : Bool) (col : ColumnCardinality) : Prop :=
  ∃ mode, mode ≠ .rejected ∧ col = { isNumeric := numeric, mode := mode }

lemma column_layout {n : UInt64} {mode : CardinalityMode} {c : ℕ}
    (h : (layout s n cap mode).column c = some col) :
    col = { isNumeric := numericAt s c, mode := mode } := by
  obtain ⟨ci, hplace, hci⟩ := Option.bind_eq_some_iff.1 h
  obtain ⟨i, fc, rfl, hfilter, hfc⟩ := filter_places s.columns 0 hplace
  rw [Nat.zero_add] at hci
  simp only [layout, List.getElem?_map, hfilter, Option.map_some, Option.some.injEq] at hci
  subst hci
  simp [numericAt, hfc]

lemma setModes_blank (names : List (String × CardinalityMode))
    (hnames : ∀ e ∈ names, e.2 ≠ .rejected) (hl : Complete s t)
    (hb : ∀ c col, t.column c = some col → Blank (numericAt s c) col)
    {r : CardinalityTable} (hr : setModes s names t = .ok r) :
    Complete s r ∧ r.cap = t.cap ∧ ∀ c col, r.column c = some col → Blank (numericAt s c) col := by
  induction names generalizing t with
  | nil =>
    obtain rfl := Except.ok.inj hr
    exact ⟨hl, rfl, hb⟩
  | cons e names ih =>
    obtain ⟨name, mode⟩ := e
    unfold setModes at hr
    split at hr
    · rename_i c hc
      obtain ⟨hlr, hcap, hbr⟩ := ih (fun x hx => hnames x (List.mem_cons_of_mem _ hx))
        (hl.modify c _) (by
          intro d col hd
          rw [column_modify hl.laidOut] at hd
          split_ifs at hd
          · obtain ⟨col', hcol', rfl⟩ := Option.map_eq_some_iff.1 hd
            obtain ⟨m, -, rfl⟩ := hb d col' hcol'
            exact ⟨mode, hnames (name, mode) List.mem_cons_self, rfl⟩
          · exact hb d col hd) hr
      exact ⟨hlr, hcap.trans (cap_modify _ _ _), hbr⟩
    · cases hr

lemma init_blank {spec : Option CardinalitySpec} {n : UInt64} (hspec : Configured spec)
    (h : init s n cap spec = .ok t) :
    Complete s t ∧ t.cap = cap ∧ ∀ c col, t.column c = some col → Blank (numericAt s c) col := by
  have hcomplete : ∀ mode, Complete s (layout s n cap mode) := fun mode =>
    ⟨rfl, by simp [layout]⟩
  unfold init at h
  cases spec with
  | none =>
    obtain rfl := Except.ok.inj h
    exact ⟨hcomplete _, rfl, fun c col hcol => ⟨.off, nofun, column_layout hcol⟩⟩
  | some sp =>
    obtain ⟨hdef, hper⟩ := hspec sp rfl
    exact setModes_blank sp.perColumn (t := layout s n cap sp.defaultMode) hper (hcomplete _)
      (fun c col hcol => ⟨sp.defaultMode, hdef, column_layout hcol⟩) h

lemma Blank.columnOk {numeric : Bool} (h : Blank numeric col) : ColumnOk cap numeric col := by
  obtain ⟨mode, hmode, rfl⟩ := h
  exact columnOk_new (fun hr => absurd hr hmode) fun _ => rfl

def takeMode (src t : CardinalityTable) (c : ℕ) : CardinalityTable :=
  match src.column c with
  | some scol => t.modify c (copyMode scol)
  | none => t

lemma takeMode_spec {src : CardinalityTable} (h : Complete s t) (c : ℕ) :
    Complete s (takeMode src t c) ∧ (takeMode src t c).cap = t.cap ∧
      ∀ d, (takeMode src t c).column d = match src.column c with
        | some scol => if c = d then (t.column d).map (copyMode scol) else t.column d
        | none => t.column d := by
  unfold takeMode
  cases src.column c with
  | none => exact ⟨h, rfl, fun d => rfl⟩
  | some scol => exact ⟨h.modify c _, cap_modify _ _ _, fun d => column_modify h.laidOut c d _⟩

lemma foldl_takeMode {src : CardinalityTable} (cs : List ℕ) (hnd : cs.Nodup)
    (h : Complete s t) :
    Complete s (cs.foldl (takeMode src) t) ∧ (cs.foldl (takeMode src) t).cap = t.cap ∧
      ∀ c, (cs.foldl (takeMode src) t).column c = match src.column c with
        | some scol => if c ∈ cs then (t.column c).map (copyMode scol) else t.column c
        | none => t.column c := by
  induction cs using List.reverseRecOn with
  | nil =>
    refine ⟨h, rfl, fun c => ?_⟩
    cases src.column c <;> simp
  | append_singleton cs d ih =>
    rw [List.nodup_append] at hnd
    obtain ⟨hnd, -, hne⟩ := hnd
    obtain ⟨hc, hcap, hcol⟩ := ih hnd
    obtain ⟨hc', hcap', hcol'⟩ := takeMode_spec hc d
    rw [List.foldl_append, List.foldl_cons, List.foldl_nil]
    refine ⟨hc', hcap'.trans hcap, fun c => ?_⟩
    rw [hcol' c]
    by_cases hdc : d = c
    · subst hdc
      have hd : d ∉ cs := fun hmem => hne d hmem d (by simp) rfl
      rw [hcol d]
      cases src.column d <;> simp [hd]
    · have hmem : c ∈ cs ++ [d] ↔ c ∈ cs := by simp [Ne.symm hdc]
      rw [hcol c]
      cases src.column d <;> cases src.column c <;> simp [hdc, Ne.symm hdc]

lemma copyModesFrom_ok {src : CardinalityTable} (h : Complete s t) (hcap : t.cap < 2 ^ 32)
    (hb : ∀ c col, t.column c = some col → Blank (numericAt s c) col) (hsrc : Frozen src) :
    TableOk s (t.copyModesFrom src) := by
  obtain ⟨hc, hcap', hcol⟩ := foldl_takeMode (List.range t.colToIdx.length)
    List.nodup_range h
  have heq : t.copyModesFrom src = (List.range t.colToIdx.length).foldl (takeMode src) t := rfl
  rw [heq]
  refine ⟨hc, by rw [hcap']; exact hcap, fun c col h' => ?_⟩
  rw [hcol c] at h'
  cases hs : src.column c with
  | none =>
    rw [hs] at h'
    exact (hb c col h').columnOk
  | some scol =>
    rw [hs] at h'
    dsimp only at h'
    split_ifs at h'
    · obtain ⟨col', hcol', rfl⟩ := Option.map_eq_some_iff.1 h'
      obtain ⟨mode, -, rfl⟩ := hb c col' hcol'
      refine columnOk_new (fun hr => ?_) fun ho => ?_
      · rw [if_pos hr]
        exact hsrc c scol hs hr
      · rw [if_neg (by rw [ho]; decide)]
    · exact (hb c col h').columnOk

end CardinalityTable

/-! Runs. -/

lemma TableOk.modify (h : TableOk s t) (c : ℕ) {f : ColumnCardinality → ColumnCardinality}
    (hf : ∀ col, ColumnOk t.cap (numericAt s c) col → ColumnOk t.cap (numericAt s c) (f col)) :
    TableOk s (t.modify c f) := by
  refine ⟨h.complete.modify c f, by rw [cap_modify]; exact h.cap, fun d col hcol => ?_⟩
  rw [column_modify h.complete.laidOut] at hcol
  rw [cap_modify]
  split_ifs at hcol with hcd
  · subst hcd
    obtain ⟨col', hcol', rfl⟩ := Option.map_eq_some_iff.1 hcol
    exact hf col' (h.columns c col' hcol')
  · exact h.columns d col hcol

lemma column_evaluateAuto (c : ℕ) :
    (t.evaluateAuto A).column c = (t.column c).map (evaluateColumn A) := by
  have hplace : (t.evaluateAuto A).place c = t.place c := rfl
  unfold column
  rw [hplace]
  cases t.place c <;> simp [evaluateAuto]

lemma TableOk.evaluateAuto (h : TableOk s t) : TableOk s (t.evaluateAuto A) := by
  refine ⟨⟨h.complete.laidOut, ?_⟩, h.cap, fun c col hcol => ?_⟩
  · rw [← h.complete.columns]
    exact List.length_map _
  · rw [column_evaluateAuto] at hcol
    obtain ⟨col', hcol', rfl⟩ := Option.map_eq_some_iff.1 hcol
    exact (h.columns c col' hcol').evaluateColumn

lemma TableOk.mergeFrom (h : TableOk s t) (hu : TableOk s u)
    (hread : ∀ c dst src, t.column c = some dst → u.column c = some src →
      dst.mode.counts = true → src.binned = true → src.bins ≠ []) :
    TableOk s (t.mergeFrom A u) := by
  refine ⟨⟨h.complete.laidOut, ?_⟩, h.cap, fun c col hcol => ?_⟩
  · rw [← h.complete.columns]
    simp [CardinalityTable.mergeFrom, CardinalityTable.evaluateAuto]
  · rw [column_mergeFrom h.complete.laidOut hu.complete.laidOut c
      (by rw [h.complete.isSome_column, hu.complete.isSome_column])] at hcol
    obtain ⟨dst, hdst, hcol⟩ := Option.bind_eq_some_iff.1 hcol
    obtain ⟨src, hsrc, rfl⟩ := Option.map_eq_some_iff.1 hcol
    exact ((h.columns c dst hdst).mergeColumn (hu.columns c src hsrc)
      (hread c dst src hdst hsrc)).evaluateColumn

lemma Built.ok (h : Built A s t) : TableOk s t := by
  induction h with
  | init hcap hspec hinit =>
    obtain ⟨hc, hcap', hb⟩ := init_blank hspec hinit
    exact ⟨hc, by rw [hcap']; exact hcap, fun c col hcol => (hb c col hcol).columnOk⟩
  | rebuilt hcap hspec hinit hsrc =>
    obtain ⟨hc, hcap', hb⟩ := init_blank hspec hinit
    exact copyModesFrom_ok hc (by rw [hcap']; exact hcap) hb hsrc
  | addString val hc _ ih | addSet set row hc _ ih =>
    refine ih.modify _ fun col hcol => ?_
    rw [hc] at hcol ⊢
    exact hcol.addHashes _
  | addNumeric v hc _ ih =>
    refine ih.modify _ fun col hcol => ?_
    rw [hc] at hcol ⊢
    exact hcol.addNumeric v
  | merge _ _ hread ih ihu => exact ih.mergeFrom ihu hread
  | evaluate _ ih => exact ih.evaluateAuto

end SextantTree.Cardinality
