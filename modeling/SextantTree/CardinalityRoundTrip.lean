import SextantTree.CardinalityBuilt
import SextantTree.CardinalitySelectivity

/-!
What a search finds in the table that is read back from a blob.
-/

namespace SextantTree.Cardinality

open FilterHash CardinalityTable ByteMem

variable {A : CardinalityPlatform} {s : Schema} {t u : CardinalityTable}
  {col col' : ColumnCardinality} {cap : ℕ}

/-- The maps of the column can be counted in 32 bits. -/
def Narrow (col : ColumnCardinality) : Prop :=
  col.freq.length < 2 ^ 32 ∧ col.numericHist.length < 2 ^ 32

lemma ColumnOk.narrow {numeric : Bool} (h : ColumnOk cap numeric col) (hcap : cap < 2 ^ 32)
    (hne : cap ≠ 0) : Narrow col :=
  ⟨(h.freq.cap hne).trans_lt hcap, (h.hist.cap hne).trans_lt hcap⟩

lemma ColumnOk.storable {numeric : Bool} (h : ColumnOk cap numeric col)
    (hm : col.mode.counts = true) (hn : Narrow col) : Storable col where
  numeric hb := by
    rw [h.isNumeric]
    by_contra hnum
    rw [(h.plain (by simpa using hnum)).2] at hb
    cases hb
  bins hb := ((h.numbers hm).bins hb).length
  hist := h.hist.unmixed
  histSmall := hn.2
  freq := h.freq.nodup
  freqSmall := hn.1

structure SameStats (A : CardinalityPlatform) (col col' : ColumnCardinality) : Prop where
  mode : col'.mode = col.mode.written
  isNumeric : col'.isNumeric = col.isNumeric
  overflowed : col'.overflowed = col.overflowed
  freq : col'.freq.Perm col.freq
  numericHist : col'.numericHist = col.numericHist
  bins : col'.bins = col.bins
  binned : col.mode.counts = true → col'.binned = col.binned
  frame : col.mode.counts = true → col.binned = true →
    col'.binMin = col.binMin ∧ col'.binMax = col.binMax ∧ col'.frameLo = col.frameLo ∧
      col'.frameHi = col.frameHi ∧ col'.binTotal = col.binTotal
  est : col.mode.counts = false → col'.estDistinctStored = col.estDistinctStored

lemma max_one_of_pos {x : UInt64} (h : 0 < x) : Max.max x 1 = x := by
  change (if x ≤ 1 then 1 else x) = x
  split_ifs with hle
  · rw [UInt64.lt_iff_toNat_lt] at h
    rw [UInt64.le_iff_toNat_le] at hle
    exact UInt64.toNat_inj.1 (le_antisymm h hle)
  · rfl

lemma restored_tracked (hm : col.mode.counts = true) :
    restored A col = restoredData A col
      { isNumeric := col.isNumeric, overflowed := col.overflowed, mode := .on } := by
  unfold restored
  cases h : col.mode with
  | off | rejected => rw [h] at hm; cases hm
  | on | auto => rfl

lemma ColumnOk.restored_untracked {numeric : Bool} (h : ColumnOk cap numeric col)
    (hm : col.mode.counts = false) :
    restored A col
      = { isNumeric := col.isNumeric
          overflowed := col.overflowed
          mode := col.mode
          estDistinctStored := col.estDistinctStored } := by
  unfold restored
  cases hmode : col.mode with
  | off => rw [h.off hmode]; rfl
  | rejected => simp only [max_one_of_pos (h.rejected hmode)]; rfl
  | on | auto => rw [hmode] at hm; cases hm

lemma written_of_untracked {m : CardinalityMode} (h : m.counts = false) : m.written = m := by
  cases m with
  | off | rejected => rfl
  | on | auto => cases h

lemma written_of_tracked {m : CardinalityMode} (h : m.counts = true) : m.written = .on := by
  cases m with
  | off | rejected => cases h
  | on | auto => rfl

lemma ColumnOk.sameStats {numeric : Bool} (h : ColumnOk cap numeric col) :
    SameStats A col (restored A col) := by
  by_cases hm : col.mode.counts = true
  · have hw := written_of_tracked hm
    have huntracked : col.mode.counts = false → (restored A col).estDistinctStored
        = col.estDistinctStored := fun hf => by rw [hm] at hf; cases hf
    rw [restored_tracked hm] at huntracked ⊢
    unfold restoredData at huntracked ⊢
    by_cases hb : col.binned = true
    · have hnum : numeric = true := by
        by_contra hn
        rw [(h.plain (by simpa using hn)).2] at hb
        cases hb
      rw [if_pos hb] at huntracked ⊢
      exact
        { mode := hw.symm
          isNumeric := rfl
          overflowed := rfl
          freq := by rw [h.hashless hnum]
          numericHist := ((h.numbers hm).hist hb).symm
          bins := rfl
          binned := fun _ => hb.symm
          frame := fun _ _ => ⟨rfl, rfl, rfl, rfl, rfl⟩
          est := huntracked }
    · have hb' : col.binned = false := by simpa using hb
      rw [if_neg hb] at huntracked ⊢
      by_cases hn : col.isNumeric = true
      · rw [if_pos hn] at huntracked ⊢
        exact
          { mode := hw.symm
            isNumeric := rfl
            overflowed := rfl
            freq := by rw [h.hashless (h.isNumeric ▸ hn)]
            numericHist := rfl
            bins := (h.bins hb').symm
            binned := fun _ => hb'.symm
            frame := fun _ hbin => absurd hbin hb
            est := huntracked }
      · have hn' : numeric = false := by rw [← h.isNumeric]; simpa using hn
        rw [if_neg hn] at huntracked ⊢
        exact
          { mode := hw.symm
            isNumeric := rfl
            overflowed := rfl
            freq := A.walk_perm col.freq
            numericHist := (h.plain hn').1.symm
            bins := (h.bins hb').symm
            binned := fun _ => hb'.symm
            frame := fun _ hbin => absurd hbin hb
            est := huntracked }
  · have hm' : col.mode.counts = false := by simpa using hm
    obtain ⟨hfreq, hhist, hbins⟩ := h.untracked hm'
    rw [h.restored_untracked hm']
    exact
      { mode := (written_of_untracked hm').symm
        isNumeric := rfl
        overflowed := rfl
        freq := by rw [hfreq]
        numericHist := hhist.symm
        bins := hbins.symm
        binned := fun hc => absurd hc hm
        frame := fun hc _ => absurd hc hm
        est := fun _ => rfl }

/-! What a search reads. -/

lemma lookup_eq_some_iff {es : List (UInt32 × UInt32)} (hnd : (es.map (·.1)).Nodup)
    {k v : UInt32} : es.lookup k = some v ↔ (k, v) ∈ es := by
  induction es with
  | nil => simp
  | cons e es ih =>
    rw [List.map_cons, List.nodup_cons] at hnd
    rw [List.lookup_cons]
    by_cases hk : k = e.1
    · subst hk
      have hnot : (e.1, v) ∉ es := fun hmem => hnd.1 (List.mem_map.2 ⟨_, hmem, rfl⟩)
      simp only [beq_self_eq_true, Option.some.injEq, List.mem_cons, hnot, or_false]
      exact ⟨fun h => Prod.ext rfl h.symm, fun h => (congrArg Prod.snd h).symm⟩
    · have hbeq : (k == e.1) = false := by simpa using hk
      have hne : (k, v) ≠ e := fun h => hk (congrArg Prod.fst h)
      simp only [hbeq, List.mem_cons, hne, false_or]
      exact ih hnd.2

lemma lookup_perm {es es' : List (UInt32 × UInt32)} (h : es.Perm es')
    (hnd : (es'.map (·.1)).Nodup) (k : UInt32) : es.lookup k = es'.lookup k := by
  refine Option.ext fun v => ?_
  rw [lookup_eq_some_iff hnd, lookup_eq_some_iff ((h.map _).nodup_iff.2 hnd), h.mem_iff]

section

variable {B : SelectivityPlatform}

lemma SameStats.counts (h : SameStats A col col') : col'.mode.counts = col.mode.counts := by
  rw [h.mode]
  cases col.mode <;> rfl

lemma SameStats.stringIn {numeric : Bool} (h : SameStats A col col')
    (hok : ColumnOk cap numeric col) (n : UInt64) (val : Bytes)
    (hseen : col.mode.counts = true → col.overflowed = true →
      (col.freq.lookup (filterHash val)).isSome = true) :
    stringIn B n col' val = stringIn B n col val := by
  unfold Cardinality.stringIn
  rw [h.counts]
  by_cases hm : col.mode.counts = true
  · rw [if_pos hm, if_pos hm, lookup_perm h.freq hok.freq.nodup, h.overflowed]
    cases hl : col.freq.lookup (filterHash val) with
    | some cnt => rfl
    | none =>
      by_cases ho : col.overflowed = true
      · have := hseen hm ho
        rw [hl] at this
        cases this
      · rw [if_neg ho, if_neg ho]
  · rw [if_neg hm, if_neg hm, untrackedPrior, untrackedPrior, h.est (by simpa using hm)]

lemma numberIn_of_empty (hhist : col.numericHist = []) (hbins : col.bins = []) (n : UInt64)
    (pred : Predicate) (h : ¬ (col.mode.counts = false ∧ pred.op = .eq)) :
    numberIn B n col pred = Single.one := by
  have hbinned : Cardinality.selectivityBinned B n col pred = Single.one := if_pos (.inr hbins)
  unfold Cardinality.numberIn
  rw [if_neg h, if_pos hhist, hbinned, ite_self]

lemma SameStats.selectivityBinned (h : SameStats A col col') (hm : col.mode.counts = true)
    (hb : col.binned = true) (n : UInt64) (pred : Predicate) :
    selectivityBinned B n col' pred = selectivityBinned B n col pred := by
  obtain ⟨hmin, hmax, hlo, hhi, htotal⟩ := h.frame hm hb
  have hlt : massLt B col' = massLt B col := by
    funext x
    simp only [massLt, hmin, hmax, hlo, hhi, htotal, h.bins]
  have hle : massLe B col' = massLe B col := by
    funext x
    simp only [massLe, hmax, htotal, hlt]
  have hmatch : binsMatching B col' pred = binsMatching B col pred := by
    simp only [binsMatching, hmin, hmax, htotal, hlt, hle]
  simp only [Cardinality.selectivityBinned, htotal, h.bins, hmatch]

lemma SameStats.numberIn {numeric : Bool} (h : SameStats A col col')
    (hok : ColumnOk cap numeric col) (n : UInt64) (pred : Predicate) :
    numberIn B n col' pred = numberIn B n col pred := by
  by_cases hm : col.mode.counts = true
  · have hm' : col'.mode.counts = true := by rw [h.counts, hm]
    unfold Cardinality.numberIn
    have hno : ¬ (true = false ∧ pred.op = .eq) := by simp
    rw [hm, hm', h.binned hm, h.numericHist]
    by_cases hb : col.binned = true
    · simp only [if_neg hno, if_pos hb, h.selectivityBinned hm hb]
    · simp only [if_neg hno, if_neg hb]
  · have hm0 : col.mode.counts = false := by simpa using hm
    have hm0' : col'.mode.counts = false := by rw [h.counts, hm0]
    by_cases hop : pred.op = .eq
    · unfold Cardinality.numberIn
      rw [if_pos ⟨hm0', hop⟩, if_pos ⟨hm0, hop⟩, untrackedPrior, untrackedPrior, h.est hm0]
    · obtain ⟨-, hhist, hbins⟩ := hok.untracked hm0
      rw [numberIn_of_empty hhist hbins n pred (fun hc => hop hc.2),
        numberIn_of_empty (h.numericHist.trans hhist) (h.bins.trans hbins) n pred
          fun hc => hop hc.2]

lemma overlapIn_of_empty (hhist : col.numericHist = []) (hbins : col.bins = [])
    (lo hi : UInt64) : overlapIn B col lo hi = Single.one := by
  unfold Cardinality.overlapIn
  rw [if_pos hhist, if_pos hbins, ite_self]

lemma SameStats.overlapIn {numeric : Bool} (h : SameStats A col col')
    (hok : ColumnOk cap numeric col) (lo hi : UInt64) :
    overlapIn B col' lo hi = overlapIn B col lo hi := by
  by_cases hm : col.mode.counts = true
  · unfold Cardinality.overlapIn
    rw [h.binned hm, h.numericHist, h.bins]
    by_cases hb : col.binned = true
    · obtain ⟨hmin, hmax, -⟩ := h.frame hm hb
      rw [hmin, hmax]
    · rw [if_neg hb, if_neg hb]
  · obtain ⟨-, hhist, hbins⟩ := hok.untracked (by simpa using hm)
    rw [overlapIn_of_empty hhist hbins,
      overlapIn_of_empty (h.numericHist.trans hhist) (h.bins.trans hbins)]

end

/-! Tables. -/

/-- The predicate looks up the value in a string or set column. -/
def Looks (s : Schema) (r : Resolved) (val : Bytes) : Prop :=
  let type := (s.columns[r.col]?).map (·.type)
  type = some .string ∧
      (r.pred.op = .eq ∧ val = r.pred.strValue ∨
        r.pred.op = .inList ∧ (r.pred.strValue ≠ [] ∧ val = r.pred.strValue ∨
          val ∈ r.pred.values)) ∨
    type = some .set ∧ r.pred.op = .contains ∧ val = r.pred.strValue

/-- No predicate looks up a value that an overflowed column has not seen. -/
def Seen (s : Schema) (t : CardinalityTable) (preds : List Resolved) : Prop :=
  ∀ r ∈ preds, ∀ val, Looks s r val → ∀ col, t.column r.col = some col →
    col.mode.counts = true → col.overflowed = true →
      (col.freq.lookup (filterHash val)).isSome = true

/-- Two tables that a search cannot tell apart, but for unseen values. -/
structure SameTable (A : CardinalityPlatform) (t u : CardinalityTable) : Prop where
  nVectors : u.nVectors = t.nVectors
  absent : ∀ c, t.column c = none → u.column c = none
  columns : ∀ c col, t.column c = some col → ∃ col', u.column c = some col' ∧ SameStats A col col'

section

variable {B : SelectivityPlatform}

lemma SameTable.selectivityString (h : SameTable A t u) (hok : TableOk s t) (c : ℕ) (val : Bytes)
    (hseen : ∀ col, t.column c = some col → col.mode.counts = true → col.overflowed = true →
      (col.freq.lookup (filterHash val)).isSome = true) :
    u.selectivityString B c val = t.selectivityString B c val := by
  unfold CardinalityTable.selectivityString
  rw [h.nVectors]
  cases hc : t.column c with
  | none => rw [h.absent c hc]
  | some col =>
    obtain ⟨col', hc', hsame⟩ := h.columns c col hc
    rw [hc']
    simp only [hsame.stringIn (hok.columns c col hc) t.nVectors val (hseen col hc)]

lemma SameTable.selectivityNumeric (h : SameTable A t u) (hok : TableOk s t) (c : ℕ)
    (pred : Predicate) : u.selectivityNumeric B c pred = t.selectivityNumeric B c pred := by
  unfold CardinalityTable.selectivityNumeric
  rw [h.nVectors]
  cases hc : t.column c with
  | none => rw [h.absent c hc]
  | some col =>
    obtain ⟨col', hc', hsame⟩ := h.columns c col hc
    rw [hc']
    simp only [hsame.numberIn (hok.columns c col hc)]

lemma SameTable.overlapFrac (h : SameTable A t u) (hok : TableOk s t) (c : Option ℕ)
    (lo hi : UInt64) : u.overlapFrac B c lo hi = t.overlapFrac B c lo hi := by
  unfold CardinalityTable.overlapFrac
  cases c with
  | none => rfl
  | some c =>
    simp only [Option.bind_some]
    cases hc : t.column c with
    | none => rw [h.absent c hc]
    | some col =>
      obtain ⟨col', hc', hsame⟩ := h.columns c col hc
      rw [hc']
      simp only [hsame.overlapIn (hok.columns c col hc)]

lemma SameTable.selectivityOf (h : SameTable A t u) (hok : TableOk s t) (r : Resolved)
    (hseen : ∀ val, Looks s r val → ∀ col, t.column r.col = some col →
      col.mode.counts = true → col.overflowed = true →
        (col.freq.lookup (filterHash val)).isSome = true) :
    u.selectivityOf B s r = t.selectivityOf B s r := by
  have hstring : ∀ val, Looks s r val →
      u.selectivityString B r.col val = t.selectivityString B r.col val :=
    fun val hl => h.selectivityString hok r.col val (hseen val hl)
  unfold CardinalityTable.selectivityOf
  dsimp only
  by_cases hgeo : r.pred.op.isGeo = true
  · rw [if_pos hgeo, if_pos hgeo]
    simp only [CardinalityTable.selectivityGeo, h.overlapFrac hok]
  rw [if_neg hgeo, if_neg hgeo, h.selectivityNumeric hok]
  by_cases hstr : (s.columns[r.col]?).map (·.type) = some .string
  · rw [if_pos hstr, if_pos hstr]
    cases hop : r.pred.op with
    | eq => simp only [hstring r.pred.strValue (.inl ⟨hstr, .inl ⟨hop, rfl⟩⟩)]
    | inList =>
      have hvalues : ∀ sum, r.pred.values.foldl
          (fun sum v => B.addSingle sum (u.selectivityString B r.col v)) sum
          = r.pred.values.foldl
            (fun sum v => B.addSingle sum (t.selectivityString B r.col v)) sum := by
        intro sum
        refine List.foldl_ext _ _ sum fun acc v hv => ?_
        rw [hstring v (.inl ⟨hstr, .inr ⟨hop, .inr hv⟩⟩)]
      simp only [hvalues]
      by_cases hempty : r.pred.strValue = []
      · simp only [if_pos hempty]
      · simp only [if_neg hempty, hstring r.pred.strValue
          (.inl ⟨hstr, .inr ⟨hop, .inl ⟨hempty, rfl⟩⟩⟩)]
    | _ => rfl
  rw [if_neg hstr, if_neg hstr]
  by_cases hset : (s.columns[r.col]?).map (·.type) = some .set ∧ r.pred.op = .contains
  · rw [if_pos hset, if_pos hset]
    simp only [CardinalityTable.selectivitySet,
      hstring r.pred.strValue (.inr ⟨hset.1, hset.2, rfl⟩)]
  · rw [if_neg hset, if_neg hset]

lemma SameTable.selectivityCombined (h : SameTable A t u) (hok : TableOk s t)
    {preds : List Resolved} (hseen : Seen s t preds) :
    u.selectivityCombined B s preds = t.selectivityCombined B s preds := by
  have hfold : preds.foldl
      (fun sel r => B.mulSingle sel (maxSingle B (u.selectivityOf B s r) Single.floor)) Single.one
      = preds.foldl
        (fun sel r => B.mulSingle sel (maxSingle B (t.selectivityOf B s r) Single.floor))
        Single.one := by
    refine List.foldl_ext _ _ _ fun sel r hr => ?_
    rw [h.selectivityOf hok r (hseen r hr)]
  unfold CardinalityTable.selectivityCombined
  rw [hfold]

end

/-- For every table that a build or a vacuum makes. What is read back from its blob, whatever
follows it, has the same statistics, and a search estimates the same. -/
theorem blob_round_trip (B : SelectivityPlatform) (hcols : s.columns.length < 2 ^ 32 - 1)
    (h : Built B.toCardinalityPlatform s t)
    (hn : t.cap ≠ 0 ∨ ∀ c col, t.column c = some col → Narrow col) (pad : List UInt8) :
    ∃ u, deserialize (t.serialize B.toCardinalityPlatform ++ pad) = .ok u ∧
      SameTable B.toCardinalityPlatform t u ∧
      ∀ preds, Seen s t preds →
        u.selectivityCombined B s preds = t.selectivityCombined B s preds := by
  have hok := h.ok
  have hstorable : ∀ c col, t.column c = some col → col.mode.counts = true → Storable col := by
    intro c col hc hm
    have hcol := hok.columns c col hc
    refine hcol.storable hm ?_
    rcases hn with hne | hn
    · exact hcol.narrow hok.cap hne
    · exact hn c col hc
  obtain ⟨u, hu, hvec, hcols⟩ := deserialize_serialize (A := B.toCardinalityPlatform)
    hcols hok.complete hstorable pad
  have hsame : SameTable B.toCardinalityPlatform t u :=
    { nVectors := hvec
      absent := fun c hc => by rw [hcols, hc]; rfl
      columns := fun c col hc =>
        ⟨_, by rw [hcols, hc]; rfl, (hok.columns c col hc).sameStats⟩ }
  exact ⟨u, hu, hsame, fun preds hseen => hsame.selectivityCombined hok hseen⟩

/-! Two years, counted. -/

def unitSelectivity : SelectivityPlatform where
  toCardinalityPlatform := unitPlatform
  toSingle d := if d = Double.zero then Single.zero else Single.one
  singleOfNat n := if n = 0 then Single.zero else Single.one
  addSingle x y := if x = Single.zero then y else x
  mulSingle x y := if x = Single.zero then Single.zero else y
  divSingle x _ := x
  ltSingle x y := decide (x < y)
  nextUp d := d + 1
  cos _ := Double.one
  abs d := d
  operand q := if q = 0 then Double.zero else Double.one

def yearsTable : CardinalityTable where
  columns := [twoShardsColumn]
  colToIdx := [some 0]
  nVectors := 2
  cap := 8

lemma built_yearsTable : Built unitPlatform yearSchema yearsTable := by
  have hspec : Configured (some countAll) := by
    intro sp hsp
    obtain rfl := Option.some.inj hsp
    exact ⟨by decide, by simp [countAll]⟩
  have h : Built unitPlatform yearSchema
      { columns := [{ isNumeric := true, mode := .on }]
        colToIdx := [some 0]
        nVectors := 2
        cap := 8 } := .init (by decide) hspec rfl
  exact ((h.addNumeric (c := 0) Double.zero rfl).addNumeric (c := 0) Double.one rfl)

def laterThanZero : Resolved where
  pred := { column := "year", op := .gt }
  col := 0

theorem blob_round_trip_years :
    ∃ u, deserialize (yearsTable.serialize unitPlatform ++ [0, 0, 0]) = .ok u ∧
      SameTable unitPlatform yearsTable u ∧
      u.selectivityCombined unitSelectivity yearSchema [laterThanZero]
        = yearsTable.selectivityCombined unitSelectivity yearSchema [laterThanZero] := by
  obtain ⟨u, hu, hsame, hsel⟩ := blob_round_trip unitSelectivity (by decide) built_yearsTable
    (.inl (by decide)) [0, 0, 0]
  refine ⟨u, hu, hsame, hsel [laterThanZero] fun r hr val hl => ?_⟩
  obtain rfl := List.mem_singleton.1 hr
  rcases hl with ⟨htype, -⟩ | ⟨htype, -⟩ <;> cases htype

/-- The table of an index that was built without counting. -/
def uncounted : CardinalityTable where
  columns := [{ isNumeric := true }]
  colToIdx := [some 0]

/-- Modes that are taken over after values have been added leave them in the table, but not in
its blob. -/
theorem late_modes_lose_counts :
    (∃ col, (yearsTable.copyModesFrom uncounted).column 0 = some col ∧
        col.numericHist = [(Double.zero, 1), (Double.one, 1)]) ∧
      ∃ u col, deserialize ((yearsTable.copyModesFrom uncounted).serialize unitPlatform) = .ok u ∧
        u.column 0 = some col ∧ col.numericHist = [] := by
  have hcol : (yearsTable.copyModesFrom uncounted).column 0
      = some { twoShardsColumn with mode := .off } := rfl
  obtain ⟨hc, -, -⟩ := foldl_takeMode (s := yearSchema) (List.range 1)
    List.nodup_range (t := yearsTable) built_yearsTable.ok.complete
  have hoff : ∀ c col, (yearsTable.copyModesFrom uncounted).column c = some col →
      col.mode.counts = true → Storable col := by
    intro c col hcol hm
    obtain ⟨ci, -, hci⟩ := Option.bind_eq_some_iff.1 hcol
    obtain rfl := List.mem_singleton.1 (List.mem_of_getElem? hci)
    cases hm
  obtain ⟨u, hu, -, hcolumn⟩ := deserialize_serialize (A := unitPlatform)
    (t := yearsTable.copyModesFrom uncounted) (s := yearSchema) (by decide) hc hoff []
  refine ⟨⟨_, hcol, rfl⟩, u, restored unitPlatform { twoShardsColumn with mode := .off }, ?_, ?_,
    rfl⟩
  · rwa [List.append_nil] at hu
  · rw [hcolumn, hcol]
    rfl

end SextantTree.Cardinality
