import SextantTree.BatchSpec

/-!
A batch against single searches. A query that is not sent to the filtered scan of every leaf gets
what it would get alone; one that is sent there is searched with the base config, so it keeps its
answer only if its predicates are those of the base config.
-/

namespace SextantTree

open Outcome

section

variable {s : Schema} (eng : SearchEngine s) (idx : Index s)

/-! ### Queries that match very few rows -/

/-- The selectivity that the descent from a root asks for. -/
def rootSelectivity (root : Node) (preds : List Resolved) : ℚ :=
  if preds.isEmpty then 1 else
    match eng.cardTable with
    | some f => f preds
    | none => estimateSelectivity (s := s) (root.children.map (·.summary)) preds

/-- The selectivity that decides between probing and scanning every leaf. -/
def routeSelectivity (cfg : SearchConfig) (preds : List Resolved) : Except ErrorKind ℚ :=
  if planeActive idx cfg then .ok (planeSelectivity eng preds)
  else do
    let root ← nodeAt idx.file idx.super.root
    .ok (rootSelectivity eng root preds)

/-- The predicates `preds` of the config match very few rows. -/
def Scans (cfg : SearchConfig) (preds : List Resolved) : Prop :=
  resolvePredicates s cfg.predicates = .ok preds ∧ preds ≠ [] ∧
    ∃ sel, routeSelectivity eng idx cfg preds = .ok sel ∧ isExtreme sel = true

variable {eng idx}

lemma scans_congr {cfg cfg' : SearchConfig} (hpreds : cfg.predicates = cfg'.predicates)
    (hplane : cfg.usePlane = cfg'.usePlane) {preds : List Resolved} :
    Scans eng idx cfg preds ↔ Scans eng idx cfg' preds := by
  have hactive : planeActive idx cfg = planeActive idx cfg' := by rw [planeActive, planeActive, hplane]
  have hsel : routeSelectivity eng idx cfg preds = routeSelectivity eng idx cfg' preds := by
    rw [routeSelectivity, routeSelectivity, hactive]
  rw [Scans, Scans, hpreds, hsel]

lemma ite_isExtreme {preds : List Resolved} {sel : ℚ} :
    (!preds.isEmpty && isExtreme sel) = true ↔ preds ≠ [] ∧ isExtreme sel = true := by
  simp

lemma routeQuery_eq_fallback {q : Vec} {cfg : SearchConfig} (hplane : planeActive idx cfg = false)
    {preds : List Resolved} :
    routeQuery eng idx q cfg = .ok (.fallbackFiltered preds) ↔ Scans eng idx cfg preds := by
  constructor
  · intro h
    obtain ⟨preds', hpreds, h⟩ := bind_eq_ok.mp h
    obtain ⟨root, hroot, h⟩ := bind_eq_ok.mp h
    by_cases hlow : (!preds'.isEmpty && isExtreme (rootSelectivity eng root preds')) = true
    · replace h := (if_pos hlow).symm.trans h
      obtain ⟨hne, hext⟩ := ite_isExtreme.mp hlow
      cases h
      refine ⟨hpreds, hne, _, ?_, hext⟩
      rw [routeSelectivity, hplane, if_neg Bool.false_ne_true, hroot]
      rfl
    · -- a probed query ends in one of the other two outcomes
      replace h := (if_neg hlow).symm.trans h
      obtain ⟨ds, -, h⟩ := bind_eq_ok.mp h
      obtain ⟨es, -, h⟩ := bind_eq_ok.mp h
      obtain ⟨frontier, -, h⟩ := bind_eq_ok.mp h
      obtain ⟨cands, -, h⟩ := bind_eq_ok.mp h
      split at h <;> cases h
  · rintro ⟨hpreds, hne, sel, hsel, hext⟩
    rw [routeSelectivity, hplane, if_neg Bool.false_ne_true] at hsel
    obtain ⟨root, hroot, hsel⟩ := bind_eq_ok.mp hsel
    cases hsel
    rw [routeQuery, hpreds, ok_bind, hroot]
    exact if_pos (ite_isExtreme.mpr ⟨hne, hext⟩)

lemma routeSearch_eq_fallback {q : Vec} {cfg : SearchConfig} {preds : List Resolved} :
    routeSearch eng idx q cfg = .ok (.fallbackFiltered preds) ↔ Scans eng idx cfg preds := by
  cases hplane : planeActive idx cfg with
  | false =>
    rw [routeSearch, hplane, if_neg Bool.false_ne_true]
    exact routeQuery_eq_fallback hplane
  | true =>
    rw [routeSearch, if_pos hplane]
    constructor
    · intro h
      obtain ⟨preds', hpreds, h⟩ := bind_eq_ok.mp h
      dsimp only at h
      split at h
      case isTrue hlow =>
        obtain ⟨hne, hext⟩ := ite_isExtreme.mp hlow
        cases h
        refine ⟨hpreds, hne, _, ?_, hext⟩
        rw [routeSelectivity, if_pos hplane]
      case isFalse =>
        obtain ⟨cands, -, h⟩ := bind_eq_ok.mp h
        split at h <;> cases h
    · rintro ⟨hpreds, hne, sel, hsel, hext⟩
      rw [routeSelectivity, if_pos hplane] at hsel
      cases hsel
      rw [hpreds, ok_bind]
      exact if_pos (ite_isExtreme.mpr ⟨hne, hext⟩)

/-! ### Routing in a batch -/

/-- The pages of the leaf table hold leaves. -/
def Index.LeavesReadable (idx : Index s) : Prop :=
  ∀ e ∈ idx.leafTable, ∀ p, e.page = some p → ∃ l, leafAtPage idx.file p = .ok l

variable (eng idx)

/-- What the routing of a batch makes of a query's own route. -/
def Routed (cfg : SearchConfig) (k : ℕ) : Route → QueryState → Prop
  | .empty, st => st.candidates = [] ∧ st.fallback = false
  | .fallbackFiltered _, st => Readable idx st.candidates ∧ st.fallback = true
  | .ok cands sel preds, st => st = ⟨cands, preds, scanWidth eng cfg k sel (!preds.isEmpty), false⟩

/-- The query is routed alone as in the batch: its own probe fraction counts. -/
def BatchQuery.Probes (cfg : SearchConfig) (b : BatchQuery) : Prop :=
  planeActive idx cfg = true → cfg.nProbe = kProbeAll → b.probeFraction ≤ 0

variable {eng idx} {cfg : SearchConfig} {k : ℕ} {b : BatchQuery}

lemma not_exists_error {α : Type} {e : ErrorKind} {P : α → Prop} :
    ¬ ∃ a, (.error e : Except ErrorKind α) = .ok a ∧ P a := by
  rintro ⟨a, h, -⟩
  cases h

variable (idx cfg b) in
lemma planeActive_queryConfig : planeActive idx (queryConfig cfg b) = planeActive idx cfg := by
  rw [queryConfig]
  split <;> rfl

lemma predicates_queryConfig : (queryConfig cfg b).predicates = b.effective cfg := by
  rw [queryConfig]
  split <;> rfl

lemma planeRoute_queryConfig (hplane : planeActive idx cfg = true) (hb : b.Probes idx cfg) :
    planeRoute eng idx (queryConfig cfg b) 0 b.query = planeRoute eng idx cfg b.probeFraction b.query := by
  have hzero : ¬ (0 : ℚ) < 0 := lt_irrefl 0
  rw [queryConfig]
  split
  case isTrue hfrac =>
    have hall : cfg.nProbe ≠ kProbeAll := fun h => absurd hfrac (not_lt.mpr (hb hplane h))
    have hpos : (0 : ℕ) ≠ kProbeAll := by decide
    simp only [planeRoute, hall, hpos, hfrac, hzero, if_true, if_false, ne_eq, not_false_eq_true]
  case isFalse hfrac =>
    simp only [planeRoute, hfrac, hzero, if_false]

lemma mem_of_mem_takeBudget {β : Type} {weight : β → ℕ} {enough : ℕ → Bool} {cum : ℕ} {l : List β} {b : β}
    (h : b ∈ takeBudget weight enough cum l) : b ∈ l := by
  induction l generalizing cum with
  | nil => cases h
  | cons a l ih =>
    rw [takeBudget] at h
    split at h
    case isTrue =>
      obtain rfl := List.mem_singleton.mp h
      exact List.mem_cons_self
    case isFalse =>
      rcases List.mem_cons.mp h with rfl | h
      · exact List.mem_cons_self
      · exact List.mem_cons_of_mem a (ih h)

variable (eng) in
lemma readable_planeRoute (hread : idx.LeavesReadable) (cfg : SearchConfig) (frac : ℚ) (q : Vec) :
    Readable idx (planeRoute eng idx cfg frac q) := by
  intro c hc
  obtain ⟨x, hx, rfl⟩ := List.mem_map.mp hc
  have hx := mem_of_mem_takeBudget hx
  obtain ⟨l, -, hl⟩ := List.mem_filterMap.mp hx
  obtain ⟨e, he, hl⟩ := Option.bind_eq_some_iff.mp hl
  obtain ⟨p, hp, rfl⟩ := Option.map_eq_some_iff.mp hl
  obtain ⟨leaf, hleaf⟩ := hread e (List.mem_of_getElem? he) p hp
  exact leafAtPage_eq hleaf

lemma routeBatch_routed (hread : idx.LeavesReadable) (hb : b.Probes idx cfg) :
    (∃ e e', routeBatch eng idx cfg k b = .error e ∧
        routeSearch eng idx b.query (queryConfig cfg b) = .error e') ∨
      ∃ st r, routeBatch eng idx cfg k b = .ok st ∧
        routeSearch eng idx b.query (queryConfig cfg b) = .ok r ∧ Routed eng idx cfg k r st := by
  rw [routeBatch, routeSearch, planeActive_queryConfig]
  cases hplane : planeActive idx cfg with
  | false =>
    simp only [Bool.false_eq_true, if_false]
    cases routeQuery eng idx b.query (queryConfig cfg b) with
    | error e => exact .inl ⟨e, e, rfl, rfl⟩
    | ok r =>
      cases r with
      | empty => exact .inr ⟨_, .empty, rfl, rfl, rfl, rfl⟩
      | fallbackFiltered preds =>
        exact .inr ⟨_, .fallbackFiltered preds, rfl, rfl, fun c hc => (List.not_mem_nil hc).elim, rfl⟩
      | ok cands sel preds => exact .inr ⟨_, .ok cands sel preds, rfl, rfl, rfl⟩
  | true =>
    simp only [if_true, planeRoute_queryConfig hplane hb]
    cases resolvePredicates s (queryConfig cfg b).predicates with
    | error e => exact .inl ⟨e, e, rfl, rfl⟩
    | ok preds =>
      simp only [ok_bind]
      by_cases hlow : (!preds.isEmpty && isExtreme (planeSelectivity eng preds)) = true
      · rw [if_pos hlow, if_pos hlow]
        exact .inr ⟨_, .fallbackFiltered preds, rfl, rfl,
          readable_planeRoute eng hread cfg b.probeFraction b.query, rfl⟩
      · rw [if_neg hlow, if_neg hlow]
        cases pruneLeaves eng idx preds (planeRoute eng idx cfg b.probeFraction b.query) with
        | error e => exact .inl ⟨e, e, rfl, rfl⟩
        | ok cands =>
          cases cands with
          | nil => exact .inr ⟨_, .empty, rfl, rfl, rfl, rfl⟩
          | cons c cands => exact .inr ⟨_, .ok (c :: cands) _ preds, rfl, rfl, rfl⟩

/-! ### One query -/

variable (eng idx)

def batchFinish (lib : DistanceCut) (ord : ScanOrder s) (cfg : SearchConfig) (k : ℕ) (b : BatchQuery)
    (st : QueryState) : Except ErrorKind (List Candidate) :=
  if st.fallback then search eng idx lib ord cfg k b.query
  else topk cfg k (passing eng cfg b.query st.preds
    (shortlist eng st.w b.query (probesOf idx st.candidates)))

/-- A query that scans every leaf has the predicates of the base config. -/
def BatchQuery.Filters (cfg : SearchConfig) (b : BatchQuery) : Prop :=
  ∀ preds, Scans eng idx (queryConfig cfg b) preds → b.effective cfg = cfg.predicates

variable {eng idx}

lemma topk_queryConfig (S : Finset Candidate) : topk (queryConfig cfg b) k S = topk cfg k S := by
  rw [queryConfig]
  split <;> rfl

lemma passing_queryConfig (q : Vec) (preds : List Resolved) (xs : List (HeapEntry × Probe s × LeafRow s)) :
    passing eng (queryConfig cfg b) q preds xs = passing eng cfg q preds xs := by
  rw [queryConfig]
  split <;> rfl

lemma scanWidth_queryConfig (sel : ℚ) (filtered : Bool) :
    scanWidth eng (queryConfig cfg b) k sel filtered = scanWidth eng cfg k sel filtered := by
  rw [queryConfig]
  split <;> rfl

lemma searchBruteForceFiltered_queryConfig (lib : DistanceCut) (q : Vec) (preds : List Resolved) :
    searchBruteForceFiltered eng idx lib (queryConfig cfg b) k q preds =
      searchBruteForceFiltered eng idx lib cfg k q preds := by
  rw [queryConfig]
  split <;> rfl

lemma search_eq_ok (hguard : eng.unguardedFlush = false) (lib : DistanceCut) (ord : ScanOrder s) {q : Vec}
    {out : List Candidate} :
    search eng idx lib ord cfg k q = .ok out ↔ ∃ r, routeSearch eng idx q cfg = .ok r ∧
      match r with
      | .empty => [] = out
      | .fallbackFiltered preds => searchBruteForceFiltered eng idx lib cfg k q preds = .ok out
      | .ok cands sel preds => Readable idx cands ∧
          topk cfg k (passing eng cfg q preds
            (shortlist eng (scanWidth eng cfg k sel (!preds.isEmpty)) q (probesOf idx cands))) = .ok out := by
  rw [search, bind_eq_ok]
  refine exists_congr fun r => and_congr_right fun hroute => ?_
  cases r with
  | empty => simp only [Except.ok.injEq]
  | fallbackFiltered preds => rfl
  | ok cands sel preds =>
    have hfinal : ∀ ps, readProbes idx cands = .ok ps →
        finalizeQuery eng cfg k q preds ps
            (scanCandidates eng ord cfg.searchThreads (scanWidth eng cfg k sel (!preds.isEmpty)) q ps) =
          topk cfg k (passing eng cfg q preds
            (shortlist eng (scanWidth eng cfg k sel (!preds.isEmpty)) q ps)) := fun ps hps =>
      finalizeQuery_eq (numbered_of_readProbes hps)
        (coe_scanCandidates hguard (scanWidth_pos eng cfg k sel _) ord cfg.searchThreads ps)
    dsimp only
    rw [bind_eq_ok]
    constructor
    · rintro ⟨ps, hps, h⟩
      rw [hfinal ps hps] at h
      obtain ⟨hread, rfl⟩ := readProbes_eq_ok.mp hps
      exact ⟨hread, h⟩
    · rintro ⟨hread, h⟩
      have hps := readProbes_eq_ok.mpr ⟨hread, rfl⟩
      exact ⟨_, hps, (hfinal _ hps).trans h⟩

/-- **A query of a batch alone.** -/
theorem batchFinish_iff (hguard : eng.unguardedFlush = false) (hread : idx.LeavesReadable)
    (hprobe : b.Probes idx cfg) (hfilter : b.Filters eng idx cfg) (lib : DistanceCut)
    (ord ord' : ScanOrder s) (out : List Candidate) :
    (∃ st, routeBatch eng idx cfg k b = .ok st ∧ Readable idx st.candidates ∧
        batchFinish eng idx lib ord cfg k b st = .ok out) ↔
      search eng idx lib ord' (queryConfig cfg b) k b.query = .ok out := by
  rw [search_eq_ok hguard]
  rcases routeBatch_routed (k := k) hread hprobe with ⟨e, e', hbatch, hsolo⟩ | ⟨st, r, hbatch, hsolo, hst⟩
  · rw [hbatch, hsolo]
    exact iff_of_false not_exists_error not_exists_error
  simp only [hbatch, hsolo, Except.ok.injEq, exists_eq_left']
  cases r with
  | empty =>
    obtain ⟨hcands, hfall⟩ := hst
    have hnil : batchFinish eng idx lib ord cfg k b st = .ok [] := by
      rw [batchFinish, hfall, if_neg Bool.false_ne_true, hcands]
      exact topk_of_none (BoundedHeap.smallest_of_card_le (Nat.zero_le _))
    rw [hnil, Except.ok.injEq, and_iff_right]
    exact fun c hc => (List.not_mem_nil (hcands ▸ hc)).elim
  | fallbackFiltered preds =>
    obtain ⟨hcands, hfall⟩ := hst
    have hscans := routeSearch_eq_fallback.mp hsolo
    have hbase : routeSearch eng idx b.query cfg = .ok (.fallbackFiltered preds) := by
      refine routeSearch_eq_fallback.mpr ((scans_congr ?_ ?_).mp hscans)
      · rw [predicates_queryConfig, hfilter preds hscans]
      · rw [queryConfig]
        split <;> rfl
    simp only [searchBruteForceFiltered_queryConfig]
    rw [and_iff_right hcands, batchFinish, hfall, if_pos rfl, search, hbase, ok_bind]
  | ok cands sel preds =>
    cases hst
    simp only [batchFinish, Bool.false_eq_true, if_false, topk_queryConfig, passing_queryConfig,
      scanWidth_queryConfig]

/-! ### The batch -/

lemma mapM_congr_left {α β : Type} {f g : α → Except ErrorKind β} {l : List α}
    (h : ∀ a ∈ l, f a = g a) : l.mapM f = l.mapM g := by
  induction l with
  | nil => rfl
  | cons a l ih =>
    rw [List.mapM_cons, List.mapM_cons, h a List.mem_cons_self,
      ih fun a' ha' => h a' (List.mem_cons_of_mem a ha')]

lemma forall₂_exists_iff {α β γ : Type} {R : α → β → Prop} {Q : β → Prop} {S : α → β → γ → Prop}
    {l : List α} {u : List γ} :
    (∃ m, List.Forall₂ R l m ∧ (∀ b ∈ m, Q b) ∧ List.Forall₂ (fun x c => S x.1 x.2 c) (l.zip m) u) ↔
      List.Forall₂ (fun a c => ∃ b, R a b ∧ Q b ∧ S a b c) l u := by
  constructor
  · rintro ⟨m, hR, hQ, hS⟩
    induction hR generalizing u with
    | nil =>
      cases hS
      exact .nil
    | cons hab _ ih =>
      obtain ⟨c, u, hc, hrest, rfl⟩ := List.forall₂_cons_left_iff.mp hS
      exact .cons ⟨_, hab, hQ _ List.mem_cons_self, hc⟩
        (ih (fun b hb => hQ b (List.mem_cons_of_mem _ hb)) hrest)
  · intro h
    induction h with
    | nil => exact ⟨[], .nil, fun b hb => (List.not_mem_nil hb).elim, .nil⟩
    | cons h _ ih =>
      obtain ⟨b, hR, hQ, hS⟩ := h
      obtain ⟨m, hRs, hQs, hSs⟩ := ih
      exact ⟨b :: m, .cons hR hRs, List.forall_mem_cons.mpr ⟨hQ, hQs⟩, .cons hS hSs⟩

lemma routeBatch_width {st : QueryState} (h : routeBatch eng idx cfg k b = .ok st)
    (hne : st.candidates ≠ []) : 0 < st.w := by
  rw [routeBatch] at h
  dsimp only at h
  split at h
  case isTrue =>
    obtain ⟨preds, -, h⟩ := bind_eq_ok.mp h
    split at h
    case isTrue =>
      cases h
      exact scanWidth_pos eng cfg k (planeSelectivity eng preds) false
    case isFalse =>
      obtain ⟨cands, -, h⟩ := bind_eq_ok.mp h
      cases h
      exact scanWidth_pos eng cfg k _ _
  case isFalse =>
    obtain ⟨r, -, h⟩ := bind_eq_ok.mp h
    cases r with
    | empty =>
      cases h
      exact absurd rfl hne
    | fallbackFiltered preds =>
      cases h
      exact absurd rfl hne
    | ok cands sel preds =>
      cases h
      exact scanWidth_pos eng cfg k _ _

lemma searchBatch_eq_ok (hguard : eng.unguardedFlush = false) (lib : DistanceCut) (ord : ScanOrder s)
    (shr : Sharing) {bs : List BatchQuery} {rs : List (List Candidate)} :
    searchBatch eng idx lib ord shr cfg k bs = .ok rs ↔
      List.Forall₂ (fun b out => ∃ st, routeBatch eng idx cfg k b = .ok st ∧
        Readable idx st.candidates ∧ batchFinish eng idx lib ord cfg k b st = .ok out) bs rs := by
  have hfinish : ∀ states, List.Forall₂ (fun b st => routeBatch eng idx cfg k b = .ok st) bs states →
      ((bs.zip states).zipIdx.mapM fun x => finishQuery eng idx lib ord shr cfg k
          (sweptLeaves idx states) x.2 x.1.1 x.1.2) =
        (bs.zip states).mapM fun x => batchFinish eng idx lib ord cfg k x.1 x.2 := by
    intro states hstates
    have hfst : (bs.zip states).zipIdx.mapM ((fun x : BatchQuery × QueryState =>
        batchFinish eng idx lib ord cfg k x.1 x.2) ∘ Prod.fst) =
        (bs.zip states).mapM fun x => batchFinish eng idx lib ord cfg k x.1 x.2 := by
      rw [← List.mapM_map, List.zipIdx_map_fst]
    rw [← hfst]
    refine mapM_congr_left ?_
    rintro ⟨⟨b, st⟩, i⟩ hx
    obtain ⟨hb, hst⟩ := List.getElem?_zip_eq_some.mp (List.mem_zipIdx_iff_getElem?.mp hx)
    change finishQuery eng idx lib ord shr cfg k (sweptLeaves idx states) i b st =
      batchFinish eng idx lib ord cfg k b st
    rw [batchFinish]
    split
    case isTrue hfall => rw [finishQuery, if_pos hfall]
    case isFalse hfall =>
      have hroute : routeBatch eng idx cfg k b = .ok st :=
        List.forall₂_zip hstates (List.mem_of_getElem? (List.mem_zipIdx_iff_getElem?.mp hx))
      exact finishQuery_eq hguard hst (routeBatch_width hroute) (Bool.not_eq_true _ ▸ hfall) lib ord shr
  rw [← forall₂_exists_iff, searchBatch, bind_eq_ok]
  refine exists_congr fun states => ?_
  rw [mapM_eq_ok_iff, bind_eq_ok]
  refine and_congr_right fun hstates => ?_
  simp only [uniqueLeaves_eq_ok, and_assoc, exists_and_left, exists_eq_left]
  rw [hfinish states hstates, mapM_eq_ok_iff]

end

section Examples

/-- One row with `n = 3`, and a table that calls every predicate rare. -/
def threeIndex : Index intSchema := flatIndex [plainLeaf [⟨7, [], threeRow⟩]]

def rareEngine : SearchEngine intSchema := tableEngine intSchema (some fun _ => 1 / 200) id fun _ => 1

lemma threeIndex_leavesReadable : threeIndex.LeavesReadable := by
  intro e he p hp
  obtain rfl := List.mem_singleton.mp he
  cases hp
  exact ⟨_, rfl⟩

end Examples

end SextantTree
