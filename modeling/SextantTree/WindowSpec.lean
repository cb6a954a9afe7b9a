import SextantTree.SchedulerSpec

/-!
The answers of the scheduler over an unchanged index: what a query gets in a window against what it
gets in a window of its own, and what the cache answers against a new search.

A window is searched with the largest `k` of its queries and each answer is cut to its own `k`. That
is the query's own answer as long as its heap has the same width for both.
-/

namespace SextantTree.Scheduler

open Outcome

section

variable {s : Schema} (eng : SearchEngine s) (idx : Index s) (lib : DistanceCut) (ord : ScanOrder s)
  (cfg : SearchConfig) (config : SchedulerConfig)

lemma searchBatch_length {shr : Sharing} {k : ℕ} {bs : List BatchQuery} {out : List (List Candidate)}
    (h : searchBatch eng idx lib ord shr cfg k bs = .ok out) : out.length = bs.length := by
  obtain ⟨states, hstates, h⟩ := bind_eq_ok.mp h
  obtain ⟨leaves, -, h⟩ := bind_eq_ok.mp h
  have hstates := (mapM_eq_ok_iff.mp hstates).length_eq
  have hout := (mapM_eq_ok_iff.mp h).length_eq
  rw [List.length_zipIdx, List.length_zip] at hout
  omega

/-- The scheduler over an index; the threads of a search share its leaves as they come. -/
def indexEnv : SchedulerEnv Sharing where
  config := config
  adaptive := decide (0 < cfg.adaptiveWGap)
  batch shr k bs := searchBatch eng idx lib ord shr cfg k bs
  batch_length h := searchBatch_length eng idx lib ord cfg h

/-- The value each promise of a window is set to. -/
def deliver {ρ : Type} (env : SchedulerEnv ρ) (r : ρ) (w : List Submission) :
    Except ErrorKind (List (List Candidate)) := do
  let out ← env.batch r (windowK w) (w.map (·.request))
  .ok ((w.zip out).map fun x => answer env x.1 x.2)

/-- The wider search of the window keeps the rows that the query's own search keeps. -/
def SameWidth (k K : ℕ) (b : BatchQuery) : Prop :=
  ∀ st, routeBatch eng idx cfg K b = .ok st → st.fallback = false ∧ routeBatch eng idx cfg k b = .ok st

/-- A query at its own `k`, as the batch finishes it. -/
def Finishes (k : ℕ) (b : BatchQuery) (out : List Candidate) : Prop :=
  ∃ st, routeBatch eng idx cfg k b = .ok st ∧ Readable idx st.candidates ∧
    batchFinish eng idx lib ord cfg k b st = .ok out

variable {eng idx lib ord cfg config}

lemma keepCount_of_fixed (hfixed : ¬ (0 < cfg.adaptiveWGap ∧ cfg.rerank = true)) (k : ℕ)
    (sorted : List Candidate) : keepCount cfg k sorted = .ok k :=
  if_neg fun h => hfixed ⟨h.1, h.2.1⟩

lemma topk_of_fixed (hfixed : ¬ (0 < cfg.adaptiveWGap ∧ cfg.rerank = true)) (k : ℕ) (S : Finset Candidate) :
    topk cfg k S = .ok (((nearestReplicas S).sort totalLe).take k) := by
  rw [topk, keepCount_of_fixed hfixed]
  rfl

lemma Finishes.cut {k K : ℕ} {b : BatchQuery} {out : List Candidate}
    (h : Finishes eng idx lib ord cfg K b out) (hk : k ≤ K)
    (hfixed : ¬ (0 < cfg.adaptiveWGap ∧ cfg.rerank = true)) (hwidth : SameWidth eng idx cfg k K b) :
    Finishes eng idx lib ord cfg k b (out.take k) := by
  obtain ⟨st, hroute, hread, hout⟩ := h
  obtain ⟨hfall, hroute'⟩ := hwidth st hroute
  refine ⟨st, hroute', hread, ?_⟩
  rw [batchFinish, hfall, if_neg Bool.false_ne_true, topk_of_fixed hfixed] at hout ⊢
  cases hout
  rw [List.take_take, min_eq_left hk]

/-! ### Queries that can be searched -/

variable (cfg) in
lemma exists_topk {k : ℕ} (hk : 0 < k) (S : Finset Candidate) : ∃ out, topk cfg k S = .ok out := by
  obtain ⟨n, hn⟩ : ∃ n, keepCount cfg k ((nearestReplicas S).sort totalLe) = .ok n := by
    rw [keepCount]
    split
    case isFalse => exact ⟨k, rfl⟩
    case isTrue hcut =>
      split
      case isTrue h0 => exact absurd h0 hk.ne'
      case isFalse =>
        split
        case isTrue => exact ⟨_, rfl⟩
        case isFalse =>
          have hlt : ∀ i < k, ∃ c, elemAt ((nearestReplicas S).sort totalLe) i = .ok c := fun i hi =>
            ⟨_, by rw [elemAt, List.getElem?_eq_getElem (hi.trans hcut.2.2)]⟩
          obtain ⟨first, hfirst⟩ := hlt 0 hk
          obtain ⟨last, hlast⟩ := hlt (k - 1) (Nat.sub_lt hk one_pos)
          rw [hfirst, ok_bind, hlast, ok_bind]
          exact ⟨_, rfl⟩
  rw [topk, hn]
  exact ⟨_, rfl⟩

lemma routeBatch_wider {k : ℕ} {b : BatchQuery} {st : QueryState} (h : routeBatch eng idx cfg k b = .ok st)
    (K : ℕ) : ∃ st', routeBatch eng idx cfg K b = .ok st' ∧ st'.candidates = st.candidates ∧
      st'.fallback = st.fallback := by
  rw [routeBatch] at h ⊢
  dsimp only at h ⊢
  split at h
  case isTrue hplane =>
    rw [if_pos hplane]
    obtain ⟨preds, hpreds, h⟩ := bind_eq_ok.mp h
    rw [hpreds, ok_bind]
    split at h
    case isTrue hlow =>
      cases h
      rw [if_pos hlow]
      exact ⟨_, rfl, rfl, rfl⟩
    case isFalse hlow =>
      obtain ⟨cands, hcands, h⟩ := bind_eq_ok.mp h
      cases h
      rw [if_neg hlow, hcands, ok_bind]
      exact ⟨_, rfl, rfl, rfl⟩
  case isFalse hplane =>
    rw [if_neg hplane]
    obtain ⟨r, hr, h⟩ := bind_eq_ok.mp h
    rw [hr, ok_bind]
    cases r with
    | empty =>
      cases h
      exact ⟨_, rfl, rfl, rfl⟩
    | fallbackFiltered preds =>
      cases h
      exact ⟨_, rfl, rfl, rfl⟩
    | ok cands sel preds =>
      cases h
      exact ⟨_, rfl, rfl, rfl⟩

lemma exists_search (hguard : eng.unguardedFlush = false) {k K : ℕ} (hK : 0 < K) {q : Vec}
    {out : List Candidate} (h : search eng idx lib ord cfg k q = .ok out) :
    ∃ out', search eng idx lib ord cfg K q = .ok out' := by
  obtain ⟨r, hr, h⟩ := (search_eq_ok hguard lib ord).mp h
  cases r with
  | empty => exact ⟨[], (search_eq_ok hguard lib ord).mpr ⟨.empty, hr, rfl⟩⟩
  | fallbackFiltered preds =>
    obtain ⟨table, htable, h⟩ := bind_eq_ok.mp h
    obtain ⟨leaves, hleaves, -⟩ := bind_eq_ok.mp h
    have hbrute : searchBruteForceFiltered eng idx lib cfg K q preds =
        .ok (lib.cut K (leaves.flatMap (bruteLeaf eng cfg q preds))) := by
      rw [searchBruteForceFiltered, htable, ok_bind, hleaves, ok_bind]
    exact ⟨_, (search_eq_ok hguard lib ord).mpr ⟨.fallbackFiltered preds, hr, hbrute⟩⟩
  | ok cands sel preds =>
    obtain ⟨out', hout'⟩ := exists_topk cfg hK (passing eng cfg q preds
      (shortlist eng (scanWidth eng cfg K sel (!preds.isEmpty)) q (probesOf idx cands)))
    exact ⟨out', (search_eq_ok hguard lib ord).mpr ⟨.ok cands sel preds, hr, h.1, hout'⟩⟩

lemma Finishes.wider (hguard : eng.unguardedFlush = false) {k K : ℕ} {b : BatchQuery}
    {out : List Candidate} (h : Finishes eng idx lib ord cfg k b out) (hk : k ≤ K) :
    ∃ out', Finishes eng idx lib ord cfg K b out' := by
  rcases Nat.eq_zero_or_pos K with rfl | hK
  · obtain rfl := Nat.le_zero.mp hk
    exact ⟨out, h⟩
  obtain ⟨st, hroute, hread, hout⟩ := h
  obtain ⟨st', hroute', hcands, hfall⟩ := routeBatch_wider hroute K
  rw [← hcands] at hread
  suffices hex : ∃ out', batchFinish eng idx lib ord cfg K b st' = .ok out' by
    obtain ⟨out', hout'⟩ := hex
    exact ⟨out', st', hroute', hread, hout'⟩
  rw [batchFinish] at hout ⊢
  rw [hfall]
  split at hout
  case isTrue hfall' =>
    rw [if_pos hfall']
    exact exists_search hguard hK hout
  case isFalse hfall' =>
    rw [if_neg hfall']
    exact exists_topk cfg hK _

/-! ### Windows -/

lemma foldl_max_le {ks : List ℕ} {m k : ℕ} (h : k ≤ m ∨ k ∈ ks) : k ≤ ks.foldl max m := by
  induction ks generalizing m with
  | nil => exact h.resolve_right List.not_mem_nil
  | cons a ks ih =>
    rw [List.foldl_cons]
    refine ih ?_
    rcases h with h | h
    · exact .inl (h.trans (le_max_left m a))
    · rcases List.mem_cons.mp h with rfl | h
      · exact .inl (le_max_right m k)
      · exact .inr h

lemma le_windowK {w : List Submission} {e : Submission} (he : e ∈ w) : e.k ≤ windowK w :=
  foldl_max_le (.inr (List.mem_map_of_mem he))

variable (config) in
lemma batch_eq_ok (hguard : eng.unguardedFlush = false) {shr : Sharing} {k : ℕ} {w : List Submission}
    {out : List (List Candidate)} :
    (indexEnv eng idx lib ord cfg config).batch shr k (w.map (·.request)) = .ok out ↔
      List.Forall₂ (fun e r => Finishes eng idx lib ord cfg k e.request r) w out := by
  rw [← List.forall₂_map_left_iff]
  exact searchBatch_eq_ok hguard lib ord shr

lemma exists_forall₂ {α β : Type} {R : α → β → Prop} {l : List α} (h : ∀ a ∈ l, ∃ b, R a b) :
    ∃ u, List.Forall₂ R l u := by
  induction l with
  | nil => exact ⟨[], .nil⟩
  | cons a l ih =>
    obtain ⟨b, hb⟩ := h a List.mem_cons_self
    obtain ⟨u, hu⟩ := ih fun a' ha' => h a' (List.mem_cons_of_mem a ha')
    exact ⟨b :: u, .cons hb hu⟩

lemma deliver_alone (hguard : eng.unguardedFlush = false) (r : Sharing) {e : Submission}
    {out : List Candidate} (h : Finishes eng idx lib ord cfg e.k e.request out) :
    deliver (indexEnv eng idx lib ord cfg config) r [e] =
      .ok [answer (indexEnv eng idx lib ord cfg config) e out] := by
  have hk : windowK [e] = e.k := Nat.zero_max e.k
  have hbatch : (indexEnv eng idx lib ord cfg config).batch r e.k ([e].map (·.request)) = .ok [out] :=
    (batch_eq_ok config hguard).mpr (.cons h .nil)
  rw [deliver, hk, hbatch]
  rfl

lemma finishes_of_deliver (hguard : eng.unguardedFlush = false) {r : Sharing} {e : Submission}
    {outs : List (List Candidate)} (h : deliver (indexEnv eng idx lib ord cfg config) r [e] = .ok outs) :
    ∃ out, Finishes eng idx lib ord cfg e.k e.request out := by
  have hk : windowK [e] = e.k := Nat.zero_max e.k
  obtain ⟨out, hout, -⟩ := bind_eq_ok.mp h
  rw [hk, batch_eq_ok config hguard] at hout
  obtain ⟨r, -, hr, -, -⟩ := List.forall₂_cons_left_iff.mp hout
  exact ⟨r, hr⟩

variable (eng idx cfg) in
/-- The query has the largest `k` of its window, or the adaptive cut is off and its own heap is as
wide as that of the window. -/
def Steady (w : List Submission) (e : Submission) : Prop :=
  e.k = windowK w ∨ cfg.adaptiveWGap ≤ 0 ∧ SameWidth eng idx cfg e.k (windowK w) e.request

lemma eq_of_predicatesEqual {a b : List Predicate} (h : predicatesEqual a b = true)
    (hstr : a.map (·.strValue) = b.map (·.strValue)) : a = b := by
  simp only [predicatesEqual, Bool.and_eq_true, beq_iff_eq, List.all_eq_true] at h
  obtain ⟨hlen, hall⟩ := h
  refine List.ext_getElem hlen fun i h₁ h₂ => ?_
  have hi := hall (a[i], b[i]) (List.mem_iff_getElem.mpr ⟨i, by simp [h₁, h₂], by simp⟩)
  have hs : (a[i]).strValue = (b[i]).strValue := by
    have := congrArg (·[i]?) hstr
    simpa [h₁, h₂] using this
  cases ha : a[i]
  cases hb : b[i]
  rw [ha, hb] at hi hs
  simp_all

variable (eng idx lib cfg) in
/-- The entry holds what a new search returns. -/
def Fresh (c : CacheEntry) : Prop :=
  ∀ ord : ScanOrder s, search eng idx lib ord
    (queryConfig cfg ⟨c.query, c.predicates, c.probeFraction⟩) c.k c.query = .ok c.results

variable (eng idx cfg) in
/-- A lookup meets no entry that differs from it only in string comparands; a window is searched
with a fixed `k`, each query as if alone, and filtered as it asks for. -/
def Cacheable (st : Scheduler) : Event Sharing → Prop
  | .lookup q k ps _ frac => ∀ c ∈ st.cache, c.hits ⟨0, q, k, ps, frac, 0⟩ = true →
      c.predicates.map (·.strValue) = ps.map (·.strValue)
  | .finish i _ => ¬ (0 < cfg.adaptiveWGap ∧ cfg.rerank = true) ∧ ∀ t, st.tasks[i]? = some t →
      ∀ e ∈ t.window, e.request.Probes idx cfg ∧ e.request.Filters eng idx cfg ∧
        (e.k = windowK t.window ∨ SameWidth eng idx cfg e.k (windowK t.window) e.request)
  | _ => True

lemma search_length (hguard : eng.unguardedFlush = false)
    (hfixed : ¬ (0 < cfg.adaptiveWGap ∧ cfg.rerank = true)) {k : ℕ} {q : Vec} {out : List Candidate}
    (h : search eng idx lib ord cfg k q = .ok out) : out.length ≤ k := by
  obtain ⟨r, -, h⟩ := (search_eq_ok hguard lib ord).mp h
  cases r with
  | empty =>
    cases h
    exact Nat.zero_le k
  | fallbackFiltered preds =>
    obtain ⟨table, -, h⟩ := bind_eq_ok.mp h
    obtain ⟨leaves, -, h⟩ := bind_eq_ok.mp h
    cases h
    rw [lib.length]
    exact min_le_left _ _
  | ok cands sel preds =>
    obtain ⟨-, h⟩ := h
    rw [topk_of_fixed hfixed] at h
    cases h
    exact List.length_take_le _ _

variable (hguard : eng.unguardedFlush = false) (hread : idx.LeavesReadable)

include hguard hread

lemma fresh_entryOf {K : ℕ} {e : Submission} {out : List Candidate}
    (hfixed : ¬ (0 < cfg.adaptiveWGap ∧ cfg.rerank = true)) (hle : e.k ≤ K)
    (hprobe : e.request.Probes idx cfg) (hfilter : e.request.Filters eng idx cfg)
    (hk : e.k = K ∨ SameWidth eng idx cfg e.k K e.request)
    (h : Finishes eng idx lib ord cfg K e.request out) : Fresh eng idx lib cfg (entryOf e out) := by
  intro ord'
  have hown : Finishes eng idx lib ord cfg e.k e.request (out.take e.k) := by
    rcases hk with rfl | hwidth
    · have hsearch := (batchFinish_iff hguard hread hprobe hfilter lib ord ord out).mp h
      have hlen : out.length ≤ e.k := by
        refine search_length hguard ?_ hsearch
        rw [queryConfig]
        split <;> exact hfixed
      rwa [List.take_of_length_le hlen]
    · exact h.cut hle hfixed hwidth
  exact (batchFinish_iff hguard hread hprobe hfilter lib ord ord' (out.take e.k)).mp hown

omit hguard hread

lemma mem_foldl_store {ρ : Type} {env : SchedulerEnv ρ} {xs : List (Submission × List Candidate)}
    {cache : List CacheEntry} {c : CacheEntry} (h : c ∈ xs.foldl (store env) cache) :
    c ∈ cache ∨ ∃ x ∈ xs, c = entryOf x.1 x.2 := by
  induction xs generalizing cache with
  | nil => exact .inl h
  | cons x xs ih =>
    rcases ih h with h | ⟨y, hy, rfl⟩
    · rw [store] at h
      split at h
      case isFalse => exact .inl h
      case isTrue =>
        rcases List.mem_cons.mp h with rfl | h
        · exact .inr ⟨x, List.mem_cons_self, rfl⟩
        · split at h
          · exact .inl (List.mem_of_mem_dropLast h)
          · exact .inl h
    · exact .inr ⟨y, List.mem_cons_of_mem x hy, rfl⟩

lemma step_cache {ρ : Type} {env : SchedulerEnv ρ} {st st' : Scheduler} {ev : Event ρ}
    (hstep : st.step env ev = some st') {c : CacheEntry} (hc : c ∈ st'.cache) :
    c ∈ st.cache ∨ ∃ i r t out, ev = .finish i r ∧ st.tasks[i]? = some t ∧
      env.batch r (windowK t.window) (t.window.map (·.request)) = .ok out ∧
      ∃ x ∈ t.window.zip out, c = entryOf x.1 x.2 := by
  cases ev with
  | tick ns =>
    cases hstep
    exact .inl hc
  | stop =>
    cases hstep
    exact .inl hc
  | lookup q k ps delay frac =>
    cases hstep
    rw [Scheduler.lookup] at hc
    dsimp only at hc
    split at hc
    case isFalse => exact .inl hc
    case isTrue =>
      split at hc
      case h_2 => exact .inl hc
      case h_1 c' hfind =>
        rcases List.mem_cons.mp hc with rfl | hc
        · exact .inl (List.mem_of_find?_eq_some hfind)
        · exact .inl (List.mem_of_mem_eraseP hc)
  | enqueue i =>
    obtain ⟨e, -, hstep⟩ := Option.bind_eq_some_iff.mp hstep
    dsimp only at hstep
    split at hstep <;> cases hstep <;> exact .inl hc
  | close idle =>
    rw [step, Scheduler.close] at hstep
    split at hstep
    · split at hstep <;> cases hstep
      exact .inl hc
    · cases hstep
  | launch =>
    rw [step, Scheduler.launch] at hstep
    split at hstep <;> cases hstep
    exact .inl hc
  | reap =>
    rw [step, Scheduler.reap] at hstep
    split at hstep
    · split at hstep <;> cases hstep <;> exact .inl hc
    · cases hstep
  | exit =>
    rw [step, Scheduler.exit] at hstep
    split at hstep
    · split at hstep <;> cases hstep
      exact .inl hc
    · cases hstep
  | retire i =>
    obtain ⟨t, -, hstep⟩ := Option.bind_eq_some_iff.mp hstep
    split at hstep <;> cases hstep
    exact .inl hc
  | finish i r =>
    obtain ⟨t, ht, hstep⟩ := Option.bind_eq_some_iff.mp hstep
    split at hstep
    case isFalse => cases hstep
    case isTrue =>
      cases hbatch : env.batch r (windowK t.window) (t.window.map (·.request)) with
      | error e =>
        rw [hbatch] at hstep
        cases hstep
        exact .inl hc
      | ok out =>
        rw [hbatch] at hstep
        cases hstep
        rcases mem_foldl_store hc with hc | hx
        · exact .inl hc
        · exact .inr ⟨i, r, t, out, rfl, ht, hbatch, hx⟩

include hguard hread

lemma fresh_of_reachable {st : Scheduler}
    (h : Reachable (indexEnv eng idx lib ord cfg config) (Cacheable eng idx cfg) st) :
    ∀ c ∈ st.cache, Fresh eng idx lib cfg c := by
  induction h with
  | start => exact fun c hc => (List.not_mem_nil hc).elim
  | next _ ev hev hstep ih =>
    intro c hc
    rcases step_cache hstep hc with hc | ⟨i, r, t, out, rfl, ht, hbatch, x, hx, rfl⟩
    · exact ih c hc
    obtain ⟨hfixed, hwindow⟩ := hev
    have hmem := (List.of_mem_zip hx).1
    obtain ⟨hprobe, hfilter, hk⟩ := hwindow t ht x.1 hmem
    have hfin := List.forall₂_zip ((batch_eq_ok config hguard).mp hbatch) hx
    exact fresh_entryOf hguard hread hfixed (le_windowK hmem) hprobe hfilter hk hfin

end

section Examples

/-- Queries for the best `k` rows, with a heap of one entry and a rerank. -/
def plainSubmission (id k : ℕ) : Submission := ⟨id, [], k, [], 0, 0⟩

def narrow : SearchConfig := { fastscanW := 1, rerank := true }

def nameSchema : Schema := { columns := [{ name := "name", type := .string }] }

/-- The row with the name `a`. -/
def nameRow : FilterRow nameSchema := ⟨[some (.string [97])], by decide⟩

def namePred (name : FilterHash.Bytes) : Predicate := { column := "name", op := .eq, strValue := name }

def nameIndex : Index nameSchema := flatIndex [plainLeaf [⟨7, [], nameRow⟩]]

def nameEngine : SearchEngine nameSchema := tableEngine nameSchema none id fun _ => 1

/-- A scheduler with a cache of four answers. -/
def nameEnv : SchedulerEnv Sharing :=
  indexEnv nameEngine nameIndex stableCut .candidate { fastscanW := 1 } { resultCacheEntries := 4 }

def nameQuery (ps : List Predicate) : Submission := ⟨0, [], 1, ps, 0, 100000000⟩

def askedState (ps : List Predicate) : Scheduler :=
  { nextId := 1, tasks := [⟨[nameQuery ps], .sweeping⟩], inflight := 1, accepted := [0] }

/-- It is answered with the row, which is now in the cache. -/
def answeredState (ps : List Predicate) : Scheduler :=
  { askedState ps with
    tasks := [⟨[nameQuery ps], .delivered⟩]
    cache := [entryOf (nameQuery ps) [⟨7, 0⟩]]
    answers := [(nameQuery ps, [⟨7, 0⟩])] }

lemma run_asked (ps : List Predicate) :
    run nameEnv [.lookup [] 1 ps 0 0, .enqueue 0, .close true, .launch, .reap] {} = some (askedState ps) := rfl

lemma finish_asked {ps : List Predicate} (h : nameEnv.batch .single 1 [⟨[], ps, 0⟩] = .ok [[⟨7, 0⟩]]) :
    (askedState ps).finish nameEnv 0 .single = some (answeredState ps) := by
  have hbatch : nameEnv.batch .single (windowK [nameQuery ps]) ([nameQuery ps].map (·.request)) =
      .ok [[⟨7, 0⟩]] := h
  simp only [Scheduler.finish, askedState, List.getElem?_cons_zero, Option.bind_eq_bind,
    Option.bind_some, if_true, hbatch]
  rfl

end Examples

end SextantTree.Scheduler
