import Mathlib.Data.List.TakeWhile
import SextantTree.Batch
import SextantTree.SearchSpec

/-!
A batch gives each query what it would get alone with its own predicates and probe fraction,
whatever the other queries and the workers are: a worker's heap holds the smallest entries of the
leaves it met, and everything that stays in a heap is in the pool of that worker.
-/

namespace SextantTree

open BoundedHeap Outcome

/-! ### Grouping -/

section Grouping

variable {β γ : Type} [DecidableEq γ]

lemma sum_filter_eq (f : β → γ) (F : Multiset β) {ks : List γ} (hks : ks.Nodup) :
    (ks.map fun k => F.filter (f · = k)).sum = F.filter (f · ∈ ks) := by
  induction ks with
  | nil => simp
  | cons k ks ih =>
    obtain ⟨hk, hks⟩ := List.nodup_cons.mp hks
    have hsplit := Multiset.filter_add_filter (f · = k) (f · ∈ ks) F
    have hboth : F.filter (fun b => f b = k ∧ f b ∈ ks) = 0 :=
      Multiset.filter_eq_nil.mpr fun b _ h => hk (h.1 ▸ h.2)
    rw [hboth, add_zero] at hsplit
    rw [List.map_cons, List.sum_cons, ih hks, hsplit]
    simp only [List.mem_cons]

lemma map_filterMap_sublist {δ : Type} {f : β → Option δ} {key : δ → β} {P : β → Prop} [DecidablePred P]
    (hf : ∀ b d, f b = some d → P b ∧ key d = b) (l : List β) :
    ((l.filterMap f).map key).Sublist (l.filter (P ·)) := by
  induction l with
  | nil => exact .slnil
  | cons b l ih =>
    cases hb : f b with
    | none =>
      rw [List.filterMap_cons_none hb]
      exact ih.trans ((List.sublist_cons_self b l).filter _)
    | some d =>
      obtain ⟨hP, hkey⟩ := hf b d hb
      rw [List.filterMap_cons_some hb, List.map_cons, hkey, List.filter_cons_of_pos (by simpa using hP)]
      exact ih.cons_cons b

end Grouping

/-! ### One worker -/

section Worker

variable {s : Schema} (eng : SearchEngine s) (cfg : SearchConfig) (w : ℕ) (q : Vec)
  (preds : List Resolved)

/-- The pool entries a leaf gives, for the entries in the heap. -/
def harvestOf (h : ScanHeap) (p : Probe s) : List PoolEntry :=
  (slots w h).filterMap fun e =>
    if e.leafSlot = p.slot then
      (p.leaf.rows[e.localIdx]?).map fun row => harvested eng cfg q preds p.leaf row e
    else none

/-- Everything that groups of leaves offer to the pool, the heap being `h` before them. -/
def harvestStream (h : ScanHeap) : List (List (Probe s)) → List PoolEntry
  | [] => []
  | g :: gs =>
    let h' := g.foldl (scanLeaf eng w q) h
    g.flatMap (harvestOf eng cfg w q preds h') ++ harvestStream h' gs

variable {eng cfg w q preds}

lemma harvest_eq (h : ScanHeap) (pool : ℕ → PoolEntry) (p : Probe s) :
    harvest eng cfg w q preds h pool p =
      (harvestOf eng cfg w q preds h p).foldl (offer PoolEntry.entry w) pool := by
  rw [harvest, harvestOf, List.foldl_filterMap]
  refine congrArg (fun f => (slots w h).foldl f pool) ?_
  funext pool e
  by_cases hslot : e.leafSlot = p.slot
  · rw [if_pos hslot, if_pos hslot]
    cases p.leaf.rows[e.localIdx]? <;> rfl
  · rw [if_neg hslot, if_neg hslot]

lemma foldl_scanGroup (groups : List (List (Probe s))) (pt : Partial) :
    groups.foldl (scanGroup eng cfg w q preds) pt =
      ⟨groups.flatten.foldl (scanLeaf eng w q) pt.heap,
        (harvestStream eng cfg w q preds pt.heap groups).foldl (offer PoolEntry.entry w) pt.pool⟩ := by
  induction groups generalizing pt with
  | nil => rfl
  | cons g gs ih =>
    have hpool : ∀ h pool, g.foldl (harvest eng cfg w q preds h) pool =
        (g.flatMap (harvestOf eng cfg w q preds h)).foldl (offer PoolEntry.entry w) pool := by
      intro h pool
      rw [List.foldl_flatMap]
      exact congrArg (fun f => g.foldl f pool) (funext fun pool => funext fun p => harvest_eq h pool p)
    rw [List.foldl_cons, ih, List.flatten_cons, List.foldl_append, harvestStream, List.foldl_append]
    simp only [scanGroup, hpool]

lemma mem_harvestOf {h : ScanHeap} {p : Probe s} {pe : PoolEntry} :
    pe ∈ harvestOf eng cfg w q preds h p ↔ ∃ e ∈ contents w h, e.leafSlot = p.slot ∧
      ∃ row, p.leaf.rows[e.localIdx]? = some row ∧ harvested eng cfg q preds p.leaf row e = pe := by
  simp only [harvestOf, List.mem_filterMap, contents, Multiset.mem_coe]
  refine exists_congr fun e => and_congr_right fun _ => ?_
  by_cases hslot : e.leafSlot = p.slot
  · simp [hslot]
  · simp [hslot]

section Scanned

variable {all : List (Probe s)} {groups : List (List (Probe s))} (hguard : eng.unguardedFlush = false)
  (hw : 0 < w)

include hguard hw

lemma filter_contents_scanAll_le {pre : List (Probe s)} :
    (contents w (scanAll eng w q pre)).filter HeapEntry.IsReal ≤
      (entries eng q pre).filter HeapEntry.IsReal := by
  have hkeys := (keeps_scanAll (q := q) hguard hw pre).keys
  rw [Multiset.map_id] at hkeys
  rw [hkeys, ← filter_isReal_scan (w := w) pre]
  exact Multiset.filter_le_filter _ smallest_le

lemma mem_entries_of_mem_scanAll {pre : List (Probe s)} {e : HeapEntry} (he : e ∈ contents w (scanAll eng w q pre))
    (hreal : e.IsReal) : e ∈ entries eng q pre :=
  Multiset.mem_of_mem_filter (Multiset.mem_of_le (filter_contents_scanAll_le hguard hw)
    (Multiset.mem_filter.mpr ⟨he, hreal⟩))

lemma mem_scanAll_of_append {pre post : List (Probe s)} {e : HeapEntry}
    (he : e ∈ contents w (scanAll eng w q (pre ++ post))) :
    e ∈ entries eng q post ∨ e ∈ contents w (scanAll eng w q pre) := by
  have hleaf : scanLeaf eng w q = fun h p => (leafEntries eng q p).foldl (offer id w) h := by
    funext h p
    rw [scanLeaf, hguard, if_neg Bool.false_ne_true]
  have hscan : scanAll eng w q (pre ++ post) =
      (post.flatMap (leafEntries eng q)).foldl (offer id w) (scanAll eng w q pre) := by
    rw [scanAll, List.foldl_append, List.foldl_flatMap, ← hleaf]
    rfl
  rw [hscan] at he
  exact mem_contents_offers (keeps_scanAll hguard hw pre) hw he

/-- **Nothing that stays in the heap is missing from the pool's stream.** -/
lemma mem_stream_of_mem_scanAll (pre : List (Probe s)) {e : HeapEntry}
    (he : e ∈ contents w (scanAll eng w q (pre ++ groups.flatten)))
    (hmem : e ∈ entries eng q groups.flatten) :
    ∃ pe ∈ harvestStream eng cfg w q preds (scanAll eng w q pre) groups, pe.entry = e := by
  induction groups generalizing pre with
  | nil => cases hmem
  | cons g gs ih =>
    have hnext : g.foldl (scanLeaf eng w q) (scanAll eng w q pre) = scanAll eng w q (pre ++ g) := by
      rw [scanAll, scanAll, List.foldl_append]
    rw [List.flatten_cons, ← List.append_assoc] at he
    rw [harvestStream, hnext]
    by_cases hlater : e ∈ entries eng q gs.flatten
    · obtain ⟨pe, hpe, rfl⟩ := ih (pre ++ g) he hlater
      exact ⟨pe, List.mem_append_right _ hpe, rfl⟩
    · have hthen := (mem_scanAll_of_append hguard hw he).resolve_left hlater
      have hg : e ∈ entries eng q g := by
        rw [List.flatten_cons, entries_append, Multiset.mem_add] at hmem
        exact hmem.resolve_right hlater
      rw [entries, Multiset.mem_coe, List.mem_flatMap] at hg
      obtain ⟨p, hp, hg⟩ := hg
      obtain ⟨i, hi, rfl⟩ := List.mem_map.mp hg
      obtain ⟨row, hrow⟩ : ∃ row, p.leaf.rows[i]? = some row :=
        ⟨_, List.getElem?_eq_getElem (List.mem_range.mp hi)⟩
      refine ⟨harvested eng cfg q preds p.leaf row _, List.mem_append_left _ ?_, rfl⟩
      exact List.mem_flatMap.mpr ⟨p, hp, mem_harvestOf.mpr ⟨_, hthen, rfl, row, hrow, rfl⟩⟩

lemma filter_stream_le (pre : List (Probe s)) (hall : pre ++ groups.flatten = all) :
    (((harvestStream eng cfg w q preds (scanAll eng w q pre) groups).map PoolEntry.entry :
        List HeapEntry) : Multiset HeapEntry).filter HeapEntry.IsReal ≤
      (groups.flatten.map fun p => ((entries eng q all).filter HeapEntry.IsReal).filter
        (HeapEntry.leafSlot · = p.slot)).sum := by
  induction groups generalizing pre with
  | nil => exact Multiset.zero_le _
  | cons g gs ih =>
    have hnext : g.foldl (scanLeaf eng w q) (scanAll eng w q pre) = scanAll eng w q (pre ++ g) := by
      rw [scanAll, scanAll, List.foldl_append]
    rw [List.flatten_cons, ← List.append_assoc] at hall
    rw [harvestStream, hnext, List.map_append, ← Multiset.coe_add, Multiset.filter_add, List.flatten_cons,
      List.map_append, List.sum_append]
    refine add_le_add ?_ (ih (pre ++ g) hall)
    rw [List.map_flatMap, coe_flatMap, filter_sum, List.map_map]
    refine List.sum_le_sum fun p _ => ?_
    have hheap : (contents w (scanAll eng w q (pre ++ g))).filter HeapEntry.IsReal ≤
        (entries eng q all).filter HeapEntry.IsReal := by
      refine (filter_contents_scanAll_le hguard hw).trans (Multiset.filter_le_filter _ ?_)
      rw [← hall, entries_append (pre ++ g)]
      exact Multiset.le_add_right _ _
    have hsub : (((harvestOf eng cfg w q preds (scanAll eng w q (pre ++ g)) p).map PoolEntry.entry :
        List HeapEntry) : Multiset HeapEntry) ≤
        (contents w (scanAll eng w q (pre ++ g))).filter (HeapEntry.leafSlot · = p.slot) := by
      rw [contents, Multiset.filter_coe]
      refine Multiset.coe_le.mpr (List.Sublist.subperm (map_filterMap_sublist (fun e pe hpe => ?_) _))
      by_cases hslot : e.leafSlot = p.slot
      · rw [if_pos hslot] at hpe
        obtain ⟨row, -, rfl⟩ := Option.map_eq_some_iff.mp hpe
        exact ⟨hslot, rfl⟩
      · rw [if_neg hslot] at hpe
        cases hpe
    calc (((harvestOf eng cfg w q preds (scanAll eng w q (pre ++ g)) p).map PoolEntry.entry :
          List HeapEntry) : Multiset HeapEntry).filter HeapEntry.IsReal
        ≤ ((contents w (scanAll eng w q (pre ++ g))).filter (HeapEntry.leafSlot · = p.slot)).filter
          HeapEntry.IsReal := Multiset.filter_le_filter _ hsub
      _ = ((contents w (scanAll eng w q (pre ++ g))).filter HeapEntry.IsReal).filter
          (HeapEntry.leafSlot · = p.slot) := Multiset.filter_comm _ _ _
      _ ≤ _ := Multiset.filter_le_filter _ hheap

omit hguard hw in
lemma mem_stream (pre : List (Probe s)) (hall : pre ++ groups.flatten = all) {pe : PoolEntry}
    (hpe : pe ∈ harvestStream eng cfg w q preds (scanAll eng w q pre) groups) :
    ∃ p ∈ all, ∃ seen : List (Probe s), seen ⊆ all ∧
      pe ∈ harvestOf eng cfg w q preds (scanAll eng w q seen) p := by
  induction groups generalizing pre with
  | nil => cases hpe
  | cons g gs ih =>
    have hnext : g.foldl (scanLeaf eng w q) (scanAll eng w q pre) = scanAll eng w q (pre ++ g) := by
      rw [scanAll, scanAll, List.foldl_append]
    rw [List.flatten_cons, ← List.append_assoc] at hall
    rw [harvestStream, hnext] at hpe
    rcases List.mem_append.mp hpe with hpe | hpe
    · obtain ⟨p, hp, hpe⟩ := List.mem_flatMap.mp hpe
      refine ⟨p, ?_, pre ++ g, ?_, hpe⟩
      · rw [← hall]
        exact List.mem_append_left _ (List.mem_append_right _ hp)
      · rw [← hall]
        exact List.subset_append_left _ _
    · exact ih (pre ++ g) hall hpe

lemma harvested_of_mem_stream (hslots : (all.map Probe.slot).Nodup) (hall : groups.flatten = all)
    {pe : PoolEntry} (hpe : pe ∈ harvestStream eng cfg w q preds heapInit groups)
    (hreal : pe.entry.IsReal) :
    ∃ x ∈ scored eng q all, pe = harvested eng cfg q preds x.2.1.leaf x.2.2 x.1 := by
  obtain ⟨p, hp, seen, hseen, hpe⟩ := mem_stream [] hall hpe
  obtain ⟨e, he, hslot, row, hrow, rfl⟩ := mem_harvestOf.mp hpe
  have hmem := mem_entries_of_mem_scanAll hguard hw he hreal
  rw [entries, Multiset.mem_coe, List.mem_flatMap] at hmem
  obtain ⟨p', hp', hmem⟩ := hmem
  obtain ⟨i, hi, rfl⟩ := List.mem_map.mp hmem
  obtain rfl : p' = p := List.inj_on_of_nodup_map hslots (hseen hp') hp hslot
  refine ⟨(_, p', row), ?_, rfl⟩
  refine List.mem_flatMap.mpr ⟨p', hp, List.mem_map.mpr ⟨(row, i), ?_, rfl⟩⟩
  exact List.mem_zipIdx_iff_getElem?.mpr hrow

/-- **What a worker hands in for a query**: the smallest entries of the leaves it met, a pool entry
for each of them, and no pool entry but of a row. -/
theorem worker_spec (hslots : (all.map Probe.slot).Nodup) (hall : groups.flatten = all) {pt : Partial}
    (hpt : groups.foldl (scanGroup eng cfg w q preds) .init = pt) :
    (contents w pt.heap).filter HeapEntry.IsReal =
        smallest w ((entries eng q all).filter HeapEntry.IsReal) ∧
      (∀ e ∈ contents w pt.heap, e.IsReal → ∃ pe ∈ contents w pt.pool, pe.entry = e) ∧
      ∀ pe ∈ contents w pt.pool, pe.entry.IsReal →
        ∃ x ∈ scored eng q all, pe = harvested eng cfg q preds x.2.1.leaf x.2.2 x.1 := by
  rw [foldl_scanGroup, hall] at hpt
  subst hpt
  set stream := harvestStream eng cfg w q preds heapInit groups with hstream
  have hinit : Keeps PoolEntry.entry w (fun _ => PoolEntry.sentinel)
      (Multiset.replicate w PoolEntry.sentinel.entry) := keeps_const _
  have hpool := hinit.offers hw stream
  have hheap : (contents w (scanAll eng w q all)).filter HeapEntry.IsReal =
      smallest w ((entries eng q all).filter HeapEntry.IsReal) := by
    have hkeys := (keeps_scanAll (q := q) hguard hw all).keys
    rw [Multiset.map_id] at hkeys
    rw [hkeys, filter_smallest fun a ha b _ => le_of_isReal (pqDist_lt_of_mem_scan ha), filter_isReal_scan]
  have hle : ((stream.map PoolEntry.entry : List HeapEntry) : Multiset HeapEntry).filter
      HeapEntry.IsReal ≤ (entries eng q all).filter HeapEntry.IsReal := by
    refine (filter_stream_le hguard hw [] hall).trans ?_
    have hsum := sum_filter_eq HeapEntry.leafSlot ((entries eng q all).filter HeapEntry.IsReal) hslots
    rw [List.map_map] at hsum
    rw [hall]
    exact hsum.le.trans (Multiset.filter_le _ _)
  have hof : ∀ pe ∈ stream, pe.entry.IsReal →
      ∃ x ∈ scored eng q all, pe = harvested eng cfg q preds x.2.1.leaf x.2.2 x.1 :=
    fun pe hpe => harvested_of_mem_stream hguard hw hslots hall hpe
  refine ⟨hheap, fun e he hreal => ?_, fun pe hpe hreal => ?_⟩
  · have hmem : e ∈ entries eng q all := mem_entries_of_mem_scanAll hguard hw he hreal
    have hstays : e ∈ contents w (scanAll eng w q ([] ++ groups.flatten)) := by
      rw [List.nil_append, hall]
      exact he
    obtain ⟨pe, hpe, hentry⟩ := mem_stream_of_mem_scanAll hguard hw [] hstays (hall.symm ▸ hmem)
    have hsmall : e ∈ smallest w ((entries eng q all).filter HeapEntry.IsReal) := by
      rw [← hheap]
      exact Multiset.mem_filter.mpr ⟨he, hreal⟩
    have hoffered : e ∈ ((stream.map PoolEntry.entry : List HeapEntry) : Multiset HeapEntry).filter
        HeapEntry.IsReal :=
      Multiset.mem_filter.mpr ⟨Multiset.mem_coe.mpr (List.mem_map.mpr ⟨pe, hpe, hentry⟩), hreal⟩
    have hkept := mem_smallest_of_le hle hoffered hsmall
    have hstrip : (((stream.map PoolEntry.entry : List HeapEntry) : Multiset HeapEntry) +
        Multiset.replicate w PoolEntry.sentinel.entry).filter HeapEntry.IsReal =
        ((stream.map PoolEntry.entry : List HeapEntry) : Multiset HeapEntry).filter HeapEntry.IsReal := by
      rw [Multiset.filter_add, add_eq_left, Multiset.filter_eq_nil]
      intro a ha
      rw [Multiset.eq_of_mem_replicate ha]
      exact fun h => h rfl
    have hlow : ∀ a ∈ ((stream.map PoolEntry.entry : List HeapEntry) : Multiset HeapEntry) +
        Multiset.replicate w PoolEntry.sentinel.entry, ∀ b ∈ ((stream.map PoolEntry.entry :
          List HeapEntry) : Multiset HeapEntry) + Multiset.replicate w PoolEntry.sentinel.entry,
        a.IsReal → ¬ b.IsReal → a ≤ b := by
      intro a ha b _ hra
      have ha' : a ∈ (entries eng q all).filter HeapEntry.IsReal := by
        refine Multiset.mem_of_le hle ?_
        rw [← hstrip]
        exact Multiset.mem_filter.mpr ⟨ha, hra⟩
      exact le_of_isReal (pqDist_lt (Multiset.mem_of_mem_filter ha')) hra
    rw [← hstrip, ← filter_smallest hlow, ← hpool.keys] at hkept
    exact Multiset.mem_map.mp (Multiset.mem_of_mem_filter hkept)
  · rcases mem_contents_offers hinit hw hpe with hpe | hpe
    · exact hof pe hpe hreal
    · obtain ⟨i, -, rfl⟩ := mem_contents.mp hpe
      exact absurd rfl hreal

end Scanned

end Worker

/-! ### The pool -/

section Pool

variable {s : Schema} {eng : SearchEngine s} {cfg : SearchConfig} {k w : ℕ} {q : Vec}
  {preds : List Resolved} {ps : List (Probe s)}

lemma poolLookup_eq {pool : List PoolEntry} {e : HeapEntry} {pe : PoolEntry} (hpe : pe ∈ pool)
    (hat : (ofLex pe.entry).2 = (ofLex e).2)
    (huniq : ∀ pe' ∈ pool, (ofLex pe'.entry).2 = (ofLex e).2 → pe' = pe) :
    poolLookup pool e = some pe := by
  have htrans : IsTrans PoolEntry fun a b => (ofLex a.entry).2 ≤ (ofLex b.entry).2 :=
    ⟨fun _ _ _ hab hbc => le_trans hab hbc⟩
  have htotal : Std.Total fun a b : PoolEntry => (ofLex a.entry).2 ≤ (ofLex b.entry).2 :=
    ⟨fun _ _ => le_total _ _⟩
  set sorted := pool.insertionSort fun a b => (ofLex a.entry).2 ≤ (ofLex b.entry).2 with hsorted
  set rest := sorted.dropWhile fun p => decide ((ofLex p.entry).2 < (ofLex e).2) with hrest
  have hpair : rest.Pairwise fun a b => (ofLex a.entry).2 ≤ (ofLex b.entry).2 :=
    (List.pairwise_insertionSort _ pool).sublist (List.dropWhile_sublist _)
  have hmem : pe ∈ rest := by
    have hall : pe ∈ sorted := (List.mem_insertionSort _).mpr hpe
    rw [← List.takeWhile_append_dropWhile (p := fun p : PoolEntry =>
      decide ((ofLex p.entry).2 < (ofLex e).2)) (l := sorted)] at hall
    refine (List.mem_append.mp hall).resolve_left fun hleft => ?_
    have hlt := List.mem_takeWhile_imp hleft
    rw [decide_eq_true_eq, hat] at hlt
    exact lt_irrefl _ hlt
  cases hcons : rest with
  | nil =>
    rw [hcons] at hmem
    cases hmem
  | cons x t =>
    have hxmem : x ∈ pool := by
      refine (List.mem_insertionSort _).mp ((List.dropWhile_sublist _).subset (?_ : x ∈ rest))
      rw [hcons]
      exact List.mem_cons_self
    have hge : (ofLex e).2 ≤ (ofLex x.entry).2 := by
      have hne : sorted.dropWhile (fun p => decide ((ofLex p.entry).2 < (ofLex e).2)) ≠ [] := by
        rw [← hrest, hcons]
        exact List.cons_ne_nil _ _
      have hhead := List.head_dropWhile_not _ hne
      simp only [← hrest, hcons, List.head_cons, decide_eq_false_iff_not, not_lt] at hhead
      exact hhead
    have hle : (ofLex x.entry).2 ≤ (ofLex e).2 := by
      rw [hcons] at hmem hpair
      rw [← hat]
      rcases List.mem_cons.mp hmem with rfl | hmem
      · exact le_rfl
      · exact (List.pairwise_cons.mp hpair).1 pe hmem
    have hx : x = pe := huniq x hxmem (hle.antisymm hge)
    have hlook : poolLookup pool e =
        (rest.head?).filter fun p => decide ((ofLex p.entry).2 = (ofLex e).2) := rfl
    rw [hlook, hcons, List.head?_cons, hx, Option.filter_some, if_pos (by simpa using hat)]

lemma fst_of_mem_scored {x : HeapEntry × Probe s × LeafRow s} (hx : x ∈ scored eng q ps) :
    x.1 = .make (eng.scanKey q x.2.1.leaf x.1.localIdx) x.2.1.slot x.1.localIdx := by
  obtain ⟨p, -, hx⟩ := List.mem_flatMap.mp hx
  obtain ⟨y, -, rfl⟩ := List.mem_map.mp hx
  rfl

lemma scored_ext (hnum : Numbered ps) {x y : HeapEntry × Probe s × LeafRow s} (hx : x ∈ scored eng q ps)
    (hy : y ∈ scored eng q ps) (hat : (ofLex x.1).2 = (ofLex y.1).2) : x = y := by
  have hslot : x.1.leafSlot = y.1.leafSlot := congrArg (fun z => (ofLex z).1) hat
  have hidx : x.1.localIdx = y.1.localIdx := congrArg (fun z => (ofLex z).2) hat
  have hmat : materialize ps x.1 = materialize ps y.1 := by
    rw [materialize, materialize, hslot, hidx]
  rw [materialize_of_mem_scored hnum hx, materialize_of_mem_scored hnum hy] at hmat
  have hsnd := Except.ok.inj hmat
  refine Prod.ext ?_ hsnd
  rw [fst_of_mem_scored hx, fst_of_mem_scored hy, hsnd, hidx]

lemma candidateOf_eq_harvested (x : HeapEntry × Probe s × LeafRow s) :
    candidateOf eng cfg q x = ⟨(harvested eng cfg q preds x.2.1.leaf x.2.2 x.1).rowId,
      if (harvested eng cfg q preds x.2.1.leaf x.2.2 x.1).reranked then
        (harvested eng cfg q preds x.2.1.leaf x.2.2 x.1).dist
      else match (if cfg.rerank then cfg.exactRerankBase else none) with
        | some base => eng.exactDist q (base (harvested eng cfg q preds x.2.1.leaf x.2.2 x.1).rowId)
        | none => Rounding.roundBits 24 x.1.pqDist⟩ := by
  obtain ⟨_, _, _, _, _, _, _, rerank, base, _, _, _⟩ := cfg
  cases rerank <;> cases base <;> rfl

lemma finalizePoolQuery_eq (hnum : Numbered ps) {es : List HeapEntry} {pool : List PoolEntry}
    (hes : (es : Multiset HeapEntry) = smallest w ((entries eng q ps).filter HeapEntry.IsReal))
    (hcover : ∀ e ∈ es, ∃ pe ∈ pool, pe.entry = e)
    (hof : ∀ pe ∈ pool, ∃ x ∈ scored eng q ps, pe = harvested eng cfg q preds x.2.1.leaf x.2.2 x.1) :
    finalizePoolQuery eng cfg k q pool es =
      topk cfg k (passing eng cfg q preds (shortlist eng w q ps)) := by
  have hmem : ∀ e, e ∈ es ↔ e ∈ smallest w ((entries eng q ps).filter HeapEntry.IsReal) := fun e => by
    rw [← hes, Multiset.mem_coe]
  have hlook : ∀ x ∈ scored eng q ps, x.1 ∈ es →
      poolLookup pool x.1 = some (harvested eng cfg q preds x.2.1.leaf x.2.2 x.1) := by
    intro x hx he
    have hsame : ∀ pe ∈ pool, (ofLex pe.entry).2 = (ofLex x.1).2 →
        pe = harvested eng cfg q preds x.2.1.leaf x.2.2 x.1 := by
      intro pe hpe hat
      obtain ⟨y, hy, rfl⟩ := hof pe hpe
      rw [scored_ext hnum hy hx hat]
    obtain ⟨pe, hpe, hentry⟩ := hcover x.1 he
    have heq := hsame pe hpe (by rw [hentry])
    exact poolLookup_eq (heq ▸ hpe) rfl hsame
  rw [finalizePoolQuery, cutTopk_eq]
  refine congrArg (topk cfg k) ?_
  ext c
  simp only [passing, shortlist, List.mem_toFinset, List.mem_filterMap, List.mem_map, List.mem_filter,
    decide_eq_true_eq, ← hmem, Option.map_eq_some_iff]
  constructor
  · rintro ⟨y, ⟨e, he, pe, hpe, rfl⟩, hc⟩
    obtain ⟨x, hx⟩ := exists_scored_of_mem (Multiset.mem_of_mem_filter
      (mem_of_mem_smallest ((hmem e).mp he)))
    rw [hlook (e, x) hx he] at hpe
    cases hpe
    split at hc
    case isTrue hok =>
      cases hc
      exact ⟨(e, x), ⟨⟨hx, he⟩, hok⟩, (candidateOf_eq_harvested (e, x))⟩
    case isFalse => cases hc
  · rintro ⟨x, ⟨⟨hx, he⟩, hok⟩, rfl⟩
    refine ⟨(x.1, harvested eng cfg q preds x.2.1.leaf x.2.2 x.1), ⟨x.1, he, _, hlook x hx he, rfl⟩, ?_⟩
    exact (if_pos hok).trans (congrArg some (candidateOf_eq_harvested x).symm)

end Pool

/-! ### Who scans what -/

section Sharing

variable {s : Schema} {eng : SearchEngine s} {idx : Index s}

def leafOf (idx : Index s) (page : ℕ) : Leaf s :=
  match leafAtPage idx.file page with
  | .ok l => l
  | .error _ => ⟨[], .zero, false, false, 0, .invalid, []⟩

lemma leafAtPage_eq {page : ℕ} {l : Leaf s} (h : leafAtPage idx.file page = .ok l) :
    leafAtPage idx.file page = .ok (leafOf idx page) := by
  rw [h, leafOf, h]

/-- The pages of these candidates hold leaves. -/
def Readable (idx : Index s) (cands : List LeafCandidate) : Prop :=
  ∀ c ∈ cands, leafAtPage idx.file c.page = .ok (leafOf idx c.page)

def probesOf (idx : Index s) (cands : List LeafCandidate) : List (Probe s) :=
  cands.zipIdx.map fun x => ⟨x.2, x.1.page, leafOf idx x.1.page⟩

lemma readProbes_eq_ok {cands : List LeafCandidate} {ps : List (Probe s)} :
    readProbes idx cands = .ok ps ↔ Readable idx cands ∧ ps = probesOf idx cands := by
  constructor
  · intro h
    have hread : ∀ x ∈ cands.zipIdx, leafAtPage idx.file x.1.page = .ok (leafOf idx x.1.page) := by
      intro x hx
      obtain ⟨p, hp⟩ := exists_ok_of_mapM_eq_ok h hx
      obtain ⟨l, hl, -⟩ := bind_eq_ok.mp hp
      exact leafAtPage_eq hl
    refine ⟨fun c hc => ?_, ?_⟩
    · obtain ⟨i, hi⟩ := List.mem_iff_getElem?.mp hc
      exact hread (c, i) (List.mem_zipIdx_iff_getElem?.mpr hi)
    · have hok : readProbes idx cands = .ok (probesOf idx cands) :=
        mapM_ok fun x hx => by rw [hread x hx, ok_bind]
      exact Except.ok.inj (h.symm.trans hok)
  · rintro ⟨hread, rfl⟩
    refine mapM_ok fun x hx => ?_
    rw [hread x.1 (List.fst_mem_of_mem_zipIdx hx), ok_bind]

def refsOf (i : ℕ) (cands : List LeafCandidate) : List ProbeRef :=
  cands.zipIdx.map fun c => ⟨c.1.page, i, c.2⟩

lemma filter_qidx_flatMap (states : List QueryState) (n i : ℕ) :
    ((states.zipIdx n).flatMap fun x => refsOf x.2 x.1.candidates).filter (·.qidx = i) =
      if n ≤ i then ((states[i - n]?).map fun st => refsOf i st.candidates).getD [] else [] := by
  have hsame : ∀ j cands, (refsOf j cands).filter (·.qidx = i) = if j = i then refsOf i cands else [] := by
    intro j cands
    split
    case isTrue h =>
      subst h
      refine List.filter_eq_self.mpr fun r hr => ?_
      obtain ⟨c, -, rfl⟩ := List.mem_map.mp hr
      exact decide_eq_true rfl
    case isFalse h =>
      refine List.filter_eq_nil_iff.mpr fun r hr => ?_
      obtain ⟨c, -, rfl⟩ := List.mem_map.mp hr
      simpa using h
  induction states generalizing n with
  | nil => simp
  | cons st states ih =>
    rw [List.zipIdx_cons, List.flatMap_cons, List.filter_append, ih, hsame]
    by_cases h : n = i
    · subst h
      simp
    · rw [if_neg h, List.nil_append]
      by_cases hle : n ≤ i
      · obtain ⟨d, hd⟩ : ∃ d, i - n = d + 1 := ⟨i - n - 1, by omega⟩
        rw [if_pos hle, if_pos (by omega), hd, List.getElem?_cons_succ, show i - (n + 1) = d by omega]
      · rw [if_neg hle, if_neg (by omega)]

lemma filter_probeRefs {states : List QueryState} {i : ℕ} {st : QueryState} (hst : states[i]? = some st) :
    ((probeRefs states).filter (·.qidx = i)).Perm (refsOf i st.candidates) := by
  have hperm := (List.perm_insertionSort (fun a b : ProbeRef => a.key ≤ b.key)
    (states.zipIdx.flatMap fun x => refsOf x.2 x.1.candidates)).filter (·.qidx = i)
  rw [filter_qidx_flatMap, if_pos (Nat.zero_le i), Nat.sub_zero, hst] at hperm
  exact hperm

def sweepPages (states : List QueryState) : List ℕ := ((probeRefs states).map (·.page)).destutter (· ≠ ·)

lemma sweepPages_eq_dedup (states : List QueryState) :
    sweepPages states = ((probeRefs states).map (·.page)).dedup := by
  refine List.Pairwise.destutter_eq_dedup (r := (· ≤ ·)) (List.pairwise_map.mpr ?_)
  have htrans : IsTrans ProbeRef fun a b => a.key ≤ b.key := ⟨fun _ _ _ hab hbc => le_trans hab hbc⟩
  have htotal : Std.Total fun a b : ProbeRef => a.key ≤ b.key := ⟨fun _ _ => le_total _ _⟩
  refine (List.pairwise_insertionSort (fun a b : ProbeRef => a.key ≤ b.key) _).imp fun {a b} hab => ?_
  rcases Prod.Lex.le_iff.mp hab with h | ⟨h, -⟩
  · exact h.le
  · exact h.le

lemma mem_sweepPages {states : List QueryState} {p : ℕ} :
    p ∈ sweepPages states ↔ ∃ st ∈ states, ∃ c ∈ st.candidates, c.page = p := by
  rw [sweepPages_eq_dedup, List.mem_dedup, List.mem_map]
  have hmem : ∀ r, r ∈ probeRefs states ↔
      ∃ x ∈ states.zipIdx, r ∈ refsOf x.2 x.1.candidates := fun r => by
    rw [probeRefs, List.mem_insertionSort, List.mem_flatMap]
    rfl
  constructor
  · rintro ⟨r, hr, rfl⟩
    obtain ⟨x, hx, hr⟩ := (hmem r).mp hr
    obtain ⟨c, hc, rfl⟩ := List.mem_map.mp hr
    exact ⟨x.1, List.fst_mem_of_mem_zipIdx hx, c.1, List.fst_mem_of_mem_zipIdx hc, rfl⟩
  · rintro ⟨st, hst, c, hc, rfl⟩
    obtain ⟨i, hi⟩ := List.mem_iff_getElem?.mp hst
    obtain ⟨j, hj⟩ := List.mem_iff_getElem?.mp hc
    refine ⟨⟨c.page, i, j⟩, (hmem _).mpr ⟨(st, i), List.mem_zipIdx_iff_getElem?.mpr hi, ?_⟩, rfl⟩
    exact List.mem_map.mpr ⟨(c, j), List.mem_zipIdx_iff_getElem?.mpr hj, rfl⟩

def sweptLeaves (idx : Index s) (states : List QueryState) : List (UniqueLeaf s) :=
  (sweepPages states).map fun p => ⟨p, leafOf idx p, (probeRefs states).filter (·.page = p)⟩

lemma uniqueLeaves_eq_ok {states : List QueryState} {leaves : List (UniqueLeaf s)} :
    uniqueLeaves idx (probeRefs states) = .ok leaves ↔
      (∀ st ∈ states, Readable idx st.candidates) ∧ leaves = sweptLeaves idx states := by
  constructor
  · intro h
    have hread : ∀ p ∈ sweepPages states, leafAtPage idx.file p = .ok (leafOf idx p) := by
      intro p hp
      obtain ⟨u, hu⟩ := exists_ok_of_mapM_eq_ok h hp
      obtain ⟨l, hl, -⟩ := bind_eq_ok.mp hu
      exact leafAtPage_eq hl
    refine ⟨fun st hst c hc => hread c.page (mem_sweepPages.mpr ⟨st, hst, c, hc, rfl⟩), ?_⟩
    have hok : uniqueLeaves idx (probeRefs states) = .ok (sweptLeaves idx states) :=
      mapM_ok fun p hp => by rw [hread p hp, ok_bind]
    exact Except.ok.inj (h.symm.trans hok)
  · rintro ⟨hread, rfl⟩
    refine mapM_ok fun p hp => ?_
    obtain ⟨st, hst, c, hc, rfl⟩ := mem_sweepPages.mp hp
    rw [hread st hst c hc, ok_bind]

/-- The probes of a query among some leaves of the sweep. -/
def queryProbes (i : ℕ) (leaves : List (UniqueLeaf s)) : List (Probe s) :=
  leaves.flatMap fun u => (u.refs.filter (·.qidx = i)).map fun r => ⟨r.slot, u.page, u.leaf⟩

lemma flatten_queryGroups (i : ℕ) (leaves : List (UniqueLeaf s)) :
    (queryGroups eng i leaves).flatten = queryProbes i leaves := by
  have hpos : 0 < if eng.batchScan then 4 else 1 := by split <;> omega
  induction leaves with
  | nil => rfl
  | cons u leaves ih =>
    rw [queryGroups, queryProbes, List.flatMap_cons, List.flatMap_cons, List.flatten_append]
    refine congrArg₂ (· ++ ·) ?_ ih
    rw [← List.flatMap_def, ← List.map_flatMap, List.flatMap_def, ← List.filter_flatten,
      flatten_slices hpos]

lemma queryProbes_perm {i : ℕ} {leaves leaves' : List (UniqueLeaf s)} (h : leaves.Perm leaves') :
    (queryProbes i leaves).Perm (queryProbes i leaves') := h.flatMap_right _

lemma queryProbes_sweptLeaves {states : List QueryState} {i : ℕ} {st : QueryState}
    (hst : states[i]? = some st) :
    (queryProbes i (sweptLeaves idx states)).Perm (probesOf idx st.candidates) := by
  set refs := (probeRefs states).filter (·.qidx = i) with hrefs
  have hprobe : queryProbes i (sweptLeaves idx states) =
      ((sweepPages states).flatMap fun p => refs.filter (·.page = p)).map fun r =>
        ⟨r.slot, r.page, leafOf idx r.page⟩ := by
    rw [queryProbes, sweptLeaves, List.flatMap_map, List.map_flatMap]
    refine List.flatMap_congr fun p _ => ?_
    rw [hrefs, List.filter_comm]
    refine List.map_congr_left fun r hr => ?_
    rw [of_decide_eq_true (List.mem_filter.mp hr).2]
  have hall : ((sweepPages states).flatMap fun p => refs.filter (·.page = p)).Perm refs := by
    have hnodup : (sweepPages states).Nodup := by
      rw [sweepPages_eq_dedup]
      exact List.nodup_dedup _
    have hsum := sum_filter_eq ProbeRef.page (refs : Multiset ProbeRef) hnodup
    rw [Multiset.filter_eq_self.mpr] at hsum
    · rw [← Multiset.coe_eq_coe, coe_flatMap, ← hsum]
      simp only [Multiset.filter_coe]
    · intro r hr
      rw [sweepPages_eq_dedup, List.mem_dedup]
      exact List.mem_map_of_mem (List.mem_of_mem_filter hr)
  rw [hprobe]
  refine ((hall.trans (filter_probeRefs hst)).map _).trans ?_
  rw [refsOf, List.map_map]
  exact .refl _

lemma claimedLeaves_perm (shr : Sharing) (leaves : List (UniqueLeaf s)) :
    ((shr.share (slices kChunk leaves).length).map (claimedLeaves leaves)).flatten.Perm leaves := by
  set chunk : ℕ → List (UniqueLeaf s) := fun c => ((slices kChunk leaves)[c]?).getD [] with hchunk
  have hflat : ∀ shares : List (List ℕ), (shares.map (claimedLeaves leaves)).flatten =
      shares.flatten.flatMap chunk := by
    intro shares
    induction shares with
    | nil => rfl
    | cons share shares ih =>
      rw [List.map_cons, List.flatten_cons, ih, List.flatten_cons, List.flatMap_append]
      rfl
  have hrange : (List.range (slices kChunk leaves).length).flatMap chunk = leaves := by
    rw [List.flatMap_def]
    have hmap : (List.range (slices kChunk leaves).length).map chunk = slices kChunk leaves := by
      refine List.ext_getElem? fun c => ?_
      rw [List.getElem?_map]
      rcases lt_or_ge c (slices kChunk leaves).length with hc | hc
      · rw [List.getElem?_range hc, List.getElem?_eq_getElem hc]
        simp [hchunk, List.getElem?_eq_getElem hc]
      · rw [List.getElem?_eq_none hc, List.getElem?_eq_none (by simpa using hc)]
        rfl
    rw [hmap, flatten_slices (by decide)]
  rw [hflat]
  refine ((shr.perm _).flatMap_right chunk).trans ?_
  rw [hrange]

end Sharing

/-! ### Finishing a query -/

section Finish

variable {s : Schema} {eng : SearchEngine s} {idx : Index s} {cfg : SearchConfig} {k : ℕ}

lemma slots_probesOf (cands : List LeafCandidate) :
    ((probesOf idx cands).map Probe.slot).Nodup := by
  have hslots : (probesOf idx cands).map Probe.slot = cands.zipIdx.map Prod.snd := by
    rw [probesOf, List.map_map]
    rfl
  rw [hslots, List.zipIdx_map_snd]
  exact List.nodup_range'

lemma scored_subset {q : Vec} {ps ps' : List (Probe s)} (h : ps ⊆ ps') :
    scored eng q ps ⊆ scored eng q ps' := by
  intro x hx
  obtain ⟨p, hp, hx⟩ := List.mem_flatMap.mp hx
  exact List.mem_flatMap.mpr ⟨p, h hp, hx⟩

lemma topk_of_none {w : ℕ} {q : Vec} {preds : List Resolved} {ps : List (Probe s)}
    (h : smallest w ((entries eng q ps).filter HeapEntry.IsReal) = 0) :
    topk cfg k (passing eng cfg q preds (shortlist eng w q ps)) = .ok [] := by
  have hnil : shortlist eng w q ps = [] := by
    rw [shortlist, h]
    exact List.filter_eq_nil_iff.mpr fun x _ => by simp
  rw [hnil]
  exact topk_empty cfg k

section Workers

variable {q : Vec} {st : QueryState} {i : ℕ} {leaves : List (UniqueLeaf s)}

variable (eng cfg q st i leaves) in
lemma workerPartial_cases (claimed : List ℕ) :
    queryProbes i (claimedLeaves leaves claimed) = [] ∧
        workerPartial eng cfg q st i leaves claimed = none ∨
      workerPartial eng cfg q st i leaves claimed = some
        ((queryGroups eng i (claimedLeaves leaves claimed)).foldl (scanGroup eng cfg st.w q st.preds)
          .init) := by
  rw [workerPartial, flatten_queryGroups]
  by_cases hnil : queryProbes i (claimedLeaves leaves claimed) = []
  · rw [hnil]
    exact .inl ⟨rfl, rfl⟩
  · exact .inr (if_neg (by simpa using hnil))

variable (hguard : eng.unguardedFlush = false) (hw : 0 < st.w)

include hguard hw

lemma workerPartial_spec {claimed : List ℕ} {pt : Partial}
    (hslots : ((queryProbes i (claimedLeaves leaves claimed)).map Probe.slot).Nodup)
    (hpt : workerPartial eng cfg q st i leaves claimed = some pt) :
    (contents st.w pt.heap).filter HeapEntry.IsReal = smallest st.w
        ((entries eng q (queryProbes i (claimedLeaves leaves claimed))).filter HeapEntry.IsReal) ∧
      (∀ e ∈ contents st.w pt.heap, e.IsReal → ∃ pe ∈ contents st.w pt.pool, pe.entry = e) ∧
      ∀ pe ∈ contents st.w pt.pool, pe.entry.IsReal →
        ∃ x ∈ scored eng q (queryProbes i (claimedLeaves leaves claimed)),
          pe = harvested eng cfg q st.preds x.2.1.leaf x.2.2 x.1 := by
  rcases workerPartial_cases eng cfg q st i leaves claimed with ⟨-, hnone⟩ | hsome
  · rw [hnone] at hpt
    cases hpt
  · rw [hsome] at hpt
    exact worker_spec hguard hw hslots (flatten_queryGroups i _) (Option.some.inj hpt)

variable (cfg q) in
lemma sum_workers {shares : List (List ℕ)}
    (hslots : ∀ c ∈ shares, ((queryProbes i (claimedLeaves leaves c)).map Probe.slot).Nodup) :
    ((shares.filterMap (workerPartial eng cfg q st i leaves)).map fun pt =>
        (contents st.w pt.heap).filter HeapEntry.IsReal).sum =
      ((shares.map fun c => (entries eng q (queryProbes i (claimedLeaves leaves c))).filter
        HeapEntry.IsReal).map (smallest st.w)).sum := by
  induction shares with
  | nil => rfl
  | cons c shares ih =>
    have hrest := ih fun c' hc' => hslots c' (List.mem_cons_of_mem c hc')
    rw [List.map_cons, List.map_cons, List.sum_cons, ← hrest]
    cases hpt : workerPartial eng cfg q st i leaves c with
    | none =>
      rcases workerPartial_cases eng cfg q st i leaves c with ⟨hnil, -⟩ | hsome
      · have hzero : smallest st.w ((entries eng q (queryProbes i (claimedLeaves leaves c))).filter
            HeapEntry.IsReal) = 0 := by
          rw [hnil]
          exact smallest_of_card_le (Nat.zero_le _)
        rw [List.filterMap_cons_none hpt, hzero, zero_add]
      · rw [hpt] at hsome
        cases hsome
    | some pt =>
      rw [List.filterMap_cons_some hpt, List.map_cons, List.sum_cons,
        (workerPartial_spec hguard hw (hslots c List.mem_cons_self) hpt).1]

/-! Workers whose probes together are the probes `ps` of the query. -/

variable {shares : List (List ℕ)} {ps : List (Probe s)}
  (hparts : (shares.map fun c => queryProbes i (claimedLeaves leaves c)).flatten.Perm ps)
  (hps : (ps.map Probe.slot).Nodup)

omit hguard hw

include hparts

lemma queryProbes_subset {c : List ℕ} (hc : c ∈ shares) : queryProbes i (claimedLeaves leaves c) ⊆ ps := by
  intro p hp
  exact hparts.mem_iff.mp (List.mem_flatten.mpr ⟨_, List.mem_map_of_mem hc, hp⟩)

include hps

lemma slots_queryProbes {c : List ℕ} (hc : c ∈ shares) :
    ((queryProbes i (claimedLeaves leaves c)).map Probe.slot).Nodup := by
  have hnodup : ((shares.map fun c => queryProbes i (claimedLeaves leaves c)).flatten.map
      Probe.slot).Nodup := (hparts.map Probe.slot).nodup_iff.mpr hps
  refine hnodup.sublist ((List.sublist_flatten_of_mem ?_).map Probe.slot)
  exact List.mem_map_of_mem hc

include hguard hw

variable (cfg q) in
lemma coe_mergeHeaps_workers :
    (mergeHeaps st.w (((shares.filterMap (workerPartial eng cfg q st i leaves)).flatMap fun pt =>
        slots st.w pt.heap).filter (HeapEntry.IsReal ·)) : Multiset HeapEntry) =
      smallest st.w ((entries eng q ps).filter HeapEntry.IsReal) := by
  have hentries : ((shares.map fun c => (entries eng q
      (queryProbes i (claimedLeaves leaves c))).filter HeapEntry.IsReal)).sum =
      (entries eng q ps).filter HeapEntry.IsReal := by
    rw [← entries_perm hparts, entries_flatten, filter_sum, List.map_map, List.map_map]
    rfl
  have hsum := sum_workers cfg q hguard hw fun c hc => slots_queryProbes hparts hps hc
  rw [coe_mergeHeaps, ← Multiset.filter_coe, coe_flatMap, filter_sum, List.map_map, ← hentries,
    ← smallest_sum_smallest (shares.map _), ← hsum]
  rfl

lemma pool_covers {e : HeapEntry}
    (he : e ∈ mergeHeaps st.w (((shares.filterMap (workerPartial eng cfg q st i leaves)).flatMap fun pt =>
      slots st.w pt.heap).filter (HeapEntry.IsReal ·))) :
    ∃ pe ∈ ((shares.filterMap (workerPartial eng cfg q st i leaves)).flatMap fun pt =>
      slots st.w pt.pool).filter (HeapEntry.IsReal ·.entry), pe.entry = e := by
  rw [← Multiset.mem_coe, coe_mergeHeaps] at he
  have he' := Multiset.mem_coe.mp (mem_of_mem_smallest he)
  obtain ⟨he', hreal⟩ := List.mem_filter.mp he'
  have hreal : e.IsReal := of_decide_eq_true hreal
  obtain ⟨pt, hpt, he'⟩ := List.mem_flatMap.mp he'
  obtain ⟨c, hc, hworker⟩ := List.mem_filterMap.mp hpt
  obtain ⟨pe, hpe, rfl⟩ := (workerPartial_spec hguard hw (slots_queryProbes hparts hps hc) hworker).2.1 e
    he' hreal
  exact ⟨pe, List.mem_filter.mpr ⟨List.mem_flatMap.mpr ⟨pt, hpt, hpe⟩, decide_eq_true hreal⟩, rfl⟩

lemma pool_harvested {pe : PoolEntry}
    (hpe : pe ∈ ((shares.filterMap (workerPartial eng cfg q st i leaves)).flatMap fun pt =>
      slots st.w pt.pool).filter (HeapEntry.IsReal ·.entry)) :
    ∃ x ∈ scored eng q ps, pe = harvested eng cfg q st.preds x.2.1.leaf x.2.2 x.1 := by
  obtain ⟨hpe, hreal⟩ := List.mem_filter.mp hpe
  have hreal : pe.entry.IsReal := of_decide_eq_true hreal
  obtain ⟨pt, hpt, hpe⟩ := List.mem_flatMap.mp hpe
  obtain ⟨c, hc, hworker⟩ := List.mem_filterMap.mp hpt
  obtain ⟨x, hx, heq⟩ := (workerPartial_spec hguard hw (slots_queryProbes hparts hps hc) hworker).2.2 pe
    hpe hreal
  exact ⟨x, scored_subset (queryProbes_subset hparts hc) hx, heq⟩

end Workers

/-- **A query of a batch** gets the cut of its own shortlist, whoever scanned its leaves. -/
theorem finishQuery_eq (hguard : eng.unguardedFlush = false) {states : List QueryState} {i : ℕ}
    {b : BatchQuery} {st : QueryState} (hst : states[i]? = some st)
    (hwidth : st.candidates ≠ [] → 0 < st.w) (hfall : st.fallback = false) (lib : DistanceCut)
    (ord : ScanOrder s) (shr : Sharing) :
    finishQuery eng idx lib ord shr cfg k (sweptLeaves idx states) i b st =
      topk cfg k (passing eng cfg b.query st.preds
        (shortlist eng st.w b.query (probesOf idx st.candidates))) := by
  set leaves := sweptLeaves idx states
  have hparts : ((shr.share (slices kChunk leaves).length).map fun c =>
      queryProbes i (claimedLeaves leaves c)).flatten.Perm (probesOf idx st.candidates) := by
    have hflat : ∀ shares : List (List ℕ), (shares.map fun c => queryProbes i
        (claimedLeaves leaves c)).flatten = queryProbes i (shares.map (claimedLeaves leaves)).flatten := by
      intro shares
      induction shares with
      | nil => rfl
      | cons c shares ih =>
        rw [List.map_cons, List.flatten_cons, ih, List.map_cons, List.flatten_cons]
        exact List.flatMap_append.symm
    rw [hflat]
    exact (queryProbes_perm (claimedLeaves_perm shr leaves)).trans (queryProbes_sweptLeaves hst)
  have hnum : Numbered (probesOf idx st.candidates) := by
    intro j p hp
    rw [probesOf, List.getElem?_map, Option.map_eq_some_iff] at hp
    obtain ⟨x, hx, rfl⟩ := hp
    rw [List.getElem?_zipIdx, Option.map_eq_some_iff] at hx
    obtain ⟨c, -, rfl⟩ := hx
    exact Nat.zero_add j
  rw [finishQuery, hfall, if_neg Bool.false_ne_true]
  dsimp only
  by_cases hnil : st.candidates = []
  · rw [hnil, List.isEmpty_nil, Bool.true_or, Bool.true_or, if_pos rfl]
    exact (topk_of_none (smallest_of_card_le (Nat.zero_le _))).symm
  have hw := hwidth hnil
  have hes := coe_mergeHeaps_workers cfg b.query hguard hw hparts
    (slots_probesOf st.candidates)
  split
  case isTrue hempty =>
    have hzero : mergeHeaps st.w ((((shr.share (slices kChunk leaves).length).filterMap
        (workerPartial eng cfg b.query st i leaves)).flatMap fun pt => slots st.w pt.heap).filter
        (HeapEntry.IsReal ·)) = [] := by
      rcases Bool.or_eq_true_iff.mp hempty with h | h
      · rcases Bool.or_eq_true_iff.mp h with h | h
        · exact absurd (List.isEmpty_iff.mp h) hnil
        · exact List.isEmpty_iff.mp h
      · rw [List.isEmpty_iff.mp h]
        rfl
    refine (topk_of_none ?_).symm
    rw [← hes, hzero]
    rfl
  case isFalse =>
    exact finalizePoolQuery_eq hnum hes
      (fun e he => pool_covers hguard hw hparts (slots_probesOf st.candidates) he)
      fun pe hpe => pool_harvested hguard hw hparts (slots_probesOf st.candidates) hpe

end Finish

end SextantTree
