import SextantTree.BatchSpec

/-!
The pools of a sweep. Workers scan the leaves of a query in any order and with any sharing, each
with a heap and a pool of its own; what survives in the merged heaps is looked up in the merged
pools. It is there when every candidate is compared with the front of the heap it enters; the
flush that replaces the front unseen can leave a survivor that its pool has turned away.
-/

namespace SextantTree

open BoundedHeap Outcome

section

variable {s : Schema} (eng : SearchEngine s) (cfg : SearchConfig) (w : ℕ) (q : Vec)
  (preds : List Resolved)

/-- What a worker has for a query after some groups of scans. -/
def partialOf (groups : List (List (Probe s))) : Partial :=
  groups.foldl (scanGroup eng cfg w q preds) .init

/-- The merged heaps of the workers, each given by the groups of leaves it scans. -/
def mergedHeap (workers : List (List (List (Probe s)))) : List HeapEntry :=
  mergeHeaps w ((workers.flatMap fun g => slots w (partialOf eng cfg w q preds g).heap).filter
    (HeapEntry.IsReal ·))

def mergedPool (workers : List (List (List (Probe s)))) : List PoolEntry :=
  (workers.flatMap fun g => slots w (partialOf eng cfg w q preds g).pool).filter
    (HeapEntry.IsReal ·.entry)

/-- `finalize_pool_query_` finds every survivor, with what was resolved for its own row. -/
def FindsSurvivors (workers : List (List (List (Probe s)))) : Prop :=
  ∀ e ∈ mergedHeap eng cfg w q preds workers, ∃ p ∈ workers.flatten.flatten, ∃ row,
    p.slot = e.leafSlot ∧ p.leaf.rows[e.localIdx]? = some row ∧
      poolLookup (mergedPool eng cfg w q preds workers) e =
        some (harvested eng cfg q preds p.leaf row e)

end

/-- With this kind of flush every survivor is found, whatever the widths, the workers and the
scans are. A query probes a leaf under one slot. -/
def PoolContainsSurvivors (unguardedFlush : Bool) : Prop :=
  ∀ (s : Schema) (eng : SearchEngine s), eng.unguardedFlush = unguardedFlush →
    ∀ (cfg : SearchConfig) (w : ℕ) (q : Vec) (preds : List Resolved)
      (workers : List (List (List (Probe s)))), 1 ≤ w →
      (workers.flatten.flatten.map Probe.slot).Nodup → FindsSurvivors eng cfg w q preds workers

section

variable {s : Schema} {eng : SearchEngine s} {cfg : SearchConfig} {w : ℕ} {q : Vec}
  {preds : List Resolved}

lemma scored_inj {ps : List (Probe s)} (hslots : (ps.map Probe.slot).Nodup)
    {x y : HeapEntry × Probe s × LeafRow s} (hx : x ∈ scored eng q ps) (hy : y ∈ scored eng q ps)
    (hat : (ofLex x.1).2 = (ofLex y.1).2) : x = y := by
  obtain ⟨p, hp, hx⟩ := List.mem_flatMap.mp hx
  obtain ⟨u, hu, rfl⟩ := List.mem_map.mp hx
  obtain ⟨p', hp', hy⟩ := List.mem_flatMap.mp hy
  obtain ⟨u', hu', rfl⟩ := List.mem_map.mp hy
  have hslot : p.slot = p'.slot := congrArg (fun z => (ofLex z).1) hat
  obtain rfl : p = p' := List.inj_on_of_nodup_map hslots hp hp' hslot
  have hidx : u.2 = u'.2 := congrArg (fun z => (ofLex z).2) hat
  have hrow : u.1 = u'.1 := by
    rw [List.mem_zipIdx_iff_getElem?] at hu hu'
    rw [hidx, hu'] at hu
    exact (Option.some.inj hu).symm
  obtain rfl : u = u' := Prod.ext hrow hidx
  rfl

lemma slots_worker {workers : List (List (List (Probe s)))}
    (hslots : (workers.flatten.flatten.map Probe.slot).Nodup) {g : List (List (Probe s))}
    (hg : g ∈ workers) : (g.flatten.map Probe.slot).Nodup :=
  hslots.sublist ((List.sublist_flatten_of_mem hg).flatten.map Probe.slot)

lemma scored_worker {workers : List (List (List (Probe s)))} {g : List (List (Probe s))}
    (hg : g ∈ workers) : scored eng q g.flatten ⊆ scored eng q workers.flatten.flatten :=
  scored_subset (List.sublist_flatten_of_mem hg).flatten.subset

/-- **Guarded scans**: every survivor is found in the pool. -/
lemma findsSurvivors_of_guarded (hguard : eng.unguardedFlush = false) (hw : 1 ≤ w)
    {workers : List (List (List (Probe s)))}
    (hslots : (workers.flatten.flatten.map Probe.slot).Nodup) :
    FindsSurvivors eng cfg w q preds workers := by
  have hspec : ∀ g ∈ workers, _ := fun g hg =>
    worker_spec hguard hw (slots_worker hslots hg) rfl
      (rfl : g.foldl (scanGroup eng cfg w q preds) .init = partialOf eng cfg w q preds g)
  have hof : ∀ pe ∈ mergedPool eng cfg w q preds workers, ∃ x ∈ scored eng q workers.flatten.flatten,
      pe = harvested eng cfg q preds x.2.1.leaf x.2.2 x.1 := by
    intro pe hpe
    obtain ⟨hpe, hreal⟩ := List.mem_filter.mp hpe
    obtain ⟨g, hg, hpe⟩ := List.mem_flatMap.mp hpe
    obtain ⟨x, hx, heq⟩ := (hspec g hg).2.2 pe (Multiset.mem_coe.mpr hpe) (of_decide_eq_true hreal)
    exact ⟨x, scored_worker hg hx, heq⟩
  intro e he
  rw [mergedHeap, ← Multiset.mem_coe, coe_mergeHeaps] at he
  obtain ⟨he, hreal⟩ := List.mem_filter.mp (Multiset.mem_coe.mp (mem_of_mem_smallest he))
  have hreal : e.IsReal := of_decide_eq_true hreal
  obtain ⟨g, hg, he⟩ := List.mem_flatMap.mp he
  obtain ⟨pe, hpe, rfl⟩ := (hspec g hg).2.1 e (Multiset.mem_coe.mpr he) hreal
  have hmem : pe ∈ mergedPool eng cfg w q preds workers :=
    List.mem_filter.mpr ⟨List.mem_flatMap.mpr ⟨g, hg, Multiset.mem_coe.mp hpe⟩, decide_eq_true hreal⟩
  obtain ⟨x, hx, rfl⟩ := hof pe hmem
  have huniq : ∀ pe' ∈ mergedPool eng cfg w q preds workers,
      (ofLex pe'.entry).2 = (ofLex x.1).2 → pe' = harvested eng cfg q preds x.2.1.leaf x.2.2 x.1 := by
    intro pe' hpe' hat
    obtain ⟨y, hy, rfl⟩ := hof pe' hpe'
    rw [scored_inj hslots hy hx hat]
  obtain ⟨p, hp, hx'⟩ := List.mem_flatMap.mp hx
  obtain ⟨u, hu, rfl⟩ := List.mem_map.mp hx'
  exact ⟨p, hp, u.1, rfl, List.mem_zipIdx_iff_getElem?.mp hu, poolLookup_eq hmem rfl huniq⟩

end

/-! ### The unguarded flush -/

/-- An engine with the unguarded flush that scans a row with its id for a key. -/
def flushEngine : SearchEngine bareSchema :=
  { tableEngine bareSchema none id 0 with
    scanKey := fun _ l i => ((l.rows[i]?).elim 0 (·.rowId)) % 2 ^ 32
    scanKey_lt := fun _ _ _ => Nat.mod_lt _ (by norm_num)
    unguardedFlush := true }

/-- One worker and two leaves. The second fills a block of the flush: its first row replaces the
front, its second one a row that is nearer. -/
def flushWorkers : List (List (List (Probe bareSchema))) :=
  [[[⟨0, 4, plainLeaf [bareRow 5, bareRow 10]⟩],
    [⟨1, 5, plainLeaf ([1, 9].map bareRow ++ List.replicate 14 (bareRow 20))⟩]]]

lemma not_findsSurvivors_flush : ¬ FindsSurvivors flushEngine {} 2 [] [] flushWorkers := by
  intro h
  have hmem : .make 9 1 1 ∈ mergedHeap flushEngine {} 2 [] [] flushWorkers := by decide +kernel
  have hnone : poolLookup (mergedPool flushEngine {} 2 [] [] flushWorkers) (.make 9 1 1) = none := by
    decide +kernel
  obtain ⟨p, -, row, -, -, hfound⟩ := h _ hmem
  rw [hnone] at hfound
  cases hfound

theorem pool_misses_survivor :
    (flushWorkers.flatten.flatten.map Probe.slot).Nodup ∧
      ¬ FindsSurvivors flushEngine {} 2 [] [] flushWorkers :=
  ⟨by decide, not_findsSurvivors_flush⟩

/-- **The pool contains every survivor** if and only if the leaf scans compare every candidate with
the front of the heap. -/
theorem pool_contains_survivors_iff (unguardedFlush : Bool) :
    PoolContainsSurvivors unguardedFlush ↔ unguardedFlush = false := by
  constructor
  · intro h
    cases unguardedFlush with
    | false => rfl
    | true =>
      exact absurd (h bareSchema flushEngine rfl {} 2 [] [] flushWorkers (by decide) (by decide))
        not_findsSurvivors_flush
  · rintro rfl s eng hguard cfg w q preds workers hw hslots
    exact findsSurvivors_of_guarded hguard hw hslots

end SextantTree
