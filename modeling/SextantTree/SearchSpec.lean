import Mathlib.Data.Finset.Sort
import Mathlib.Data.List.Destutter
import SextantTree.Outcome
import SextantTree.Search
import SextantTree.SummarySound

/-!
What a search returns, as a function of the rows of its candidate leaves: neither the order in
which the leaves are scanned nor the number of threads shows in it.
-/

namespace SextantTree

open BoundedHeap Outcome

/-! ### The cut -/

lemma Candidate.ext_iff' {a b : Candidate} : a = b ↔ a.rowId = b.rowId ∧ a.dist = b.dist := by
  cases a
  cases b
  simp

instance : IsTrans Candidate rowLe := ⟨fun _ _ _ hab hbc => le_trans (α := ℕ ×ₗ ℚ) hab hbc⟩

instance : Std.Total rowLe := ⟨fun a b => le_total (toLex (a.rowId, a.dist)) (toLex (b.rowId, b.dist))⟩

instance : IsTrans Candidate totalLe := ⟨fun _ _ _ hab hbc => le_trans (α := ℚ ×ₗ ℕᵒᵈ) hab hbc⟩

instance : Std.Total totalLe :=
  ⟨fun a b => le_total (toLex (a.dist, OrderDual.toDual a.rowId)) (toLex (b.dist, OrderDual.toDual b.rowId))⟩

instance : Std.Antisymm totalLe where
  antisymm a b hab hba := by
    have h : toLex (a.dist, OrderDual.toDual a.rowId) = toLex (b.dist, OrderDual.toDual b.rowId) :=
      le_antisymm hab hba
    have h' := Prod.ext_iff.mp (toLex.injective h)
    exact Candidate.ext_iff'.mpr ⟨OrderDual.toDual.injective h'.2, h'.1⟩

lemma rowLe_iff {a b : Candidate} :
    rowLe a b ↔ a.rowId < b.rowId ∨ a.rowId = b.rowId ∧ a.dist ≤ b.dist :=
  Prod.Lex.toLex_le_toLex

/-- The candidates that no replica of the same row is nearer than. -/
def nearestReplicas (S : Finset Candidate) : Finset Candidate :=
  S.filter fun c => ∀ d ∈ S, d.rowId = c.rowId → c.dist ≤ d.dist

lemma mem_destutter'_iff {a : Candidate} {l : List Candidate} (hl : (a :: l).Pairwise rowLe)
    {c : Candidate} :
    c ∈ l.destutter' (fun a b => a.rowId ≠ b.rowId) a ↔
      c ∈ a :: l ∧ ∀ d ∈ a :: l, d.rowId = c.rowId → c.dist ≤ d.dist := by
  induction l generalizing a with
  | nil =>
    simp only [List.destutter'_nil, List.mem_singleton]
    exact ⟨fun h => ⟨h, fun d hd _ => by rw [h, hd]⟩, And.left⟩
  | cons b l ih =>
    obtain ⟨ha, hbl⟩ := List.pairwise_cons.mp hl
    have hab := rowLe_iff.mp (ha b List.mem_cons_self)
    by_cases hrow : a.rowId = b.rowId
    · -- a replica of the row before it is dropped
      have hal : (a :: l).Pairwise rowLe :=
        List.pairwise_cons.mpr ⟨fun x hx => ha x (List.mem_cons_of_mem b hx),
          (List.pairwise_cons.mp hbl).2⟩
      have hdist : a.dist ≤ b.dist := by
        rcases hab with hlt | ⟨-, hle⟩
        · exact absurd hrow hlt.ne
        · exact hle
      rw [List.destutter'_cons_neg _ (by simpa using hrow), ih hal]
      simp only [List.mem_cons, forall_eq_or_imp]
      constructor
      · rintro ⟨hc, hca, hmin⟩
        exact ⟨hc.imp_right .inr, hca, fun hbc => (hca (hrow.trans hbc)).trans hdist, hmin⟩
      · rintro ⟨rfl | rfl | hc, hca, -, hmin⟩
        · exact ⟨.inl rfl, hca, hmin⟩
        · exact ⟨.inl (Candidate.ext_iff'.mpr ⟨hrow.symm, (hca hrow).antisymm hdist⟩), hca, hmin⟩
        · exact ⟨.inr hc, hca, hmin⟩
    · have hlt : ∀ d ∈ b :: l, a.rowId < d.rowId := by
        intro d hd
        have hbd : b.rowId ≤ d.rowId := by
          rcases List.mem_cons.mp hd with rfl | hd
          · exact le_rfl
          · rcases rowLe_iff.mp ((List.pairwise_cons.mp hbl).1 d hd) with h | ⟨h, -⟩
            · exact h.le
            · exact h.le
        rcases hab with h | ⟨h, -⟩
        · exact h.trans_le hbd
        · exact absurd h hrow
      rw [List.destutter'_cons_pos _ (by simpa using hrow), List.mem_cons, ih hbl]
      constructor
      · rintro (rfl | ⟨hc, hmin⟩)
        · refine ⟨List.mem_cons_self, fun d hd hdc => ?_⟩
          rcases List.mem_cons.mp hd with rfl | hd
          · exact le_rfl
          · exact absurd hdc (hlt d hd).ne'
        · refine ⟨List.mem_cons_of_mem a hc, fun d hd hdc => ?_⟩
          rcases List.mem_cons.mp hd with rfl | hd
          · exact absurd hdc (hlt c hc).ne
          · exact hmin d hd hdc
      · rintro ⟨hc, hmin⟩
        rcases List.mem_cons.mp hc with rfl | hc
        · exact .inl rfl
        · exact .inr ⟨hc, fun d hd => hmin d (List.mem_cons_of_mem a hd)⟩

lemma mem_uniqueRows {l : List Candidate} {c : Candidate} :
    c ∈ uniqueRows l ↔ c ∈ nearestReplicas l.toFinset := by
  have hsorted := List.pairwise_insertionSort rowLe l
  have hmem : ∀ d, d ∈ l.insertionSort rowLe ↔ d ∈ l := fun d => List.mem_insertionSort rowLe
  simp only [uniqueRows, nearestReplicas, Finset.mem_filter, List.mem_toFinset, ← hmem]
  cases hs : l.insertionSort rowLe with
  | nil => simp
  | cons a t =>
    rw [hs] at hsorted
    exact mem_destutter'_iff hsorted

lemma eq_of_mem_nearestReplicas {S : Finset Candidate} {a b : Candidate} (ha : a ∈ nearestReplicas S)
    (hb : b ∈ nearestReplicas S) (h : a.rowId = b.rowId) : a = b := by
  rw [nearestReplicas, Finset.mem_filter] at ha hb
  exact Candidate.ext_iff'.mpr ⟨h, (ha.2 b hb.1 h.symm).antisymm (hb.2 a ha.1 h)⟩

lemma pairwise_rowId_lt {l : List Candidate} (hsorted : l.Pairwise rowLe)
    (hchain : l.IsChain fun a b => a.rowId ≠ b.rowId) :
    l.Pairwise fun a b => a.rowId < b.rowId := by
  induction l with
  | nil => exact .nil
  | cons a l ih =>
    cases l with
    | nil => exact List.pairwise_singleton _ _
    | cons b l =>
      obtain ⟨ha, hl⟩ := List.pairwise_cons.mp hsorted
      obtain ⟨hab, hchain⟩ := List.isChain_cons_cons.mp hchain
      have hrest := ih hl hchain
      have hlt : a.rowId < b.rowId := by
        rcases rowLe_iff.mp (ha b List.mem_cons_self) with h | ⟨h, -⟩
        · exact h
        · exact absurd h hab
      refine List.pairwise_cons.mpr ⟨fun c hc => ?_, hrest⟩
      rcases List.mem_cons.mp hc with rfl | hc
      · exact hlt
      · exact hlt.trans ((List.pairwise_cons.mp hrest).1 c hc)

lemma nodup_uniqueRows (l : List Candidate) : (uniqueRows l).Nodup := by
  have hsorted : (uniqueRows l).Pairwise rowLe :=
    (List.pairwise_insertionSort rowLe l).sublist (List.destutter_sublist _ _)
  refine (pairwise_rowId_lt hsorted (List.isChain_destutter _ _)).imp fun h heq => ?_
  exact absurd (heq ▸ h) (lt_irrefl _)

/-- **The order of the results.** What is cut depends on the set of results only. -/
theorem sort_uniqueRows (l : List Candidate) :
    (uniqueRows l).insertionSort totalLe = (nearestReplicas l.toFinset).sort totalLe := by
  refine List.Perm.eq_of_pairwise' (r := totalLe) (List.pairwise_insertionSort totalLe _)
    (Finset.pairwise_sort _ _) ?_
  refine (List.perm_insertionSort totalLe _).trans ?_
  refine (List.perm_ext_iff_of_nodup (nodup_uniqueRows l) (Finset.sort_nodup _ _)).mpr fun c => ?_
  rw [mem_uniqueRows, Finset.mem_sort]

def topk (cfg : SearchConfig) (k : ℕ) (S : Finset Candidate) : Except ErrorKind (List Candidate) :=
  let ranked := (nearestReplicas S).sort totalLe
  (keepCount cfg k ranked).map fun n => ranked.take n

lemma cutTopk_eq (cfg : SearchConfig) (k : ℕ) (l : List Candidate) :
    cutTopk cfg k l = topk cfg k l.toFinset := by
  unfold cutTopk topk
  rw [sort_uniqueRows]
  rfl

lemma topk_empty (cfg : SearchConfig) (k : ℕ) : topk cfg k ∅ = .ok [] := by
  have hrank : (nearestReplicas ∅).sort totalLe = [] := by simp [nearestReplicas]
  have hkeep : keepCount cfg k [] = .ok k := if_neg fun h => absurd h.2.2 (Nat.not_lt_zero k)
  simp only [topk, hrank, hkeep, Except.map, List.take_nil]

/-! ### The scan -/

section Slices

variable {β : Type} {g : ℕ}

lemma flatten_slices (hg : 0 < g) (l : List β) : (slices g l).flatten = l := by
  have htake : ∀ k, ((List.range k).map fun i => (l.drop (i * g)).take g).flatten = l.take (k * g) := by
    intro k
    induction k with
    | zero => simp
    | succ k ih =>
      rw [List.range_succ, List.map_append, List.flatten_append, ih, Nat.succ_mul, List.take_add]
      simp
  rw [slices, htake, List.take_of_length_le]
  have hdiv := Nat.div_add_mod (l.length + g - 1) g
  have hmod := Nat.mod_lt (l.length + g - 1) hg
  rw [Nat.mul_comm] at hdiv
  omega

lemma coe_flatMap {γ : Type} (f : β → List γ) (l : List β) :
    ((l.flatMap f : List γ) : Multiset γ) = (l.map fun b => (f b : Multiset γ)).sum := by
  induction l with
  | nil => rfl
  | cons b l ih => rw [List.flatMap_cons, ← Multiset.coe_add, ih, List.map_cons, List.sum_cons]

lemma filter_sum {γ : Type} (p : γ → Prop) [DecidablePred p] (parts : List (Multiset γ)) :
    parts.sum.filter p = (parts.map (·.filter p)).sum := by
  induction parts with
  | nil => rfl
  | cons A parts ih => rw [List.sum_cons, Multiset.filter_add, ih, List.map_cons, List.sum_cons]

lemma exists_mem_of_mem_sum {γ : Type} {parts : List (Multiset γ)} {c : γ} (h : c ∈ parts.sum) :
    ∃ A ∈ parts, c ∈ A := by
  induction parts with
  | nil => cases h
  | cons A parts ih =>
    rcases Multiset.mem_add.mp h with h | h
    · exact ⟨A, List.mem_cons_self, h⟩
    · obtain ⟨B, hB, hc⟩ := ih h
      exact ⟨B, List.mem_cons_of_mem A hB, hc⟩

end Slices

section Scan

variable {s : Schema} (eng : SearchEngine s) (w : ℕ) (q : Vec)

def entries (ps : List (Probe s)) : Multiset HeapEntry := (ps.flatMap (leafEntries eng q) : List HeapEntry)

variable {eng w q}

lemma entries_perm {ps ps' : List (Probe s)} (h : ps.Perm ps') : entries eng q ps = entries eng q ps' :=
  Multiset.coe_eq_coe.mpr (h.flatMap_right _)

lemma entries_append (ps ps' : List (Probe s)) :
    entries eng q (ps ++ ps') = entries eng q ps + entries eng q ps' := by
  simp only [entries, List.flatMap_append, Multiset.coe_add]

lemma entries_flatten (shards : List (List (Probe s))) :
    entries eng q shards.flatten = (shards.map (entries eng q)).sum := by
  induction shards with
  | nil => rfl
  | cons shard shards ih =>
    rw [List.flatten_cons, List.map_cons, List.sum_cons, ← ih, entries_append]

lemma pqDist_lt {ps : List (Probe s)} {e : HeapEntry} (he : e ∈ entries eng q ps) :
    e.pqDist < 2 ^ 32 := by
  rw [entries, Multiset.mem_coe, List.mem_flatMap] at he
  obtain ⟨p, -, he⟩ := he
  obtain ⟨i, -, rfl⟩ := List.mem_map.mp he
  exact eng.scanKey_lt q p.leaf i

lemma keeps_scanAll (hguard : eng.unguardedFlush = false) (hw : 0 < w) (ps : List (Probe s)) :
    Keeps id w (scanAll eng w q ps) (entries eng q ps + Multiset.replicate w .sentinel) := by
  have hleaf : scanLeaf eng w q = fun h p => (leafEntries eng q p).foldl (offer id w) h := by
    funext h p
    rw [scanLeaf, hguard, if_neg Bool.false_ne_true]
  have hinit : Keeps id w heapInit (Multiset.replicate w HeapEntry.sentinel) := keeps_const _
  have hrun := hinit.offers hw (ps.flatMap (leafEntries eng q))
  rwa [List.map_id, List.foldl_flatMap, ← hleaf] at hrun

lemma filter_isReal_scan (ps : List (Probe s)) :
    (entries eng q ps + Multiset.replicate w HeapEntry.sentinel).filter HeapEntry.IsReal =
      (entries eng q ps).filter HeapEntry.IsReal := by
  rw [Multiset.filter_add, add_eq_left, Multiset.filter_eq_nil]
  intro e he
  rw [Multiset.eq_of_mem_replicate he]
  exact fun h => h rfl

lemma le_of_isReal {a b : HeapEntry} (ha : a.pqDist < 2 ^ 32) (hra : a.IsReal) (hrb : ¬ b.IsReal) :
    a ≤ b := by
  have hb : b.pqDist = 2 ^ 32 - 1 := not_not.mp hrb
  have hlt : a.pqDist < b.pqDist := by
    have hne : a.pqDist ≠ 2 ^ 32 - 1 := hra
    omega
  exact (Prod.Lex.lt_iff.mpr (.inl hlt)).le

lemma pqDist_lt_of_mem_scan {ps : List (Probe s)} {e : HeapEntry}
    (he : e ∈ entries eng q ps + Multiset.replicate w .sentinel) : e.pqDist < 2 ^ 32 := by
  rcases Multiset.mem_add.mp he with he | he
  · exact pqDist_lt he
  · rw [Multiset.eq_of_mem_replicate he]
    decide

lemma coe_mergeHeaps (es : List HeapEntry) :
    (mergeHeaps w es : Multiset HeapEntry) = smallest w (es : Multiset HeapEntry) := by
  unfold mergeHeaps
  split
  case isTrue =>
    have hsort : es.insertionSort (· ≤ ·) = (es : Multiset HeapEntry).sort (· ≤ ·) := by
      rw [Multiset.coe_sort, List.mergeSort_eq_insertionSort]
    rw [smallest, hsort]
  case isFalse hlen => rw [smallest_of_card_le (not_lt.mp hlen)]

/-- **The survivors of a scan** are the smallest entries of the leaves, whoever scans them. -/
theorem coe_scanCandidates (hguard : eng.unguardedFlush = false) (hw : 0 < w) (ord : ScanOrder s)
    (threads : ℕ) (ps : List (Probe s)) :
    (scanCandidates eng ord threads w q ps : Multiset HeapEntry) =
      smallest w ((entries eng q ps).filter HeapEntry.IsReal) := by
  have hheap : ∀ shard, (slots w (scanAll eng w q shard) : Multiset HeapEntry) =
      smallest w (entries eng q shard + Multiset.replicate w .sentinel) := fun shard => by
    have hkeys := (keeps_scanAll (q := q) hguard hw shard).keys
    rwa [Multiset.map_id] at hkeys
  unfold scanCandidates
  rw [← Multiset.filter_coe]
  split
  case isTrue hpar =>
    have hper : 0 < (ps.length + min threads ps.length - 1) / min threads ps.length := by
      have hpos : 0 < min threads ps.length := by omega
      exact Nat.div_pos (by omega) hpos
    set shards := slices ((ps.length + min threads ps.length - 1) / min threads ps.length)
      (ord.order ps) with hshards
    have hflat : entries eng q ps = (shards.map (entries eng q)).sum := by
      rw [← entries_flatten, hshards, flatten_slices hper, entries_perm (ord.perm ps)]
    have hsum : (shards.map fun shard => smallest w
        (entries eng q shard + Multiset.replicate w HeapEntry.sentinel)).sum =
        ((shards.map fun shard => entries eng q shard +
          Multiset.replicate w HeapEntry.sentinel).map (smallest w)).sum := by
      rw [List.map_map]
      rfl
    rw [coe_mergeHeaps, coe_flatMap, List.map_congr_left fun shard _ => hheap shard, hsum,
      smallest_sum_smallest, filter_smallest, filter_sum, List.map_map, hflat, filter_sum, List.map_map]
    · refine congrArg (fun parts => smallest w (List.sum parts)) (List.map_congr_left fun shard _ => ?_)
      exact filter_isReal_scan shard
    · intro a ha b hb hra hrb
      refine le_of_isReal ?_ hra hrb
      obtain ⟨A, hA, ha⟩ := exists_mem_of_mem_sum ha
      obtain ⟨shard, -, rfl⟩ := List.mem_map.mp hA
      exact pqDist_lt_of_mem_scan ha
  case isFalse =>
    rw [hheap, filter_smallest fun a ha b _ => le_of_isReal (pqDist_lt_of_mem_scan ha),
      filter_isReal_scan, entries_perm (ord.perm ps)]

end Scan

/-! ### The answers of a query -/

section Answers

variable {s : Schema} (eng : SearchEngine s) (idx : Index s) (cfg : SearchConfig) (k w : ℕ) (q : Vec)
  (preds : List Resolved)

/-- Every row of the candidate leaves with its scan entry. -/
def scored (ps : List (Probe s)) : List (HeapEntry × Probe s × LeafRow s) :=
  ps.flatMap fun p => p.leaf.rows.zipIdx.map fun x =>
    (.make (eng.scanKey q p.leaf x.2) p.slot x.2, p, x.1)

/-- The rows with the `w` smallest scan entries. -/
def shortlist (ps : List (Probe s)) : List (HeapEntry × Probe s × LeafRow s) :=
  (scored eng q ps).filter fun x =>
    x.1 ∈ smallest w ((entries eng q ps).filter HeapEntry.IsReal)

def candidateOf (x : HeapEntry × Probe s × LeafRow s) : Candidate :=
  ⟨x.2.2.rowId, finalDist eng cfg q x.2.1.leaf x.2.2.rowId x.1⟩

/-- The results of those rows that pass the predicates. -/
def passing (xs : List (HeapEntry × Probe s × LeafRow s)) : Finset Candidate :=
  ((xs.filter fun x => evalAllPredicates eng.platform x.2.2.filter preds).map
    (candidateOf eng cfg q)).toFinset

def Numbered (ps : List (Probe s)) : Prop := ∀ (i : ℕ) (p : Probe s), ps[i]? = some p → p.slot = i

variable {eng idx cfg k w q preds} {ps : List (Probe s)}

lemma numbered_of_readProbes {cands : List LeafCandidate} (h : readProbes idx cands = .ok ps) :
    Numbered ps := by
  have hmeets : Meets (fun _ => True) (readProbes idx cands)
      (List.Forall₂ (fun (x : LeafCandidate × ℕ) (p : Probe s) => p.slot = x.2) cands.zipIdx) := by
    refine Meets.mapM fun x _ => ?_
    cases leafAtPage idx.file x.1.page with
    | ok l => rfl
    | error e => trivial
  have hall := hmeets.result h
  intro i p hp
  obtain ⟨hi, rfl⟩ := List.getElem?_eq_some_iff.mp hp
  have hi' : i < cands.zipIdx.length := hall.length_eq ▸ hi
  simpa using hall.get hi' hi

lemma map_fst_scored : (scored eng q ps).map Prod.fst = ps.flatMap (leafEntries eng q) := by
  rw [scored, List.map_flatMap]
  refine List.flatMap_congr fun p _ => ?_
  rw [leafEntries, List.map_map, Leaf.count, List.range_eq_range', ← List.zipIdx_map_snd 0 p.leaf.rows,
    List.map_map]
  rfl

lemma materialize_of_mem_scored (hnum : Numbered ps) {x : HeapEntry × Probe s × LeafRow s}
    (hx : x ∈ scored eng q ps) : materialize ps x.1 = .ok x.2 := by
  obtain ⟨p, hp, hx⟩ := List.mem_flatMap.mp hx
  obtain ⟨⟨row, i⟩, hrow, rfl⟩ := List.mem_map.mp hx
  obtain ⟨j, hj⟩ := List.mem_iff_getElem?.mp hp
  have hslot : ps[p.slot]? = some p := by
    rw [hnum j p hj]
    exact hj
  have hget : p.leaf.rows[i]? = some row := List.mem_zipIdx_iff_getElem?.mp hrow
  change (elemAt ps p.slot >>= fun p' => elemAt p'.leaf.rows i >>= fun row' => .ok (p', row')) = _
  simp only [elemAt, hslot, ok_bind, hget]

lemma exists_scored_of_mem {e : HeapEntry} (he : e ∈ entries eng q ps) :
    ∃ y, (e, y) ∈ scored eng q ps := by
  rw [entries, Multiset.mem_coe, ← map_fst_scored] at he
  obtain ⟨⟨e', y⟩, hy, rfl⟩ := List.mem_map.mp he
  exact ⟨y, hy⟩

lemma finalizeQuery_eq (hnum : Numbered ps) {es : List HeapEntry}
    (hes : (es : Multiset HeapEntry) = smallest w ((entries eng q ps).filter HeapEntry.IsReal)) :
    finalizeQuery eng cfg k q preds ps es =
      topk cfg k (passing eng cfg q preds (shortlist eng w q ps)) := by
  have hmem : ∀ e, e ∈ es ↔ e ∈ smallest w ((entries eng q ps).filter HeapEntry.IsReal) := fun e => by
    rw [← hes, Multiset.mem_coe]
  have hrow : ∀ e ∈ es, ∃ y, (e, y) ∈ scored eng q ps := fun e he =>
    exists_scored_of_mem (Multiset.mem_of_mem_filter (mem_of_mem_smallest ((hmem e).mp he)))
  obtain ⟨full, hfull⟩ : ∃ full, (es.mapM fun e => materialize ps e >>= fun x => .ok (e, x)) =
      .ok full := exists_mapM_eq_ok fun e he => by
    obtain ⟨y, hy⟩ := hrow e he
    exact ⟨(e, y), by rw [materialize_of_mem_scored hnum hy, ok_bind]⟩
  have hset : ∀ x, x ∈ full ↔ x ∈ shortlist eng w q ps := by
    intro x
    simp only [mem_of_mapM_eq_ok hfull, shortlist, List.mem_filter, decide_eq_true_eq, ← hmem]
    constructor
    · rintro ⟨e, he, hx⟩
      obtain ⟨y, hy⟩ := hrow e he
      rw [materialize_of_mem_scored hnum hy, ok_bind] at hx
      cases hx
      exact ⟨hy, he⟩
    · rintro ⟨hx, he⟩
      exact ⟨x.1, he, by rw [materialize_of_mem_scored hnum hx, ok_bind]⟩
  change ((es.mapM fun e => materialize ps e >>= fun x => .ok (e, x)) >>= _) = _
  rw [hfull, ok_bind, cutTopk_eq]
  refine congrArg (topk cfg k) ?_
  ext c
  simp only [passing, candidateOf, List.mem_toFinset, List.mem_map, List.mem_filter, ← hset]

lemma scanWidth_pos (eng : SearchEngine s) (cfg : SearchConfig) (k : ℕ) (sel : ℚ) (filtered : Bool) :
    0 < scanWidth eng cfg k sel filtered := by
  have hbase : 0 < max (if 0 < cfg.fastscanW then cfg.fastscanW else 1000) k := by
    refine lt_max_of_lt_left ?_
    split <;> omega
  cases filtered with
  | false => exact hbase
  | true => exact lt_max_of_lt_left (lt_max_of_lt_left hbase)

lemma search_of_route (hguard : eng.unguardedFlush = false) {cands : List LeafCandidate} {sel : ℚ}
    (hroute : routeSearch eng idx q cfg = .ok (.ok cands sel preds))
    (hread : readProbes idx cands = .ok ps) (lib : DistanceCut) (ord : ScanOrder s) :
    search eng idx lib ord cfg k q =
      topk cfg k (passing eng cfg q preds
        (shortlist eng (scanWidth eng cfg k sel (!preds.isEmpty)) q ps)) := by
  have hscan := coe_scanCandidates (q := q) hguard
    (scanWidth_pos eng cfg k sel (!preds.isEmpty)) ord cfg.searchThreads ps
  rw [search, hroute, ok_bind]
  simp only [hread, ok_bind]
  exact finalizeQuery_eq (numbered_of_readProbes hread) hscan

/-- The leaves a route leads to, with the selectivity and the resolved predicates. -/
def Route.probed : Route → Option (List LeafCandidate × ℚ × List Resolved)
  | .empty => some ([], 1, [])
  | .fallbackFiltered _ => none
  | .ok cands sel preds => some (cands, sel, preds)

end Answers

section Search

variable {s : Schema} {eng : SearchEngine s} {idx : Index s} {cfg : SearchConfig} {q : Vec}

/-- **Search is a function of the candidate rows.** Among the rows of the candidate leaves those
with the `W` smallest scan entries are kept; those of them that pass the predicates are ranked,
one replica a row, and the best are returned. Scan order and threads do not matter. -/
theorem search_eq_topk (hguard : eng.unguardedFlush = false) {r : Route}
    (hroute : routeSearch eng idx q cfg = .ok r) {cands : List LeafCandidate} {sel : ℚ}
    {preds : List Resolved} (hprobed : r.probed = some (cands, sel, preds)) {ps : List (Probe s)}
    (hread : readProbes idx cands = .ok ps) (lib : DistanceCut) (ord : ScanOrder s) (threads k : ℕ) :
    search eng idx lib ord { cfg with searchThreads := threads } k q =
      topk cfg k (passing eng cfg q preds
        (shortlist eng (scanWidth eng cfg k sel (!preds.isEmpty)) q ps)) := by
  have hroute' : routeSearch eng idx q { cfg with searchThreads := threads } = .ok r := hroute
  cases r with
  | empty =>
    cases hprobed
    have hnil : readProbes idx [] = .ok [] := rfl
    obtain rfl : [] = ps := Except.ok.inj (hnil.symm.trans hread)
    rw [search, hroute', ok_bind]
    exact (topk_empty cfg k).symm
  | fallbackFiltered preds => cases hprobed
  | ok cands' sel' preds' =>
    cases hprobed
    exact search_of_route hguard hroute' hread lib ord

end Search

section Examples

/-- A library sort that keeps the order of equal scores. -/
def stableSortDesc (ss : List (WithBot ℚ)) : List ℕ :=
  (List.range ss.length).insertionSort fun a b => ss.getD b ⊥ ≤ ss.getD a ⊥

/-- An engine that scans row `i` of a leaf with key `key i` and measures it again as `far i`. -/
def tableEngine (s : Schema) (card : Option (List Resolved → ℚ)) (key : ℕ → ℕ) (far : ℕ → ℚ) :
    SearchEngine s where
  platform := saturating
  defaults := ⟨1, 1, 0, 1⟩
  dist _ _ := 0
  cardTable := card
  planeScore _ _ := 0
  sortDesc := stableSortDesc
  sortDesc_perm _ := List.perm_insertionSort _ _
  sortDesc_sorted ss := by
    have : IsTrans ℕ fun a b => ss.getD b ⊥ ≤ ss.getD a ⊥ := ⟨fun _ _ _ hab hbc => le_trans hbc hab⟩
    have : Std.Total fun a b : ℕ => ss.getD b ⊥ ≤ ss.getD a ⊥ := ⟨fun _ _ => le_total _ _⟩
    exact List.pairwise_insertionSort _ _
  scanKey _ _ i := key i % 2 ^ 32
  scanKey_lt _ _ i := Nat.mod_lt _ (by norm_num)
  unguardedFlush := false
  batchScan := false
  rerank _ _ i := far i
  rerankDecoded _ _ i := far i
  exactDist _ _ := 0
  u32Out _ := 0

def plainLeaf {s : Schema} (rows : List (LeafRow s)) : Leaf s where
  rows := rows
  summary := .zero
  summaryDirty := false
  hasFilterColumns := true
  extentPages := 1
  payload := .invalid
  state := []

/-- An open index of depth one whose leaves are on the pages from 4 on. -/
def flatIndex {s : Schema} (leaves : List (Leaf s)) : Index s where
  file :=
    { pages := fun p =>
        if p = 3 then .part (.node ⟨leaves.zipIdx.map fun x => ⟨some x.2, 1, true, [], .zero⟩, 1⟩) 0
        else match leaves[p - 4]? with
          | some l => if 4 ≤ p then .part (.leaf l) 0 else .zero
          | none => .zero
      numPages := leaves.length + 4
      log := [] }
  super := ⟨0, ⟨some 3, 1⟩, 1, leaves.length, leaves.length + 4, none, 0, 2, 1, .invalid, .invalid,
    .invalid, .invalid, .invalid, .invalid⟩
  manifest := ⟨0, 1, leaves.length, 0, 8, 0, leaves.length, 0⟩
  nVectorsDisk := 0
  leafTable := leaves.zipIdx.map fun x => ⟨some (x.2 + 4), 1⟩
  rootChildren := leaves.zipIdx.map fun x => ⟨some (x.2 + 4), 1, true, []⟩
  pca := .off
  plane := false

/-- The cut by distance that keeps the order of equal distances. -/
def stableCut : DistanceCut where
  cut k l := (l.insertionSort fun a b => a.dist ≤ b.dist).take k
  perm k l := by
    refine ⟨(l.insertionSort fun a b => a.dist ≤ b.dist).drop k, ?_, fun a ha b hb => ?_⟩
    · rw [List.take_append_drop]
      exact List.perm_insertionSort _ _
    · have hsorted := List.pairwise_insertionSort (fun a b : Candidate => a.dist ≤ b.dist) l
      rw [← List.take_append_drop k (l.insertionSort _), List.pairwise_append] at hsorted
      exact hsorted.2.2 a ha b hb
  sorted k l := (List.pairwise_insertionSort _ _).sublist (List.take_sublist _ _)
  length k l := by simp

def bareSchema : Schema := { columns := [] }

def bareRow (id : RowId) : LeafRow bareSchema := ⟨id, [], ⟨[], conforms_nil⟩⟩

/-- Two rows; the scan puts row 7 first, the rerank row 9. -/
def twoRows : Index bareSchema := flatIndex [plainLeaf [bareRow 7, bareRow 9]]

def twoRowsEngine : SearchEngine bareSchema := tableEngine bareSchema none (· + 1) fun i => 5 - 2 * i

/-- Two threads and a leaf cache: the search is the cut of the one row the scan keeps. -/
theorem search_eq_topk_twoRows :
    search twoRowsEngine twoRows stableCut .paged
        { fastscanW := 1, rerank := true, searchThreads := 2 } 1 [] =
      topk { fastscanW := 1, rerank := true } 1 (passing twoRowsEngine { fastscanW := 1, rerank := true }
        [] [] (shortlist twoRowsEngine 1 [] [⟨0, 4, plainLeaf [bareRow 7, bareRow 9]⟩])) :=
  @search_eq_topk bareSchema twoRowsEngine twoRows { fastscanW := 1, rerank := true } [] rfl
    (.ok [⟨4, 1⟩] 1 []) (by with_unfolding_all rfl) [⟨4, 1⟩] 1 [] rfl _ (by rfl) stableCut .paged 2 1

/-- A width of one entry: the nearest row by rerank distance is not found. -/
theorem search_misses_nearest :
    search twoRowsEngine twoRows stableCut .candidate { fastscanW := 1, rerank := true } 1 [] ≠
      topk { fastscanW := 1, rerank := true } 1 (passing twoRowsEngine { fastscanW := 1, rerank := true }
        [] [] (scored twoRowsEngine [] [⟨0, 4, plainLeaf [bareRow 7, bareRow 9]⟩])) := by
  have hrank : topk { fastscanW := 1, rerank := true } 1
      (passing twoRowsEngine { fastscanW := 1, rerank := true } [] []
        (scored twoRowsEngine [] [⟨0, 4, plainLeaf [bareRow 7, bareRow 9]⟩])) = .ok [⟨9, 3⟩] := by
    rw [passing, ← cutTopk_eq]
    decide +kernel
  rw [hrank]
  decide +kernel

end Examples

end SextantTree
