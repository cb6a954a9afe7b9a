import SextantTree.PqScan
import SextantTree.SearchSpec

/-!
The scans keep the smallest entries. Passing over a block changes nothing that looking at its lanes
would have, so that every block is a run of offers to the heap; with the lanes behind the last row
masked, the entries offered are those of the rows and sentinels.
-/

namespace SextantTree

open BoundedHeap

/-! ### Blocks are runs of offers -/

namespace RawScanHeap

lemma shouldReplace_iff (s : RawScanHeap) (e : HeapEntry) : s.shouldReplace e ↔ e < s.h 0 := by
  have hlt : e < s.h 0 ↔ e.pqDist < (s.h 0).pqDist ∨ e.pqDist = (s.h 0).pqDist ∧
      (e.leafSlot < (s.h 0).leafSlot ∨ e.leafSlot = (s.h 0).leafSlot ∧
        e.localIdx < (s.h 0).localIdx) := by
    rw [Prod.Lex.lt_iff, Prod.Lex.lt_iff]
    rfl
  rw [hlt, shouldReplace]
  by_cases hd : e.pqDist = (s.h 0).pqDist
  · by_cases hs : e.leafSlot = (s.h 0).leafSlot
    · simp [hd, hs]
    · simp [hd, hs]
  · simp [hd]

lemma displace_eq (pq8 : Bool) (s : RawScanHeap) (e : HeapEntry) :
    s.displace pq8 e = if pq8 ∧ ¬ e.IsReal then s else { s with h := offer id s.size s.h e } := by
  rw [displace]
  split_ifs with hskip hlt
  · rfl
  · rw [offer, if_pos]
    · rfl
    · exact (s.shouldReplace_iff e).mp hlt
  · rw [offer, if_neg]
    exact fun h => hlt ((s.shouldReplace_iff e).mpr h)

/-- The lanes that are looked at: all of them, or only the real ones. -/
def examined (pq8 : Bool) (es : List HeapEntry) : List HeapEntry :=
  es.filter fun e => !pq8 || decide e.IsReal

lemma foldl_displace (pq8 : Bool) (s : RawScanHeap) (es : List HeapEntry) :
    es.foldl (displace pq8) s =
      { s with h := (examined pq8 es).foldl (offer id s.size) s.h } := by
  induction es generalizing s with
  | nil => rfl
  | cons e es ih =>
    rw [List.foldl_cons, ih, displace_eq]
    by_cases hskip : pq8 ∧ ¬ e.IsReal
    · have hdrop : examined pq8 (e :: es) = examined pq8 es := by
        rw [examined, List.filter_cons_of_neg]
        · rfl
        · simp [hskip.1, hskip.2]
      rw [if_pos hskip, hdrop]
    · have hkeep : examined pq8 (e :: es) = e :: examined pq8 es := by
        rw [examined, List.filter_cons_of_pos]
        · rfl
        · cases pq8 with
          | false => rfl
          | true => simpa using hskip
      rw [if_neg hskip, hkeep, List.foldl_cons]

lemma foldl_offer_of_le {w : ℕ} {h : ScanHeap} {es : List HeapEntry} (hle : ∀ e ∈ es, h 0 ≤ e) :
    es.foldl (offer id w) h = h := by
  induction es with
  | nil => rfl
  | cons e es ih =>
    have he : ¬ id e < id (h 0) := not_lt.mpr (hle e List.mem_cons_self)
    rw [List.foldl_cons, offer, if_neg he]
    exact ih fun e' he' => hle e' (List.mem_cons_of_mem e he')

end RawScanHeap

lemma u32Min_le {v : ℕ → UInt32} {n j : ℕ} (hj : j < n) : u32Min v n ≤ (v j).toNat := by
  induction n with
  | zero => omega
  | succ n ih =>
    rw [u32Min, List.range_succ, List.foldl_append, List.foldl_cons, List.foldl_nil]
    rcases Nat.lt_succ_iff_lt_or_eq.mp hj with hlt | rfl
    · exact (min_le_left _ _).trans (ih hlt)
    · exact min_le_right _ _

namespace PqLeaf

variable {a : Arch} {slot : ℕ} {l : PqLeaf}

/-- **The blocks passed over lose nothing**: a block of a full heap is a run of offers. -/
lemma scanBlock_eq {s : RawScanHeap} (hfull : s.full) (b : ℕ) :
    l.scanBlock a slot s b =
      { s with h := (RawScanHeap.examined l.pq8 (l.lanes a slot b)).foldl (offer id s.size) s.h } := by
  rw [scanBlock, if_pos hfull, if_neg (not_not.mpr hfull)]
  split_ifs with hskip
  · rw [RawScanHeap.foldl_offer_of_le]
    intro e he
    obtain ⟨j, hj, rfl⟩ := List.mem_map.mp (List.mem_filter.mp he).1
    have hmin := u32Min_le (v := l.out a b) (List.mem_range.mp hj)
    have hlt : s.front < (HeapEntry.make (l.out a b j).toNat slot (b * l.codesPerBlock + j)).pqDist :=
      hskip.trans_le hmin
    exact (Prod.Lex.lt_iff.mpr (.inl hlt)).le
  · exact RawScanHeap.foldl_displace _ _ _

/-- The entries that a scan of the leaf looks at. -/
def offered (a : Arch) (slot : ℕ) (l : PqLeaf) : List HeapEntry :=
  if l.rows = 0 then []
  else (List.range l.nBlocks).flatMap fun b => RawScanHeap.examined l.pq8 (l.lanes a slot b)

lemma scan_eq {s : RawScanHeap} (hfull : s.full) :
    l.scan a slot s = { s with h := (l.offered a slot).foldl (offer id s.size) s.h } := by
  rw [scan, offered]
  split_ifs
  · rfl
  · generalize List.range l.nBlocks = bs
    induction bs generalizing s with
    | nil => rfl
    | cons b bs ih =>
      rw [List.foldl_cons, scanBlock_eq hfull, ih (by exact hfull), List.flatMap_cons,
        List.foldl_append]

end PqLeaf

lemma pqScan_eq (a : Arch) (w : ℕ) (ps : List (ℕ × PqLeaf)) :
    pqScan a w ps =
      ⟨w, (ps.flatMap fun p => p.2.offered a p.1).foldl (offer id w) heapInit, w⟩ := by
  rw [pqScan]
  generalize hs : RawScanHeap.init w = s
  have hfull : s.full := by
    rw [← hs]
    exact decide_eq_true le_rfl
  have hrun : ps.foldl (fun s p => p.2.scan a p.1 s) s =
      { s with h := (ps.flatMap fun p => p.2.offered a p.1).foldl (offer id s.size) s.h } := by
    clear hs
    induction ps generalizing s with
    | nil => rfl
    | cons p ps ih =>
      rw [List.foldl_cons, PqLeaf.scan_eq hfull, ih _ (by exact hfull), List.flatMap_cons,
        List.foldl_append]
  rw [hrun, ← hs]
  rfl

/-! ### The lanes and the rows -/

namespace PqLeaf

def key (l : PqLeaf) (i : ℕ) : UInt32 :=
  l.toKey (l.acc (i / l.codesPerBlock) (i % l.codesPerBlock))

/-- The entries of the rows that are not taken for sentinels. -/
def entries (slot : ℕ) (l : PqLeaf) : List HeapEntry :=
  ((List.range l.count).map fun i => HeapEntry.make (l.key i).toNat slot i).filter
    (HeapEntry.IsReal ·)

/-- The mask helper of the target covers every lane of the leaf's last block, and the number of
blocks does not wrap. -/
structure Masked (a : Arch) (l : PqLeaf) : Prop where
  count_le : l.count + 32 ≤ 2 ^ 32
  aligned : a = .aarch64 → l.pq8 = false → l.count % 32 = 0

variable {a : Arch} {slot : ℕ} {l : PqLeaf}

lemma codesPerBlock_cases (l : PqLeaf) :
    l.pq8 = true ∧ l.codesPerBlock = 16 ∨ l.pq8 = false ∧ l.codesPerBlock = 32 := by
  cases h : l.pq8
  · exact .inr ⟨rfl, by simp [codesPerBlock, h]⟩
  · exact .inl ⟨rfl, by simp [codesPerBlock, h]⟩

lemma toKey_sentinel (l : PqLeaf) : l.toKey 0xFFFFFFFF = 0xFFFFFFFF := by
  rw [toKey]
  cases l.estimate with
  | none => rfl
  | some estimate => exact if_pos rfl

section Fits

variable (hfit : l.count + l.codesPerBlock ≤ 2 ^ 32)

include hfit

lemma rows_eq : l.rows = l.count := by
  rcases l.codesPerBlock_cases with ⟨-, hc⟩ | ⟨-, hc⟩
  all_goals exact Nat.mod_eq_of_lt (by omega)

lemma nBlocks_eq : l.nBlocks = (l.count + l.codesPerBlock - 1) / l.codesPerBlock := by
  rw [nBlocks, rows_eq hfit, Nat.mod_eq_of_lt]
  rcases l.codesPerBlock_cases with ⟨-, hc⟩ | ⟨-, hc⟩
  all_goals omega

lemma tailCount_eq : l.tailCount = l.count % l.codesPerBlock := by
  rw [tailCount, rows_eq hfit]
  have := Nat.div_add_mod l.count l.codesPerBlock
  rw [Nat.mul_comm] at this
  omega

lemma testBit_validMask {b j : ℕ} (hb : b < l.nBlocks) (hj : j < l.codesPerBlock) :
    (l.validMask b).testBit j = decide (b * l.codesPerBlock + j < l.count) := by
  have hfull : l.fullMask.testBit j = true := by
    have hmask : l.fullMask = 2 ^ l.codesPerBlock - 1 := by
      rcases l.codesPerBlock_cases with ⟨-, hc⟩ | ⟨-, hc⟩ <;> simp [fullMask, hc]
    rw [hmask, Nat.testBit_two_pow_sub_one]
    exact decide_eq_true hj
  have hn := nBlocks_eq hfit
  rw [validMask]
  split_ifs with hlast
  · rw [hfull, eq_comm, decide_eq_true_eq]
    rcases l.codesPerBlock_cases with ⟨-, hc⟩ | ⟨-, hc⟩
    all_goals rw [hc] at hn hj ⊢; omega
  · rw [tailMask, tailCount_eq hfit]
    split_ifs with hzero hge
    · rw [hfull, eq_comm, decide_eq_true_eq]
      rcases l.codesPerBlock_cases with ⟨-, hc⟩ | ⟨-, hc⟩
      all_goals rw [hc] at hn hj hzero ⊢; omega
    · exact absurd (Nat.mod_lt _ (by omega)) (not_lt.mpr hge)
    · rw [Nat.testBit_two_pow_sub_one, decide_eq_decide]
      rcases l.codesPerBlock_cases with ⟨-, hc⟩ | ⟨-, hc⟩
      all_goals rw [hc] at hn hj hzero ⊢; omega

lemma out_eq (haligned : a = .aarch64 → l.pq8 = false → l.count % 32 = 0) {b j : ℕ}
    (hb : b < l.nBlocks) (hj : j < l.codesPerBlock) :
    l.out a b j = if b * l.codesPerBlock + j < l.count then l.key (b * l.codesPerBlock + j)
      else 0xFFFFFFFF := by
  have hbit := testBit_validMask hfit hb hj
  have hkey : l.key (b * l.codesPerBlock + j) = l.toKey (l.acc b j) := by
    rw [key, Nat.mul_comm, Nat.mul_add_div (by omega), Nat.div_eq_of_lt hj, Nat.mul_add_mod,
      Nat.mod_eq_of_lt hj, add_zero]
  rw [hkey, out]
  rcases l.codesPerBlock_cases with ⟨hpq, hc⟩ | ⟨hpq, hc⟩
  · have hj16 : j < 16 := hc ▸ hj
    rw [if_pos hpq, fastscanBlock16, Nat.testBit_mod_two_pow, hbit]
    simp only [hj16, decide_true, Bool.true_and, decide_eq_true_eq]
    split_ifs
    · rfl
    · exact l.toKey_sentinel
  · have hj32 : j < 32 := hc ▸ hj
    rw [hpq, if_neg Bool.false_ne_true]
    by_cases hmask : l.validMask b = 0xFFFFFFFF
    · -- a full mask has the bits of all lanes, so that the lane has a row
      have hrow : b * l.codesPerBlock + j < l.count := by
        rw [hmask, show 0xFFFFFFFF = 2 ^ 32 - 1 from rfl, Nat.testBit_two_pow_sub_one,
          decide_eq_true hj32] at hbit
        exact of_decide_eq_true hbit.symm
      rw [if_neg (not_not.mpr hmask), if_pos hrow]
    · have harch : a = .other := by
        cases a with
        | aarch64 =>
          -- without a tail block no mask is needed
          have htail : l.tailCount = 0 := by
            rw [tailCount_eq hfit, hc]
            exact haligned rfl hpq
          refine absurd ?_ hmask
          rw [validMask, tailMask, if_pos htail, ite_self, fullMask, if_pos hc]
        | other => rfl
      subst harch
      rw [if_pos hmask, u32MaskSentinel32.eq_2, hbit]
      simp only [decide_eq_true_eq]
      split_ifs
      · rfl
      · exact l.toKey_sentinel

end Fits

lemma Masked.fits (h : l.Masked a) : l.count + l.codesPerBlock ≤ 2 ^ 32 := by
  have := h.count_le
  rcases l.codesPerBlock_cases with ⟨-, hc⟩ | ⟨-, hc⟩
  all_goals omega

lemma flatMap_range_blocks {β : Type} (f : ℕ → β) (n c : ℕ) :
    ((List.range n).flatMap fun b => (List.range c).map fun j => f (b * c + j)) =
      (List.range (n * c)).map f := by
  induction n with
  | zero => simp
  | succ n ih =>
    rw [List.range_succ, List.flatMap_append, ih, Nat.succ_mul, List.range_add, List.map_append]
    simp [Function.comp_def]

/-- **What a scan looks at is what the rows have**, up to sentinels. -/
lemma filter_offered (h : l.Masked a) :
    (l.offered a slot).filter (HeapEntry.IsReal ·) = l.entries slot := by
  set f : ℕ → HeapEntry := fun i =>
    .make (if i < l.count then l.key i else 0xFFFFFFFF).toNat slot i with hf
  have hlanes : ∀ b ∈ List.range l.nBlocks, (RawScanHeap.examined l.pq8 (l.lanes a slot b)).filter
      (HeapEntry.IsReal ·) =
      ((List.range l.codesPerBlock).map fun j => f (b * l.codesPerBlock + j)).filter
        (HeapEntry.IsReal ·) := by
    intro b hb
    have hmap : l.lanes a slot b =
        (List.range l.codesPerBlock).map fun j => f (b * l.codesPerBlock + j) := by
      refine List.map_congr_left fun j hj => ?_
      rw [out_eq h.fits h.aligned (List.mem_range.mp hb) (List.mem_range.mp hj)]
    rw [RawScanHeap.examined, List.filter_filter, hmap]
    refine List.filter_congr fun e _ => ?_
    cases decide e.IsReal <;> simp
  have hfake : ∀ i, l.count ≤ i → ¬ (f i).IsReal := by
    intro i hi hreal
    simp only [hf, if_neg (not_lt.mpr hi)] at hreal
    exact hreal rfl
  rw [entries, offered, rows_eq h.fits]
  split_ifs with h0
  · rw [h0]
    rfl
  · have hc : 0 < l.codesPerBlock := by
      rcases l.codesPerBlock_cases with ⟨-, hc⟩ | ⟨-, hc⟩ <;> omega
    have hle : l.count ≤ l.nBlocks * l.codesPerBlock := by
      have hn := nBlocks_eq h.fits
      rcases l.codesPerBlock_cases with ⟨-, hc⟩ | ⟨-, hc⟩
      all_goals rw [hc] at hn ⊢; omega
    rw [List.filter_flatMap, List.flatMap_congr hlanes, ← List.filter_flatMap, flatMap_range_blocks,
      ← Nat.add_sub_cancel' hle, List.range_add, List.map_append, List.filter_append]
    have hrest : (((List.range (l.nBlocks * l.codesPerBlock - l.count)).map (l.count + ·)).map f).filter
        (HeapEntry.IsReal ·) = [] := by
      refine List.filter_eq_nil_iff.mpr fun e he => ?_
      obtain ⟨i, hi, rfl⟩ := List.mem_map.mp he
      obtain ⟨j, -, rfl⟩ := List.mem_map.mp hi
      simpa using hfake (l.count + j) (Nat.le_add_right _ _)
    rw [hrest, List.append_nil]
    congr 1
    refine List.map_congr_left fun i hi => ?_
    simp only [hf, if_pos (List.mem_range.mp hi)]

end PqLeaf

/-! ### Serial scans and merged ones -/

/-- All that the scans of these leaves look at, and the sentinels. -/
def pqSeen (a : Arch) (w : ℕ) (ps : List (ℕ × PqLeaf)) : Multiset HeapEntry :=
  ((ps.flatMap fun p => p.2.offered a p.1 : List HeapEntry) : Multiset HeapEntry) +
    Multiset.replicate w HeapEntry.sentinel

/-- The entries of the rows of these leaves. -/
def pqEntries (ps : List (ℕ × PqLeaf)) : Multiset HeapEntry :=
  (ps.flatMap fun p => p.2.entries p.1 : List HeapEntry)

section PqScan

variable {a : Arch} {w : ℕ} {ps : List (ℕ × PqLeaf)}

lemma pqEntries_perm {ps' : List (ℕ × PqLeaf)} (h : ps.Perm ps') : pqEntries ps = pqEntries ps' :=
  Multiset.coe_eq_coe.mpr (h.flatMap_right _)

lemma pqEntries_flatten (shards : List (List (ℕ × PqLeaf))) :
    pqEntries shards.flatten = (shards.map pqEntries).sum := by
  induction shards with
  | nil => rfl
  | cons shard shards ih =>
    rw [List.flatten_cons, List.map_cons, List.sum_cons, ← ih]
    simp only [pqEntries, List.flatMap_append, Multiset.coe_add]

lemma coe_slots_pqScan (hw : 0 < w) (ps : List (ℕ × PqLeaf)) :
    (slots (pqScan a w ps).size (pqScan a w ps).h : Multiset HeapEntry) =
      smallest w (pqSeen a w ps) := by
  have hinit : Keeps id w heapInit (Multiset.replicate w HeapEntry.sentinel) := keeps_const _
  have hkeys := (hinit.offers hw (ps.flatMap fun p => p.2.offered a p.1)).keys
  rw [Multiset.map_id, List.map_id] at hkeys
  rw [pqScan_eq]
  exact hkeys

lemma pqDist_lt_of_mem_pqSeen {e : HeapEntry} (he : e ∈ pqSeen a w ps) : e.pqDist < 2 ^ 32 := by
  rcases Multiset.mem_add.mp he with he | he
  · obtain ⟨p, -, he⟩ := List.mem_flatMap.mp (Multiset.mem_coe.mp he)
    rw [PqLeaf.offered] at he
    split_ifs at he
    · cases he
    · obtain ⟨b, -, he⟩ := List.mem_flatMap.mp he
      obtain ⟨j, -, rfl⟩ := List.mem_map.mp (List.mem_filter.mp he).1
      exact UInt32.toNat_lt _
  · rw [Multiset.eq_of_mem_replicate he]
    decide

lemma filter_pqSeen (h : ∀ p ∈ ps, p.2.Masked a) :
    (pqSeen a w ps).filter HeapEntry.IsReal = pqEntries ps := by
  have hsentinel : (Multiset.replicate w HeapEntry.sentinel).filter HeapEntry.IsReal = 0 := by
    refine Multiset.filter_eq_nil.mpr fun e he => ?_
    rw [Multiset.eq_of_mem_replicate he]
    exact fun h => h rfl
  rw [pqSeen, Multiset.filter_add, hsentinel, add_zero, Multiset.filter_coe, List.filter_flatMap]
  refine congrArg _ (List.flatMap_congr fun p hp => ?_)
  exact PqLeaf.filter_offered (h p hp)

/-- **The bounded heap keeps the best**: after any scans of leaves whose last block is masked, the
real entries of the heap are the `w` smallest entries of the rows; and the heaps of threads that
share the leaves in any way, and scan their shares in any order, merge to the same entries. -/
theorem pqScan_keeps_smallest (hw : 1 ≤ w) (h : ∀ p ∈ ps, p.2.Masked a) :
    ((pqScan a w ps).real : Multiset HeapEntry) = smallest w (pqEntries ps) ∧
      ∀ shards : List (List (ℕ × PqLeaf)), shards.flatten.Perm ps →
        (pqMerge a w shards : Multiset HeapEntry) = (pqScan a w ps).real := by
  have hserial : ((pqScan a w ps).real : Multiset HeapEntry) = smallest w (pqEntries ps) := by
    rw [RawScanHeap.real, ← Multiset.filter_coe, coe_slots_pqScan hw,
      filter_smallest fun a ha b _ => le_of_isReal (pqDist_lt_of_mem_pqSeen ha), filter_pqSeen h]
  refine ⟨hserial, fun shards hperm => ?_⟩
  have hmasked : ∀ shard ∈ shards, ∀ p ∈ shard, p.2.Masked a := fun shard hs p hp =>
    h p (hperm.subset (List.mem_flatten_of_mem hs hp))
  have hsum : (shards.map fun shard =>
      (slots (pqScan a w shard).size (pqScan a w shard).h : Multiset HeapEntry)).sum =
      ((shards.map (pqSeen a w)).map (smallest w)).sum := by
    rw [List.map_map]
    exact congrArg List.sum (List.map_congr_left fun shard _ => coe_slots_pqScan hw shard)
  rw [hserial, ← pqEntries_perm hperm, pqEntries_flatten, pqMerge, ← Multiset.filter_coe,
    coe_mergeHeaps, coe_flatMap, hsum, smallest_sum_smallest, filter_smallest, filter_sum,
    List.map_map]
  · refine congrArg (fun parts => smallest w (List.sum parts)) (List.map_congr_left fun shard hs => ?_)
    exact filter_pqSeen (hmasked shard hs)
  · intro x hx y _ hrx hry
    refine le_of_isReal ?_ hrx hry
    obtain ⟨A, hA, hx⟩ := exists_mem_of_mem_sum hx
    obtain ⟨shard, -, rfl⟩ := List.mem_map.mp hA
    exact pqDist_lt_of_mem_pqSeen hx

end PqScan

section Examples

/-- A leaf with one row at distance 5, of 4-bit codes: the sums of the padding are zero. -/
def oneRowLeaf : PqLeaf where
  pq8 := false
  count := 1
  acc := fun b j => if b = 0 ∧ j = 0 then 5 else 0

theorem pqScan_keeps_smallest_oneRow :
    ((pqScan .other 1 [(0, oneRowLeaf), (1, oneRowLeaf)]).real : Multiset HeapEntry) =
        smallest 1 (pqEntries [(0, oneRowLeaf), (1, oneRowLeaf)]) ∧
      ∀ shards : List (List (ℕ × PqLeaf)),
        shards.flatten.Perm [(0, oneRowLeaf), (1, oneRowLeaf)] →
        (pqMerge .other 1 shards : Multiset HeapEntry) =
          (pqScan .other 1 [(0, oneRowLeaf), (1, oneRowLeaf)]).real := by
  have hmasked : oneRowLeaf.Masked .other := ⟨by decide, fun h => by cases h⟩
  refine pqScan_keeps_smallest le_rfl fun p hp => ?_
  rcases List.mem_pair.mp hp with rfl | rfl
  · exact hmasked
  · exact hmasked

/-- On the target with the vector helper the padding from lane 16 on is not masked, and wins. -/
theorem padding_displaces_row :
    ((pqScan .aarch64 1 [(0, oneRowLeaf)]).real : Multiset HeapEntry) = {HeapEntry.make 0 0 16} ∧
      smallest 1 (pqEntries [(0, oneRowLeaf)]) = {HeapEntry.make 5 0 0} := by
  have hentries : pqEntries [(0, oneRowLeaf)] = {HeapEntry.make 5 0 0} := by decide +kernel
  constructor
  · decide +kernel
  · rw [hentries, smallest_of_card_le (by simp)]

end Examples

end SextantTree
