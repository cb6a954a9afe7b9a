import SextantTree.HeapReplace
import SextantTree.PqScanSpec

/-!
The flush of the candidates of a scalar scan into the heap, in its portable and in its AVX-512 form.

The AVX-512 form compares the keys of sixteen candidates at a time with the front that the heap has
when the flush starts. Below it a candidate replaces the front without another look, so that the
last of these decides whether the heap ends up right.
-/

namespace SextantTree

open BoundedHeap

/-- A candidate: the bits of its distance, and its position in the leaf. -/
structure ScalarCand where
  dist : UInt32
  idx : ℕ

/-- The key of a lane: `bits ^ ((bits >> 31, arithmetically) | sign)`. -/
def laneKey (bits : UInt32) : UInt32 :=
  bits ^^^ (⟨bits.toBitVec.sshiftRight 31⟩ ||| 0x80000000)

namespace ScalarCand

def entry (slot : ℕ) (c : ScalarCand) : HeapEntry := .make (f32ToDistKey c.dist).toNat slot c.idx

def laneEntry (slot : ℕ) (c : ScalarCand) : HeapEntry := .make (laneKey c.dist).toNat slot c.idx

end ScalarCand

namespace RawScanHeap

/-- `heap_replace_top` where `heap_should_replace` asks for it. -/
def guardedReplace (s : RawScanHeap) (e : HeapEntry) : RawScanHeap :=
  if s.shouldReplace e then s.replaceTop e else s

/-- `scalar_cand_flush` in its portable form, for a leaf in slot `slot`. -/
def candFlush (slot : ℕ) (s : RawScanHeap) (b : List ScalarCand) : RawScanHeap :=
  if ¬ s.full then b.foldl (fun s c => s.push (c.entry slot)) s
  else b.foldl (fun s c => s.guardedReplace (c.entry slot)) s

/-- Sixteen lanes: those below the threshold, then those at it. -/
def flushLanes (slot thr : ℕ) (s : RawScanHeap) (group : List ScalarCand) : RawScanHeap :=
  let keys := group.map (·.laneEntry slot)
  let s := (keys.filter (·.pqDist < thr)).foldl replaceTop s
  (keys.filter (·.pqDist = thr)).foldl guardedReplace s

/-- The full groups of sixteen, and the rest. -/
def fullGroups (b : List ScalarCand) : List (List ScalarCand) :=
  (List.range (b.length / 16)).map fun g => (b.drop (g * 16)).take 16

def restGroup (b : List ScalarCand) : List ScalarCand := b.drop (b.length / 16 * 16)

/-- `scalar_cand_flush` in its AVX-512 form. -/
def candFlush512 (slot : ℕ) (s : RawScanHeap) (b : List ScalarCand) : RawScanHeap :=
  if ¬ s.full then b.foldl (fun s c => s.push (c.entry slot)) s
  else
    let thr := s.front
    let s := (fullGroups b).foldl (flushLanes slot thr) s
    (restGroup b).foldl (fun s c => s.guardedReplace (c.entry slot)) s

end RawScanHeap

lemma getElem_sshiftRight_31 (b : BitVec 32) {i : ℕ} (hi : i < 32) :
    (b.sshiftRight 31)[i] = b.getLsbD 31 := by
  rw [BitVec.getElem_sshiftRight, BitVec.msb_eq_getLsbD_last]
  split
  case isTrue h =>
    obtain rfl : i = 0 := by omega
    rfl
  case isFalse => rfl

lemma laneKey_toBitVec (b : BitVec 32) : b ^^^ (b.sshiftRight 31 ||| 0x80000000#32) =
    if b &&& 0x80000000#32 ≠ 0#32 then ~~~b else b ||| 0x80000000#32 := by
  have hpow : 0x80000000#32 = BitVec.twoPow 32 31 := by decide
  rw [hpow, BitVec.and_twoPow]
  cases hb : b.getLsbD 31 with
  | true =>
    rw [if_pos rfl, if_pos (by decide)]
    ext i hi
    rw [BitVec.getElem_xor, BitVec.getElem_or, getElem_sshiftRight_31, BitVec.getElem_not, hb,
      Bool.true_or, Bool.xor_true]
  | false =>
    rw [if_neg (by decide)]
    ext i hi
    rw [BitVec.getElem_xor, BitVec.getElem_or, BitVec.getElem_or, getElem_sshiftRight_31, hb,
      Bool.false_or, BitVec.getElem_twoPow]
    by_cases h31 : i = 31
    · subst h31
      have : b[31] = false := hb
      simp [this]
    · simp [h31]

lemma laneKey_eq (bits : UInt32) : laneKey bits = f32ToDistKey bits := by
  have hsign : (bits &&& 0x80000000 ≠ 0) ↔ (bits.toBitVec &&& 0x80000000#32 ≠ 0#32) := by
    rw [ne_eq, ← UInt32.toBitVec_inj, UInt32.toBitVec_and]
    rfl
  rw [laneKey, f32ToDistKey, ← UInt32.toBitVec_inj, UInt32.toBitVec_xor, UInt32.toBitVec_or,
    apply_ite UInt32.toBitVec]
  simp only [hsign]
  exact laneKey_toBitVec bits.toBitVec

lemma laneEntry_eq (slot : ℕ) (c : ScalarCand) : c.laneEntry slot = c.entry slot := by
  rw [ScalarCand.laneEntry, ScalarCand.entry, laneKey_eq]

namespace RawScanHeap

/-! ### Flushes are runs of offers and replacements -/

lemma guardedReplace_eq (s : RawScanHeap) (e : HeapEntry) :
    s.guardedReplace e = { s with h := offer id s.size s.h e } :=
  displace_eq false s e

lemma foldl_guardedReplace (s : RawScanHeap) (es : List HeapEntry) :
    es.foldl guardedReplace s = { s with h := es.foldl (offer id s.size) s.h } := by
  induction es generalizing s with
  | nil => rfl
  | cons e es ih => rw [List.foldl_cons, guardedReplace_eq, ih, List.foldl_cons]

lemma foldl_replaceTop (s : RawScanHeap) (es : List HeapEntry) :
    es.foldl replaceTop s = { s with h := es.foldl (BoundedHeap.replaceTop id s.size) s.h } := by
  induction es generalizing s with
  | nil => rfl
  | cons e es ih => rw [List.foldl_cons, replaceTop, ih, List.foldl_cons]

/-- A group of lanes on the slots of a heap of `n`. -/
def laneRun (n thr : ℕ) (h : ScanHeap) (es : List HeapEntry) : ScanHeap :=
  (es.filter (·.pqDist = thr)).foldl (offer id n)
    ((es.filter (·.pqDist < thr)).foldl (BoundedHeap.replaceTop id n) h)

lemma flushLanes_eq (slot thr : ℕ) (s : RawScanHeap) (group : List ScalarCand) :
    flushLanes slot thr s group = { s with h := laneRun s.size thr s.h (group.map (·.entry slot)) } := by
  have hkeys : group.map (·.laneEntry slot) = group.map (·.entry slot) :=
    List.map_congr_left fun c _ => laneEntry_eq slot c
  simp only [flushLanes, hkeys, foldl_replaceTop, foldl_guardedReplace, laneRun]

lemma foldl_flushLanes (slot thr : ℕ) (s : RawScanHeap) (gs : List (List ScalarCand)) :
    gs.foldl (flushLanes slot thr) s =
      { s with h := (gs.map (List.map (·.entry slot))).foldl (laneRun s.size thr) s.h } := by
  induction gs generalizing s with
  | nil => rfl
  | cons g gs ih => rw [List.foldl_cons, flushLanes_eq, ih, List.map_cons, List.foldl_cons]

end RawScanHeap

/-! ### The full groups -/

section Groups

variable {n : ℕ} {h₀ : ScanHeap} {thr : ℕ}

/-- The entries of some groups that are below the threshold. -/
def belowThr (thr : ℕ) (gs : List (List HeapEntry)) : List HeapEntry :=
  gs.flatMap (List.filter (·.pqDist < thr))

def atThr (thr : ℕ) (gs : List (List HeapEntry)) : List HeapEntry :=
  gs.flatMap (List.filter (·.pqDist = thr))

lemma coe_eq_filter_add (l : List HeapEntry) :
    (l : Multiset HeapEntry) = (l.filter (·.pqDist < thr) : Multiset HeapEntry) +
      (l.filter (·.pqDist = thr) : Multiset HeapEntry) +
        (l.filter (thr < ·.pqDist) : Multiset HeapEntry) := by
  induction l with
  | nil => rfl
  | cons e l ih =>
    rw [← Multiset.cons_coe, ih]
    rcases lt_trichotomy e.pqDist thr with h | h | h
    · rw [List.filter_cons_of_pos (by simpa using h), List.filter_cons_of_neg (by simpa using h.ne),
        List.filter_cons_of_neg (by simpa using h.le), ← Multiset.cons_coe, Multiset.cons_add,
        Multiset.cons_add]
    · rw [List.filter_cons_of_neg (by simpa using h.ge), List.filter_cons_of_pos (by simpa using h),
        List.filter_cons_of_neg (by simpa using h.le), ← Multiset.cons_coe, Multiset.add_cons,
        Multiset.cons_add]
    · rw [List.filter_cons_of_neg (by simpa using h.le), List.filter_cons_of_neg (by simpa using h.ne'),
        List.filter_cons_of_pos (by simpa using h), ← Multiset.cons_coe, Multiset.add_cons]

lemma lt_of_pqDist_lt {a b : HeapEntry} (h : a.pqDist < b.pqDist) : a < b :=
  Prod.Lex.lt_iff.mpr (.inl h)

lemma pqDist_le_of_le {a b : HeapEntry} (h : a ≤ b) : a.pqDist ≤ b.pqDist :=
  not_lt.mp fun hlt => absurd h (not_le.mpr (lt_of_pqDist_lt hlt))

lemma pqDist_of_mem_atThr {gs : List (List HeapEntry)} {e : HeapEntry} (h : e ∈ atThr thr gs) :
    e.pqDist = thr := by
  obtain ⟨g, -, he⟩ := List.mem_flatMap.mp h
  exact of_decide_eq_true (List.mem_filter.mp he).2

/-- The last entry below the threshold belongs among the smallest seen by then. -/
def LastFits (n : ℕ) (T : Multiset HeapEntry) (below : List HeapEntry) : Prop :=
  ∀ u ∈ below.getLast?, u ∈ smallest n ((below : Multiset HeapEntry) + T)

lemma stale_offers_atThr {h : ScanHeap} {T : Multiset HeapEntry} (hs : Stale n h T) (hn : 0 < n)
    (hfront : (h 0).pqDist < thr) {es : List HeapEntry} (hes : ∀ e ∈ es, e.pqDist = thr) :
    Stale n (es.foldl (offer id n) h) ((es : Multiset HeapEntry) + T) ∧
      (es.foldl (offer id n) h 0).pqDist < thr := by
  have hnone : ¬ ∃ e ∈ es, e ∈ smallest n ((es : Multiset HeapEntry) + T) := by
    rintro ⟨e, he, hmem⟩
    refine hs.notMem_smallest (Multiset.le_add_left T _) ?_ hmem
    exact (lt_of_pqDist_lt (hfront.trans_eq (hes e he).symm)).le
  obtain ⟨hs', hle⟩ := (hs.offers hn es).2 hnone
  exact ⟨hs', (pqDist_le_of_le hle).trans_lt hfront⟩

/-- **The full groups.** -/
lemma groups_spec (hn : 0 < n) (hheap : IsHeap id n h₀) (gs : List (List HeapEntry)) :
    (LastFits n (contents n h₀) (belowThr thr gs) →
        Keeps id n (gs.foldl (RawScanHeap.laneRun n thr) h₀)
          ((atThr thr gs : Multiset HeapEntry) + (belowThr thr gs + contents n h₀))) ∧
      (¬ LastFits n (contents n h₀) (belowThr thr gs) →
        Stale n (gs.foldl (RawScanHeap.laneRun n thr) h₀)
            ((atThr thr gs : Multiset HeapEntry) + (belowThr thr gs + contents n h₀)) ∧
          (gs.foldl (RawScanHeap.laneRun n thr) h₀ 0).pqDist < thr) := by
  induction gs using List.reverseRecOn with
  | nil =>
    refine ⟨fun _ => ?_, fun hnot => absurd (fun u hu => by cases hu) hnot⟩
    have hkeep : Keeps id n h₀ (contents n h₀) :=
      ⟨hheap, by rw [Multiset.map_id, smallest_of_card_le card_contents.le], card_contents.ge⟩
    simpa [belowThr, atThr] using hkeep
  | append_singleton gs g ih =>
    set h := gs.foldl (RawScanHeap.laneRun n thr) h₀
    set T : Multiset HeapEntry := (atThr thr gs : Multiset HeapEntry) + (belowThr thr gs + contents n h₀)
      with hT
    set es := g.filter (·.pqDist = thr) with hes
    have hlast : ∀ e ∈ es, e.pqDist = thr := fun e he => of_decide_eq_true (List.mem_filter.mp he).2
    have hat : atThr thr (gs ++ [g]) = atThr thr gs ++ es := by
      rw [atThr, List.flatMap_append, List.flatMap_singleton, ← atThr]
    have hbelow : belowThr thr (gs ++ [g]) = belowThr thr gs ++ g.filter (·.pqDist < thr) := by
      rw [belowThr, List.flatMap_append, List.flatMap_singleton, ← belowThr]
    have hseen : (atThr thr (gs ++ [g]) : Multiset HeapEntry) +
        (belowThr thr (gs ++ [g]) + contents n h₀) =
          (es : Multiset HeapEntry) + ((g.filter (·.pqDist < thr) : List HeapEntry) + T) := by
      rw [hat, hbelow, hT, ← Multiset.coe_add, ← Multiset.coe_add]
      abel
    rw [hseen, hbelow, List.foldl_append, List.foldl_cons, List.foldl_nil, RawScanHeap.laneRun, ← hes]
    rcases List.eq_nil_or_concat (g.filter (·.pqDist < thr)) with hnil | ⟨init, u, hcons⟩
    · rw [hnil, List.append_nil, List.foldl_nil, Multiset.coe_nil, zero_add]
      refine ⟨fun hfits => (ih.1 hfits).offers hn es |> fun hk => ?_, fun hnot => ?_⟩
      · rwa [List.map_id] at hk
      · obtain ⟨hs, hfront⟩ := ih.2 hnot
        exact stale_offers_atThr hs hn hfront hlast
    · rw [List.concat_eq_append] at hcons
      have hu : u.pqDist < thr := by
        have hmem : u ∈ g.filter (·.pqDist < thr) := hcons ▸ List.mem_append_right init (List.mem_singleton_self u)
        exact of_decide_eq_true (List.mem_filter.mp hmem).2
      have hfollows : Follows n h T := by
        by_cases hfits : LastFits n (contents n h₀) (belowThr thr gs)
        · exact .inl (ih.1 hfits)
        · exact .inr (ih.2 hfits).1
      -- the entries at the threshold do not decide whether `u` fits
      have hfit : LastFits n (contents n h₀) (belowThr thr gs ++ (init ++ [u])) ↔
          u ∈ smallest n (((init ++ [u] : List HeapEntry) : Multiset HeapEntry) + T) := by
        have hsplit : ((init ++ [u] : List HeapEntry) : Multiset HeapEntry) + T =
            ((belowThr thr gs ++ (init ++ [u]) : List HeapEntry) : Multiset HeapEntry) + contents n h₀ +
              (atThr thr gs : Multiset HeapEntry) := by
          rw [hT, ← Multiset.coe_add (belowThr thr gs)]
          abel
        have hmem : u ∈ ((belowThr thr gs ++ (init ++ [u]) : List HeapEntry) : Multiset HeapEntry) +
            contents n h₀ := by
          simp
        have habove : ∀ e ∈ (atThr thr gs : Multiset HeapEntry), u ≤ e := fun e he =>
          (lt_of_pqDist_lt (hu.trans_eq (pqDist_of_mem_atThr (Multiset.mem_coe.mp he)).symm)).le
        have hend : (belowThr thr gs ++ (init ++ [u])).getLast? = some u := by
          rw [← List.append_assoc, List.getLast?_concat]
        rw [hsplit, mem_smallest_add_iff hmem habove, LastFits, hend]
        simp only [Option.mem_some_iff, forall_eq']
      rw [hcons, hfit]
      obtain ⟨hkeep, hstale⟩ := hfollows.replaceTops hn init u
      refine ⟨fun hmem => ?_, fun hnot => ?_⟩
      · have hk := (hkeep hmem).offers hn es
        rwa [List.map_id] at hk
      · obtain ⟨hs, hfront⟩ := hstale hnot
        exact stale_offers_atThr hs hn ((congrArg HeapEntry.pqDist hfront).trans_lt hu) hlast

end Groups

/-! ### The two forms -/

namespace RawScanHeap

variable {slot : ℕ} {s : RawScanHeap} {b : List ScalarCand}

def contents (s : RawScanHeap) : Multiset HeapEntry := BoundedHeap.contents s.size s.h

/-- The candidates of the full groups whose keys are below the front. -/
def belowTop (slot : ℕ) (s : RawScanHeap) (b : List ScalarCand) : List HeapEntry :=
  ((b.take (b.length / 16 * 16)).map (·.entry slot)).filter (·.pqDist < s.front)

/-- No candidate of the full groups is smaller than the front. -/
def NonePasses (slot : ℕ) (s : RawScanHeap) (b : List ScalarCand) : Prop :=
  ∀ e ∈ (b.take (b.length / 16 * 16)).map (·.entry slot), ¬ e < s.h 0

/-- The last candidate below the front belongs among the smallest seen by then, or a candidate of
the rest belongs among the smallest in the end. -/
def LastDecides (slot : ℕ) (s : RawScanHeap) (b : List ScalarCand) : Prop :=
  LastFits s.size s.contents (s.belowTop slot b) ∨
    ∃ e ∈ (restGroup b).map (·.entry slot),
      e ∈ smallest s.size (((b.map (·.entry slot) : List HeapEntry) : Multiset HeapEntry) + s.contents)

/-- The vector is still filled up, or no candidate of the full groups passes its front, or it is in
heap order and the last candidates are right. A cold start that goes on past the width leaves a
vector that is not in heap order. -/
def FlushFits (slot : ℕ) (s : RawScanHeap) (b : List ScalarCand) : Prop :=
  s.full = false ∨ s.NonePasses slot b ∨ IsHeap id s.size s.h ∧ s.LastDecides slot b

lemma flatten_fullGroups (b : List ScalarCand) :
    (fullGroups b).flatten = b.take (b.length / 16 * 16) := by
  rw [fullGroups]
  generalize b.length / 16 = k
  induction k with
  | zero => simp
  | succ k ih =>
    rw [List.range_succ, List.map_append, List.flatten_append, ih, List.map_singleton,
      List.flatten_singleton, Nat.succ_mul, List.take_add]

lemma belowThr_fullGroups (slot : ℕ) (s : RawScanHeap) (b : List ScalarCand) :
    belowThr s.front ((fullGroups b).map (List.map (·.entry slot))) = s.belowTop slot b := by
  rw [belowThr, belowTop, ← flatten_fullGroups, List.map_flatten, List.filter_flatten,
    List.flatMap_def]

lemma candFlush_eq (hfull : s.full = true) :
    s.candFlush slot b = { s with h := (b.map (·.entry slot)).foldl (offer id s.size) s.h } := by
  rw [candFlush, if_neg (not_not.mpr hfull), ← foldl_guardedReplace, List.foldl_map]

lemma candFlush512_eq (hfull : s.full = true) :
    s.candFlush512 slot b =
      ⟨s.size, ((restGroup b).map (·.entry slot)).foldl (offer id s.size)
        (((fullGroups b).map (List.map (·.entry slot))).foldl (laneRun s.size s.front) s.h), s.w⟩ := by
  simp only [candFlush512, hfull, not_true_eq_false, if_false, foldl_flushLanes]
  have hmap : ∀ s' : RawScanHeap, (restGroup b).foldl (fun s c => s.guardedReplace (c.entry slot)) s' =
      ((restGroup b).map (·.entry slot)).foldl guardedReplace s' := fun s' => List.foldl_map.symm
  rw [hmap, foldl_guardedReplace]

lemma foldl_offer_of_not_lt {n : ℕ} {h : ScanHeap} {es : List HeapEntry} (hes : ∀ e ∈ es, ¬ e < h 0) :
    es.foldl (offer id n) h = h := by
  induction es with
  | nil => rfl
  | cons e es ih =>
    have hkeep : offer id n h e = h := if_neg (hes e List.mem_cons_self)
    rw [List.foldl_cons, hkeep, ih fun x hx => hes x (List.mem_cons_of_mem e hx)]

lemma laneRun_of_not_lt {n : ℕ} {h : ScanHeap} {es : List HeapEntry} (hes : ∀ e ∈ es, ¬ e < h 0) :
    laneRun n (h 0).pqDist h es = h := by
  have hbelow : es.filter (·.pqDist < (h 0).pqDist) = [] :=
    List.filter_eq_nil_iff.mpr fun e he hlt => hes e he (lt_of_pqDist_lt (of_decide_eq_true hlt))
  rw [laneRun, hbelow, List.foldl_nil, foldl_offer_of_not_lt fun e he => hes e (List.mem_of_mem_filter he)]

lemma foldl_laneRun_of_not_lt {n : ℕ} {h : ScanHeap} {gs : List (List HeapEntry)}
    (hgs : ∀ g ∈ gs, ∀ e ∈ g, ¬ e < h 0) : gs.foldl (laneRun n (h 0).pqDist) h = h := by
  induction gs with
  | nil => rfl
  | cons g gs ih =>
    rw [List.foldl_cons, laneRun_of_not_lt (hgs g List.mem_cons_self),
      ih fun x hx => hgs x (List.mem_cons_of_mem g hx)]

/-- Where no candidate of the full groups passes the front, both forms flush the rest alone, in
whatever order the vector is. -/
lemma candFlush512_of_nonePasses (hfull : s.full = true) (hnone : s.NonePasses slot b) :
    s.candFlush512 slot b = s.candFlush slot b := by
  have hgroups : ∀ g ∈ (fullGroups b).map (List.map (·.entry slot)), ∀ e ∈ g, ¬ e < s.h 0 := by
    intro g hg e he
    obtain ⟨g', hg', rfl⟩ := List.mem_map.mp hg
    refine hnone e ?_
    rw [← flatten_fullGroups, List.map_flatten]
    exact List.mem_flatten.mpr ⟨_, List.mem_map_of_mem hg', he⟩
  have hb : b.map (·.entry slot) = (b.take (b.length / 16 * 16)).map (·.entry slot) ++
      (restGroup b).map (·.entry slot) := by
    rw [restGroup, ← List.map_append, List.take_append_drop]
  rw [candFlush512_eq hfull, candFlush_eq hfull, hb, List.foldl_append, foldl_offer_of_not_lt hnone,
    front, foldl_laneRun_of_not_lt hgroups]

lemma smallest_seen (hheap : IsHeap id s.size s.h) (slot : ℕ) (b : List ScalarCand) :
    smallest s.size ((((restGroup b).map (·.entry slot) : List HeapEntry) : Multiset HeapEntry) +
        ((atThr s.front ((fullGroups b).map (List.map (·.entry slot))) : Multiset HeapEntry) +
          ((s.belowTop slot b : Multiset HeapEntry) + s.contents))) =
      smallest s.size (((b.map (·.entry slot) : List HeapEntry) : Multiset HeapEntry) + s.contents) := by
  set groups := (b.take (b.length / 16 * 16)).map (·.entry slot) with hgroups
  have hb : b.map (·.entry slot) = groups ++ (restGroup b).map (·.entry slot) := by
    rw [hgroups, restGroup, ← List.map_append, List.take_append_drop]
  have hat : atThr s.front ((fullGroups b).map (List.map (·.entry slot))) =
      groups.filter (·.pqDist = s.front) := by
    rw [atThr, hgroups, ← flatten_fullGroups, List.map_flatten, List.filter_flatten, List.flatMap_def]
  have hparts : (groups : Multiset HeapEntry) =
      (groups.filter (·.pqDist < s.front) : Multiset HeapEntry) +
        (groups.filter (·.pqDist = s.front) : Multiset HeapEntry) +
          (groups.filter (s.front < ·.pqDist) : Multiset HeapEntry) :=
    coe_eq_filter_add groups
  have habove : ∀ x ∈ s.contents, ∀ e ∈ (groups.filter (s.front < ·.pqDist) : Multiset HeapEntry),
      x ≤ e := by
    intro x hx e he
    obtain ⟨i, hi, rfl⟩ := mem_contents.mp hx
    have hlt : s.front < e.pqDist := of_decide_eq_true (List.mem_filter.mp (Multiset.mem_coe.mp he)).2
    exact (hheap.le_front hi).trans (lt_of_pqDist_lt hlt).le
  have hall : ((b.map (·.entry slot) : List HeapEntry) : Multiset HeapEntry) + s.contents =
      s.contents + (groups.filter (s.front < ·.pqDist) : Multiset HeapEntry) +
        (((restGroup b).map (·.entry slot) : List HeapEntry) +
          ((groups.filter (·.pqDist = s.front) : Multiset HeapEntry) +
            (groups.filter (·.pqDist < s.front) : Multiset HeapEntry))) := by
    rw [hb, ← Multiset.coe_add, hparts]
    abel
  rw [hall, smallest_add_add_of_le habove card_contents.ge, hat, belowTop, ← hgroups]
  congr 1
  abel

/-- **The full heap**: the last key below the front replaces what it should, or a later candidate
makes up for it. -/
theorem contents_iff_of_isHeap (hn : 0 < s.size) (hfull : s.full = true)
    (hheap : IsHeap id s.size s.h) :
    (s.candFlush512 slot b).contents = (s.candFlush slot b).contents ↔ s.LastDecides slot b := by
  have hstart : Keeps id s.size s.h s.contents :=
    ⟨hheap, (Multiset.map_id _).trans (smallest_of_card_le card_contents.le).symm, card_contents.ge⟩
  have hportable : (s.candFlush slot b).contents =
      smallest s.size (((b.map (·.entry slot) : List HeapEntry) : Multiset HeapEntry) + s.contents) := by
    have h := (hstart.offers hn (b.map (·.entry slot))).contents
    rw [List.map_id] at h
    rw [candFlush_eq hfull]
    exact h
  have hseen := smallest_seen hheap slot b
  obtain ⟨hfit, hmiss⟩ := groups_spec hn hheap
    ((fullGroups b).map (List.map (·.entry slot)))
  rw [belowThr_fullGroups] at hfit hmiss
  rw [hportable, candFlush512_eq hfull, LastDecides]
  by_cases hlast : LastFits s.size s.contents (s.belowTop slot b)
  · refine iff_of_true ?_ (.inl hlast)
    have h := ((hfit hlast).offers hn ((restGroup b).map (·.entry slot))).contents
    rw [List.map_id] at h
    exact h.trans hseen
  · rw [or_iff_right hlast]
    obtain ⟨hgood, hbad⟩ := (hmiss hlast).1.offers hn ((restGroup b).map (·.entry slot))
    rw [hseen.symm]
    constructor
    · intro heq
      by_contra hnone
      exact (hbad hnone).1.contents_ne heq
    · exact fun h => (hgood h).contents

/-- The two forms of the flush leave the same entries where the condition holds, whatever the vector
holds and in whatever order; where the vector is filled up or a heap, they do so nowhere else. -/
theorem candFlush512_contents_iff (hw : 0 < s.w) (slot : ℕ) (b : List ScalarCand) :
    (s.FlushFits slot b → (s.candFlush512 slot b).contents = (s.candFlush slot b).contents) ∧
      ((s.full = true → IsHeap id s.size s.h) →
        (s.candFlush512 slot b).contents = (s.candFlush slot b).contents → s.FlushFits slot b) := by
  cases hfull : s.full with
  | false =>
    refine ⟨fun _ => ?_, fun _ _ => .inl hfull⟩
    simp [candFlush512, candFlush, hfull]
  | true =>
    have hn : 0 < s.size := hw.trans_le (of_decide_eq_true hfull)
    refine ⟨?_, fun hheap heq => ?_⟩
    · rintro (hnot | hnone | ⟨hheap, hlast⟩)
      · simp [hfull] at hnot
      · rw [candFlush512_of_nonePasses hfull hnone]
      · exact (contents_iff_of_isHeap hn hfull hheap).mpr hlast
    · exact .inr (.inr ⟨hheap rfl, (contents_iff_of_isHeap hn hfull (hheap rfl)).mp heq⟩)

end RawScanHeap

section Examples

def tenAndFive : RawScanHeap where
  size := 2
  h i := if i = 0 then .make (f32ToDistKey 0x41200000).toNat 0 0 else .make (f32ToDistKey 0x40A00000).toNat 0 1
  w := 2

/-- Sixteen distances: two of them, then 20. -/
def sixteen (a b : UInt32) : List ScalarCand :=
  (a :: b :: List.replicate 14 0x41A00000).zipIdx.map fun x => ⟨x.1, x.2⟩

/-- 9, then 1: both forms end with 1 and 5. -/
theorem candFlush512_contents_descending :
    (tenAndFive.candFlush512 1 (sixteen 0x41100000 0x3F800000)).contents =
      (tenAndFive.candFlush 1 (sixteen 0x41100000 0x3F800000)).contents :=
  (RawScanHeap.candFlush512_contents_iff (by decide) 1 _).1 (.inr (.inr ⟨fun c hc hcn => by
    obtain rfl : c = 1 := by
      have : c < 2 := hcn
      omega
    decide, .inl fun u hu => mem_smallest_iff.mpr (by
      cases hu
      decide +kernel)⟩))

/-- 1, then 9: the AVX-512 form ends with 1 and 9. -/
theorem candFlush512_keeps_larger :
    (tenAndFive.candFlush512 1 (sixteen 0x3F800000 0x41100000)).contents ≠
      (tenAndFive.candFlush 1 (sixteen 0x3F800000 0x41100000)).contents := by
  decide +kernel

end Examples

end SextantTree
