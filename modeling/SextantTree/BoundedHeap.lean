import Mathlib.Data.Multiset.Sort
import Mathlib.Order.WellFounded
import Mathlib.Tactic

/-!
The `n` smallest elements of a multiset, and a max-heap of `n` slots that keeps them while
elements are offered to it one by one. The slots hold values of any type and are compared by a
key; the slots of an array are a function on positions.
-/

namespace SextantTree.BoundedHeap

/-! ### The smallest elements -/

section Smallest

variable {α : Type*} [LinearOrder α] {n : ℕ} {A B S T : Multiset α}

/-- The `n` smallest elements, all of them if there are no more. -/
def smallest (n : ℕ) (T : Multiset α) : Multiset α := ((T.sort (· ≤ ·)).take n : List α)

lemma smallest_le : smallest n T ≤ T := by
  have h : (((T.sort (· ≤ ·)).take n : List α) : Multiset α) ≤ (T.sort (· ≤ ·) : List α) :=
    Multiset.coe_le.mpr (List.take_sublist _ _).subperm
  rwa [Multiset.sort_eq] at h

@[simp] lemma card_smallest : Multiset.card (smallest n T) = min n (Multiset.card T) := by
  simp [smallest]

lemma mem_of_mem_smallest {a : α} (h : a ∈ smallest n T) : a ∈ T :=
  Multiset.mem_of_le smallest_le h

lemma sort_add_of_le (h : ∀ a ∈ A, ∀ b ∈ B, a ≤ b) :
    (A + B).sort (· ≤ ·) = A.sort (· ≤ ·) ++ B.sort (· ≤ ·) := by
  have hsorted : (A.sort (· ≤ ·) ++ B.sort (· ≤ ·)).Pairwise (· ≤ ·) := by
    refine List.pairwise_append.mpr ⟨Multiset.pairwise_sort _ _, Multiset.pairwise_sort _ _, ?_⟩
    intro a ha b hb
    exact h a ((Multiset.mem_sort _).mp ha) b ((Multiset.mem_sort _).mp hb)
  refine List.Perm.eq_of_pairwise' (r := (· ≤ ·)) (Multiset.pairwise_sort _ _) hsorted ?_
  rw [← Multiset.coe_eq_coe, ← Multiset.coe_add]
  simp only [Multiset.sort_eq]

lemma smallest_add_of_le (h : ∀ a ∈ A, ∀ b ∈ B, a ≤ b) :
    smallest n (A + B) = smallest n A + smallest (n - Multiset.card A) B := by
  simp only [smallest, sort_add_of_le h, List.take_append, Multiset.length_sort, Multiset.coe_add]

lemma smallest_of_card_le (h : Multiset.card T ≤ n) : smallest n T = T := by
  rw [smallest, List.take_of_length_le (by simpa using h), Multiset.sort_eq]

@[simp] lemma smallest_zero_left : smallest 0 T = 0 := by
  simp [smallest]

/-- **What the smallest elements are**: a part of the right size below the rest. -/
lemma eq_smallest (hle : S ≤ T) (hcard : Multiset.card S = min n (Multiset.card T))
    (hlow : ∀ a ∈ S, ∀ b ∈ T - S, a ≤ b) : S = smallest n T := by
  have hsplit := smallest_add_of_le (n := n) hlow
  rw [add_tsub_cancel_of_le hle] at hsplit
  have hcard' : Multiset.card (T - S) = Multiset.card T - Multiset.card S := Multiset.card_sub hle
  have hrest : smallest (n - Multiset.card S) (T - S) = 0 := by
    rw [← Multiset.card_eq_zero, card_smallest]
    omega
  rw [hsplit, hrest, add_zero, smallest_of_card_le (by omega)]

lemma le_of_mem_smallest_of_mem_sub {a b : α} (ha : a ∈ smallest n T)
    (hb : b ∈ T - smallest n T) : a ≤ b := by
  have hsplit : smallest n T + ((T.sort (· ≤ ·)).drop n : List α) = T := by
    rw [smallest, Multiset.coe_add, List.take_append_drop, Multiset.sort_eq]
  have hrest : T - smallest n T = ((T.sort (· ≤ ·)).drop n : List α) := by
    nth_rewrite 1 [← hsplit]
    rw [add_tsub_cancel_left]
  rw [hrest, Multiset.mem_coe] at hb
  rw [smallest, Multiset.mem_coe] at ha
  have hsorted := Multiset.pairwise_sort T (· ≤ ·)
  rw [← List.take_append_drop n (T.sort (· ≤ ·)), List.pairwise_append] at hsorted
  exact hsorted.2.2 a ha b hb

lemma card_smallest_of_mem_sub {b : α} (hb : b ∈ T - smallest n T) :
    Multiset.card (smallest n T) = n := by
  have hpos : 0 < Multiset.card (T - smallest n T) := Multiset.card_pos_iff_exists_mem.mpr ⟨b, hb⟩
  rw [Multiset.card_sub smallest_le, card_smallest] at hpos
  rw [card_smallest]
  omega

lemma le_smallest_of_below {a : α} (hA : A ≤ T) (ha : a ∈ smallest n T) (hbelow : ∀ x ∈ A, x < a) :
    A ≤ smallest n T := by
  rw [Multiset.le_iff_count]
  intro x
  by_cases hx : x ∈ A
  · have hnone : x ∉ T - smallest n T := fun hmem =>
      absurd (le_of_mem_smallest_of_mem_sub ha hmem) (not_le.mpr (hbelow x hx))
    have hcount := Multiset.count_eq_zero.mpr hnone
    rw [Multiset.count_sub] at hcount
    have hle := Multiset.count_le_of_le x hA
    omega
  · rw [Multiset.count_eq_zero.mpr hx]
    exact Nat.zero_le _

lemma smallest_smallest_add : smallest n (smallest n A + B) = smallest n (A + B) := by
  set S := smallest n (smallest n A + B) with hS
  have hle : S ≤ smallest n A + B := smallest_le
  have hle' : S ≤ A + B := hle.trans (add_le_add_left smallest_le B)
  refine eq_smallest hle' ?_ fun a ha b hb => ?_
  · simp only [hS, card_smallest, Multiset.card_add]
    omega
  have hdecomp : A + B - S = (smallest n A + B - S) + (A - smallest n A) := by
    rw [tsub_add_eq_add_tsub hle, add_right_comm, add_tsub_cancel_of_le smallest_le]
  rw [hdecomp, Multiset.mem_add] at hb
  rcases hb with hb | hb
  · exact le_of_mem_smallest_of_mem_sub ha hb
  -- `b` was discarded from `A`, so `n` elements of `A` are at most `b`
  by_contra hlt
  rw [not_le] at hlt
  have hbelow : ∀ x ∈ smallest n A, x < a := fun x hx =>
    (le_of_mem_smallest_of_mem_sub hx hb).trans_lt hlt
  have hsub : smallest n A ≤ S := le_smallest_of_below (Multiset.le_add_right _ _) ha hbelow
  have heq : smallest n A = S := Multiset.eq_of_le_of_card_le hsub (by
    rw [card_smallest_of_mem_sub hb, hS, card_smallest]
    exact min_le_left _ _)
  exact absurd (hbelow a (heq ▸ ha)) (lt_irrefl a)

lemma smallest_add_smallest : smallest n (A + smallest n B) = smallest n (A + B) := by
  rw [add_comm, smallest_smallest_add, add_comm]

/-- **Merging partial selections.** -/
theorem smallest_sum_smallest (parts : List (Multiset α)) :
    smallest n (parts.map (smallest n)).sum = smallest n parts.sum := by
  induction parts with
  | nil => rfl
  | cons A parts ih =>
    rw [List.map_cons, List.sum_cons, smallest_smallest_add, ← smallest_add_smallest, ih,
      smallest_add_smallest, List.sum_cons]

lemma mem_smallest_of_le {a : α} (hle : A ≤ B) (ha : a ∈ A) (hsmall : a ∈ smallest n B) :
    a ∈ smallest n A := by
  by_contra hnot
  have hrest : a ∈ A - smallest n A := by
    have hsplit := add_tsub_cancel_of_le (smallest_le (n := n) (T := A))
    rw [← hsplit, Multiset.mem_add] at ha
    exact ha.resolve_left hnot
  have hbelow : ∀ x ∈ smallest n A, x < a := fun x hx =>
    lt_of_le_of_ne (le_of_mem_smallest_of_mem_sub hx hrest) fun heq => hnot (heq ▸ hx)
  have hsub : smallest n A ≤ smallest n B :=
    le_smallest_of_below (smallest_le.trans hle) hsmall hbelow
  have heq : smallest n A = smallest n B := Multiset.eq_of_le_of_card_le hsub (by
    rw [card_smallest_of_mem_sub hrest, card_smallest]
    exact min_le_left _ _)
  exact hnot (heq ▸ hsmall)

lemma filter_smallest {p : α → Prop} [DecidablePred p]
    (h : ∀ a ∈ T, ∀ b ∈ T, p a → ¬ p b → a ≤ b) :
    (smallest n T).filter p = smallest n (T.filter p) := by
  have hlow : ∀ a ∈ T.filter p, ∀ b ∈ T.filter fun a => ¬ p a, a ≤ b := by
    intro a ha b hb
    obtain ⟨ha, hpa⟩ := Multiset.mem_filter.mp ha
    obtain ⟨hb, hpb⟩ := Multiset.mem_filter.mp hb
    exact h a ha b hb hpa hpb
  have hsplit := smallest_add_of_le (n := n) hlow
  rw [Multiset.filter_add_not] at hsplit
  rw [hsplit, Multiset.filter_add, Multiset.filter_eq_self.mpr fun a ha =>
    (Multiset.mem_filter.mp (mem_of_mem_smallest ha)).2, Multiset.filter_eq_nil.mpr fun a ha =>
    (Multiset.mem_filter.mp (mem_of_mem_smallest ha)).2, add_zero]

lemma smallest_cons {a m : α} (hm : m ∈ smallest n T) (hmax : ∀ b ∈ smallest n T, b ≤ m)
    (hfull : Multiset.card (smallest n T) = n) :
    smallest n (a ::ₘ T) = if a < m then a ::ₘ (smallest n T).erase m else smallest n T := by
  have hcons : smallest n (a ::ₘ T) = smallest n (a ::ₘ smallest n T) := by
    rw [← Multiset.singleton_add, ← Multiset.singleton_add, smallest_add_smallest]
  rw [hcons]
  set S := smallest n T
  split
  case isTrue hlt =>
    symm
    refine eq_smallest (Multiset.cons_le_cons a (Multiset.erase_le m S)) ?_ fun x hx y hy => ?_
    · rw [Multiset.card_cons, Multiset.card_erase_add_one hm, Multiset.card_cons]
      omega
    · have hrest : a ::ₘ S - a ::ₘ S.erase m = {m} := by
        nth_rewrite 1 [← Multiset.cons_erase hm]
        rw [Multiset.cons_swap, ← Multiset.singleton_add m, add_tsub_cancel_right]
      rw [hrest, Multiset.mem_singleton] at hy
      subst hy
      rcases Multiset.mem_cons.mp hx with rfl | hx
      · exact hlt.le
      · exact hmax x (Multiset.mem_of_mem_erase hx)
  case isFalse hle =>
    symm
    refine eq_smallest (Multiset.le_cons_self S a) ?_ fun x hx y hy => ?_
    · rw [Multiset.card_cons]
      omega
    · rw [← Multiset.singleton_add, add_tsub_cancel_right, Multiset.mem_singleton] at hy
      subst hy
      exact (hmax x hx).trans (not_lt.mp hle)

end Smallest

/-! ### The heap -/

section Heap

variable {α β : Type*} [LinearOrder α] (key : β → α) (n : ℕ)

def largest (h : ℕ → β) (pos : ℕ) : ℕ :=
  let m := if 2 * pos + 1 < n ∧ key (h pos) < key (h (2 * pos + 1)) then 2 * pos + 1 else pos
  if 2 * pos + 2 < n ∧ key (h m) < key (h (2 * pos + 2)) then 2 * pos + 2 else m

/-- Swap down until both children are no larger. -/
def siftDown : (fuel : ℕ) → (ℕ → β) → ℕ → ℕ → β
  | 0, h, _ => h
  | fuel + 1, h, pos =>
    if largest key n h pos = pos then h
    else siftDown fuel (h ∘ Equiv.swap pos (largest key n h pos)) (largest key n h pos)

/-- The front makes way for `x`. -/
def replaceTop (h : ℕ → β) (x : β) : ℕ → β := siftDown key n n (Function.update h 0 x) 0

/-- Replace the front by `x` if that is smaller. -/
def offer (h : ℕ → β) (x : β) : ℕ → β := if key x < key (h 0) then replaceTop key n h x else h

def slots (h : ℕ → β) : List β := (List.range n).map h

def contents (h : ℕ → β) : Multiset β := (slots n h : Multiset β)

def IsHeap (h : ℕ → β) : Prop := ∀ c, 0 < c → c < n → key (h c) ≤ key (h ((c - 1) / 2))

/-- A heap but for slot `pos`, which may be smaller than its children; these are no larger than
the parent of `pos`. -/
structure HoleAt (h : ℕ → β) (pos : ℕ) : Prop where
  off : ∀ c, 0 < c → c < n → (c - 1) / 2 ≠ pos → key (h c) ≤ key (h ((c - 1) / 2))
  across : 0 < pos → ∀ c, 0 < c → c < n → (c - 1) / 2 = pos → key (h c) ≤ key (h ((pos - 1) / 2))

lemma largest_cases (h : ℕ → β) (pos : ℕ) :
    largest key n h pos = pos ∧ (∀ c, 0 < c → c < n → (c - 1) / 2 = pos → key (h c) ≤ key (h pos)) ∨
      pos < largest key n h pos ∧ largest key n h pos < n ∧ (largest key n h pos - 1) / 2 = pos ∧
      key (h pos) < key (h (largest key n h pos)) ∧
      ∀ c, 0 < c → c < n → (c - 1) / 2 = pos → key (h c) ≤ key (h (largest key n h pos)) := by
  have hkids : ∀ c, 0 < c → (c - 1) / 2 = pos → c = 2 * pos + 1 ∨ c = 2 * pos + 2 := by omega
  unfold largest
  by_cases hl : 2 * pos + 1 < n ∧ key (h pos) < key (h (2 * pos + 1))
  · by_cases hr : 2 * pos + 2 < n ∧ key (h (2 * pos + 1)) < key (h (2 * pos + 2))
    · right
      simp only [if_pos hl, if_pos hr]
      refine ⟨by omega, hr.1, by omega, hl.2.trans hr.2, fun c hc hcn hpar => ?_⟩
      rcases hkids c hc hpar with rfl | rfl
      · exact hr.2.le
      · exact le_rfl
    · right
      simp only [if_pos hl, if_neg hr]
      refine ⟨by omega, hl.1, by omega, hl.2, fun c hc hcn hpar => ?_⟩
      rcases hkids c hc hpar with rfl | rfl
      · exact le_rfl
      · exact not_lt.mp fun hlt => hr ⟨hcn, hlt⟩
  · by_cases hr : 2 * pos + 2 < n ∧ key (h pos) < key (h (2 * pos + 2))
    · right
      simp only [if_neg hl, if_pos hr]
      refine ⟨by omega, hr.1, by omega, hr.2, fun c hc hcn hpar => ?_⟩
      rcases hkids c hc hpar with rfl | rfl
      · exact (not_lt.mp fun hlt => hl ⟨hcn, hlt⟩).trans hr.2.le
      · exact le_rfl
    · left
      simp only [if_neg hl, if_neg hr, true_and]
      intro c hc hcn hpar
      rcases hkids c hc hpar with rfl | rfl
      · exact not_lt.mp fun hlt => hl ⟨hcn, hlt⟩
      · exact not_lt.mp fun hlt => hr ⟨hcn, hlt⟩

variable {key n} {h : ℕ → β} {pos : ℕ}

lemma HoleAt.finish (hole : HoleAt key n h pos)
    (hkids : ∀ c, 0 < c → c < n → (c - 1) / 2 = pos → key (h c) ≤ key (h pos)) :
    IsHeap key n h := by
  intro c hc hcn
  by_cases hpar : (c - 1) / 2 = pos
  · rw [hpar]
    exact hkids c hc hcn hpar
  · exact hole.off c hc hcn hpar

lemma HoleAt.move (hole : HoleAt key n h pos) {m : ℕ} (hpos : pos < m) (hm : m < n)
    (hpar : (m - 1) / 2 = pos) (hlt : key (h pos) < key (h m))
    (hmax : ∀ c, 0 < c → c < n → (c - 1) / 2 = pos → key (h c) ≤ key (h m)) :
    HoleAt key n (h ∘ Equiv.swap pos m) m := by
  have hother : ∀ {c}, c ≠ pos → c ≠ m → (h ∘ Equiv.swap pos m) c = h c := fun h₁ h₂ => by
    rw [Function.comp_apply, Equiv.swap_apply_of_ne_of_ne h₁ h₂]
  have hatpos : (h ∘ Equiv.swap pos m) pos = h m := by simp
  have hatm : (h ∘ Equiv.swap pos m) m = h pos := by simp
  refine ⟨fun c hc hcn hpar' => ?_, fun _ c hc hcn hpar' => ?_⟩
  · by_cases hcpos : c = pos
    · subst hcpos
      rw [hatpos, hother (by omega) (by omega)]
      exact hole.across hc m (by omega) hm hpar
    by_cases hcm : c = m
    · subst hcm
      rw [hpar, hatpos, hatm]
      exact hlt.le
    rw [hother hcpos hcm]
    by_cases hq : (c - 1) / 2 = pos
    · rw [hq, hatpos]
      exact hmax c hc hcn hq
    · rw [hother hq hpar']
      exact hole.off c hc hcn hq
  · rw [hpar, hatpos, hother (by omega) (by omega)]
    have := hole.off c hc hcn (by omega)
    rwa [hpar'] at this

lemma contents_swap {i j : ℕ} (hi : i < n) (hj : j < n) :
    contents n (h ∘ Equiv.swap i j) = contents n h := by
  have hperm : ((List.range n).map (Equiv.swap i j)).Perm (List.range n) := by
    refine (List.perm_ext_iff_of_nodup ?_ List.nodup_range).mpr fun x => ?_
    · exact List.nodup_range.map (Equiv.swap i j).injective
    · have hlt : ∀ {y}, y < n → Equiv.swap i j y < n := fun hy => by
        rw [Equiv.swap_apply_def]
        split_ifs <;> omega
      simp only [List.mem_map, List.mem_range]
      exact ⟨fun ⟨y, hy, hxy⟩ => hxy ▸ hlt hy, fun hx => ⟨_, hlt hx, Equiv.swap_apply_self i j x⟩⟩
  rw [contents, contents, slots, slots, ← List.map_map, Multiset.coe_eq_coe]
  exact hperm.map h

lemma siftDown_spec {fuel : ℕ} (hole : HoleAt key n h pos) (hfuel : n ≤ pos + fuel)
    (hn : pos < n) :
    IsHeap key n (siftDown key n fuel h pos) ∧
      contents n (siftDown key n fuel h pos) = contents n h := by
  induction fuel generalizing h pos with
  | zero => omega
  | succ fuel ih =>
    unfold siftDown
    rcases largest_cases key n h pos with ⟨heq, hkids⟩ | ⟨hpos, hm, hpar, hlt, hmax⟩
    · rw [if_pos heq]
      exact ⟨hole.finish hkids, rfl⟩
    · rw [if_neg (by omega)]
      obtain ⟨hheap, hcont⟩ := ih (hole.move hpos hm hpar hlt hmax) (by omega) hm
      exact ⟨hheap, hcont.trans (contents_swap hn hm)⟩

lemma IsHeap.le_front (hheap : IsHeap key n h) {i : ℕ} (hi : i < n) : key (h i) ≤ key (h 0) := by
  induction i using Nat.strong_induction_on with
  | _ i ih =>
    rcases Nat.eq_zero_or_pos i with rfl | hpos
    · exact le_rfl
    · exact (hheap i hpos hi).trans (ih _ (by omega) (by omega))

lemma mem_contents {x : β} : x ∈ contents n h ↔ ∃ i < n, h i = x := by
  simp [contents, slots]

@[simp] lemma card_contents : Multiset.card (contents n h) = n := by
  simp [contents, slots]

lemma front_cons_contents_update (hn : 0 < n) (x : β) :
    h 0 ::ₘ contents n (Function.update h 0 x) = x ::ₘ contents n h := by
  obtain ⟨k, rfl⟩ := Nat.exists_eq_succ_of_ne_zero hn.ne'
  have htail : (List.range k).map (Function.update h 0 x ∘ Nat.succ) = (List.range k).map (h ∘ Nat.succ) :=
    List.map_congr_left fun i _ => Function.update_of_ne (Nat.succ_ne_zero i) _ _
  simp only [contents, slots, List.range_succ_eq_map, List.map_cons, List.map_map,
    Function.update_self, htail, ← Multiset.cons_coe]
  exact Multiset.cons_swap _ _ _

lemma replaceTop_spec (hheap : IsHeap key n h) (hn : 0 < n) (x : β) :
    IsHeap key n (replaceTop key n h x) ∧
      h 0 ::ₘ contents n (replaceTop key n h x) = x ::ₘ contents n h := by
  have hole : HoleAt key n (Function.update h 0 x) 0 := by
    refine ⟨fun c hc hcn hpar => ?_, fun hlt => absurd hlt (lt_irrefl 0)⟩
    rw [Function.update_of_ne hc.ne', Function.update_of_ne hpar]
    exact hheap c hc hcn
  obtain ⟨hheap', hcont⟩ := siftDown_spec hole (n.zero_add.ge : n ≤ 0 + n) hn
  refine ⟨hheap', ?_⟩
  rw [replaceTop, hcont]
  exact front_cons_contents_update hn x

lemma mem_contents_offer {x y : β} (hheap : IsHeap key n h) (hn : 0 < n)
    (hy : y ∈ contents n (offer key n h x)) : y = x ∨ y ∈ contents n h := by
  unfold offer at hy
  split at hy
  · have hmem : y ∈ h 0 ::ₘ contents n (replaceTop key n h x) := Multiset.mem_cons_of_mem hy
    rw [(replaceTop_spec hheap hn x).2] at hmem
    exact Multiset.mem_cons.mp hmem
  · exact .inr hy

variable (key n) in
/-- The heap holds the `n` smallest of the keys `T` that it has seen. -/
structure Keeps (h : ℕ → β) (T : Multiset α) : Prop where
  heap : IsHeap key n h
  keys : (contents n h).map key = smallest n T
  full : n ≤ Multiset.card T

variable {T : Multiset α}

/-- **One offer.** -/
theorem Keeps.offer (hk : Keeps key n h T) (hn : 0 < n) (x : β) :
    Keeps key n (offer key n h x) (key x ::ₘ T) := by
  have hfront : key (h 0) ∈ smallest n T := by
    rw [← hk.keys]
    exact Multiset.mem_map_of_mem key (mem_contents.mpr ⟨0, hn, rfl⟩)
  have hmax : ∀ b ∈ smallest n T, b ≤ key (h 0) := by
    intro b hb
    rw [← hk.keys, Multiset.mem_map] at hb
    obtain ⟨y, hy, rfl⟩ := hb
    obtain ⟨i, hi, rfl⟩ := mem_contents.mp hy
    exact hk.heap.le_front hi
  have hcard : Multiset.card (smallest n T) = n := by
    rw [card_smallest, min_eq_left hk.full]
  have hcons := smallest_cons (a := key x) hfront hmax hcard
  have hfull : n ≤ Multiset.card (key x ::ₘ T) := by
    rw [Multiset.card_cons]
    exact hk.full.trans (Nat.le_succ _)
  unfold BoundedHeap.offer
  split
  case isTrue hlt =>
    obtain ⟨hheap, hcont⟩ := replaceTop_spec hk.heap hn x
    refine ⟨hheap, ?_, hfull⟩
    rw [if_pos hlt] at hcons
    have hkeys := congrArg (Multiset.map key) hcont
    rw [Multiset.map_cons, Multiset.map_cons, hk.keys] at hkeys
    rw [hcons, ← Multiset.cons_inj_right (key (h 0)), hkeys, Multiset.cons_swap,
      Multiset.cons_erase hfront]
  case isFalse hle =>
    rw [if_neg hle] at hcons
    exact ⟨hk.heap, hk.keys.trans hcons.symm, hfull⟩

/-- **A run of offers.** -/
theorem Keeps.offers (hk : Keeps key n h T) (hn : 0 < n) (xs : List β) :
    Keeps key n (xs.foldl (BoundedHeap.offer key n) h) ((xs.map key : List α) + T) := by
  induction xs generalizing h T with
  | nil => simpa using hk
  | cons x xs ih =>
    have hstep := ih (hk.offer hn x)
    rwa [List.foldl_cons, List.map_cons, ← Multiset.cons_coe, Multiset.cons_add,
      ← Multiset.add_cons]

lemma keeps_const (z : β) : Keeps key n (fun _ => z) (Multiset.replicate n (key z)) where
  heap _ _ _ := le_rfl
  keys := by
    have hcont : contents n (fun _ : ℕ => z) = Multiset.replicate n z := by
      simp [contents, slots, Multiset.coe_replicate]
    rw [hcont, Multiset.map_replicate, smallest_of_card_le (by simp)]
  full := by simp

lemma mem_contents_offers (hk : Keeps key n h T) (hn : 0 < n) {xs : List β} {y : β}
    (hy : y ∈ contents n (xs.foldl (BoundedHeap.offer key n) h)) : y ∈ xs ∨ y ∈ contents n h := by
  induction xs generalizing h T with
  | nil => exact .inr hy
  | cons x xs ih =>
    rcases ih (hk.offer hn x) hy with hmem | hmem
    · exact .inl (List.mem_cons_of_mem x hmem)
    · rcases mem_contents_offer hk.heap hn hmem with rfl | hmem
      · exact .inl List.mem_cons_self
      · exact .inr hmem

end Heap

end SextantTree.BoundedHeap
