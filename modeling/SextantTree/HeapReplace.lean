import SextantTree.BoundedHeap

/-!
A heap of the `n` smallest elements some of whose replacements are not compared with the front.
An element that was let in above the front takes the place of the largest of the `n` smallest, and
gives it back to the next element that belongs among them.
-/

namespace SextantTree.BoundedHeap

lemma coe_snoc_add {α : Type*} (l : List α) (a : α) (T : Multiset α) :
    ((l ++ [a] : List α) : Multiset α) + T = a ::ₘ ((l : Multiset α) + T) := by
  rw [← Multiset.coe_add, Multiset.coe_singleton, ← Multiset.singleton_add, add_right_comm, add_comm]

/-! ### Membership among the smallest elements -/

section Smallest

variable {α : Type*} [LinearOrder α] {n : ℕ} {A B C T : Multiset α} {a : α}

lemma mem_smallest_iff : a ∈ smallest n T ↔ a ∈ T ∧ Multiset.card (T.filter (· < a)) < n := by
  have hlow : ∀ x ∈ T.filter (· < a), ∀ y ∈ T.filter fun x => ¬ x < a, x ≤ y := by
    intro x hx y hy
    exact ((Multiset.mem_filter.mp hx).2.trans_le (not_lt.mp (Multiset.mem_filter.mp hy).2)).le
  have hsplit := smallest_add_of_le (n := n) hlow
  rw [Multiset.filter_add_not] at hsplit
  have hnot : a ∉ smallest n (T.filter (· < a)) := fun h =>
    lt_irrefl a (Multiset.mem_filter.mp (mem_of_mem_smallest h)).2
  rw [hsplit, Multiset.mem_add, or_iff_right hnot]
  by_cases ha : a ∈ T
  · have hmem : a ∈ T.filter fun x => ¬ x < a := Multiset.mem_filter.mpr ⟨ha, lt_irrefl a⟩
    have hmin : ∀ x ∈ ({a} : Multiset α), ∀ y ∈ (T.filter fun x => ¬ x < a).erase a, x ≤ y := by
      intro x hx y hy
      obtain rfl := Multiset.mem_singleton.mp hx
      exact not_lt.mp (Multiset.mem_filter.mp (Multiset.mem_of_mem_erase hy)).2
    have hfirst := smallest_add_of_le (n := n - Multiset.card (T.filter (· < a))) hmin
    rw [Multiset.singleton_add, Multiset.cons_erase hmem] at hfirst
    rcases Nat.lt_or_ge (Multiset.card (T.filter (· < a))) n with hlt | hge
    · refine iff_of_true ?_ ⟨ha, hlt⟩
      rw [hfirst, smallest_of_card_le (by rw [Multiset.card_singleton]; omega)]
      exact Multiset.mem_add.mpr (.inl (Multiset.mem_singleton_self a))
    · refine iff_of_false ?_ fun h => absurd h.2 (not_lt.mpr hge)
      rw [Nat.sub_eq_zero_of_le hge, smallest_zero_left]
      exact Multiset.notMem_zero a
  · exact iff_of_false (fun h => ha (Multiset.mem_filter.mp (mem_of_mem_smallest h)).1)
      fun h => ha h.1

lemma mem_smallest_add_iff (ha : a ∈ A) (hB : ∀ b ∈ B, a ≤ b) :
    a ∈ smallest n (A + B) ↔ a ∈ smallest n A := by
  have hnone : B.filter (· < a) = 0 := Multiset.filter_eq_nil.mpr fun b hb => not_lt.mpr (hB b hb)
  rw [mem_smallest_iff, mem_smallest_iff, Multiset.filter_add, hnone, add_zero, Multiset.mem_add]
  simp only [ha, true_or]

lemma smallest_add_right_of_le (hB : ∀ x ∈ A, ∀ b ∈ B, x ≤ b) (hn : n ≤ Multiset.card A) :
    smallest n (A + B) = smallest n A := by
  rw [smallest_add_of_le hB, Nat.sub_eq_zero_of_le hn, smallest_zero_left, add_zero]

lemma smallest_add_add_of_le (hB : ∀ x ∈ A, ∀ b ∈ B, x ≤ b) (hn : n ≤ Multiset.card A) :
    smallest n (A + B + C) = smallest n (A + C) := by
  rw [← smallest_smallest_add, smallest_add_right_of_le hB hn, smallest_smallest_add]

lemma smallest_cons_of_notMem (h : a ∉ smallest n (a ::ₘ T)) :
    smallest n (a ::ₘ T) = smallest n T := by
  have hle : smallest n (a ::ₘ T) ≤ T := by
    have hle' : smallest n (a ::ₘ T) ≤ a ::ₘ T := smallest_le
    exact (Multiset.le_cons_of_notMem h).mp hle'
  refine eq_smallest hle ?_ fun x hx y hy => ?_
  · have hcard : n ≤ Multiset.card T := by
      by_contra hlt
      refine h (mem_smallest_iff.mpr ⟨Multiset.mem_cons_self a T, ?_⟩)
      have hself : (a ::ₘ T).filter (· < a) = T.filter (· < a) := by simp
      rw [hself]
      exact (Multiset.card_le_card (Multiset.filter_le _ _)).trans_lt (not_le.mp hlt)
    rw [card_smallest, Multiset.card_cons]
    omega
  · exact le_of_mem_smallest_of_mem_sub hx
      (Multiset.mem_of_le (tsub_le_tsub_right (Multiset.le_cons_self T a) _) hy)

lemma exists_mem_smallest_snoc {l : List α} :
    (∃ x ∈ l ++ [a], x ∈ smallest n (((l ++ [a] : List α) : Multiset α) + T)) ↔
      (∃ x ∈ l, x ∈ smallest n ((l : Multiset α) + T)) ∨
        a ∈ smallest n (a ::ₘ ((l : Multiset α) + T)) := by
  rw [coe_snoc_add]
  constructor
  · rintro ⟨x, hx, hsmall⟩
    rcases List.mem_append.mp hx with hx | hx
    · refine .inl ⟨x, hx, mem_smallest_of_le (Multiset.le_cons_self _ a) ?_ hsmall⟩
      exact Multiset.mem_add.mpr (.inl (Multiset.mem_coe.mpr hx))
    · obtain rfl := List.mem_singleton.mp hx
      exact .inr hsmall
  · intro h
    by_cases ha : a ∈ smallest n (a ::ₘ ((l : Multiset α) + T))
    · exact ⟨a, List.mem_append_right l (List.mem_singleton_self a), ha⟩
    · obtain ⟨x, hx, hsmall⟩ := h.resolve_right ha
      rw [smallest_cons_of_notMem ha]
      exact ⟨x, List.mem_append_left [a] hx, hsmall⟩

end Smallest

/-! ### Replacements that are not compared -/

section Stale

variable {α : Type*} [LinearOrder α] {n : ℕ} {h : ℕ → α} {T : Multiset α} {y : α}

/-- The front is an element above the `n` smallest of `T`, in the place of the largest of them. -/
structure Stale (n : ℕ) (h : ℕ → α) (T : Multiset α) : Prop where
  heap : IsHeap id n h
  full : n ≤ Multiset.card T
  front : ∃ m U, smallest n T = m ::ₘ U ∧ (∀ u ∈ U, u ≤ m) ∧ contents n h = h 0 ::ₘ U ∧ m < h 0

/-- A heap with something on top of `U`, where the `n` smallest have `m`. -/
structure Near (n : ℕ) (h : ℕ → α) (T : Multiset α) (m : α) (U : Multiset α) : Prop where
  heap : IsHeap id n h
  full : n ≤ Multiset.card T
  smallest : smallest n T = m ::ₘ U
  le : ∀ u ∈ U, u ≤ m
  contents : contents n h = h 0 ::ₘ U

lemma Keeps.contents (hk : Keeps id n h T) : contents n h = smallest n T := by
  rw [← hk.keys, Multiset.map_id]

lemma Keeps.near (hk : Keeps id n h T) (hn : 0 < n) : ∃ U, Near n h T (h 0) U := by
  have hmem : h 0 ∈ BoundedHeap.contents n h := mem_contents.mpr ⟨0, hn, rfl⟩
  refine ⟨(BoundedHeap.contents n h).erase (h 0), hk.heap, hk.full, ?_, fun u hu => ?_, ?_⟩
  · rw [← hk.contents, Multiset.cons_erase hmem]
  · obtain ⟨i, hi, rfl⟩ := mem_contents.mp (Multiset.mem_of_mem_erase hu)
    exact hk.heap.le_front hi
  · rw [Multiset.cons_erase hmem]

lemma Stale.near (hs : Stale n h T) : ∃ m U, Near n h T m U ∧ m < h 0 := by
  obtain ⟨m, U, hsmall, hle, hcont, hlt⟩ := hs.front
  exact ⟨m, U, ⟨hs.heap, hs.full, hsmall, hle, hcont⟩, hlt⟩

/-- The heap holds what it should, or it is stale. -/
def Follows (n : ℕ) (h : ℕ → α) (T : Multiset α) : Prop := Keeps id n h T ∨ Stale n h T

namespace Near

variable {m : α} {U : Multiset α}

lemma mem (hr : Near n h T m U) : m ∈ BoundedHeap.smallest n T :=
  hr.smallest ▸ Multiset.mem_cons_self m U

lemma smallest_cons (hr : Near n h T m U) (y : α) :
    BoundedHeap.smallest n (y ::ₘ T) = if y < m then y ::ₘ U else m ::ₘ U := by
  have hmax : ∀ b ∈ BoundedHeap.smallest n T, b ≤ m := by
    rw [hr.smallest]
    exact Multiset.forall_mem_cons.mpr ⟨le_rfl, hr.le⟩
  have hcard : Multiset.card (BoundedHeap.smallest n T) = n := by
    rw [card_smallest, min_eq_left hr.full]
  rw [BoundedHeap.smallest_cons hr.mem hmax hcard, hr.smallest, Multiset.erase_cons_head]

lemma mem_smallest_cons_iff (hr : Near n h T m U) :
    y ∈ BoundedHeap.smallest n (y ::ₘ T) ↔ y ≤ m := by
  rw [hr.smallest_cons]
  split
  case isTrue hlt => exact iff_of_true (Multiset.mem_cons_self y U) hlt.le
  case isFalse hle =>
    rw [Multiset.mem_cons]
    constructor
    · rintro (rfl | hy)
      · exact le_rfl
      · exact hr.le y hy
    · intro hym
      exact .inl (le_antisymm hym (not_lt.mp hle))

lemma full_cons (hr : Near n h T m U) (y : α) : n ≤ Multiset.card (y ::ₘ T) := by
  rw [Multiset.card_cons]
  exact hr.full.trans (Nat.le_succ _)

lemma replaceTop_spec (hr : Near n h T m U) (hn : 0 < n) (y : α) :
    IsHeap id n (replaceTop id n h y) ∧ BoundedHeap.contents n (replaceTop id n h y) = y ::ₘ U := by
  obtain ⟨hheap, hcont⟩ := BoundedHeap.replaceTop_spec hr.heap hn y
  refine ⟨hheap, (Multiset.cons_inj_right (h 0)).mp ?_⟩
  rw [hcont, hr.contents, Multiset.cons_swap]

lemma keeps_replaceTop (hr : Near n h T m U) (hn : 0 < n) (hy : y ∈ BoundedHeap.smallest n (y ::ₘ T)) :
    Keeps id n (replaceTop id n h y) (y ::ₘ T) where
  heap := (hr.replaceTop_spec hn y).1
  full := hr.full_cons y
  keys := by
    rw [Multiset.map_id, (hr.replaceTop_spec hn y).2, hr.smallest_cons]
    split
    case isTrue => rfl
    case isFalse hle => rw [le_antisymm (hr.mem_smallest_cons_iff.mp hy) (not_lt.mp hle)]

lemma stale_replaceTop (hr : Near n h T m U) (hn : 0 < n) (hy : y ∉ BoundedHeap.smallest n (y ::ₘ T)) :
    Stale n (replaceTop id n h y) (y ::ₘ T) ∧ replaceTop id n h y 0 = y := by
  obtain ⟨hheap, hcont⟩ := hr.replaceTop_spec hn y
  have hlt : m < y := not_le.mp fun hle => hy (hr.mem_smallest_cons_iff.mpr hle)
  have hfront : replaceTop id n h y 0 = y := by
    have hmem : replaceTop id n h y 0 ∈ BoundedHeap.contents n (replaceTop id n h y) :=
      mem_contents.mpr ⟨0, hn, rfl⟩
    obtain ⟨i, hi, hiy⟩ := mem_contents.mp (hcont ▸ Multiset.mem_cons_self y U)
    have hge : y ≤ replaceTop id n h y 0 := by
      have := hheap.le_front hi
      rwa [hiy] at this
    rw [hcont, Multiset.mem_cons] at hmem
    exact hmem.resolve_right fun hU => absurd (hr.le _ hU) (not_le.mpr (hlt.trans_le hge))
  refine ⟨⟨hheap, hr.full_cons y, m, U, ?_, hr.le, by rw [hcont, hfront], by rwa [hfront]⟩, hfront⟩
  rw [hr.smallest_cons, if_neg (not_lt.mpr hlt.le)]

end Near

/-! ### Runs -/

lemma Follows.near (hf : Follows n h T) (hn : 0 < n) : ∃ m U, Near n h T m U := by
  rcases hf with hk | hs
  · obtain ⟨U, hr⟩ := hk.near hn
    exact ⟨h 0, U, hr⟩
  · obtain ⟨m, U, hr, -⟩ := hs.near
    exact ⟨m, U, hr⟩

/-- **One replacement**, whatever was there before. -/
theorem Follows.replaceTop (hf : Follows n h T) (hn : 0 < n) (y : α) :
    (y ∈ smallest n (y ::ₘ T) → Keeps id n (replaceTop id n h y) (y ::ₘ T)) ∧
      (y ∉ smallest n (y ::ₘ T) →
        Stale n (BoundedHeap.replaceTop id n h y) (y ::ₘ T) ∧ BoundedHeap.replaceTop id n h y 0 = y) := by
  obtain ⟨m, U, hr⟩ := hf.near hn
  exact ⟨hr.keeps_replaceTop hn, hr.stale_replaceTop hn⟩

/-- **A run of replacements**: the last one decides. -/
theorem Follows.replaceTops (hf : Follows n h T) (hn : 0 < n) (ys : List α) (y : α) :
    (y ∈ smallest n (((ys ++ [y] : List α) : Multiset α) + T) →
        Keeps id n ((ys ++ [y]).foldl (BoundedHeap.replaceTop id n) h)
          (((ys ++ [y] : List α) : Multiset α) + T)) ∧
      (y ∉ smallest n (((ys ++ [y] : List α) : Multiset α) + T) →
        Stale n ((ys ++ [y]).foldl (BoundedHeap.replaceTop id n) h)
            (((ys ++ [y] : List α) : Multiset α) + T) ∧
          (ys ++ [y]).foldl (BoundedHeap.replaceTop id n) h 0 = y) := by
  have hstep : Follows n (ys.foldl (BoundedHeap.replaceTop id n) h) ((ys : Multiset α) + T) := by
    induction ys using List.reverseRecOn with
    | nil => simpa using hf
    | append_singleton ys z ih =>
      rw [List.foldl_append, coe_snoc_add]
      by_cases hz : z ∈ smallest n (z ::ₘ ((ys : Multiset α) + T))
      · exact .inl ((ih.replaceTop hn z).1 hz)
      · exact .inr ((ih.replaceTop hn z).2 hz).1
  rw [List.foldl_append, coe_snoc_add]
  exact hstep.replaceTop hn y

/-- **One offer** to a stale heap. -/
theorem Stale.offer (hs : Stale n h T) (hn : 0 < n) (y : α) :
    (y ∈ smallest n (y ::ₘ T) → Keeps id n (offer id n h y) (y ::ₘ T)) ∧
      (y ∉ smallest n (y ::ₘ T) →
        Stale n (BoundedHeap.offer id n h y) (y ::ₘ T) ∧ BoundedHeap.offer id n h y 0 ≤ h 0) := by
  obtain ⟨m, U, hr, hlt⟩ := hs.near
  unfold BoundedHeap.offer
  split
  case isTrue hy =>
    refine ⟨hr.keeps_replaceTop hn, fun hnot => ?_⟩
    obtain ⟨hs', hfront⟩ := hr.stale_replaceTop hn hnot
    exact ⟨hs', hfront.trans_le (le_of_lt hy)⟩
  case isFalse hy =>
    have hmy : m < y := hlt.trans_le (not_lt.mp hy)
    refine ⟨fun hmem => absurd (hr.mem_smallest_cons_iff.mp hmem) (not_le.mpr hmy), fun _ =>
      ⟨⟨hs.heap, hr.full_cons y, m, U, ?_, hr.le, hr.contents, hlt⟩, le_rfl⟩⟩
    rw [hr.smallest_cons, if_neg (not_lt.mpr hmy.le)]

/-- **A run of offers** to a stale heap: one that belongs among the smallest sets it right. -/
theorem Stale.offers (hs : Stale n h T) (hn : 0 < n) (ys : List α) :
    ((∃ y ∈ ys, y ∈ smallest n ((ys : Multiset α) + T)) →
        Keeps id n (ys.foldl (BoundedHeap.offer id n) h) ((ys : Multiset α) + T)) ∧
      ((¬ ∃ y ∈ ys, y ∈ smallest n ((ys : Multiset α) + T)) →
        Stale n (ys.foldl (BoundedHeap.offer id n) h) ((ys : Multiset α) + T) ∧
          ys.foldl (BoundedHeap.offer id n) h 0 ≤ h 0) := by
  induction ys using List.reverseRecOn with
  | nil =>
    refine ⟨fun ⟨y, hy, _⟩ => absurd hy List.not_mem_nil, fun _ => ⟨?_, le_rfl⟩⟩
    simpa using hs
  | append_singleton ys y ih =>
    rw [exists_mem_smallest_snoc, List.foldl_append, coe_snoc_add]
    by_cases hys : ∃ x ∈ ys, x ∈ smallest n ((ys : Multiset α) + T)
    · have hkeep : Keeps id n (BoundedHeap.offer id n (ys.foldl (BoundedHeap.offer id n) h) y)
          (y ::ₘ ((ys : Multiset α) + T)) := (ih.1 hys).offer hn y
      exact ⟨fun _ => hkeep, fun hnot => absurd (.inl hys) hnot⟩
    · obtain ⟨hs', hfront⟩ := ih.2 hys
      have hone := hs'.offer hn y
      refine ⟨fun hor => hone.1 (hor.resolve_left hys), fun hnot => ?_⟩
      obtain ⟨hs'', hfront'⟩ := hone.2 fun hy => hnot (.inr hy)
      exact ⟨hs'', hfront'.trans hfront⟩

lemma Stale.notMem_smallest (hs : Stale n h T) {T' : Multiset α} (hle : T ≤ T') (hy : h 0 ≤ y) :
    y ∉ smallest n T' := by
  obtain ⟨m, U, hr, hlt⟩ := hs.near
  intro hmem
  have hbelow : ∀ x ∈ smallest n T, x < y := by
    rw [hr.smallest]
    exact Multiset.forall_mem_cons.mpr
      ⟨hlt.trans_le hy, fun u hu => (hr.le u hu).trans_lt (hlt.trans_le hy)⟩
  have hsub : smallest n T ≤ T'.filter (· < y) :=
    Multiset.le_filter.mpr ⟨smallest_le.trans hle, hbelow⟩
  have hcard := Multiset.card_le_card hsub
  rw [card_smallest, min_eq_left hs.full] at hcard
  exact absurd (mem_smallest_iff.mp hmem).2 (not_lt.mpr hcard)

lemma Stale.contents_ne (hs : Stale n h T) : contents n h ≠ smallest n T := by
  obtain ⟨m, U, hsmall, hle, hcont, hlt⟩ := hs.front
  rw [hcont, hsmall]
  intro heq
  have hmem : h 0 ∈ m ::ₘ U := heq ▸ Multiset.mem_cons_self (h 0) U
  rcases Multiset.mem_cons.mp hmem with h0 | hU
  · exact hlt.ne' h0
  · exact absurd (hle _ hU) (not_le.mpr hlt)

end Stale

end SextantTree.BoundedHeap
