import Mathlib.Algebra.BigOperators.Group.List.Basic
import Mathlib.Data.List.Induction
import SextantTree.LeafCache

/-!
The books of a shard. `Linked` ties the lists, the counters and the map to the flags of the
entries; it allows for entries in hand, taken out of their list and not yet put into another.
`Later` says what no operation undoes. The two together give the books after every run in which no
fill meets a pinned entry too short for it.
-/

namespace SextantTree.LeafCache

variable {σ : Type} {C : Config σ} {s t : Shard σ} {hand : List ℕ} {q : Status} {e : ℕ}

namespace Shard

def Resident (s : Shard σ) (e : ℕ) : Prop := e < s.next ∧ s.retired e = false

def sizes (s : Shard σ) (q : Status) : List ℕ := (s.lists q).map fun e => (s.entries e).size

/-- Lists, counters and map agree, but for the entries in hand. -/
structure Linked (hand : List ℕ) (s : Shard σ) : Prop where
  nodup : ∀ q, (s.lists q).Nodup
  mem : ∀ q e, e ∈ s.lists q ↔ s.Resident e ∧ s.status e = q ∧ e ∉ hand
  held : ∀ e ∈ hand, s.Resident e
  bytes : ∀ q, s.bytes q = (s.sizes q).sum
  mapped : ∀ k e, s.map.lookup k = some e → s.Resident e ∧ k ∈ (s.entries e).keys
  freed : ∀ e < s.next, s.retired e → s.refs e = 0 → s.deleted e
  kept : ∀ e < s.next, s.deleted e → s.retired e ∧ s.refs e = 0

/-- Every entry of the cache is found under its start page. -/
def Keyed (s : Shard σ) : Prop := ∀ e, s.Resident e → s.map.lookup (s.entries e).page = some e

structure Later (s t : Shard σ) : Prop where
  entries : t.entries = s.entries
  next : t.next = s.next
  retired : ∀ e, s.retired e → t.retired e
  lookup : ∀ k e, s.map.lookup k = some e → t.retired e = false → t.map.lookup k = some e

lemma Later.refl (s : Shard σ) : s.Later s := ⟨rfl, rfl, fun _ h => h, fun _ _ h _ => h⟩

lemma Later.trans {u : Shard σ} (h : s.Later t) (h' : t.Later u) : s.Later u where
  entries := h'.entries.trans h.entries
  next := h'.next.trans h.next
  retired e he := h'.retired e (h.retired e he)
  lookup k e hk hr := by
    have hrt : t.retired e = false := by
      by_contra hrt
      have := h'.retired e (by simpa using hrt)
      simp_all
    exact h'.lookup k e (h.lookup k e hk hrt) hr

lemma Keyed.later (h : s.Keyed) (hst : s.Later t) : t.Keyed := by
  intro e he
  have hr : s.retired e = false := by
    by_contra hr
    have := hst.retired e (by simpa using hr)
    simp_all [Resident]
  rw [hst.entries]
  exact hst.lookup _ e (h e ⟨hst.next ▸ he.1, hr⟩) he.2

/-! Pool and sketch are not in the books. -/

lemma Linked.withPool (h : s.Linked hand) (pool : List (ℕ × ℕ)) (n : ℕ) :
    ({ s with pool := pool, poolBytes := n } : Shard σ).Linked hand :=
  ⟨h.nodup, h.mem, h.held, h.bytes, h.mapped, h.freed, h.kept⟩

lemma releaseBuf_eq (s : Shard σ) (alloc cap : ℕ) :
    ∃ pool n, s.releaseBuf C alloc cap = { s with pool := pool, poolBytes := n } := by
  unfold releaseBuf
  split
  · exact ⟨_, _, rfl⟩
  · exact ⟨s.pool, s.poolBytes, rfl⟩

lemma Linked.releaseBuf (h : s.Linked hand) (alloc cap : ℕ) :
    (s.releaseBuf C alloc cap).Linked hand := by
  obtain ⟨pool, n, hs⟩ := releaseBuf_eq (C := C) s alloc cap
  rw [hs]
  exact h.withPool pool n

lemma later_releaseBuf (s : Shard σ) (alloc cap : ℕ) : s.Later (s.releaseBuf C alloc cap) := by
  obtain ⟨pool, n, hs⟩ := releaseBuf_eq (C := C) s alloc cap
  rw [hs]
  exact ⟨rfl, rfl, fun _ h => h, fun _ _ h _ => h⟩

lemma acquireBuf_eq (s : Shard σ) (size : ℕ) :
    ∃ pool n, (s.acquireBuf size).1 = { s with pool := pool, poolBytes := n } := by
  unfold acquireBuf
  split
  · exact ⟨_, _, rfl⟩
  · exact ⟨s.pool, s.poolBytes, rfl⟩

/-! Moves between the lists. -/

lemma Linked.notMem_hand (h : s.Linked hand) (he : e ∈ s.lists q) : e ∉ hand :=
  ((h.mem q e).1 he).2.2

lemma Linked.size_le_bytes (h : s.Linked hand) (he : e ∈ s.lists q) :
    (s.entries e).size ≤ s.bytes q := by
  have herase := List.sum_map_erase (fun e => (s.entries e).size) he
  rw [h.bytes, sizes]
  omega

lemma Linked.detach (h : s.Linked hand) (he : e ∈ s.lists q) :
    (s.detach q e).Linked (e :: hand) where
  nodup r := by
    by_cases hr : r = q
    · subst hr
      simpa [Shard.detach] using (h.nodup r).erase e
    · simpa [Shard.detach, hr] using h.nodup r
  mem r x := by
    have hx := h.mem r x
    by_cases hr : r = q
    · subst hr
      have := (h.nodup r).mem_erase_iff (a := x) (b := e)
      simp only [Shard.detach, Function.update_self, this, hx, Resident, List.mem_cons, not_or]
      tauto
    · have heq := (h.mem q e).1 he
      simp only [Shard.detach, Function.update_of_ne hr, hx, Resident, List.mem_cons, not_or]
      grind
  held x hx := by
    rcases List.mem_cons.mp hx with rfl | hx
    · exact ((h.mem q x).1 he).1
    · exact h.held x hx
  bytes r := by
    by_cases hr : r = q
    · subst hr
      have hle := h.size_le_bytes he
      have hsum := h.bytes r
      have herase := List.sum_map_erase (fun e => (s.entries e).size) he
      simp only [sizes] at hsum
      simp only [Shard.detach, sizes, Function.update_self]
      rw [sub64_of_le hle]
      omega
    · simpa [Shard.detach, sizes, hr] using h.bytes r
  mapped := h.mapped
  freed := h.freed
  kept := h.kept

lemma Linked.attach (h : s.Linked (e :: hand)) (he : e ∉ hand) (q : Status) :
    (s.attach q e).Linked hand where
  nodup r := by
    by_cases hr : r = q
    · subst hr
      have : e ∉ s.lists r := fun hmem => h.notMem_hand hmem List.mem_cons_self
      simpa [Shard.attach, this] using h.nodup r
    · simpa [Shard.attach, hr] using h.nodup r
  mem r x := by
    have hx := h.mem r x
    have hres := h.held e List.mem_cons_self
    by_cases hxe : x = e
    · subst hxe
      by_cases hr : r = q
      · subst hr
        simpa [Shard.attach, Resident, he] using hres
      · have : x ∉ s.lists r := fun hmem => h.notMem_hand hmem List.mem_cons_self
        simp [Shard.attach, hr, this, Ne.symm hr]
    · by_cases hr : r = q
      · subst hr
        simpa [Shard.attach, Resident, hxe] using hx
      · simpa [Shard.attach, Resident, hxe, hr] using hx
  held x hx := h.held x (List.mem_cons_of_mem e hx)
  bytes r := by
    by_cases hr : r = q
    · subst hr
      have := h.bytes r
      simp only [sizes] at this
      simp only [Shard.attach, sizes, Function.update_self, List.map_cons, List.sum_cons]
      omega
    · simpa [Shard.attach, sizes, hr] using h.bytes r
  mapped := h.mapped
  freed := h.freed
  kept := h.kept

lemma Linked.moveToMru (h : s.Linked hand) (he : e ∈ s.lists q) :
    (s.moveToMru q e).Linked hand where
  nodup r := by
    by_cases hr : r = q
    · subst hr
      have hnd := h.nodup r
      simp [Shard.moveToMru, hnd.erase e, hnd.mem_erase_iff]
    · simpa [Shard.moveToMru, hr] using h.nodup r
  mem r x := by
    change _ ↔ s.Resident x ∧ s.status x = r ∧ x ∉ hand
    rw [← h.mem r x]
    by_cases hr : r = q
    · subst hr
      simp only [Shard.moveToMru, Function.update_self, List.mem_cons,
        (h.nodup r).mem_erase_iff]
      grind
    · simp [Shard.moveToMru, hr]
  held := h.held
  bytes r := by
    by_cases hr : r = q
    · subst hr
      have hsum := h.bytes r
      have herase := List.sum_map_erase (fun e => (s.entries e).size) he
      simp only [sizes] at hsum
      simp only [Shard.moveToMru, sizes, Function.update_self, List.map_cons, List.sum_cons]
      omega
    · simpa [Shard.moveToMru, sizes, hr] using h.bytes r
  mapped := h.mapped
  freed := h.freed
  kept := h.kept

/-! Leaving the cache. -/

lemma lookup_eraseKeys (s : Shard σ) (e : ℕ) (k : PageId) :
    (s.eraseKeys e).map.lookup k
      = if k ∈ (s.entries e).keys ∧ s.map.lookup k = some e then none else s.map.lookup k := by
  simp only [eraseKeys]
  generalize (s.entries e).keys = keys
  generalize s.map = m
  induction keys generalizing m with
  | nil => simp
  | cons a keys ih =>
    rw [List.foldl_cons, ih]
    by_cases ha : m.lookup a = some e
    · by_cases hk : k = a
      · subst hk
        simp [ha]
      · simp [ha, AList.lookup_erase_ne hk, hk]
    · by_cases hk : k = a
      · subst hk
        simp [ha]
      · simp [ha, hk]

lemma maybeDelete_eq (s : Shard σ) (e : ℕ) :
    ∃ deleted pool n, s.maybeDelete C e
        = { s with deleted := deleted, pool := pool, poolBytes := n } ∧
      ∀ x, deleted x = true ↔ s.deleted x ∨ (x = e ∧ s.refs e = 0) := by
  unfold maybeDelete
  split_ifs with hr hd
  · exact ⟨s.deleted, s.pool, s.poolBytes, rfl, by grind⟩
  · exact ⟨s.deleted, s.pool, s.poolBytes, rfl, by grind⟩
  · obtain ⟨pool, n, hs⟩ := releaseBuf_eq (C := C)
      { s with deleted := Function.update s.deleted e true }
      (s.entries e).alloc (s.entries e).bufCap
    exact ⟨_, pool, n, hs, by grind [Function.update_apply]⟩

lemma dropEntry_eq (s : Shard σ) (e : ℕ) :
    ∃ deleted pool n, s.dropEntry C e
        = { s with
            retired := Function.update s.retired e true
            deleted := deleted
            pool := pool
            poolBytes := n } ∧
      ∀ x, deleted x = true ↔ s.deleted x ∨ (x = e ∧ s.refs e = 0) := by
  obtain ⟨deleted, pool, n, hs, hdel⟩ := maybeDelete_eq (C := C)
    { s with retired := Function.update s.retired e true } e
  exact ⟨deleted, pool, n, hs, hdel⟩

lemma Linked.drop (h : s.Linked (e :: hand)) (he : e ∉ hand) :
    ((s.eraseKeys e).dropEntry C e).Linked hand := by
  obtain ⟨deleted, pool, n, hs, hdel⟩ := dropEntry_eq (C := C) (s.eraseKeys e) e
  have hres := h.held e List.mem_cons_self
  have hmem : ∀ q x, x ∈ s.lists q ↔ s.Resident x ∧ s.status x = q ∧ x ≠ e ∧ x ∉ hand := by
    intro q x
    rw [h.mem q x, List.mem_cons, not_or]
  rw [hs]
  refine ⟨h.nodup, ?_, ?_, h.bytes, ?_, ?_, ?_⟩
  · intro q x
    have := hmem q x
    simp only [Resident, eraseKeys] at this ⊢
    grind [Function.update_apply]
  · intro x hx
    have := h.held x (List.mem_cons_of_mem e hx)
    simp only [Resident, eraseKeys] at this ⊢
    grind [Function.update_apply]
  · intro k x hk
    have hk' := lookup_eraseKeys s e k
    simp only [Resident] at hk hk' ⊢
    rw [hk'] at hk
    split_ifs at hk with hgone
    have hx := h.mapped k x hk
    have hne : x ≠ e := by
      rintro rfl
      exact hgone ⟨hx.2, hk⟩
    simpa [eraseKeys, Resident, hne] using hx
  · intro x hx hret href
    have := (hdel x).2
    have := h.freed x hx
    simp only [eraseKeys] at *
    grind [Function.update_apply]
  · intro x hx hd
    have := (hdel x).1 hd
    have := h.kept x hx
    simp only [eraseKeys] at *
    grind [Function.update_apply]

lemma later_detach (s : Shard σ) (q : Status) (e : ℕ) : s.Later (s.detach q e) :=
  ⟨rfl, rfl, fun _ h => h, fun _ _ h _ => h⟩

lemma later_attach (s : Shard σ) (q : Status) (e : ℕ) : s.Later (s.attach q e) :=
  ⟨rfl, rfl, fun _ h => h, fun _ _ h _ => h⟩

lemma later_drop (s : Shard σ) (e : ℕ) : s.Later ((s.eraseKeys e).dropEntry C e) := by
  obtain ⟨deleted, pool, n, hs, -⟩ := dropEntry_eq (C := C) (s.eraseKeys e) e
  rw [hs]
  refine ⟨rfl, rfl, ?_, ?_⟩
  · intro x hx
    simp only [eraseKeys]
    grind [Function.update_apply]
  · intro k x hk hx
    have hne : x ≠ e := by
      rintro rfl
      simp [eraseKeys] at hx
    have hk' := lookup_eraseKeys s e k
    rw [if_neg (by rw [hk]; simp [hne])] at hk'
    exact hk'.trans hk

lemma Linked.evict (h : s.Linked hand) (he : e ∈ s.lists q) : (s.evict C q e).Linked hand :=
  (h.detach he).drop (h.notMem_hand he)

lemma later_evict (s : Shard σ) (q : Status) (e : ℕ) : s.Later (s.evict C q e) :=
  (later_detach s q e).trans (later_drop _ e)

lemma Linked.move (h : s.Linked hand) (he : e ∈ s.lists q) (r : Status) :
    ((s.detach q e).attach r e).Linked hand :=
  (h.detach he).attach (h.notMem_hand he) r

/-! A hit. -/

lemma mem_of_lastUnpinned (h : s.lastUnpinned q = some e) : e ∈ s.lists q ∧ s.refs e = 0 := by
  have hmem := List.mem_of_find?_eq_some h
  have href := List.find?_some h
  simp_all

lemma Linked.touch (h : s.Linked hand) (he : s.Resident e) (n : ℕ) (sk : σ) :
    ({ s with refs := Function.update s.refs e n, sketch := sk } : Shard σ).Linked hand := by
  refine ⟨h.nodup, h.mem, h.held, h.bytes, h.mapped, ?_, ?_⟩
  · intro x hx hret href
    have := h.freed x hx hret
    have := he.2
    grind [Function.update_apply]
  · intro x hx hdel
    have := h.kept x hx hdel
    have := he.2
    grind [Function.update_apply]

lemma Linked.demote (fuel : ℕ) (h : s.Linked hand) : (s.demote C fuel).Linked hand := by
  induction fuel generalizing s with
  | zero => exact h
  | succ fuel ih =>
    simp only [Shard.demote]
    split_ifs with hover
    · split
      · rename_i d hd
        exact ih (h.move (List.mem_of_getLast? hd) .probation)
      · exact h
    · exact h

lemma later_demote (fuel : ℕ) (s : Shard σ) : s.Later (s.demote C fuel) := by
  induction fuel generalizing s with
  | zero => exact .refl s
  | succ fuel ih =>
    simp only [Shard.demote]
    split_ifs with hover
    · split
      · exact ((later_detach s _ _).trans (later_attach _ _ _)).trans (ih _)
      · exact .refl s
    · exact .refl s

lemma Linked.relieve (fuel : ℕ) (h : s.Linked hand) : (s.relieve C fuel).Linked hand := by
  induction fuel generalizing s with
  | zero => exact h
  | succ fuel ih =>
    simp only [Shard.relieve]
    split_ifs with hover
    · split
      · rename_i v hv
        exact ih (h.evict (mem_of_lastUnpinned hv).1)
      · exact h
    · exact h

lemma later_relieve (fuel : ℕ) (s : Shard σ) : s.Later (s.relieve C fuel) := by
  induction fuel generalizing s with
  | zero => exact .refl s
  | succ fuel ih =>
    simp only [Shard.relieve]
    split_ifs with hover
    · split
      · exact (later_evict s _ _).trans (ih _)
      · exact .refl s
    · exact .refl s

lemma Linked.hitLocked (h : s.Linked []) (he : s.Resident e) (page : PageId) :
    (s.hitLocked C e page).Linked [] := by
  have htouch := h.touch he (s.refs e + 1) (C.increment s.sketch page)
  have hmem := (htouch.mem (s.status e) e).2 ⟨he, rfl, List.not_mem_nil⟩
  unfold Shard.hitLocked
  dsimp only
  split
  · rename_i hst
    exact htouch.moveToMru (hst ▸ hmem)
  · rename_i hst
    exact ((htouch.move (hst ▸ hmem) .protected_).demote _).relieve _
  · rename_i hst
    exact htouch.moveToMru (hst ▸ hmem)

lemma later_hitLocked (s : Shard σ) (e : ℕ) (page : PageId) : s.Later (s.hitLocked C e page) := by
  unfold Shard.hitLocked
  dsimp only
  split
  · exact ⟨rfl, rfl, fun _ h => h, fun _ _ h _ => h⟩
  · refine Later.trans ?_ (later_relieve _ _)
    refine Later.trans ?_ (later_demote _ _)
    exact ⟨rfl, rfl, fun _ h => h, fun _ _ h _ => h⟩
  · exact ⟨rfl, rfl, fun _ h => h, fun _ _ h _ => h⟩

/-! The admission loop. -/

lemma mem_of_candidate {c : ℕ} (h : s.candidate e = some c) :
    c ∈ s.lists .window ∧ s.refs c = 0 ∧ c ≠ e := by
  unfold candidate at h
  split at h
  · rename_i x hx
    have hmem := List.mem_of_find?_eq_some hx
    have hp := List.find?_some hx
    split_ifs at h with hxe
    simp_all
  · simp at h

/-- What one turn of the loop can do with its candidate: move it to probation, trade it for a
victim there, or drop it. -/
lemma admitRound_cases (h : s.admitRound C e = some t) :
    C.limits.maxWindow < s.bytes .window ∧ ∃ c, s.candidate e = some c ∧
      (((s.detach .window c).main + (s.entries c).size ≤ C.limits.maxMain ∧
          t = (s.detach .window c).attach .probation c) ∨
        (∃ v, C.limits.maxMain < (s.detach .window c).main + (s.entries c).size ∧
          (s.detach .window c).lastUnpinned .probation = some v ∧
          C.frequency s.sketch (s.entries v).page < C.frequency s.sketch (s.entries c).page ∧
          t = ((s.detach .window c).evict C .probation v).attach .probation c) ∨
        t = ((s.detach .window c).eraseKeys c).dropEntry C c) := by
  unfold admitRound at h
  split_ifs at h with hover
  refine ⟨hover, ?_⟩
  split at h
  · rename_i c hc
    refine ⟨c, hc, ?_⟩
    dsimp only at h
    split_ifs at h with hroom
    · exact .inl ⟨hroom, (Option.some.inj h).symm⟩
    · split at h
      · rename_i v hv
        split_ifs at h with hfreq
        · exact .inr (.inl ⟨v, Nat.lt_of_not_le hroom, hv, hfreq, (Option.some.inj h).symm⟩)
        · exact .inr (.inr (Option.some.inj h).symm)
      · exact .inr (.inr (Option.some.inj h).symm)
  · simp at h

lemma Linked.admitRound (h : s.Linked []) (hround : s.admitRound C e = some t) :
    t.Linked [] := by
  obtain ⟨-, c, hc, hcases⟩ := admitRound_cases hround
  have hmem := (mem_of_candidate hc).1
  have hdet := h.detach hmem
  rcases hcases with ⟨-, rfl⟩ | ⟨v, -, hv, -, rfl⟩ | rfl
  · exact hdet.attach List.not_mem_nil .probation
  · exact (hdet.evict (mem_of_lastUnpinned hv).1).attach List.not_mem_nil .probation
  · exact hdet.drop List.not_mem_nil

lemma later_admitRound (hround : s.admitRound C e = some t) : s.Later t := by
  obtain ⟨-, c, -, hcases⟩ := admitRound_cases hround
  rcases hcases with ⟨-, rfl⟩ | ⟨v, -, -, -, rfl⟩ | rfl
  · exact (later_detach s _ _).trans (later_attach _ _ _)
  · exact ((later_detach s _ _).trans (later_evict _ _ _)).trans (later_attach _ _ _)
  · exact (later_detach s _ _).trans (later_drop _ _)

lemma Linked.admitWindow (fuel : ℕ) (h : s.Linked []) : (s.admitWindow C fuel e).Linked [] := by
  induction fuel generalizing s with
  | zero => exact h
  | succ fuel ih =>
    simp only [Shard.admitWindow]
    split
    · rename_i s' hs'
      exact ih (h.admitRound hs')
    · exact h

lemma later_admitWindow (fuel : ℕ) (s : Shard σ) (e : ℕ) : s.Later (s.admitWindow C fuel e) := by
  induction fuel generalizing s with
  | zero => exact .refl s
  | succ fuel ih =>
    simp only [Shard.admitWindow]
    split
    · rename_i s' hs'
      exact (later_admitRound hs').trans (ih s')
    · exact .refl s

/-! A new entry. -/

lemma lookup_emplace (m : AList fun _ : PageId => ℕ) (k k' : PageId) (e : ℕ) :
    (emplace m k e).lookup k' = if k' = k then some ((m.lookup k).getD e) else m.lookup k' := by
  unfold emplace
  split_ifs with hsome hk hk
  · subst hk
    obtain ⟨x, hx⟩ := Option.isSome_iff_exists.1 hsome
    simp [hx]
  · rfl
  · subst hk
    simp_all
  · simp [AList.lookup_insert_ne hk]

def claimKeys (m : AList fun _ : PageId => ℕ) (page : PageId) (aliases : List PageId) (e : ℕ) :
    AList fun _ : PageId => ℕ :=
  aliases.foldl (fun m a => if a = page then m else emplace m a e) (emplace m page e)

lemma lookup_claimKeys (m : AList fun _ : PageId => ℕ) (page : PageId) (aliases : List PageId)
    (e : ℕ) (k : PageId) :
    (claimKeys m page aliases e).lookup k
      = if k = page ∨ k ∈ aliases then some ((m.lookup k).getD e) else m.lookup k := by
  unfold claimKeys
  induction aliases using List.reverseRecOn with
  | nil =>
    rw [List.foldl_nil, lookup_emplace]
    grind
  | append_singleton as a ih =>
    rw [List.foldl_append, List.foldl_cons, List.foldl_nil]
    split_ifs with hap hk hk
    · grind
    · grind
    · rw [lookup_emplace]
      split_ifs with hka
      · subst hka
        grind
      · grind
    · rw [lookup_emplace]
      grind

/-- The shard with the new entry in hand, pinned by its caller. -/
def born (s : Shard σ) (entry : Entry) : Shard σ :=
  { s with
    entries := Function.update s.entries s.next entry
    next := s.next + 1
    refs := Function.update s.refs s.next 1
    retired := Function.update s.retired s.next false
    deleted := Function.update s.deleted s.next false }

def fillEntry (page : PageId) (pages : ℕ) (aliases : List PageId) (alloc : ℕ) : Entry :=
  { page := page, keys := page :: aliases, size := fillSize pages % 2 ^ 32,
    bufCap := fillSize pages, alloc := alloc }

lemma enter_eq (s : Shard σ) (page : PageId) (pages : ℕ) (aliases : List PageId) (alloc : ℕ) :
    s.enter page pages aliases alloc
      = { (s.born (fillEntry page pages aliases alloc)).attach .window s.next with
          map := claimKeys s.map page aliases s.next } :=
  rfl

lemma Linked.born (h : s.Linked []) (entry : Entry) : (s.born entry).Linked [s.next] := by
  have hold : ∀ q, ∀ x ∈ s.lists q, x ≠ s.next := by
    intro q x hx
    have := ((h.mem q x).1 hx).1.1
    omega
  have hsizes : ∀ q, (s.born entry).sizes q = s.sizes q := by
    intro q
    refine List.map_congr_left fun x hx => ?_
    simp [Shard.born, hold q x hx]
  refine ⟨h.nodup, ?_, ?_, fun q => (h.bytes q).trans (congrArg _ (hsizes q).symm), ?_, ?_, ?_⟩
  · intro q x
    have := h.mem q x
    simp only [Shard.born, Resident] at this ⊢
    grind [Function.update_apply]
  · intro x hx
    obtain rfl : x = s.next := by simpa using hx
    simp [Shard.born, Resident]
  · intro k x hk
    have hx := h.mapped k x hk
    have hlt := hx.1.1
    have hne : x ≠ s.next := by omega
    simpa [Shard.born, Resident, hne, Nat.lt_succ_of_lt hlt] using ⟨hx.1.2, hx.2⟩
  · intro x hx hret href
    have := h.freed x
    simp only [Shard.born] at *
    grind [Function.update_apply]
  · intro x hx hdel
    have := h.kept x
    simp only [Shard.born] at *
    grind [Function.update_apply]

lemma Linked.enter (h : s.Linked []) (page : PageId) (pages : ℕ) (aliases : List PageId)
    (alloc : ℕ) : (s.enter page pages aliases alloc).Linked [] := by
  set entry := fillEntry page pages aliases alloc with hentry
  have hatt := (h.born entry).attach List.not_mem_nil .window
  rw [enter_eq]
  refine ⟨hatt.nodup, hatt.mem, hatt.held, hatt.bytes, ?_, hatt.freed, hatt.kept⟩
  intro k x hk
  change (claimKeys s.map page aliases s.next).lookup k = some x at hk
  change (s.born entry).Resident x ∧ k ∈ ((s.born entry).entries x).keys
  rw [lookup_claimKeys] at hk
  by_cases hs : s.map.lookup k = some x
  · exact hatt.mapped k x hs
  · -- the key was free, and the entry has claimed it
    have hx : x = s.next ∧ k ∈ page :: aliases := by
      cases hl : s.map.lookup k with
      | none =>
        simp only [hl, Option.getD_none] at hk
        grind
      | some y =>
        simp only [hl, Option.getD_some] at hk hs
        grind
    obtain ⟨rfl, hkeys⟩ := hx
    refine ⟨(h.born entry).held _ List.mem_cons_self, ?_⟩
    simpa [Shard.born, hentry, fillEntry] using hkeys

lemma Keyed.enter (h : s.Keyed) (page : PageId) (pages : ℕ) (aliases : List PageId) (alloc : ℕ)
    (hfree : s.map.lookup page = none) : (s.enter page pages aliases alloc).Keyed := by
  intro x hx
  set t := s.born (fillEntry page pages aliases alloc)
  change (claimKeys s.map page aliases s.next).lookup (t.entries x).page = some x
  rw [lookup_claimKeys]
  by_cases hnew : x = s.next
  · subst hnew
    have hpage : (t.entries s.next).page = page := by simp [t, Shard.born, fillEntry]
    rw [hpage, hfree]
    simp
  · have hold : s.Resident x := by
      simp only [Resident, enter_eq, Shard.attach, Shard.born] at hx ⊢
      grind [Function.update_apply]
    have hentry : t.entries x = s.entries x := Function.update_of_ne hnew _ _
    rw [hentry, h x hold]
    simp

/-- What holds of an entry from one state to all later ones. -/
structure Grows (s t : Shard σ) : Prop where
  next : s.next ≤ t.next
  retired : ∀ e < s.next, s.retired e → t.retired e

lemma Grows.trans {u : Shard σ} (h : s.Grows t) (h' : t.Grows u) : s.Grows u where
  next := h.next.trans h'.next
  retired e he hr := h'.retired e (he.trans_le h.next) (h.retired e he hr)

lemma Later.grows (h : s.Later t) : s.Grows t := ⟨h.next.ge, fun e _ => h.retired e⟩

lemma grows_enter (s : Shard σ) (page : PageId) (pages : ℕ) (aliases : List PageId) (alloc : ℕ) :
    s.Grows (s.enter page pages aliases alloc) := by
  rw [enter_eq]
  refine ⟨Nat.le_succ _, fun x hx hret => ?_⟩
  have hne : x ≠ s.next := by omega
  simpa [Shard.attach, Shard.born, hne] using hret

/-! The sections of `pin`. -/

structure Books (s : Shard σ) : Prop where
  linked : s.Linked []
  keyed : s.Keyed

lemma Linked.withSketch (h : s.Linked hand) (sk : σ) :
    ({ s with sketch := sk } : Shard σ).Linked hand :=
  ⟨h.nodup, h.mem, h.held, h.bytes, h.mapped, h.freed, h.kept⟩

lemma Linked.acquireBuf (h : s.Linked hand) (size : ℕ) : (s.acquireBuf size).1.Linked hand := by
  obtain ⟨pool, n, hs⟩ := acquireBuf_eq s size
  rw [hs]
  exact h.withPool pool n

lemma later_acquireBuf (s : Shard σ) (size : ℕ) : s.Later (s.acquireBuf size).1 := by
  obtain ⟨pool, n, hs⟩ := acquireBuf_eq s size
  rw [hs]
  exact ⟨rfl, rfl, fun _ h => h, fun _ _ h _ => h⟩

lemma lookup_evict (h : s.Linked hand) {page : PageId} (hp : s.map.lookup page = some e)
    (q : Status) : (s.evict C q e).map.lookup page = none := by
  obtain ⟨deleted, pool, n, hs, -⟩ := dropEntry_eq (C := C) ((s.detach q e).eraseKeys e) e
  unfold Shard.evict
  rw [hs]
  change ((s.detach q e).eraseKeys e).map.lookup page = none
  rw [lookup_eraseKeys]
  exact if_pos ⟨(h.mapped page e hp).2, hp⟩

/-- A fill that is not kept: no room for it at the gate, no data, or larger than the shard. -/
def TurnedAway (C : Config σ) (s : Shard σ) (readOk : Bool) (page : PageId) (pages : ℕ) : Prop :=
  Shard.gate C { s with sketch := C.increment s.sketch page } page pages = false ∨
    readOk = false ∨ C.limits.maxWindow + C.limits.maxMain < fillSize pages % 2 ^ 32

lemma Linked.settle (h : s.Linked []) (page : PageId) (pages : ℕ) (aliases : List PageId)
    (alloc : ℕ) : (s.settle C page pages aliases alloc).1.Linked [] := by
  unfold Shard.settle
  dsimp only
  split
  · rename_i w hw
    split_ifs
    · exact (h.hitLocked (h.mapped page w hw).1 page).releaseBuf _ _
    · exact h.releaseBuf _ _
    · exact (h.enter page pages aliases alloc).admitWindow _
  · split_ifs
    · exact h.releaseBuf _ _
    · exact (h.enter page pages aliases alloc).admitWindow _

lemma Linked.miss (h : s.Linked []) (readOk : Bool) (page : PageId) (pages : ℕ)
    (aliases : List PageId) : (s.miss C readOk page pages aliases).1.Linked [] := by
  unfold Shard.miss
  dsimp only
  split_ifs
  · exact ((h.withSketch _).acquireBuf _).settle _ _ _ _
  · exact ((h.withSketch _).acquireBuf _).releaseBuf _ _
  · exact h.withSketch _

lemma pin_cases (h : s.Linked []) (gated readOk : Bool) (page : PageId) (pages : ℕ)
    (aliases : List PageId) :
    (∃ e, s.map.lookup page = some e ∧ s.covers e page pages = true ∧
        s.pin C gated readOk page pages aliases = (s.hitLocked C e page, some e)) ∨
      (∃ e, s.map.lookup page = some e ∧ s.covers e page pages = false ∧ s.refs e = 0 ∧
        s.pin C gated readOk page pages aliases
          = (s.evict C (s.status e) e).miss C readOk page pages aliases) ∨
      ((s.map.lookup page = none ∨
          ∃ e, s.map.lookup page = some e ∧ s.covers e page pages = false ∧ s.refs e ≠ 0) ∧
        s.pin C gated readOk page pages aliases = s.miss C readOk page pages aliases) := by
  have hagain : ∀ t : Shard σ, (∀ e, t.map.lookup page = some e → t.covers e page pages = false) →
      (if gated then t.doubleCheck C page pages else (t, none)) = (t, none) := by
    intro t ht
    unfold doubleCheck
    split_ifs with hg
    · split
      · rename_i e he
        rw [if_neg (by simp [ht e he])]
      · rfl
    · rfl
  cases hl : s.map.lookup page with
  | none =>
    refine .inr (.inr ⟨.inl rfl, ?_⟩)
    simp [Shard.pin, fastPath, hl, hagain s (by simp [hl])]
  | some e =>
    by_cases hc : s.covers e page pages = true
    · exact .inl ⟨e, rfl, hc, by simp [Shard.pin, fastPath, hl, hc]⟩
    · have hc' : s.covers e page pages = false := by simpa using hc
      by_cases hr : s.refs e = 0
      · refine .inr (.inl ⟨e, rfl, hc', hr, ?_⟩)
        have hgone := lookup_evict (C := C) h hl (s.status e)
        simp [Shard.pin, fastPath, hl, hc', hr, hagain (s.evict C (s.status e) e) (by simp [hgone])]
      · refine .inr (.inr ⟨.inr ⟨e, rfl, hc', hr⟩, ?_⟩)
        simp [Shard.pin, fastPath, hl, hc', hr, hagain s (by simp [hl, hc'])]

lemma Linked.mem_lists_of_lookup (h : s.Linked []) {page : PageId}
    (hp : s.map.lookup page = some e) : e ∈ s.lists (s.status e) :=
  (h.mem _ e).2 ⟨(h.mapped page e hp).1, rfl, List.not_mem_nil⟩

lemma Linked.pin (h : s.Linked []) (gated readOk : Bool) (page : PageId) (pages : ℕ)
    (aliases : List PageId) : (s.pin C gated readOk page pages aliases).1.Linked [] := by
  rcases pin_cases (C := C) h gated readOk page pages aliases with
    ⟨e, he, -, hpin⟩ | ⟨e, he, -, -, hpin⟩ | ⟨-, hpin⟩
  · rw [hpin]
    exact h.hitLocked (h.mapped page e he).1 page
  · rw [hpin]
    exact (h.evict (h.mem_lists_of_lookup he)).miss readOk page pages aliases
  · rw [hpin]
    exact h.miss readOk page pages aliases

lemma Keyed.settle (h : s.Keyed) (page : PageId) (pages : ℕ) (aliases : List PageId) (alloc : ℕ)
    (hfree : s.map.lookup page = none ∨
      C.limits.maxWindow + C.limits.maxMain < fillSize pages % 2 ^ 32) :
    (s.settle C page pages aliases alloc).1.Keyed := by
  unfold Shard.settle
  dsimp only
  split
  · rename_i w hw
    have hbig := hfree.resolve_left (by simp [hw])
    split_ifs
    · exact (h.later (later_hitLocked s w page)).later (later_releaseBuf _ _ _)
    · exact h.later (later_releaseBuf _ _ _)
  · rename_i hnone
    split_ifs
    · exact h.later (later_releaseBuf _ _ _)
    · exact (h.enter page pages aliases alloc hnone).later (later_admitWindow _ _ _)

lemma Keyed.miss (h : s.Keyed) (readOk : Bool) (page : PageId) (pages : ℕ)
    (aliases : List PageId)
    (hfree : s.map.lookup page = none ∨ s.TurnedAway C readOk page pages) :
    (s.miss C readOk page pages aliases).1.Keyed := by
  have hsk : ({ s with sketch := C.increment s.sketch page } : Shard σ).Keyed := h
  have hacq := hsk.later (later_acquireBuf _ (fillSize pages))
  unfold Shard.miss
  dsimp only
  split_ifs with hgate hread
  · refine hacq.settle page pages aliases _ ?_
    refine hfree.imp ?_ ?_
    · intro hnone
      obtain ⟨pool, n, hs⟩ := acquireBuf_eq
        ({ s with sketch := C.increment s.sketch page } : Shard σ) (fillSize pages)
      rw [hs]
      exact hnone
    · intro haway
      unfold TurnedAway at haway
      simp_all
  · exact hacq.later (later_releaseBuf _ _ _)
  · exact hsk

lemma grows_settle (s : Shard σ) (page : PageId) (pages : ℕ) (aliases : List PageId)
    (alloc : ℕ) : s.Grows (s.settle C page pages aliases alloc).1 := by
  have hinsert := (grows_enter s page pages aliases alloc).trans
    (later_admitWindow (C := C) ((s.enter page pages aliases alloc).lists .window).length _ s.next).grows
  unfold settle
  dsimp only
  split
  · rename_i w _
    split_ifs
    · exact ((later_hitLocked s w page).trans (later_releaseBuf _ _ _)).grows
    · exact (later_releaseBuf s _ _).grows
    · exact hinsert
  · split_ifs
    · exact (later_releaseBuf s _ _).grows
    · exact hinsert

lemma grows_miss (s : Shard σ) (readOk : Bool) (page : PageId) (pages : ℕ)
    (aliases : List PageId) : s.Grows (s.miss C readOk page pages aliases).1 := by
  have hsk : s.Later { s with sketch := C.increment s.sketch page } :=
    ⟨rfl, rfl, fun _ h => h, fun _ _ h _ => h⟩
  have hacq := hsk.trans (later_acquireBuf _ (fillSize pages))
  unfold miss
  dsimp only
  split_ifs
  · exact hacq.grows.trans (grows_settle _ page pages aliases _)
  · exact (hacq.trans (later_releaseBuf _ _ _)).grows
  · exact hsk.grows

/-! Giving back a pin. -/

lemma later_unpin (s : Shard σ) (e : ℕ) : s.Later (s.unpin C e) := by
  obtain ⟨deleted, pool, n, hs, -⟩ := maybeDelete_eq (C := C)
    { s with refs := Function.update s.refs e (s.refs e - 1) } e
  unfold unpin
  dsimp only
  split_ifs
  · rw [hs]
    exact ⟨rfl, rfl, fun _ h => h, fun _ _ h _ => h⟩
  · exact ⟨rfl, rfl, fun _ h => h, fun _ _ h _ => h⟩

lemma Linked.unpin (h : s.Linked []) (he : 0 < s.refs e) : (s.unpin C e).Linked [] := by
  obtain ⟨deleted, pool, n, hs, hdel⟩ := maybeDelete_eq (C := C)
    { s with refs := Function.update s.refs e (s.refs e - 1) } e
  unfold Shard.unpin
  dsimp only
  split_ifs with hlast
  · rw [hs]
    refine ⟨h.nodup, h.mem, h.held, h.bytes, h.mapped, ?_, ?_⟩
    · intro x hx hret href
      have := h.freed x hx hret
      have := (hdel x).2
      grind [Function.update_apply]
    · intro x hx hd
      have := h.kept x hx
      have := (hdel x).1 hd
      grind [Function.update_apply]
  · refine ⟨h.nodup, h.mem, h.held, h.bytes, h.mapped, ?_, ?_⟩
    · intro x hx hret href
      have := h.freed x hx hret
      grind [Function.update_apply]
    · intro x hx hd
      have := h.kept x hx hd
      grind [Function.update_apply]

/-! Invalidation. -/

structure Walked (order : List ℕ) (s t : Shard σ) : Prop where
  entries : t.entries = s.entries
  next : t.next = s.next
  refs : t.refs = s.refs
  retired : ∀ x, t.retired x = true ↔ s.retired x ∨ x ∈ order
  deleted : ∀ x, t.deleted x = true ↔ s.deleted x ∨ (x ∈ order ∧ s.refs x = 0)
  nodup : ∀ q, (t.lists q).Nodup
  mem : ∀ q, ∀ x ∈ t.lists q, x ∈ s.lists q ∧ (x ∈ order → s.status x ≠ q)

lemma walked_invalidateEntry (hnd : ∀ q, (s.lists q).Nodup) (he : s.retired e = false) :
    Walked [e] s (s.invalidateEntry C e) ∧ (s.invalidateEntry C e).status = s.status := by
  obtain ⟨deleted, pool, n, hs, hdel⟩ := dropEntry_eq (C := C)
    { s with lists := Function.update s.lists (s.status e) ((s.lists (s.status e)).erase e) } e
  unfold invalidateEntry
  rw [if_neg (by simp [he]), hs]
  refine ⟨⟨rfl, rfl, rfl, ?_, ?_, ?_, ?_⟩, rfl⟩
  · intro x
    grind [Function.update_apply]
  · intro x
    have := hdel x
    grind
  · intro q
    by_cases hq : q = s.status e
    · subst hq
      simpa using (hnd (s.status e)).erase e
    · simpa [hq] using hnd q
  · intro q x hx
    by_cases hq : q = s.status e
    · subst hq
      simp only [Function.update_self, (hnd (s.status e)).mem_erase_iff] at hx
      exact ⟨hx.2, fun hmem => absurd (List.mem_singleton.1 hmem) hx.1⟩
    · simp only [Function.update_of_ne hq] at hx
      refine ⟨hx, fun hmem => ?_⟩
      rw [List.mem_singleton.1 hmem]
      exact Ne.symm hq

lemma walked_foldl (order : List ℕ) (hord : order.Nodup) (hnd : ∀ q, (s.lists q).Nodup)
    (hres : ∀ e ∈ order, s.retired e = false) :
    Walked order s (order.foldl (invalidateEntry C) s) := by
  induction order generalizing s with
  | nil => exact ⟨rfl, rfl, rfl, by simp, by simp, hnd, by simp⟩
  | cons e order ih =>
    obtain ⟨hone, hstatus⟩ := walked_invalidateEntry (C := C) hnd (hres e List.mem_cons_self)
    have hne : ∀ x ∈ order, x ≠ e := by
      rintro x hx rfl
      exact (List.nodup_cons.1 hord).1 hx
    have hrest : ∀ x ∈ order, (s.invalidateEntry C e).retired x = false := by
      intro x hx
      have := hone.retired x
      have := hres x (List.mem_cons_of_mem e hx)
      have := hne x hx
      grind
    have hgo := ih (List.nodup_cons.1 hord).2 hone.nodup hrest
    rw [List.foldl_cons]
    refine ⟨hgo.entries.trans hone.entries, hgo.next.trans hone.next, hgo.refs.trans hone.refs,
      ?_, ?_, hgo.nodup, ?_⟩
    · intro x
      rw [hgo.retired, hone.retired]
      grind
    · intro x
      rw [hgo.deleted, hone.deleted, hone.refs]
      grind
    · intro q x hx
      have hlater := hgo.mem q x hx
      have hfirst := hone.mem q x hlater.1
      rw [hstatus] at hlater
      grind

lemma Books.walked (h : s.Books) {order : List ℕ} (hord : Event.Enabled s (.invalidateAll order)) :
    Walked order s (order.foldl (invalidateEntry C) s) ∧ ∀ e, s.Resident e ↔ e ∈ order := by
  have hiff : ∀ e, s.Resident e ↔ e ∈ order := by
    intro e
    rw [hord.2 e]
    constructor
    · intro he
      exact ⟨⟨_, e⟩, AList.mem_lookup_iff.1 (h.keyed e he), rfl⟩
    · rintro ⟨⟨k, x⟩, hk, rfl⟩
      exact (h.linked.mapped k x (AList.mem_lookup_iff.2 hk)).1
  exact ⟨walked_foldl order hord.1 h.linked.nodup fun e he => ((hiff e).2 he).2, hiff⟩

lemma Books.invalidateAll (h : s.Books) {order : List ℕ}
    (hord : Event.Enabled s (.invalidateAll order)) : (s.invalidateAll C order).Books := by
  obtain ⟨hw, hiff⟩ := h.walked (C := C) hord
  set t := order.foldl (invalidateEntry C) s with ht
  have hnone : ∀ e, ¬ t.Resident e := by
    intro e he
    have hs : s.Resident e := by
      have := hw.retired e
      have := hw.next
      simp only [Resident] at *
      grind
    have := (hw.retired e).2 (.inr ((hiff e).1 hs))
    simp_all [Resident]
  have hempty : ∀ q, t.lists q = [] := by
    intro q
    refine List.eq_nil_iff_forall_not_mem.2 fun x hx => ?_
    obtain ⟨hx, hne⟩ := hw.mem q x hx
    obtain ⟨hres, hst, -⟩ := (h.linked.mem q x).1 hx
    exact hne ((hiff x).1 hres) hst
  refine ⟨⟨hw.nodup, ?_, by simp, ?_, ?_, ?_, ?_⟩, fun e he => absurd he (hnone e)⟩
  · intro q e
    change e ∈ t.lists q ↔ t.Resident e ∧ _
    simp [hempty q, hnone e]
  · intro q
    change 0 = ((t.lists q).map _).sum
    simp [hempty q]
  · intro k e hk
    simp [Shard.invalidateAll] at hk
  · intro e he hret href
    change t.deleted e
    have := h.linked.freed e
    have := hw.retired e
    have := hw.deleted e
    have := hw.next
    have := hw.refs
    simp only [Shard.invalidateAll, ← ht] at *
    grind
  · intro e he hd
    change t.retired e ∧ t.refs e = 0
    have := h.linked.kept e
    have := hw.retired e
    have := hw.deleted e
    have := hw.next
    have := hw.refs
    simp only [Shard.invalidateAll, ← ht] at *
    grind

lemma grows_invalidateAll (h : s.Books) {order : List ℕ}
    (hord : Event.Enabled s (.invalidateAll order)) :
    s.Grows (s.invalidateAll C order) ∧
      ∀ e < s.next, (s.invalidateAll C order).retired e = true := by
  obtain ⟨hw, hiff⟩ := h.walked (C := C) hord
  refine ⟨⟨hw.next.ge, fun e _ hr => (hw.retired e).2 (.inl hr)⟩, fun e he => ?_⟩
  refine (hw.retired e).2 ?_
  by_cases hr : s.retired e = true
  · exact .inl hr
  · exact .inr ((hiff e).1 ⟨he, by simpa using hr⟩)

/-! Runs. -/

/-- No pin meets a pinned entry too short for it, unless its own fill is turned away. -/
def Unblocked (C : Config σ) (s : Shard σ) : Event → Prop
  | .pin _ readOk page pages _ =>
    ∀ e, s.map.lookup page = some e → s.covers e page pages = true ∨ s.refs e = 0 ∨
      s.TurnedAway C readOk page pages
  | _ => True

lemma Books.step (h : s.Books) (v : Event) (henabled : v.Enabled s) (hv : s.Unblocked C v) :
    (s.step C v).Books ∧ s.Grows (s.step C v) := by
  cases v with
  | pin gated readOk page pages aliases =>
    have hlinked := h.linked.pin (C := C) gated readOk page pages aliases
    refine ⟨⟨hlinked, ?_⟩, ?_⟩ <;> simp only [Shard.step] <;>
      rcases pin_cases (C := C) h.linked gated readOk page pages aliases with
        ⟨e, he, -, hpin⟩ | ⟨e, he, -, -, hpin⟩ | ⟨hfree, hpin⟩ <;> rw [hpin]
    · exact h.keyed.later (later_hitLocked s e page)
    · have hgone := lookup_evict (C := C) h.linked he (s.status e)
      exact (h.keyed.later (later_evict s _ e)).miss readOk page pages aliases (.inl hgone)
    · refine h.keyed.miss readOk page pages aliases ?_
      rcases hfree with hnone | ⟨e, he, hc, hr⟩
      · exact .inl hnone
      · have := hv e he
        simp_all
    · exact (later_hitLocked s e page).grows
    · exact (later_evict s _ e).grows.trans (grows_miss _ _ _ _ _)
    · exact grows_miss s _ _ _ _
  | unpin e =>
    exact ⟨⟨h.linked.unpin henabled.2, h.keyed.later (later_unpin s e)⟩, (later_unpin s e).grows⟩
  | invalidateAll order =>
    exact ⟨h.invalidateAll henabled, (grows_invalidateAll h henabled).1⟩

lemma Books.run (hs : s.Books) (h : Run C (Unblocked C) s t) : t.Books ∧ s.Grows t := by
  induction h with
  | refl => exact ⟨hs, le_rfl, fun _ _ hr => hr⟩
  | tail v _ henabled hok ih =>
    obtain ⟨hbooks, hgrows⟩ := ih.1.step v henabled hok
    exact ⟨hbooks, ih.2.trans hgrows⟩

lemma books_empty (sk : σ) : ({ sketch := sk } : Shard σ).Books := by
  refine ⟨⟨?_, ?_, ?_, ?_, ?_, ?_, ?_⟩, ?_⟩ <;> simp [Resident, Keyed, sizes]

/-- The bookkeeping of a shard: an entry of the cache stands once, in the list of its status, and is
found under its start page; the counters are the sums of the sizes; an entry that has left is freed
with its last pin. -/
structure Consistent (s : Shard σ) : Prop where
  count : ∀ e, s.Resident e → ∀ q, (s.lists q).count e = if q = s.status e then 1 else 0
  found : ∀ e, s.Resident e → s.map.lookup (s.entries e).page = some e
  resident : ∀ q, ∀ e ∈ s.lists q, s.Resident e
  bytes : ∀ q, s.bytes q = ((s.lists q).map fun e => (s.entries e).size).sum
  freed : ∀ e < s.next, s.retired e = true → (s.deleted e = true ↔ s.refs e = 0)

lemma Books.consistent (h : s.Books) : s.Consistent where
  count e he q := by
    rw [(h.linked.nodup q).count]
    have := h.linked.mem q e
    grind
  found := h.keyed
  resident q e he := ((h.linked.mem q e).1 he).1
  bytes := h.linked.bytes
  freed e he hr := ⟨fun hd => (h.linked.kept e he hd).2, h.linked.freed e he hr⟩

end Shard

/-- In every run in which no fill meets a pinned entry too short for it, the bookkeeping holds, and
what is pinned at an invalidation is freed when its last pin is given back. -/
theorem consistent_of_run {sk : σ} (h : Run C (Shard.Unblocked C) { sketch := sk } s) :
    s.Consistent ∧
      ∀ order, Event.Enabled s (.invalidateAll order) →
        ∀ u, Run C (Shard.Unblocked C) (s.invalidateAll C order) u →
          ∀ e < s.next, 0 < s.refs e → u.refs e = 0 → u.deleted e = true := by
  obtain ⟨hbooks, -⟩ := (Shard.books_empty sk).run h
  refine ⟨hbooks.consistent, fun order hord u hu e he _ hrefs => ?_⟩
  obtain ⟨hgrows, hretired⟩ := Shard.grows_invalidateAll (C := C) hbooks hord
  obtain ⟨hlast, hlater⟩ := (hbooks.invalidateAll hord).run hu
  have he' : e < (s.invalidateAll C order).next := he.trans_le hgrows.next
  exact hlast.linked.freed e (he'.trans_le hlater.next)
    (hlater.retired e he' (hretired e he)) hrefs

/-- Ten pages of budget, and the sketch before its size is set, which counts nothing. -/
def tenPages : Config Unit where
  limits := .ofCapacity (10 * kPageSize) 1
  increment sk _ := sk
  frequency _ _ := 0

/-- One page at page 7, and two pages there while the first pin is out. -/
def shortThenWide : Shard Unit :=
  ((({ sketch := () } : Shard Unit).step tenPages (.pin true true 7 1 [])).step tenPages
    (.pin true true 7 2 []))

def onePin : Shard Unit := ({ sketch := () } : Shard Unit).step tenPages (.pin true true 7 1 [])

theorem consistent_of_pinned_invalidation :
    Run tenPages (Shard.Unblocked tenPages) { sketch := () } onePin ∧ onePin.refs 0 = 1 ∧
      onePin.Consistent ∧
      ((onePin.invalidateAll tenPages [0]).step tenPages (.unpin 0)).deleted 0 = true := by
  have h : Run tenPages (Shard.Unblocked tenPages) { sketch := () } onePin :=
    .tail (.pin true true 7 1 []) (.refl _) trivial (by intro e he; simp at he)
  have hmap : onePin.map.entries = [⟨7, 0⟩] := by decide +kernel
  have horder : Event.Enabled onePin (.invalidateAll [0]) := by
    refine ⟨by decide, fun e => ?_⟩
    rw [hmap]
    simp [eq_comm]
  have hout : 0 < (onePin.invalidateAll tenPages [0]).next ∧
      0 < (onePin.invalidateAll tenPages [0]).refs 0 := by
    decide +kernel
  refine ⟨h, by decide +kernel, (consistent_of_run h).1, ?_⟩
  exact (consistent_of_run h).2 [0] horder _ (.tail (.unpin 0) (.refl _) hout trivial) 0
    (by decide +kernel) (by decide +kernel) (by decide +kernel)

/-- The wider fill is linked and not mapped. Invalidation passes it by, its last pin does not free
it, and the next fill takes its size from a counter that no longer holds it. -/
theorem wider_fill_breaks_bookkeeping :
    ∃ s, Run tenPages (fun _ _ => True) { sketch := () } s ∧ ¬ s.Consistent ∧
      Event.Enabled s (.invalidateAll [0]) ∧
      ∃ u, Run tenPages (fun _ _ => True) (s.invalidateAll tenPages [0]) u ∧
        0 < s.refs 1 ∧ u.refs 1 = 0 ∧ u.deleted 1 = false ∧
        (u.step tenPages (.pin true true 9 1 [])).bytes .window = 2 ^ 64 - kPageSize := by
  refine ⟨shortThenWide, .tail _ (.tail _ (.refl _) trivial trivial) trivial trivial, ?_,
    ⟨by decide, fun e => ?_⟩, _, .tail (.unpin 1) (.refl _) ?_ trivial, ?_, ?_, ?_, ?_⟩
  · intro h
    have hlookup : shortThenWide.map.lookup (shortThenWide.entries 1).page = some 0 := by
      decide +kernel
    have := h.found 1 ⟨by decide +kernel, by decide +kernel⟩
    rw [hlookup] at this
    simp at this
  · have hmap : shortThenWide.map.entries = [⟨7, 0⟩] := by decide +kernel
    rw [hmap]
    simp [eq_comm]
  · change 1 < (shortThenWide.invalidateAll tenPages [0]).next ∧
      0 < (shortThenWide.invalidateAll tenPages [0]).refs 1
    decide +kernel
  all_goals decide +kernel

end SextantTree.LeafCache
