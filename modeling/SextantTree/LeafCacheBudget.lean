import Mathlib.Algebra.BigOperators.Group.List.Basic
import Mathlib.Data.List.Perm.Basic
import SextantTree.LeafCacheSpec

/-!
The byte budget of a shard: the main lists within their share, and the buffers of the cache and of
the pool within the capacity plus the newest entry.

A fill can break the budget in five places: a size that does not fit 32 bits, a pooled buffer that
is larger than its new entry, a pool that was filled while the lists were small, pinned entries in
the window that nobody moves when they are given back, and a victim traded for a larger candidate.
`FillFits` says that a fill does none of this; the budget then holds after every run.
-/

namespace SextantTree.LeafCache

variable {σ : Type} {C : Config σ} {s t : Shard σ} {hand : List ℕ} {q : Status} {e : ℕ}

namespace Shard

/-! What the operations do to the counters. -/

lemma live_detach (h : s.Linked hand) (he : e ∈ s.lists q) :
    (s.detach q e).live + (s.entries e).size = s.live := by
  have hle := h.size_le_bytes he
  cases q <;> simp [live, detach, hle] <;> omega

lemma main_detach (h : s.Linked hand) (he : e ∈ s.lists q) (hq : q ≠ .window) :
    (s.detach q e).main + (s.entries e).size = s.main := by
  have hle := h.size_le_bytes he
  cases q <;> simp_all [main, detach] <;> omega

lemma live_attach (s : Shard σ) (q : Status) (e : ℕ) :
    (s.attach q e).live = s.live + (s.entries e).size := by
  cases q <;> simp [live, attach] <;> omega

lemma main_attach (s : Shard σ) (e : ℕ) (hq : q ≠ .window) :
    (s.attach q e).main = s.main + (s.entries e).size := by
  cases q <;> simp_all [main, attach] <;> omega

/-! The pool. -/

/-- The pool knows what its buffers take, and leaves room for the lists but for `slack`. -/
structure PoolOk (C : Config σ) (slack : ℕ) (s : Shard σ) : Prop where
  exact : ∀ b ∈ s.pool, b.1 = b.2
  sum : s.poolBytes = (s.pool.map Prod.snd).sum
  room : s.pool = [] ∨ s.poolBytes + s.live ≤ C.limits.capacity + slack

lemma PoolOk.releaseBuf {slack : ℕ} (h : s.PoolOk C slack) (n : ℕ) :
    (s.releaseBuf C n n).PoolOk C slack := by
  unfold Shard.releaseBuf
  split_ifs with hroom
  · refine ⟨?_, ?_, .inr ?_⟩
    · intro b hb
      rcases List.mem_append.1 hb with hb | hb
      · exact h.exact b hb
      · rw [List.mem_singleton.1 hb]
    · simp [h.sum]
    · change s.poolBytes + n + s.live ≤ _
      omega
  · exact h

lemma PoolOk.lists {slack slack' : ℕ} (h : s.PoolOk C slack) (hp : t.pool = s.pool)
    (hb : t.poolBytes = s.poolBytes) (hl : t.live + slack ≤ s.live + slack') :
    t.PoolOk C slack' := by
  refine ⟨hp ▸ h.exact, by rw [hb, hp]; exact h.sum, ?_⟩
  rw [hp, hb]
  exact h.room.imp_right fun hroom => by omega

lemma swapOut_perm {pool : List (ℕ × ℕ)} {i : ℕ} (hi : i < pool.length) :
    (swapOut pool i).Perm (pool.eraseIdx i) := by
  obtain ⟨init, b, rfl⟩ : ∃ init b, pool = init ++ [b] := by
    refine ⟨pool.dropLast, pool.getLast (by grind), ?_⟩
    rw [List.dropLast_append_getLast]
  unfold swapOut
  rw [List.getLastD_concat]
  rcases Nat.lt_or_ge i init.length with hlt | hge
  · rw [List.set_append_left _ _ hlt, List.dropLast_concat, List.eraseIdx_append_of_lt_length hlt]
    refine (List.set_perm_cons_eraseIdx hlt b).trans ?_
    exact (List.perm_append_singleton b _).symm
  · obtain rfl : i = init.length := by
      simp only [List.length_append, List.length_singleton] at hi
      omega
    simp [List.eraseIdx_append_of_length_le le_rfl]

lemma PoolOk.acquireBuf {slack n : ℕ} (h : s.PoolOk C slack) :
    (s.acquireBuf n).1.PoolOk C slack := by
  unfold Shard.acquireBuf
  split
  · rename_i i hi
    have hlen : i < s.pool.length := by
      have := List.findIdx?_eq_some_iff_findIdx_eq.1 hi
      exact this.1
    have hperm := swapOut_perm hlen
    have hget : s.pool.getD i (0, 0) = s.pool[i] := by simp [hlen]
    have hsum : (s.pool[i]).2 + ((s.pool.eraseIdx i).map Prod.snd).sum
        = (s.pool.map Prod.snd).sum := by
      rw [← List.sum_cons, ← List.map_cons]
      exact ((List.getElem_cons_eraseIdx_perm hlen).map Prod.snd).sum_eq
    have hle : (s.pool[i]).2 ≤ s.poolBytes := by
      rw [h.sum]
      omega
    refine ⟨?_, ?_, ?_⟩
    · intro b hb
      exact h.exact b (List.mem_of_mem_eraseIdx (hperm.mem_iff.1 hb))
    · simp only [hget]
      rw [sub64_of_le hle, (hperm.map Prod.snd).sum_eq, h.sum]
      omega
    · refine .inr ?_
      have hroom := h.room.resolve_left (by rintro hnil; simp [hnil] at hlen)
      simp only [hget]
      rw [sub64_of_le hle]
      change s.poolBytes - (s.pool[i]).2 + s.live ≤ _
      omega
  · exact h

lemma PoolOk.maybeDelete {slack : ℕ} (h : s.PoolOk C slack)
    (he : (s.entries e).alloc = (s.entries e).bufCap) :
    (s.maybeDelete C e).PoolOk C slack := by
  unfold Shard.maybeDelete
  split_ifs
  · exact h
  · exact h
  · rw [he]
    exact PoolOk.releaseBuf (s := { s with deleted := Function.update s.deleted e true })
      ⟨h.exact, h.sum, h.room⟩ _

lemma PoolOk.drop {slack : ℕ} (h : s.PoolOk C slack)
    (he : (s.entries e).alloc = (s.entries e).bufCap) :
    ((s.eraseKeys e).dropEntry C e).PoolOk C slack :=
  PoolOk.maybeDelete (s := { s.eraseKeys e with retired := _ }) ⟨h.exact, h.sum, h.room⟩ he

lemma drop_frame (s : Shard σ) (e : ℕ) :
    ((s.eraseKeys e).dropEntry C e).bytes = s.bytes ∧
      ((s.eraseKeys e).dropEntry C e).lists = s.lists ∧
      ((s.eraseKeys e).dropEntry C e).status = s.status ∧
      ((s.eraseKeys e).dropEntry C e).refs = s.refs ∧
      ((s.eraseKeys e).dropEntry C e).retired = Function.update s.retired e true := by
  obtain ⟨deleted, pool, n, hs, -⟩ := dropEntry_eq (C := C) (s.eraseKeys e) e
  rw [hs]
  exact ⟨rfl, rfl, rfl, rfl, rfl⟩

lemma main_drop (s : Shard σ) (e : ℕ) : ((s.eraseKeys e).dropEntry C e).main = s.main := by
  simp only [main, (drop_frame s e).1]

lemma live_drop (s : Shard σ) (e : ℕ) : ((s.eraseKeys e).dropEntry C e).live = s.live := by
  simp only [live, (drop_frame s e).1]

lemma bytes_evict (h : s.Linked hand) (he : e ∈ s.lists q) (r : Status) :
    (s.evict C q e).bytes r + (if r = q then (s.entries e).size else 0) = s.bytes r := by
  have hle := h.size_le_bytes he
  unfold Shard.evict
  rw [(drop_frame _ e).1]
  by_cases hr : r = q
  · subst hr
    simp [detach, hle]
  · simp [detach, hr]

/-! The budget. -/

/-- The bytes of the newest entry while it is in the cache. -/
def newest (s : Shard σ) : ℕ :=
  if s.next ≠ 0 ∧ s.retired (s.next - 1) = false then (s.entries (s.next - 1)).size else 0

structure Budget (C : Config σ) (s : Shard σ) : Prop where
  linked : s.Linked []
  exact : ∀ e < s.next, (s.entries e).alloc = (s.entries e).size ∧
    (s.entries e).bufCap = (s.entries e).size
  main : s.main ≤ C.limits.maxMain
  window : s.bytes .window ≤ C.limits.maxWindow + s.newest
  /-- The newest entry has not left the window for another list. -/
  fresh : s.next ≠ 0 → s.retired (s.next - 1) = false → s.status (s.next - 1) = .window
  pool : s.PoolOk C s.newest

lemma Budget.alloc_eq (h : s.Budget C) (he : e < s.next) :
    (s.entries e).alloc = (s.entries e).bufCap := by
  have := h.exact e he
  omega

/-- A step of a hit: nothing that the budget counts changes. -/
structure Steady (s t : Shard σ) : Prop where
  entries : t.entries = s.entries
  next : t.next = s.next
  retired : t.retired = s.retired
  pool : t.pool = s.pool
  poolBytes : t.poolBytes = s.poolBytes
  window : t.bytes .window = s.bytes .window
  main : t.main = s.main
  status : ∀ e, s.status e = .window → t.status e = .window

lemma Steady.refl (s : Shard σ) : s.Steady s := ⟨rfl, rfl, rfl, rfl, rfl, rfl, rfl, fun _ h => h⟩

lemma Steady.trans {u : Shard σ} (h : s.Steady t) (h' : t.Steady u) : s.Steady u :=
  ⟨h'.entries.trans h.entries, h'.next.trans h.next, h'.retired.trans h.retired,
    h'.pool.trans h.pool, h'.poolBytes.trans h.poolBytes, h'.window.trans h.window,
    h'.main.trans h.main, fun e he => h'.status e (h.status e he)⟩

lemma Steady.newest (h : s.Steady t) : t.newest = s.newest := by
  simp only [Shard.newest, h.next, h.retired, h.entries]

lemma Budget.steady (h : s.Budget C) (hst : s.Steady t) (hl : t.Linked []) : t.Budget C where
  linked := hl
  exact := by
    rw [hst.next, hst.entries]
    exact h.exact
  main := hst.main ▸ h.main
  window := by
    rw [hst.window, hst.newest]
    exact h.window
  fresh := by
    rw [hst.next, hst.retired]
    exact fun hn hr => hst.status _ (h.fresh hn hr)
  pool := by
    refine h.pool.lists hst.pool hst.poolBytes ?_
    have hm := hst.main
    have hw := hst.window
    simp only [live, Shard.main] at *
    rw [hst.newest]
    omega

lemma steady_move {r : Status} (h : s.Linked hand) (he : e ∈ s.lists q) (hq : q ≠ .window)
    (hr : r ≠ .window) : s.Steady ((s.detach q e).attach r e) where
  entries := rfl
  next := rfl
  retired := rfl
  pool := rfl
  poolBytes := rfl
  window := by simp [attach, detach, hq.symm, hr.symm]
  main := by
    have := main_detach h he hq
    rw [main_attach _ _ hr]
    exact this
  status x hx := by
    have := ((h.mem q e).1 he).2.1
    simp only [attach, detach]
    grind [Function.update_apply]

lemma steady_demote (fuel : ℕ) (h : s.Linked []) : s.Steady (s.demote C fuel) := by
  induction fuel generalizing s with
  | zero => exact .refl s
  | succ fuel ih =>
    simp only [Shard.demote]
    split_ifs
    · split
      · rename_i d hd
        have hmem := List.mem_of_getLast? hd
        have hmove := steady_move (r := .probation) h hmem (by decide) (by decide)
        exact hmove.trans (ih (h.move hmem .probation))
      · exact .refl s
    · exact .refl s

lemma relieve_eq_self (fuel : ℕ) (h : s.main ≤ C.limits.maxMain) : s.relieve C fuel = s := by
  cases fuel with
  | zero => rfl
  | succ fuel =>
    simp only [Shard.relieve]
    rw [if_neg (by omega)]

lemma Budget.hitLocked (h : s.Budget C) (he : s.Resident e) (page : PageId) :
    (s.hitLocked C e page).Budget C := by
  refine h.steady ?_ (h.linked.hitLocked he page)
  set u : Shard σ :=
    { s with
      refs := Function.update s.refs e (s.refs e + 1)
      sketch := C.increment s.sketch page } with hu
  have htouch : u.Linked [] := h.linked.touch he _ _
  have hmem := (htouch.mem (u.status e) e).2 ⟨he, rfl, List.not_mem_nil⟩
  have hsu : s.Steady u := ⟨rfl, rfl, rfl, rfl, rfl, rfl, rfl, fun _ h => h⟩
  unfold Shard.hitLocked
  dsimp only
  rw [← hu]
  refine hsu.trans ?_
  split
  · exact ⟨rfl, rfl, rfl, rfl, rfl, rfl, rfl, fun _ h => h⟩
  · rename_i hst
    have hmove := steady_move (r := .protected_) htouch (hst ▸ hmem) (by decide) (by decide)
    have hboth := hmove.trans (steady_demote (C := C)
      (((u.detach .probation e).attach .protected_ e).lists .protected_).length
      (htouch.move (hst ▸ hmem) .protected_))
    rw [relieve_eq_self]
    · exact hboth
    · rw [hboth.main]
      exact h.main
  · exact ⟨rfl, rfl, rfl, rfl, rfl, rfl, rfl, fun _ h => h⟩

lemma newest_evict (he : s.Resident e) (q : Status) :
    (s.evict C q e).newest + (if e = s.next - 1 then (s.entries e).size else 0) = s.newest := by
  have hlater := later_evict (C := C) s q e
  have hretired : (s.evict C q e).retired = Function.update s.retired e true :=
    (drop_frame (s.detach q e) e).2.2.2.2
  have := he.1
  have := he.2
  unfold newest
  rw [hlater.next, hlater.entries, hretired]
  grind [Function.update_apply]

lemma Budget.evict (h : s.Budget C) (he : s.Resident e) :
    (s.evict C (s.status e) e).Budget C := by
  have hmem := (h.linked.mem (s.status e) e).2 ⟨he, rfl, List.not_mem_nil⟩
  have hlater := later_evict (C := C) s (s.status e) e
  have hnewest := newest_evict (C := C) he (s.status e)
  have hbytes := bytes_evict (C := C) h.linked hmem
  have hlast : e = s.next - 1 → s.status e = .window := by
    rintro hlast
    have := he.1
    exact hlast ▸ h.fresh (by omega) (hlast ▸ he.2)
  refine ⟨h.linked.evict hmem, ?_, ?_, ?_, ?_, ?_⟩
  · rw [hlater.next, hlater.entries]
    exact h.exact
  · have := hbytes .probation
    have := hbytes .protected_
    have := h.main
    simp only [Shard.main] at *
    omega
  · have := hbytes .window
    have := h.window
    grind
  · have hstatus : (s.evict C (s.status e) e).status = s.status :=
      (drop_frame (s.detach (s.status e) e) e).2.2.1
    rw [hlater.next, hstatus]
    intro hn hr
    refine h.fresh hn ?_
    by_contra hs
    have := hlater.retired (s.next - 1) (by simpa using hs)
    simp_all
  · have hlive := live_detach h.linked hmem
    have hpool : (s.detach (s.status e) e).PoolOk C (s.evict C (s.status e) e).newest :=
      h.pool.lists rfl rfl (by grind)
    exact hpool.drop (h.alloc_eq he.1)

/-! The admission loop. -/

/-- The bytes of the window that are pinned. -/
def pinnedWindow (s : Shard σ) : ℕ :=
  ((s.lists .window).map fun x => if s.refs x = 0 then 0 else (s.entries x).size).sum

/-- The turn of the loop, when it trades a victim for the candidate: the main lists stay in their
share, and the victim's buffer is pooled only when there is room for it beside the candidate. -/
def RoundFits (C : Config σ) (s : Shard σ) (e : ℕ) : Prop :=
  match s.candidate e, s.lastUnpinned .probation with
  | some c, some v =>
    C.limits.maxMain < s.main + (s.entries c).size →
    C.frequency s.sketch (s.entries v).page < C.frequency s.sketch (s.entries c).page →
      s.main + (s.entries c).size ≤ C.limits.maxMain + (s.entries v).size ∧
      (s.poolBytes + (s.entries v).bufCap + (s.live - (s.entries c).size - (s.entries v).size)
          ≤ C.limits.capacity →
        s.poolBytes + s.live ≤ C.limits.capacity + (s.entries e).size)
  | _, _ => True

instance (C : Config σ) (s : Shard σ) (e : ℕ) : Decidable (s.RoundFits C e) := by
  unfold RoundFits
  split <;> infer_instance

def AdmitFits (C : Config σ) : ℕ → Shard σ → ℕ → Prop
  | 0, _, _ => True
  | fuel + 1, s, e =>
    s.RoundFits C e ∧
      match s.admitRound C e with
      | some s' => AdmitFits C fuel s' e
      | none => True

instance AdmitFits.decidable (C : Config σ) :
    (fuel : ℕ) → (s : Shard σ) → (e : ℕ) → Decidable (s.AdmitFits C fuel e)
  | 0, _, _ => isTrue trivial
  | fuel + 1, s, e =>
    have : Decidable (match s.admitRound C e with
        | some s' => AdmitFits C fuel s' e
        | none => True) :=
      match s.admitRound C e with
      | some s' => AdmitFits.decidable C fuel s' e
      | none => isTrue trivial
    inferInstanceAs (Decidable (s.RoundFits C e ∧ _))

/-- The shard in the loop that follows the insertion of `e`, with `n` bytes pinned before it. -/
structure Admitting (C : Config σ) (n e : ℕ) (s : Shard σ) : Prop where
  linked : s.Linked []
  exact : ∀ x < s.next, (s.entries x).alloc = (s.entries x).size ∧
    (s.entries x).bufCap = (s.entries x).size
  main : s.main ≤ C.limits.maxMain
  next : s.next = e + 1
  alive : s.retired e = false
  status : s.status e = .window
  pinned : s.refs e ≠ 0
  head : ∃ rest, s.lists .window = e :: rest
  pool : s.PoolOk C (s.entries e).size
  bytes : s.pinnedWindow = n + (s.entries e).size

/-- What a turn does to the window and to the other entries. -/
structure Turn (s t : Shard σ) (c : ℕ) : Prop where
  entries : t.entries = s.entries
  next : t.next = s.next
  refs : t.refs = s.refs
  window : t.lists .window = (s.lists .window).erase c
  status : ∀ x, x ≠ c → t.status x = s.status x
  retired : ∀ x, x ≠ c → s.status x = .window → t.retired x = s.retired x

lemma Admitting.turn {n c : ℕ} (h : s.Admitting C n e) (hc : s.candidate e = some c)
    (hturn : s.Turn t c) (hl : t.Linked []) (hmain : t.main ≤ C.limits.maxMain)
    (hpool : t.PoolOk C (s.entries e).size) : t.Admitting C n e := by
  obtain ⟨hmem, hrefs, hne⟩ := mem_of_candidate hc
  refine ⟨hl, ?_, hmain, hturn.next.trans h.next, ?_, ?_, ?_, ?_, ?_, ?_⟩
  · rw [hturn.next, hturn.entries]
    exact h.exact
  · rw [hturn.retired e hne.symm h.status]
    exact h.alive
  · rw [hturn.status e hne.symm]
    exact h.status
  · rw [hturn.refs]
    exact h.pinned
  · obtain ⟨rest, hrest⟩ := h.head
    refine ⟨rest.erase c, ?_⟩
    rw [hturn.window, hrest, List.erase_cons_tail (by simpa using hne.symm)]
  · rw [hturn.entries]
    exact hpool
  · have hsum := List.sum_map_erase
      (fun x => if s.refs x = 0 then 0 else (s.entries x).size) hmem
    have := h.bytes
    simp only [pinnedWindow, hturn.window, hturn.refs, hturn.entries] at *
    simp only [hrefs, if_true] at hsum
    omega

lemma pool_drop_cases (s : Shard σ) (e : ℕ) :
    (((s.eraseKeys e).dropEntry C e).pool = s.pool ∧
        ((s.eraseKeys e).dropEntry C e).poolBytes = s.poolBytes) ∨
      (((s.eraseKeys e).dropEntry C e).poolBytes = s.poolBytes + (s.entries e).bufCap ∧
        s.poolBytes + (s.entries e).bufCap + s.live ≤ C.limits.capacity) := by
  unfold dropEntry maybeDelete releaseBuf
  split_ifs with hr hd hroom
  · exact .inl ⟨rfl, rfl⟩
  · exact .inl ⟨rfl, rfl⟩
  · exact .inr ⟨rfl, hroom⟩
  · exact .inl ⟨rfl, rfl⟩

lemma Admitting.swap {n c v : ℕ} (h : s.Admitting C n e) (hc : s.candidate e = some c)
    (hv : (s.detach .window c).lastUnpinned .probation = some v)
    (hmain : s.main + (s.entries c).size ≤ C.limits.maxMain + (s.entries v).size)
    (hroom : s.poolBytes + (s.entries v).bufCap
        + (s.live - (s.entries c).size - (s.entries v).size) ≤ C.limits.capacity →
      s.poolBytes + s.live ≤ C.limits.capacity + (s.entries e).size) :
    (((s.detach .window c).evict C .probation v).attach .probation c).Admitting C n e := by
  obtain ⟨hcmem, -, -⟩ := mem_of_candidate hc
  set d := s.detach .window c with hd
  have hdl : d.Linked [c] := h.linked.detach hcmem
  have hvmem := (mem_of_lastUnpinned hv).1
  set u := d.evict C .probation v with hu
  have hframe := drop_frame (C := C) (d.detach .probation v) v
  have hlater : d.Later u := later_evict d _ v
  have hvst := ((hdl.mem _ v).1 hvmem).2.1
  have hcst := ((h.linked.mem _ c).1 hcmem).2.1
  have hlive : d.live + (s.entries c).size = s.live := live_detach h.linked hcmem
  have hlive' : (d.detach .probation v).live + (s.entries v).size = d.live := live_detach hdl hvmem
  have hul : u.live = (d.detach .probation v).live := live_drop _ v
  have hmain' : u.main + (s.entries v).size = s.main := by
    have := main_detach hdl hvmem (by decide)
    rw [hu, Shard.evict, main_drop]
    exact this
  refine h.turn hc ⟨hlater.entries, hlater.next, hframe.2.2.2.1, ?_, ?_, ?_⟩
    ((hdl.evict hvmem).attach List.not_mem_nil .probation) ?_ ?_
  · change u.lists .window = _
    rw [hu, Shard.evict, hframe.2.1]
    simp [hd, detach]
  · intro x hx
    change Function.update u.status c .probation x = s.status x
    rw [Function.update_of_ne hx, hu, Shard.evict, hframe.2.2.1]
    rfl
  · intro x hx hst
    change u.retired x = s.retired x
    rw [hu, Shard.evict, hframe.2.2.2.2]
    refine Function.update_of_ne ?_ _ _
    rintro rfl
    change s.status x = _ at hvst
    simp [hst] at hvst
  · have hattach : (u.attach .probation c).main = u.main + (u.entries c).size :=
      main_attach u c (by decide)
    rw [hattach, hlater.entries]
    change u.main + (s.entries c).size ≤ _
    omega
  · have hsize := h.exact v (((hdl.mem _ v).1 hvmem).1.1)
    have hpd : d.PoolOk C (s.entries e).size := h.pool.lists rfl rfl (by omega)
    have hpv : (d.detach .probation v).PoolOk C (s.entries e).size := hpd.lists rfl rfl (by omega)
    have hpu : u.PoolOk C (s.entries e).size := by
      refine hpv.drop ?_
      change (s.entries v).alloc = (s.entries v).bufCap
      omega
    refine ⟨hpu.exact, hpu.sum, ?_⟩
    have hattach : (u.attach .probation c).live = u.live + (u.entries c).size := live_attach u _ c
    rw [hattach, hlater.entries]
    change u.pool = [] ∨ u.poolBytes + (u.live + (s.entries c).size) ≤ _
    rcases pool_drop_cases (C := C) (d.detach .probation v) v with ⟨hp, hb⟩ | ⟨hb, hfit⟩
    · -- the buffer was freed
      change u.pool = s.pool at hp
      change u.poolBytes = s.poolBytes at hb
      rw [hp, hb]
      exact h.pool.room.imp_right fun hr => by omega
    · refine .inr ?_
      change u.poolBytes = s.poolBytes + (s.entries v).bufCap at hb
      change s.poolBytes + (s.entries v).bufCap + _ ≤ _ at hfit
      have := hroom (by omega)
      omega

lemma Admitting.round {n : ℕ} (h : s.Admitting C n e) (hfits : s.RoundFits C e)
    (hround : s.admitRound C e = some t) : t.Admitting C n e := by
  obtain ⟨-, c, hc, hcases⟩ := admitRound_cases hround
  obtain ⟨hcmem, -, hne⟩ := mem_of_candidate hc
  have hdl := h.linked.detach hcmem
  have hlive := live_detach h.linked hcmem
  rcases hcases with ⟨hroom, rfl⟩ | ⟨v, hfull, hv, hfreq, rfl⟩ | rfl
  · refine h.turn hc ⟨rfl, rfl, rfl, ?_, ?_, fun _ _ _ => rfl⟩
      (hdl.attach List.not_mem_nil .probation) ?_ (h.pool.lists rfl rfl ?_)
    · simp [attach, detach]
    · intro x hx
      simp [attach, detach, hx]
    · rw [main_attach _ _ (by decide)]
      exact hroom
    · rw [live_attach]
      exact (by change _ + (s.entries c).size + _ ≤ _; omega)
  · have hv' : s.lastUnpinned .probation = some v := hv
    simp only [RoundFits, hc, hv'] at hfits
    obtain ⟨hmain, hpool⟩ := hfits hfull hfreq
    exact h.swap hc hv hmain hpool
  · obtain ⟨hbytes, hlists, hstatus, hrefs, hretired⟩ := drop_frame (C := C) (s.detach .window c) c
    have hlater := later_drop (C := C) (s.detach .window c) c
    refine h.turn hc ⟨hlater.entries, hlater.next, hrefs, ?_, ?_, ?_⟩
      (hdl.drop List.not_mem_nil) ?_ ?_
    · rw [hlists]
      simp [detach]
    · intro x _
      rw [hstatus]
      rfl
    · intro x hx _
      rw [hretired]
      exact Function.update_of_ne hx _ _
    · rw [main_drop]
      exact h.main
    · have hexact := h.exact c (((h.linked.mem _ c).1 hcmem).1.1)
      have hpd : (s.detach .window c).PoolOk C (s.entries e).size := h.pool.lists rfl rfl (by omega)
      exact hpd.drop (by change (s.entries c).alloc = (s.entries c).bufCap; omega)

lemma Admitting.bytes_window {n : ℕ} (h : s.Admitting C n e) (hc : s.candidate e = none) :
    s.bytes .window = n + (s.entries e).size := by
  obtain ⟨rest, hrest⟩ := h.head
  have hpinned : ∀ x ∈ s.lists .window, s.refs x ≠ 0 := by
    unfold candidate at hc
    rw [hrest, List.reverse_cons, List.find?_append] at hc
    cases hfind : rest.reverse.find? fun c => c = e ∨ s.refs c = 0 with
    | none =>
      intro x hx
      rw [hrest] at hx
      rcases List.mem_cons.1 hx with rfl | hx
      · exact h.pinned
      · have := List.find?_eq_none.1 hfind x (List.mem_reverse.2 hx)
        grind
    | some y =>
      have hy := List.mem_of_find?_eq_some hfind
      have hnd := h.linked.nodup .window
      rw [hrest, List.nodup_cons] at hnd
      have hne : y ≠ e := by
        rintro rfl
        exact hnd.1 (List.mem_reverse.1 hy)
      rw [hfind] at hc
      simp [hne] at hc
  rw [h.linked.bytes, ← h.bytes, pinnedWindow, sizes]
  refine congrArg _ (List.map_congr_left fun x hx => ?_)
  rw [if_neg (hpinned x hx)]

lemma length_window_admitRound (h : s.admitRound C e = some t) :
    (t.lists .window).length < (s.lists .window).length := by
  obtain ⟨-, c, hc, hcases⟩ := admitRound_cases h
  have hmem := (mem_of_candidate hc).1
  have hwindow : t.lists .window = (s.lists .window).erase c := by
    rcases hcases with ⟨-, rfl⟩ | ⟨v, -, -, -, rfl⟩ | rfl
    · simp [attach, detach]
    · change (evict C (s.detach .window c) .probation v).lists .window = _
      rw [evict, (drop_frame (C := C) ((s.detach .window c).detach .probation v) v).2.1]
      simp [detach]
    · rw [(drop_frame (C := C) (s.detach .window c) c).2.1]
      simp [detach]
  rw [hwindow, List.length_erase_of_mem hmem]
  have := List.length_pos_of_mem hmem
  omega

lemma Admitting.admitWindow {n : ℕ} (fuel : ℕ) (h : s.Admitting C n e) (hfits : s.AdmitFits C fuel e)
    (hfuel : (s.lists .window).length ≤ fuel) :
    (s.admitWindow C fuel e).Admitting C n e ∧
      ((s.admitWindow C fuel e).bytes .window ≤ C.limits.maxWindow ∨
        (s.admitWindow C fuel e).bytes .window = n + (s.entries e).size) := by
  induction fuel generalizing s with
  | zero =>
    obtain ⟨rest, hrest⟩ := h.head
    simp [hrest] at hfuel
  | succ fuel ih =>
    simp only [Shard.admitWindow]
    split
    · rename_i s' hs'
      have hnext := h.round hfits.1 hs'
      have hlater := later_admitRound hs'
      have hrest := hfits.2
      rw [hs'] at hrest
      rw [← hlater.entries]
      refine ih hnext hrest ?_
      have := length_window_admitRound hs'
      omega
    · rename_i hstop
      refine ⟨h, ?_⟩
      unfold admitRound at hstop
      split_ifs at hstop with hover
      · split at hstop
        · dsimp only at hstop
          split_ifs at hstop
          split at hstop
          · split_ifs at hstop
          · simp at hstop
        · rename_i hc
          exact .inr (h.bytes_window hc)
      · exact .inl (Nat.le_of_not_lt hover)

/-! A fill. -/

/-- A fill that is kept breaks nothing: its size is exact, so is the size of its buffer, the pool
has room or is empty, what is pinned in the window fits there, and no trade of the admission is too
large. A buffer that is given back has to be exact too. -/
def FillFits (C : Config σ) (s : Shard σ) (readOk : Bool) (page : PageId) (pages : ℕ)
    (aliases : List PageId) : Prop :=
  let s : Shard σ := { s with sketch := C.increment s.sketch page }
  let t := (s.acquireBuf (fillSize pages)).1
  let u := t.enter page pages aliases (fillSize pages)
  s.gate C page pages = true →
    (s.acquireBuf (fillSize pages)).2 = fillSize pages ∧
    (readOk = true → fillSize pages % 2 ^ 32 ≤ C.limits.maxWindow + C.limits.maxMain →
      fillSize pages < 2 ^ 32 ∧ (t.pool = [] ∨ t.poolBytes + t.live ≤ C.limits.capacity) ∧
        t.pinnedWindow ≤ C.limits.maxWindow ∧ u.AdmitFits C (u.lists .window).length t.next)

instance (C : Config σ) (s : Shard σ) (readOk : Bool) (page : PageId) (pages : ℕ)
    (aliases : List PageId) : Decidable (s.FillFits C readOk page pages aliases) := by
  unfold FillFits
  infer_instance

lemma Budget.releaseBuf (h : s.Budget C) (n : ℕ) : (s.releaseBuf C n n).Budget C := by
  have hpool := h.pool.releaseBuf n
  have hlinked := h.linked.releaseBuf (C := C) n n
  obtain ⟨pool, k, hs⟩ := releaseBuf_eq (C := C) s n n
  rw [hs] at hpool hlinked ⊢
  exact ⟨hlinked, h.exact, h.main, h.window, h.fresh, hpool⟩

lemma Budget.acquireBuf (h : s.Budget C) (n : ℕ) : (s.acquireBuf n).1.Budget C := by
  have hpool := h.pool.acquireBuf (n := n)
  have hlinked := h.linked.acquireBuf n
  obtain ⟨pool, k, hs⟩ := acquireBuf_eq s n
  rw [hs] at hpool hlinked ⊢
  exact ⟨hlinked, h.exact, h.main, h.window, h.fresh, hpool⟩

lemma Budget.withSketch (h : s.Budget C) (sk : σ) :
    ({ s with sketch := sk } : Shard σ).Budget C :=
  ⟨h.linked.withSketch sk, h.exact, h.main, h.window, h.fresh, h.pool.exact, h.pool.sum, h.pool.room⟩

lemma Budget.enter (h : s.Budget C) (page : PageId) {pages : ℕ} (aliases : List PageId)
    (hsize : fillSize pages < 2 ^ 32)
    (hroom : s.pool = [] ∨ s.poolBytes + s.live ≤ C.limits.capacity) :
    (s.enter page pages aliases (fillSize pages)).Admitting C s.pinnedWindow s.next := by
  have hmod : fillSize pages % 2 ^ 32 = fillSize pages := Nat.mod_eq_of_lt hsize
  set entry := fillEntry page pages aliases (fillSize pages) with hentry
  have hnew : ∀ x ∈ s.lists .window, x ≠ s.next := by
    intro x hx
    have := ((h.linked.mem _ x).1 hx).1.1
    omega
  have hself : (s.enter page pages aliases (fillSize pages)).entries s.next = entry :=
    Function.update_self ..
  have hlive : (s.enter page pages aliases (fillSize pages)).live = s.live + entry.size := by
    have hborn : ((s.born entry).entries s.next).size = entry.size := by simp [born]
    have := live_attach (s.born entry) .window s.next
    rw [hborn] at this
    exact this
  refine ⟨h.linked.enter page pages aliases _, ?_, h.main, rfl, ?_, ?_, ?_, ?_, ?_, ?_⟩
  · intro x hx
    by_cases hxn : x = s.next
    · subst hxn
      rw [hself, hentry]
      simp only [fillEntry, hmod, and_self]
    · have hx' : x < s.next + 1 := hx
      have hold : (s.enter page pages aliases (fillSize pages)).entries x = s.entries x :=
        Function.update_of_ne hxn _ _
      rw [hold]
      exact h.exact x (by omega)
  · simp [enter_eq, attach, born]
  · simp [enter_eq, attach]
  · simp [enter_eq, attach, born]
  · exact ⟨s.lists .window, by simp [enter_eq, attach, born]⟩
  · refine ⟨h.pool.exact, h.pool.sum, ?_⟩
    rw [hlive, hself]
    exact hroom.imp_right fun hr => by
      change s.poolBytes + _ ≤ _
      omega
  · rw [hself]
    have hwindow : (s.enter page pages aliases (fillSize pages)).lists .window
        = s.next :: s.lists .window := by
      simp [enter_eq, attach, born]
    have hrest : (s.lists .window).map (fun x =>
        if (s.enter page pages aliases (fillSize pages)).refs x = 0 then 0
        else ((s.enter page pages aliases (fillSize pages)).entries x).size)
        = (s.lists .window).map fun x => if s.refs x = 0 then 0 else (s.entries x).size := by
      refine List.map_congr_left fun x hx => ?_
      simp [enter_eq, attach, born, hnew x hx]
    have href : (s.enter page pages aliases (fillSize pages)).refs s.next = 1 := by
      simp [enter_eq, attach, born]
    rw [pinnedWindow, hwindow, List.map_cons, List.sum_cons, hrest, hself, href]
    simp [pinnedWindow]
    omega

lemma Admitting.budget {n : ℕ} (h : s.Admitting C n e) (hn : n ≤ C.limits.maxWindow)
    (hw : s.bytes .window ≤ C.limits.maxWindow ∨ s.bytes .window = n + (s.entries e).size) :
    s.Budget C := by
  have hlast : s.next - 1 = e := by
    have := h.next
    omega
  have hnewest : s.newest = (s.entries e).size := by
    unfold newest
    rw [hlast, if_pos ⟨by have := h.next; omega, h.alive⟩]
  refine ⟨h.linked, h.exact, h.main, ?_, ?_, hnewest ▸ h.pool⟩
  · rw [hnewest]
    omega
  · rw [hlast]
    exact fun _ _ => h.status

lemma Budget.unpin (h : s.Budget C) (he : e < s.next ∧ 0 < s.refs e) :
    (s.unpin C e).Budget C := by
  have hlinked := h.linked.unpin (C := C) he.2
  unfold Shard.unpin at hlinked ⊢
  dsimp only at hlinked ⊢
  split_ifs at hlinked ⊢ with hlast
  · set t : Shard σ := { s with refs := Function.update s.refs e (s.refs e - 1) } with ht
    have htp : t.PoolOk C s.newest := ⟨h.pool.exact, h.pool.sum, h.pool.room⟩
    have hpool := htp.maybeDelete (e := e) (h.alloc_eq he.1)
    obtain ⟨deleted, pool, n, hs, -⟩ := maybeDelete_eq (C := C) t e
    rw [hs] at hlinked hpool ⊢
    exact ⟨hlinked, h.exact, h.main, h.window, h.fresh, hpool⟩
  · exact ⟨hlinked, h.exact, h.main, h.window, h.fresh, h.pool.exact, h.pool.sum, h.pool.room⟩

lemma Budget.miss (h : s.Budget C) {readOk : Bool} {page : PageId} {pages : ℕ}
    {aliases : List PageId} (hfits : s.FillFits C readOk page pages aliases) :
    (s.miss C readOk page pages aliases).1.Budget C := by
  set k : Shard σ := { s with sketch := C.increment s.sketch page } with hk
  have hkb : k.Budget C := h.withSketch _
  have htb := hkb.acquireBuf (fillSize pages)
  set t := (k.acquireBuf (fillSize pages)).1 with ht
  unfold Shard.miss
  dsimp only
  rw [← hk]
  split_ifs with hgate hread
  · obtain ⟨halloc, hins⟩ := hfits hgate
    rw [halloc, ← ht]
    have hinsert : ¬ C.limits.maxWindow + C.limits.maxMain < fillSize pages % 2 ^ 32 →
        ((t.enter page pages aliases (fillSize pages)).admitWindow C
          ((t.enter page pages aliases (fillSize pages)).lists .window).length t.next).Budget C := by
      intro hsmall
      obtain ⟨hsize, hroom, hpinned, hadmit⟩ := hins hread (by omega)
      have hent := htb.enter page aliases hsize hroom
      obtain ⟨hadm, hw⟩ := hent.admitWindow _ hadmit le_rfl
      have hentries := (later_admitWindow (C := C)
        ((t.enter page pages aliases (fillSize pages)).lists .window).length
        (t.enter page pages aliases (fillSize pages)) t.next).entries
      exact hadm.budget hpinned (by rw [hentries]; exact hw)
    unfold settle
    dsimp only
    split
    · rename_i w hwin
      split_ifs with hcov hbig
      · exact (htb.hitLocked (htb.linked.mapped page w hwin).1 page).releaseBuf _
      · exact htb.releaseBuf _
      · exact hinsert hbig
    · split_ifs with hbig
      · exact htb.releaseBuf _
      · exact hinsert hbig
  · obtain ⟨halloc, -⟩ := hfits hgate
    rw [halloc]
    exact htb.releaseBuf _
  · exact hkb

/-! Runs. -/

def Thrifty (C : Config σ) (s : Shard σ) : Event → Prop
  | .pin _ readOk page pages aliases =>
    match s.fastPath C page pages with
    | (t, none) => t.FillFits C readOk page pages aliases
    | (_, some _) => True
  | .unpin _ => True
  | .invalidateAll _ => False

lemma Budget.step (h : s.Budget C) (v : Event) (henabled : v.Enabled s) (hv : s.Thrifty C v) :
    (s.step C v).Budget C := by
  cases v with
  | pin gated readOk page pages aliases =>
    simp only [Shard.step]
    rcases pin_cases (C := C) h.linked gated readOk page pages aliases with
      ⟨e, he, -, hpin⟩ | ⟨e, he, hcov, hrefs, hpin⟩ | ⟨hfree, hpin⟩
    · rw [hpin]
      exact h.hitLocked (h.linked.mapped page e he).1 page
    · rw [hpin]
      simp only [Thrifty, fastPath, he, hcov, hrefs, Bool.false_eq_true, if_false, if_true] at hv
      exact (h.evict (h.linked.mapped page e he).1).miss hv
    · rw [hpin]
      rcases hfree with hnone | ⟨e, he, hcov, hrefs⟩
      · simp only [Thrifty, fastPath, hnone] at hv
        exact h.miss hv
      · simp only [Thrifty, fastPath, he, hcov, hrefs, Bool.false_eq_true, if_false] at hv
        exact h.miss hv
  | unpin e => exact h.unpin henabled
  | invalidateAll order => exact absurd hv id

lemma budget_empty (sk : σ) : ({ sketch := sk } : Shard σ).Budget C := by
  refine ⟨(books_empty sk).linked, ?_, ?_, ?_, ?_, ?_, ?_, ?_⟩ <;> simp [main, newest]

lemma Budget.run (hs : s.Budget C) (h : Run C (Thrifty C) s t) : t.Budget C := by
  induction h with
  | refl => exact hs
  | tail v _ henabled hok ih => exact ih.step v henabled hok

/-- What `new` was asked for, for the buffers of the cache and of the pool. -/
def realBytes (s : Shard σ) : ℕ :=
  ((s.lists .window).map fun e => (s.entries e).alloc).sum
    + ((s.lists .probation).map fun e => (s.entries e).alloc).sum
    + ((s.lists .protected_).map fun e => (s.entries e).alloc).sum
    + (s.pool.map Prod.fst).sum

lemma Budget.realBytes_eq (h : s.Budget C) : s.realBytes = s.live + s.poolBytes := by
  have hlist : ∀ q, ((s.lists q).map fun e => (s.entries e).alloc).sum = s.bytes q := by
    intro q
    rw [h.linked.bytes q, sizes]
    refine congrArg _ (List.map_congr_left fun e he => ?_)
    exact (h.exact e (((h.linked.mem q e).1 he).1.1)).1
  have hpool : (s.pool.map Prod.fst).sum = s.poolBytes := by
    rw [h.pool.sum]
    exact congrArg _ (List.map_congr_left h.pool.exact)
  simp only [realBytes, hlist, hpool, live]

end Shard

/-- In every run of pins and unpins whose fills fit, the main lists stay in their share, and cache
and pool together in the capacity and the newest entry. -/
theorem budget_of_run {sk : σ} (h : Run C (Shard.Thrifty C) { sketch := sk } s) :
    s.bytes .probation + s.bytes .protected_ ≤ C.limits.maxMain ∧
      s.realBytes ≤ C.limits.capacity + s.newest := by
  have hb := (Shard.budget_empty sk).run h
  refine ⟨hb.main, ?_⟩
  have hsplit := C.limits.split
  have hmain := hb.main
  have hwindow := hb.window
  rw [hb.realBytes_eq]
  rcases hb.pool.room with hnil | hroom
  · have hzero : s.poolBytes = 0 := by simp [hb.pool.sum, hnil]
    simp only [Shard.live, Shard.main] at *
    omega
  · omega

/-- Two pins one after the other: the second fill moves the first entry to probation. -/
theorem budget_of_two_pins :
    ∃ s, Run tenPages (Shard.Thrifty tenPages) { sketch := () } s ∧ s.lists .probation = [0] ∧
      s.bytes .probation + s.bytes .protected_ ≤ tenPages.limits.maxMain ∧
      s.realBytes ≤ tenPages.limits.capacity + s.newest := by
  have h : Run tenPages (Shard.Thrifty tenPages) { sketch := () }
      (((({ sketch := () } : Shard Unit).step tenPages (.pin true true 7 1 [])).step tenPages
        (.unpin 0)).step tenPages (.pin true true 9 1 [])) := by
    refine .tail _ (.tail _ (.tail _ (.refl _) trivial ?_) ?_ trivial) trivial ?_
    · change Shard.FillFits tenPages _ true 7 1 []
      decide +kernel
    · change 0 < Shard.next _ ∧ 0 < Shard.refs _ 0
      decide +kernel
    · change Shard.FillFits tenPages _ true 9 1 []
      decide +kernel
  exact ⟨_, h, by decide +kernel, budget_of_run h⟩

/-- An extent of three pages is retired into the pool by a request that is turned away. Three
extents of four pages then fill the cache, and none of them fits the pooled buffer. -/
def staleEvents : List Event :=
  [.pin true true 10 3 [], .unpin 0, .pin true true 10 11 [], .pin true true 20 4 [], .unpin 1,
    .pin true true 30 4 [], .unpin 2, .pin true true 40 4 [], .unpin 3]

def staleRun (n : ℕ) : Shard Unit :=
  (staleEvents.take n).foldl (fun s v => s.step tenPages v) { sketch := () }

theorem stale_pool_breaks_budget :
    Run tenPages (fun _ v => ∀ order, v ≠ .invalidateAll order) { sketch := () } (staleRun 9) ∧
      (∀ e < (staleRun 9).next, (staleRun 9).refs e = 0) ∧
      ¬ ((staleRun 9).bytes .probation + (staleRun 9).bytes .protected_
            ≤ tenPages.limits.maxMain ∧
          (staleRun 9).realBytes ≤ tenPages.limits.capacity + (staleRun 9).newest) := by
  have hunpin : ∀ n e, e < (staleRun n).next ∧ 0 < (staleRun n).refs e →
      Event.Enabled (staleRun n) (.unpin e) := fun _ _ h => h
  refine ⟨?_, by decide +kernel, by decide +kernel⟩
  have h2 : Run tenPages (fun _ v => ∀ order, v ≠ .invalidateAll order) { sketch := () }
      (staleRun 2) :=
    .tail (.unpin 0) (.tail (.pin true true 10 3 []) (.refl _) trivial (by simp))
      (hunpin 1 0 (by decide +kernel)) (by simp)
  have h5 : Run tenPages (fun _ v => ∀ order, v ≠ .invalidateAll order) { sketch := () }
      (staleRun 5) :=
    .tail (.unpin 1) (.tail (.pin true true 20 4 []) (.tail (.pin true true 10 11 []) h2 trivial
      (by simp)) trivial (by simp)) (hunpin 4 1 (by decide +kernel)) (by simp)
  have h7 : Run tenPages (fun _ v => ∀ order, v ≠ .invalidateAll order) { sketch := () }
      (staleRun 7) :=
    .tail (.unpin 2) (.tail (.pin true true 30 4 []) h5 trivial (by simp))
      (hunpin 6 2 (by decide +kernel)) (by simp)
  exact .tail (.unpin 3) (.tail (.pin true true 40 4 []) h7 trivial (by simp))
    (hunpin 8 3 (by decide +kernel)) (by simp)

end SextantTree.LeafCache
