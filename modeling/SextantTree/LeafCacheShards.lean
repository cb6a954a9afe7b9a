import SextantTree.LeafCacheSpec

/-!
The leaf cache over its shards, in critical sections: what a thread does to a shard under its lock
is one section, a `pin` is several, and those of different threads come in any order. A page is
looked up in the shard of its own number; the entry of a merged fill and all its keys are in the
shard of the first page.
-/

namespace SextantTree.LeafCache

variable {σ : Type} {C : Config σ} {s t : Shard σ} {q : Status} {e x : ℕ} {k : PageId}

namespace Shard

/-! What the map and the lists of a shard say after any sections. -/

/-- What the map leads to is in the cache, and the lists have entered entries only. -/
structure Traced (s : Shard σ) : Prop where
  mapped : ∀ k e, s.map.lookup k = some e → s.Resident e ∧ k ∈ (s.entries e).keys
  listed : ∀ q, ∀ e ∈ s.lists q, e < s.next

lemma Traced.withPool (h : s.Traced) (pool : List (ℕ × ℕ)) (n : ℕ) :
    ({ s with pool := pool, poolBytes := n } : Shard σ).Traced :=
  ⟨h.mapped, h.listed⟩

lemma Traced.releaseBuf (h : s.Traced) (alloc cap : ℕ) : (s.releaseBuf C alloc cap).Traced := by
  obtain ⟨pool, n, hs⟩ := releaseBuf_eq (C := C) s alloc cap
  rw [hs]
  exact h.withPool pool n

lemma Traced.acquireBuf (h : s.Traced) (size : ℕ) : (s.acquireBuf size).1.Traced := by
  obtain ⟨pool, n, hs⟩ := acquireBuf_eq s size
  rw [hs]
  exact h.withPool pool n

lemma Traced.detach (h : s.Traced) (q : Status) (e : ℕ) : (s.detach q e).Traced where
  mapped := h.mapped
  listed r x hx := by
    by_cases hr : r = q
    · subst hr
      have hx' : x ∈ (s.lists r).erase e := by simpa [Shard.detach] using hx
      exact h.listed r x (List.mem_of_mem_erase hx')
    · exact h.listed r x (by simpa [Shard.detach, hr] using hx)

lemma Traced.attach (h : s.Traced) (q : Status) (he : e < s.next) : (s.attach q e).Traced where
  mapped := h.mapped
  listed r x hx := by
    by_cases hr : r = q
    · subst hr
      have hx' : x = e ∨ x ∈ s.lists r := by simpa [Shard.attach] using hx
      rcases hx' with rfl | hx'
      · exact he
      · exact h.listed r x hx'
    · exact h.listed r x (by simpa [Shard.attach, hr] using hx)

lemma Traced.moveToMru (h : s.Traced) (q : Status) (he : e < s.next) :
    (s.moveToMru q e).Traced where
  mapped := h.mapped
  listed r x hx := by
    by_cases hr : r = q
    · subst hr
      have hx' : x = e ∨ x ∈ (s.lists r).erase e := by simpa [Shard.moveToMru] using hx
      rcases hx' with rfl | hx'
      · exact he
      · exact h.listed r x (List.mem_of_mem_erase hx')
    · exact h.listed r x (by simpa [Shard.moveToMru, hr] using hx)

lemma Traced.drop (h : s.Traced) (e : ℕ) : ((s.eraseKeys e).dropEntry C e).Traced := by
  obtain ⟨deleted, pool, n, hs, -⟩ := dropEntry_eq (C := C) (s.eraseKeys e) e
  rw [hs]
  refine ⟨fun k x hk => ?_, h.listed⟩
  have hk' := lookup_eraseKeys s e k
  simp only [] at hk
  rw [hk'] at hk
  split_ifs at hk with hgone
  have hx := h.mapped k x hk
  have hne : x ≠ e := by
    rintro rfl
    exact hgone ⟨hx.2, hk⟩
  simpa [eraseKeys, Resident, hne] using hx

lemma Traced.evict (h : s.Traced) (q : Status) (e : ℕ) : (s.evict C q e).Traced :=
  (h.detach q e).drop e

lemma Traced.move (h : s.Traced) (q r : Status) (he : e < s.next) :
    ((s.detach q e).attach r e).Traced :=
  (h.detach q e).attach r he

lemma Traced.demote (fuel : ℕ) (h : s.Traced) : (s.demote C fuel).Traced := by
  induction fuel generalizing s with
  | zero => exact h
  | succ fuel ih =>
    simp only [Shard.demote]
    split_ifs with hover
    · split
      · rename_i d hd
        exact ih (h.move _ _ (h.listed _ d (List.mem_of_getLast? hd)))
      · exact h
    · exact h

lemma Traced.relieve (fuel : ℕ) (h : s.Traced) : (s.relieve C fuel).Traced := by
  induction fuel generalizing s with
  | zero => exact h
  | succ fuel ih =>
    simp only [Shard.relieve]
    split_ifs with hover
    · split
      · exact ih (h.evict _ _)
      · exact h
    · exact h

lemma Traced.hitLocked (h : s.Traced) (he : e < s.next) (page : PageId) :
    (s.hitLocked C e page).Traced := by
  have htouch : ({ s with
      refs := Function.update s.refs e (s.refs e + 1)
      sketch := C.increment s.sketch page } : Shard σ).Traced := ⟨h.mapped, h.listed⟩
  unfold Shard.hitLocked
  dsimp only
  split
  · exact htouch.moveToMru _ he
  · exact ((htouch.move _ _ he).demote _).relieve _
  · exact htouch.moveToMru _ he

lemma Traced.admitRound (h : s.Traced) (hround : s.admitRound C e = some t) : t.Traced := by
  obtain ⟨-, c, hc, hcases⟩ := admitRound_cases hround
  have hlt := h.listed _ c (mem_of_candidate hc).1
  rcases hcases with ⟨-, rfl⟩ | ⟨v, -, -, -, rfl⟩ | rfl
  · exact h.move _ _ hlt
  · refine ((h.detach _ c).evict _ v).attach _ ?_
    rw [(later_evict (C := C) _ _ v).next]
    exact hlt
  · exact (h.detach _ c).drop c

lemma Traced.admitWindow (fuel : ℕ) (h : s.Traced) : (s.admitWindow C fuel e).Traced := by
  induction fuel generalizing s with
  | zero => exact h
  | succ fuel ih =>
    simp only [Shard.admitWindow]
    split
    · rename_i s' hs'
      exact ih (h.admitRound hs')
    · exact h

lemma Traced.enter (h : s.Traced) (page : PageId) (pages : ℕ) (aliases : List PageId)
    (alloc : ℕ) : (s.enter page pages aliases alloc).Traced := by
  rw [enter_eq]
  set entry := fillEntry page pages aliases alloc with hentry
  refine ⟨fun k x hk => ?_, fun r x hx => ?_⟩
  · change (claimKeys s.map page aliases s.next).lookup k = some x at hk
    change (s.born entry).Resident x ∧ k ∈ ((s.born entry).entries x).keys
    rw [lookup_claimKeys] at hk
    by_cases hs : s.map.lookup k = some x
    · obtain ⟨⟨hlt, hr⟩, hkeys⟩ := h.mapped k x hs
      have hne : x ≠ s.next := by omega
      simpa [born, Resident, hne, Nat.lt_succ_of_lt hlt] using ⟨hr, hkeys⟩
    · -- the key was free, and the entry has claimed it
      have hx : x = s.next ∧ k ∈ page :: aliases := by
        cases hl : s.map.lookup k with
        | none =>
          simp only [hl, Option.getD_none] at hk
          grind
        | some y =>
          simp only [hl, Option.getD_some] at hk hs
          grind
      obtain ⟨rfl, hkeys⟩ := hx
      simpa [born, Resident, hentry, fillEntry] using hkeys
  · change x ∈ Function.update s.lists .window (s.next :: s.lists .window) r at hx
    change x < s.next + 1
    by_cases hr : r = .window
    · subst hr
      have hx' : x = s.next ∨ x ∈ s.lists .window := by simpa using hx
      rcases hx' with rfl | hx'
      · exact Nat.lt_succ_self _
      · exact Nat.lt_succ_of_lt (h.listed _ x hx')
    · exact Nat.lt_succ_of_lt (h.listed r x (by simpa [hr] using hx))

lemma Traced.settle (h : s.Traced) (page : PageId) (pages : ℕ) (aliases : List PageId)
    (alloc : ℕ) : (s.settle C page pages aliases alloc).1.Traced := by
  unfold Shard.settle
  dsimp only
  split
  · rename_i w hw
    split_ifs
    · exact (h.hitLocked (h.mapped page w hw).1.1 page).releaseBuf _ _
    · exact h.releaseBuf _ _
    · exact (h.enter page pages aliases alloc).admitWindow _
  · split_ifs
    · exact h.releaseBuf _ _
    · exact (h.enter page pages aliases alloc).admitWindow _

lemma Traced.look (h : s.Traced) (page : PageId) (pages : ℕ) :
    (s.fastPath C page pages).1.Traced := by
  unfold Shard.fastPath
  split
  · rename_i e he
    split_ifs
    · exact h.hitLocked (h.mapped page e he).1.1 page
    · exact h.evict _ e
    · exact h
  · exact h

lemma Traced.doubleCheck (h : s.Traced) (page : PageId) (pages : ℕ) :
    (s.doubleCheck C page pages).1.Traced := by
  unfold Shard.doubleCheck
  split
  · rename_i e he
    split_ifs
    · exact h.hitLocked (h.mapped page e he).1.1 page
    · exact h
  · exact h

lemma Traced.unpin (h : s.Traced) (e : ℕ) : (s.unpin C e).Traced := by
  obtain ⟨deleted, pool, n, hs, -⟩ := maybeDelete_eq (C := C)
    { s with refs := Function.update s.refs e (s.refs e - 1) } e
  unfold Shard.unpin
  dsimp only
  split_ifs
  · rw [hs]
    exact ⟨h.mapped, h.listed⟩
  · exact ⟨h.mapped, h.listed⟩

/-- What the walk of an invalidation does in any shard. -/
structure Dropped (order : List ℕ) (s t : Shard σ) : Prop where
  entries : t.entries = s.entries
  next : t.next = s.next
  retired : ∀ e, s.retired e = true ∨ e ∈ order → t.retired e = true
  lists : ∀ q, ∀ e ∈ t.lists q, e ∈ s.lists q

lemma dropped_invalidateEntry (s : Shard σ) (e : ℕ) : Dropped [e] s (s.invalidateEntry C e) := by
  obtain ⟨deleted, pool, n, hs, -⟩ := dropEntry_eq (C := C)
    { s with lists := Function.update s.lists (s.status e) ((s.lists (s.status e)).erase e) } e
  unfold Shard.invalidateEntry
  split_ifs with hret
  · refine ⟨rfl, rfl, ?_, fun _ _ hx => hx⟩
    rintro x (hx | hx)
    · exact hx
    · rw [List.mem_singleton.1 hx]
      exact hret
  · rw [hs]
    refine ⟨rfl, rfl, fun x hx => ?_, fun q x hx => ?_⟩
    · grind [Function.update_apply]
    · by_cases hq : q = s.status e
      · subst hq
        exact List.mem_of_mem_erase (by simpa using hx)
      · simpa [hq] using hx

lemma dropped_foldl (order : List ℕ) (s : Shard σ) :
    Dropped order s (order.foldl (Shard.invalidateEntry C) s) := by
  induction order generalizing s with
  | nil => exact ⟨rfl, rfl, by simp, fun _ _ h => h⟩
  | cons e order ih =>
    have hone := dropped_invalidateEntry (C := C) s e
    have hrest := ih (s.invalidateEntry C e)
    refine ⟨hrest.entries.trans hone.entries, hrest.next.trans hone.next, ?_,
      fun q x hx => hone.lists q x (hrest.lists q x hx)⟩
    rintro x (hx | hx)
    · exact hrest.retired x (.inl (hone.retired x (.inl hx)))
    · rcases List.mem_cons.1 hx with rfl | hx
      · exact hrest.retired x (.inl (hone.retired x (.inr List.mem_cons_self)))
      · exact hrest.retired x (.inr hx)

lemma Traced.invalidateAll (h : s.Traced) (order : List ℕ) :
    (s.invalidateAll C order).Traced := by
  have hd := dropped_foldl (C := C) order s
  refine ⟨fun k x hk => ?_, fun q x hx => ?_⟩
  · simp [Shard.invalidateAll] at hk
  · change x < (order.foldl (Shard.invalidateEntry C) s).next
    rw [hd.next]
    exact h.listed q x (hd.lists q x hx)

/-! What an entry keeps from one state to all later ones. -/

/-- An entry keeps what its fill fixed, and its keys until it leaves the cache. -/
structure Keeps (s t : Shard σ) : Prop extends s.Grows t where
  entries : ∀ e < s.next, t.entries e = s.entries e
  lookup : ∀ k, ∀ e < s.next, s.map.lookup k = some e → t.retired e = false →
    t.map.lookup k = some e

lemma Keeps.refl (s : Shard σ) : s.Keeps s :=
  ⟨⟨le_rfl, fun _ _ h => h⟩, fun _ _ => rfl, fun _ _ _ h _ => h⟩

lemma Keeps.trans {u : Shard σ} (h : s.Keeps t) (h' : t.Keeps u) : s.Keeps u where
  toGrows := h.toGrows.trans h'.toGrows
  entries e he := (h'.entries e (he.trans_le h.next)).trans (h.entries e he)
  lookup k e he hk hr := by
    have he' := he.trans_le h.next
    have hrt : t.retired e = false := by
      by_contra hrt
      have := h'.retired e he' (by simpa using hrt)
      simp_all
    exact h'.lookup k e he' (h.lookup k e he hk hrt) hr

lemma Later.keeps (h : s.Later t) : s.Keeps t :=
  ⟨h.grows, fun _ _ => by rw [h.entries], fun k e _ => h.lookup k e⟩

lemma keeps_enter (s : Shard σ) (page : PageId) (pages : ℕ) (aliases : List PageId) (alloc : ℕ) :
    s.Keeps (s.enter page pages aliases alloc) := by
  refine ⟨grows_enter s page pages aliases alloc, fun e he => ?_, fun k e he hk _ => ?_⟩
  · have hne : e ≠ s.next := by omega
    simp [enter_eq, Shard.attach, born, hne]
  · change (claimKeys s.map page aliases s.next).lookup k = some e
    rw [lookup_claimKeys, hk]
    simp

lemma keeps_settle (s : Shard σ) (page : PageId) (pages : ℕ) (aliases : List PageId)
    (alloc : ℕ) : s.Keeps (s.settle C page pages aliases alloc).1 := by
  have hinsert := (keeps_enter s page pages aliases alloc).trans
    (later_admitWindow (C := C) ((s.enter page pages aliases alloc).lists .window).length _
      s.next).keeps
  unfold Shard.settle
  dsimp only
  split
  · rename_i w _
    split_ifs
    · exact ((later_hitLocked s w page).trans (later_releaseBuf _ _ _)).keeps
    · exact (later_releaseBuf s _ _).keeps
    · exact hinsert
  · split_ifs
    · exact (later_releaseBuf s _ _).keeps
    · exact hinsert

lemma later_look (s : Shard σ) (page : PageId) (pages : ℕ) :
    s.Later (s.fastPath C page pages).1 := by
  unfold Shard.fastPath
  split
  · split_ifs
    · exact later_hitLocked s _ page
    · exact later_evict s _ _
    · exact .refl s
  · exact .refl s

lemma later_doubleCheck (s : Shard σ) (page : PageId) (pages : ℕ) :
    s.Later (s.doubleCheck C page pages).1 := by
  unfold Shard.doubleCheck
  split
  · split_ifs
    · exact later_hitLocked s _ page
    · exact .refl s
  · exact .refl s

lemma keeps_invalidateAll (s : Shard σ) (order : List ℕ)
    (hall : ∀ k e, s.map.lookup k = some e → e ∈ order) :
    s.Keeps (s.invalidateAll C order) := by
  have hd := dropped_foldl (C := C) order s
  refine ⟨⟨hd.next.ge, fun e _ hr => hd.retired e (.inl hr)⟩, fun e _ => ?_, ?_⟩
  · exact congrFun hd.entries e
  · intro k e _ hk hr
    have hret := hd.retired e (.inr (hall k e hk))
    simp only [Shard.invalidateAll] at hr
    simp_all

end Shard

/-! Sections. -/

/-- What a thread does to one shard under its lock. -/
inductive Section
  | look (page : PageId) (pages : ℕ)
  | doubleCheck (page : PageId) (pages : ℕ)
  /-- The gate counts the access. -/
  | gate (page : PageId)
  | acquireBuf (size : ℕ)
  | releaseBuf (alloc cap : ℕ)
  | settle (page : PageId) (pages : ℕ) (aliases : List PageId) (alloc : ℕ)
  | unpin (e : ℕ)
  | invalidateAll (order : List ℕ)

variable (C) in
def Shard.enterSection (s : Shard σ) : Section → Shard σ
  | .look page pages => (s.fastPath C page pages).1
  | .doubleCheck page pages => (s.doubleCheck C page pages).1
  | .gate page => { s with sketch := C.increment s.sketch page }
  | .acquireBuf size => (s.acquireBuf size).1
  | .releaseBuf alloc cap => s.releaseBuf C alloc cap
  | .settle page pages aliases alloc => (s.settle C page pages aliases alloc).1
  | .unpin e => s.unpin C e
  | .invalidateAll order => s.invalidateAll C order

/-- A pin that is given back is out, and the walk of an invalidation meets all that is mapped. -/
def Section.Enabled (s : Shard σ) : Section → Prop
  | .unpin e => e < s.next ∧ 0 < s.refs e
  | .invalidateAll order => ∀ k e, s.map.lookup k = some e → e ∈ order
  | _ => True

namespace Shard

lemma Traced.enterSection (h : s.Traced) (v : Section) : (s.enterSection C v).Traced := by
  cases v with
  | look page pages => exact h.look page pages
  | doubleCheck page pages => exact h.doubleCheck page pages
  | gate page => exact ⟨h.mapped, h.listed⟩
  | acquireBuf size => exact h.acquireBuf size
  | releaseBuf alloc cap => exact h.releaseBuf alloc cap
  | settle page pages aliases alloc => exact h.settle page pages aliases alloc
  | unpin e => exact h.unpin e
  | invalidateAll order => exact h.invalidateAll order

lemma keeps_enterSection (s : Shard σ) (v : Section) (hv : v.Enabled s) :
    s.Keeps (s.enterSection C v) := by
  cases v with
  | look page pages => exact (later_look s page pages).keeps
  | doubleCheck page pages => exact (later_doubleCheck s page pages).keeps
  | gate page => exact Later.keeps ⟨rfl, rfl, fun _ h => h, fun _ _ h _ => h⟩
  | acquireBuf size => exact (later_acquireBuf s size).keeps
  | releaseBuf alloc cap => exact (later_releaseBuf s alloc cap).keeps
  | settle page pages aliases alloc => exact keeps_settle s page pages aliases alloc
  | unpin e => exact (later_unpin s e).keeps
  | invalidateAll order => exact keeps_invalidateAll s order hv

/-! The section that enters a filled buffer. -/

lemma lookup_of_admitWindow (fuel : ℕ) (s : Shard σ) {n : ℕ}
    (h : (s.admitWindow C fuel n).map.lookup k = some e) : s.map.lookup k = some e := by
  have hdrop : ∀ (u : Shard σ) (x : ℕ),
      ((u.eraseKeys x).dropEntry C x).map.lookup k = some e → u.map.lookup k = some e := by
    intro u x hx
    obtain ⟨deleted, pool, m, hs, -⟩ := dropEntry_eq (C := C) (u.eraseKeys x) x
    rw [hs] at hx
    have hk := lookup_eraseKeys u x k
    simp only [] at hx
    rw [hx] at hk
    split_ifs at hk
    exact hk.symm
  induction fuel generalizing s with
  | zero => exact h
  | succ fuel ih =>
    simp only [Shard.admitWindow] at h
    split at h
    · rename_i s' hs'
      obtain ⟨-, c, -, hcases⟩ := admitRound_cases hs'
      have hk := ih s' h
      rcases hcases with ⟨-, rfl⟩ | ⟨v, -, -, -, rfl⟩ | rfl
      · exact hk
      · exact hdrop (((s.detach .window c).detach .probation v)) v hk
      · exact hdrop (s.detach .window c) c hk
    · exact h

/-- The loop turns out neither the entry that has just come in nor, by its victims, anything but
what was in probation. -/
lemma retired_admitWindow (fuel : ℕ) (s : Shard σ) (h : e ∉ s.lists .probation) :
    (s.admitWindow C fuel e).retired e = s.retired e := by
  have hdrop : ∀ (u : Shard σ) (x : ℕ), x ≠ e →
      ((u.eraseKeys x).dropEntry C x).retired e = u.retired e ∧
        ((u.eraseKeys x).dropEntry C x).lists = u.lists := by
    intro u x hx
    obtain ⟨deleted, pool, m, hs, -⟩ := dropEntry_eq (C := C) (u.eraseKeys x) x
    rw [hs]
    exact ⟨Function.update_of_ne (Ne.symm hx) _ _, rfl⟩
  induction fuel generalizing s with
  | zero => rfl
  | succ fuel ih =>
    simp only [Shard.admitWindow]
    split
    · rename_i s' hs'
      obtain ⟨-, c, hc, hcases⟩ := admitRound_cases hs'
      have hce := (mem_of_candidate hc).2.2
      rcases hcases with ⟨-, rfl⟩ | ⟨v, -, hv, -, rfl⟩ | rfl
      · refine ih _ ?_
        simpa [attach, detach, Ne.symm hce] using h
      · have hve : v ≠ e := by
          rintro rfl
          exact h (mem_of_lastUnpinned hv).1
        obtain ⟨hret, hlists⟩ := hdrop ((s.detach .window c).detach .probation v) v hve
        refine (ih _ ?_).trans hret
        have hmem : e ∉ ((s.detach .window c).evict C .probation v).lists .probation := by
          unfold Shard.evict
          rw [hlists]
          intro hmem
          exact h (List.mem_of_mem_erase (by simpa [detach] using hmem))
        simpa [attach, Ne.symm hce] using hmem
      · obtain ⟨hret, hlists⟩ := hdrop (s.detach .window c) c hce
        refine (ih _ ?_).trans hret
        rw [hlists]
        simpa [detach] using h
    · rfl

lemma Traced.settle_entered (h : s.Traced) {page : PageId} {pages : ℕ} {aliases : List PageId}
    {alloc : ℕ} (hin : (s.settle C page pages aliases alloc).2 = some s.next) :
    (s.settle C page pages aliases alloc).1
      = (s.enter page pages aliases alloc).admitWindow C
          ((s.enter page pages aliases alloc).lists .window).length s.next := by
  unfold Shard.settle at hin ⊢
  dsimp only at hin ⊢
  split at hin
  · rename_i w hw
    split_ifs at hin ⊢ with hc hbig
    · have hlt := (h.mapped page w hw).1.1
      simp only [Option.some.injEq] at hin
      omega
    · rfl
  · split_ifs at hin ⊢
    · rfl

lemma Traced.entered (h : s.Traced) {page : PageId} {pages : ℕ} {aliases : List PageId}
    {alloc : ℕ} (hin : (s.settle C page pages aliases alloc).2 = some s.next) {t : Shard σ}
    (ht : t = (s.settle C page pages aliases alloc).1) :
    t.entries s.next = fillEntry page pages aliases alloc ∧ t.next = s.next + 1 ∧
      t.retired s.next = false ∧
      ∀ k, t.map.lookup k = some s.next ↔
        (k = page ∨ k ∈ aliases) ∧ s.map.lookup k = none := by
  rw [h.settle_entered hin] at ht
  set u := s.enter page pages aliases alloc with hu
  have hlater := later_admitWindow (C := C) (u.lists .window).length u s.next
  have hentry : u.entries s.next = fillEntry page pages aliases alloc := by
    simp [hu, enter_eq, Shard.attach, born]
  have hfresh : s.next ∉ u.lists .probation := by
    intro hmem
    have hlt := h.listed .probation s.next (by simpa [hu, enter_eq, Shard.attach, born] using hmem)
    omega
  have hret : t.retired s.next = false := by
    rw [ht, retired_admitWindow _ u hfresh]
    simp [hu, enter_eq, Shard.attach, born]
  have hlookup : ∀ k, u.map.lookup k = some s.next ↔
      (k = page ∨ k ∈ aliases) ∧ s.map.lookup k = none := by
    intro k
    change (claimKeys s.map page aliases s.next).lookup k = some s.next ↔ _
    have hold : s.map.lookup k ≠ some s.next := by
      intro hk
      have := (h.mapped k s.next hk).1.1
      omega
    rw [lookup_claimKeys]
    split_ifs with hkey
    · cases hl : s.map.lookup k with
      | none => simp [hkey]
      | some y =>
        have hy : y ≠ s.next := by
          rintro rfl
          exact hold hl
        simp [hy]
    · simp [hold, hkey]
  refine ⟨?_, ?_, hret, fun k => ⟨fun hk => ?_, fun hk => ?_⟩⟩
  · rw [ht, hlater.entries, hentry]
  · rw [ht, hlater.next]
    rfl
  · rw [ht] at hk
    exact (hlookup k).1 (lookup_of_admitWindow _ u hk)
  · rw [ht] at hret ⊢
    exact hlater.lookup k s.next ((hlookup k).2 hk) hret

end Shard

/-! The shards. -/

/-- The number of shards and the shards. -/
structure Cache (σ : Type) where
  count : ℕ
  shards : ℕ → Shard σ

/-- Which of `n` shards a page belongs to, by the upper half of a product of 64 bits. -/
def shardFor (n : ℕ) (page : PageId) : ℕ :=
  page * 0x9E3779B97F4A7C15 % 2 ^ 64 / 2 ^ 32 % n

/-- What the constructor makes: one shard where none is asked for. -/
def Cache.make (numShards : ℕ) (sk : σ) : Cache σ where
  count := if numShards = 0 then 1 else numShards
  shards _ := { sketch := sk }

/-- The page that a section looks up, which says its shard. -/
def Section.page? : Section → Option PageId
  | .look page _ | .doubleCheck page _ | .gate page | .settle page _ _ _ => some page
  | _ => none

namespace Cache

variable {c d : Cache σ} {file : ℕ → UInt8}

variable (C) in
def step (c : Cache σ) (i : ℕ) (v : Section) : Cache σ :=
  { c with shards := Function.update c.shards i ((c.shards i).enterSection C v) }

variable (C) in
/-- The sections of all threads, one after the other. -/
inductive Run : Cache σ → Cache σ → Prop
  | refl (c : Cache σ) : Run c c
  | tail {c d : Cache σ} (i : ℕ) (v : Section) (h : Run c d) (lt : i < d.count)
      (home : ∀ page, v.page? = some page → i = shardFor d.count page)
      (enabled : v.Enabled (d.shards i)) : Run c (d.step C i v)

lemma Run.traced (h : Run C c d) (hc : ∀ i, (c.shards i).Traced) (i : ℕ) :
    (d.shards i).Traced := by
  induction h with
  | refl => exact hc i
  | tail j v _ _ _ _ ih =>
    by_cases hij : i = j
    · subst hij
      simpa [step] using ih.enterSection (C := C) v
    · simpa [step, hij] using ih

lemma Run.count (h : Run C c d) : d.count = c.count := by
  induction h with
  | refl => rfl
  | tail i v _ _ _ _ ih => exact ih

lemma Run.keeps (h : Run C c d) (i : ℕ) : (c.shards i).Keeps (d.shards i) := by
  induction h with
  | refl => exact .refl _
  | @tail d j v _ _ _ enabled ih =>
    by_cases hij : i = j
    · subst hij
      simpa [step] using ih.trans (Shard.keeps_enterSection (C := C) _ v enabled)
    · simpa [step, hij] using ih

lemma traced_make (numShards : ℕ) (sk : σ) (i : ℕ) : ((make numShards sk).shards i).Traced := by
  refine ⟨?_, ?_⟩ <;> simp [make]

/-! Lookups. -/

def contains (c : Cache σ) (page : PageId) : Bool :=
  ((c.shards (shardFor c.count page)).map.lookup page).isSome

/-- `entry_ptr`: how far into the entry's data the page is. -/
def entryPtr (e : Entry) (page : PageId) : ℕ :=
  (page + 2 ^ 64 - e.page) % 2 ^ 64 * kPageSize % 2 ^ 64

structure Handle where
  shard : ℕ
  entry : ℕ
  ptr : ℕ
deriving DecidableEq

variable (C) in
def look (c : Cache σ) (page : PageId) (pages : ℕ) : Option Handle :=
  let i := shardFor c.count page
  ((c.shards i).fastPath C page pages).2.map fun e =>
    ⟨i, e, entryPtr ((c.shards i).entries e) page⟩

/-- What the fill has read into the data of an entry. -/
def filled (file : ℕ → UInt8) (e : Entry) (k : ℕ) : UInt8 := file (e.page * kPageSize + k)

/-! Runs of adjacent leaves. -/

structure LeafExtent where
  page : ℕ
  pages : ℕ
deriving DecidableEq

def kMaxRunBytes : ℕ := 2 * 2 ^ 20

/-- `run_end`: the leaves that go on where the last one ended, up to two megabytes. -/
def runEnd (runBytes : ℕ) (last : LeafExtent) : List LeafExtent → List LeafExtent
  | [] => []
  | l :: ls =>
    if last.page + last.pages = l.page ∧ runBytes + l.pages * kPageSize ≤ kMaxRunBytes then
      l :: runEnd (runBytes + l.pages * kPageSize) l ls
    else []

/-- The run that starts with the first of the leaves. -/
def runAt : List LeafExtent → List LeafExtent
  | [] => []
  | l :: ls => l :: runEnd (l.pages * kPageSize) l ls

def runPages (run : List LeafExtent) : ℕ :=
  match run.head?, run.getLast? with
  | some a, some b => (b.page + b.pages - a.page) % 2 ^ 32
  | _, _ => 0

def runAliases (run : List LeafExtent) : List PageId := run.tail.map (·.page)

lemma runEnd_spec (leaves : List LeafExtent) {start w : ℕ} {last : LeafExtent}
    (hlast : last.page + last.pages = start + w) :
    ∃ n b, (last :: runEnd (w * kPageSize) last leaves).getLast? = some b ∧
      b.page + b.pages = start + n ∧ w ≤ n ∧
      (∀ m ∈ runEnd (w * kPageSize) last leaves, start ≤ m.page ∧ m.page + m.pages ≤ start + n) ∧
      (runEnd (w * kPageSize) last leaves = [] ∧ n = w ∨ n * kPageSize ≤ kMaxRunBytes) := by
  induction leaves generalizing w last with
  | nil => exact ⟨w, last, rfl, hlast, le_rfl, by simp [runEnd], .inl ⟨rfl, rfl⟩⟩
  | cons l ls ih =>
    simp only [runEnd]
    split_ifs with hnext
    · obtain ⟨hadj, hcap⟩ := hnext
      rw [← Nat.add_mul] at hcap ⊢
      obtain ⟨n, b, hb, hend, hwn, hmem, hsize⟩ := ih (by omega : l.page + l.pages = start + (w + l.pages))
      refine ⟨n, b, by rw [List.getLast?_cons_cons, hb], hend, by omega, ?_, .inr ?_⟩
      · rintro m (_ | ⟨_, hm⟩)
        · omega
        · exact hmem m hm
      · rcases hsize with ⟨-, rfl⟩ | hsize
        · exact hcap
        · exact hsize
    · exact ⟨w, last, rfl, hlast, le_rfl, by simp, .inl ⟨rfl, rfl⟩⟩

lemma runAt_spec {l : LeafExtent} {ls : List LeafExtent} (hmany : 1 < (runAt (l :: ls)).length) :
    runPages (runAt (l :: ls)) * kPageSize ≤ kMaxRunBytes ∧
      ∀ m ∈ runAt (l :: ls), l.page ≤ m.page ∧
        m.page + m.pages ≤ l.page + runPages (runAt (l :: ls)) := by
  obtain ⟨n, b, hb, hend, hwn, hmem, hsize⟩ :=
    runEnd_spec ls (w := l.pages) rfl
  have hcap : n * kPageSize ≤ kMaxRunBytes := by
    rcases hsize with ⟨hnil, -⟩ | hsize
    · simp [runAt, hnil] at hmany
    · exact hsize
  have hpages : runPages (runAt (l :: ls)) = n := by
    have hlast : (runAt (l :: ls)).getLast? = some b := hb
    simp only [runPages, hlast]
    simp only [runAt, List.head?_cons, hend]
    simp only [kPageSize, kMaxRunBytes] at hcap
    omega
  rw [hpages]
  refine ⟨hcap, fun m hm => ?_⟩
  rcases List.mem_cons.1 hm with rfl | hm
  · omega
  · exact hmem m hm

lemma mem_keys_of_mem_runAt {l m : LeafExtent} {ls : List LeafExtent}
    (hm : m ∈ runAt (l :: ls)) : m.page = l.page ∨ m.page ∈ runAliases (runAt (l :: ls)) := by
  rcases List.mem_cons.1 hm with rfl | hm
  · exact .inl rfl
  · exact .inr (List.mem_map_of_mem hm)

/-! What a merged fill is for. -/

variable (C) in
/-- Lookup and pin of every member of the run come to entry `e` of shard `i`, with a pointer to the
member's own bytes. -/
def Serves (file : ℕ → UInt8) (c : Cache σ) (run : List LeafExtent) (i e : ℕ) : Prop :=
  ∀ m ∈ run, c.contains m.page = true ∧
    ∃ ptr, c.look C m.page m.pages = some ⟨i, e, ptr⟩ ∧
      ∀ k < m.pages * kPageSize, ptr + k < ((c.shards i).entries e).bufCap ∧
        filled file ((c.shards i).entries e) (ptr + k) = file (m.page * kPageSize + k)

variable (C) in
/-- The entry serves the run from here on, until it leaves the cache; then no key leads to it. -/
def ServesUntilEvicted (file : ℕ → UInt8) (c : Cache σ) (run : List LeafExtent) (i e : ℕ) :
    Prop :=
  ∀ d, Run C c d →
    ((d.shards i).retired e = false → d.Serves C file run i e) ∧
      ((d.shards i).retired e = true → ∀ k, (d.shards i).map.lookup k ≠ some e)

lemma look_eq_some {h : Handle} {page : PageId} {pages : ℕ} :
    c.look C page pages = some h ↔ h.shard = shardFor c.count page ∧
      (c.shards h.shard).map.lookup page = some h.entry ∧
      (c.shards h.shard).covers h.entry page pages = true ∧
      h.ptr = entryPtr ((c.shards h.shard).entries h.entry) page := by
  obtain ⟨i, e, ptr⟩ := h
  simp only [look, Option.map_eq_some_iff, Handle.mk.injEq]
  constructor
  · rintro ⟨x, hx, rfl, rfl, rfl⟩
    unfold Shard.fastPath at hx
    split at hx
    · rename_i w hw
      split_ifs at hx with hc
      obtain rfl := Option.some.inj hx
      exact ⟨rfl, hw, hc, rfl⟩
    · simp at hx
  · rintro ⟨rfl, hw, hc, rfl⟩
    refine ⟨e, ?_, rfl, rfl, rfl⟩
    simp [Shard.fastPath, hw, hc]

/-- The entry of a merged fill covers each member, and the member's own bytes start at its pointer.
-/
lemma entry_holds_member {l m : LeafExtent} {ls : List LeafExtent} (alloc : ℕ)
    (hmany : 1 < (runAt (l :: ls)).length) (hm : m ∈ runAt (l :: ls)) (hfile : m.page < 2 ^ 64)
    {e : Entry} (he : e = Shard.fillEntry l.page (runPages (runAt (l :: ls)))
      (runAliases (runAt (l :: ls))) alloc) :
    ((m.page + 2 ^ 64 - e.page) % 2 ^ 64 * kPageSize + m.pages * kPageSize) % 2 ^ 64 ≤ e.bufCap ∧
      ∀ k < m.pages * kPageSize, entryPtr e m.page + k < e.bufCap ∧
        filled file e (entryPtr e m.page + k) = file (m.page * kPageSize + k) := by
  obtain ⟨hcap, hmem⟩ := runAt_spec hmany
  obtain ⟨hge, hle⟩ := hmem m hm
  subst he
  obtain ⟨off, hoff⟩ := Nat.exists_eq_add_of_le hge
  have hmod : (m.page + 2 ^ 64 - l.page) % 2 ^ 64 = off := by omega
  have hptr : entryPtr (Shard.fillEntry l.page (runPages (runAt (l :: ls)))
      (runAliases (runAt (l :: ls))) alloc) m.page = off * kPageSize := by
    change (m.page + 2 ^ 64 - l.page) % 2 ^ 64 * kPageSize % 2 ^ 64 = off * kPageSize
    rw [hmod]
    simp only [kPageSize, kMaxRunBytes] at hcap ⊢
    omega
  rw [hptr]
  simp only [Shard.fillEntry, Shard.fillSize, filled, hmod]
  refine ⟨?_, fun k hk => ⟨?_, congrArg file ?_⟩⟩
  all_goals simp only [kPageSize, kMaxRunBytes] at *
  all_goals omega

lemma servesUntilEvicted_iff (hc : ∀ i, (c.shards i).Traced) {l : LeafExtent}
    {ls : List LeafExtent} (hmany : 1 < (runAt (l :: ls)).length)
    (hfile : ∀ m ∈ runAt (l :: ls), m.page < 2 ^ 64) {i : ℕ} (alloc : ℕ)
    (hin : ((c.shards i).settle C l.page (runPages (runAt (l :: ls)))
      (runAliases (runAt (l :: ls))) alloc).2 = some (c.shards i).next) :
    (c.step C i (.settle l.page (runPages (runAt (l :: ls))) (runAliases (runAt (l :: ls)))
        alloc)).ServesUntilEvicted C file (runAt (l :: ls)) i (c.shards i).next ↔
      ∀ m ∈ runAt (l :: ls), shardFor c.count m.page = i ∧
        (c.shards i).map.lookup m.page = none := by
  set run := runAt (l :: ls) with hrun
  set v := Section.settle l.page (runPages run) (runAliases run) alloc with hv
  set e := (c.shards i).next with he
  have hshard : (c.step C i v).shards i
      = ((c.shards i).settle C l.page (runPages run) (runAliases run) alloc).1 := by
    simp [step, hv, Shard.enterSection]
  obtain ⟨hentry, hnext, hret, hkeys⟩ := (hc i).entered hin hshard
  have htraced : ∀ j, ((c.step C i v).shards j).Traced := by
    intro j
    by_cases hj : j = i
    · subst hj
      simpa [step] using (hc j).enterSection (C := C) v
    · simpa [step, hj] using hc j
  constructor
  · intro hserves m hm
    obtain ⟨-, ptr, hlook, -⟩ := (hserves _ (.refl _)).1 hret m hm
    obtain ⟨hi, hlookup, -, -⟩ := look_eq_some.1 hlook
    exact ⟨hi.symm, ((hkeys m.page).1 hlookup).2⟩
  · intro hfree d hd
    have hkeeps := hd.keeps i
    have hlt : e < ((c.step C i v).shards i).next := by omega
    refine ⟨fun hr m hm => ?_, fun hr k hk => ?_⟩
    · obtain ⟨hi, hnone⟩ := hfree m hm
      have hhome : shardFor d.count m.page = i := by rw [hd.count]; exact hi
      have hlookup : (d.shards i).map.lookup m.page = some e :=
        hkeeps.lookup m.page e hlt ((hkeys m.page).2 ⟨mem_keys_of_mem_runAt hm, hnone⟩) hr
      obtain ⟨hcov, hbytes⟩ := entry_holds_member alloc hmany hm (hfile m hm)
        ((hkeeps.entries e hlt).trans hentry)
      refine ⟨by simp [contains, hhome, hlookup], _, ?_, hbytes⟩
      exact look_eq_some.2 ⟨hhome.symm, hlookup, decide_eq_true hcov, rfl⟩
    · have hres := ((hd.traced htraced i).mapped k e hk).1.2
      rw [hr] at hres
      cases hres

/-- After any sections of any threads, a fill of adjacent leaves enters the cache. Until its entry
leaves, every member is found there with its own bytes, and after that no key leads to it, exactly
when all members belong to the shard of the first page and nothing else has their keys there. -/
theorem merged_fill_serves_iff {numShards : ℕ} {sk : σ} (h : Run C (make numShards sk) c)
    {l : LeafExtent} {ls : List LeafExtent} (hmany : 1 < (runAt (l :: ls)).length)
    (hfile : ∀ m ∈ runAt (l :: ls), m.page < 2 ^ 64) (alloc : ℕ)
    (hin : ((c.shards (shardFor c.count l.page)).settle C l.page (runPages (runAt (l :: ls)))
      (runAliases (runAt (l :: ls))) alloc).2 = some (c.shards (shardFor c.count l.page)).next) :
    (c.step C (shardFor c.count l.page) (.settle l.page (runPages (runAt (l :: ls)))
        (runAliases (runAt (l :: ls))) alloc)).ServesUntilEvicted C file (runAt (l :: ls))
          (shardFor c.count l.page) (c.shards (shardFor c.count l.page)).next ↔
      ∀ m ∈ runAt (l :: ls), shardFor c.count m.page = shardFor c.count l.page ∧
        (c.shards (shardFor c.count l.page)).map.lookup m.page = none :=
  servesUntilEvicted_iff (h.traced fun i => traced_make numShards sk i) hmany hfile alloc hin

/-- Two leaves of one page, one after the other. -/
def twoLeaves : List LeafExtent := [⟨8, 1⟩, ⟨9, 1⟩]

theorem merged_fill_serves_one_shard :
    (((make 0 ()).step tenPages 0 (.settle 8 2 [9] 8192)).ServesUntilEvicted tenPages UInt8.ofNat
      twoLeaves 0 0) := by
  have hmany : 1 < (runAt (⟨8, 1⟩ :: [⟨9, 1⟩] : List LeafExtent)).length := by decide
  refine (merged_fill_serves_iff (C := tenPages) (.refl (make 0 ())) hmany (by decide) 8192
    (by decide +kernel)).2 ?_
  decide +kernel

/-! One thread alone. -/

variable (C) in
/-- All sections of a pin with nothing in between. -/
def pin (c : Cache σ) (gated readOk : Bool) (page : PageId) (pages : ℕ) (aliases : List PageId) :
    Cache σ × Option Handle :=
  let i := shardFor c.count page
  let r := (c.shards i).pin C gated readOk page pages aliases
  ({ c with shards := Function.update c.shards i r.1 },
    r.2.map fun e => ⟨i, e, entryPtr (r.1.entries e) page⟩)

variable (C) in
/-- `fill_run`: one pin for the run when none of its members is cached. -/
def fillRun (c : Cache σ) (gated readOk : Bool) (run : List LeafExtent) :
    Cache σ × Option Handle :=
  match run with
  | l :: m :: ls =>
    if (l :: m :: ls).any fun m => c.contains m.page then (c, none)
    else c.pin C gated readOk l.page (runPages (l :: m :: ls)) (runAliases (l :: m :: ls))
  | _ => (c, none)

/-- With the sixteen shards of the engine, the second leaf is looked up where the entry is not. -/
theorem merged_fill_misses_member :
    ∃ c : Cache Unit, Run tenPages (make 16 ()) c ∧ runAt twoLeaves = twoLeaves ∧
      ∃ h, (c.fillRun tenPages true true twoLeaves).2 = some h ∧
        ((c.fillRun tenPages true true twoLeaves).1.shards h.shard).retired h.entry = false ∧
        (c.fillRun tenPages true true twoLeaves).1.contains 8 = true ∧
        (c.fillRun tenPages true true twoLeaves).1.contains 9 = false := by
  refine ⟨make 16 (), .refl _, by decide, ⟨shardFor 16 8, 0, 0⟩, ?_, ?_, ?_, ?_⟩
  all_goals decide +kernel

end Cache

end SextantTree.LeafCache
