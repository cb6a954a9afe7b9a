import SextantTree.BlockCache

/-!
Every entry of a shard is in the list of its status, whatever happens to the limits. That a round of
`maybe_adapt` takes an entry away, and that no insertion leaves more entries than the capacity and one,
is so as long as the limit of the window does not rise at the wrong moment.
-/

namespace SextantTree.BlockCache

open Stepwise

/-! ### Lists -/

/-- Each entry is in the list of its status and in no other. -/
structure Linked (s : CacheShard) : Prop where
  mem : ∀ l e, e ∈ s.lists l ↔ e ∈ s.map ∧ s.status e = l
  nodup : ∀ l, (s.lists l).Nodup

/-- And the sizes that are kept are those of the lists. -/
structure Wf (s : CacheShard) : Prop extends Linked s where
  sizeWindow : s.sizeWindow.toNat = (s.lists .inWindow).length
  sizeProtected : s.sizeProtected.toNat = (s.lists .inProtected).length

def Removes (es fs : List UInt64) : Prop := ∃ e ∈ es, fs = es.erase e

lemma Removes.length {es fs : List UInt64} (h : Removes es fs) : fs.length + 1 = es.length := by
  obtain ⟨e, he, rfl⟩ := h
  have hpos := List.length_pos_of_mem he
  rw [List.length_erase_of_mem he]
  omega

namespace CacheShard

variable {s : CacheShard} {e : UInt64} {l src dst : Status}

lemma lists_relink (s : CacheShard) (e : UInt64) (src dst l : Status) :
    (s.relink e src dst).lists l =
      if l = dst then e :: (if dst = src then (s.lists src).erase e else s.lists dst)
      else if l = src then (s.lists src).erase e else s.lists l := by
  simp only [relink, pushMru, unlink, Function.update_apply]

lemma status_relink (s : CacheShard) (e : UInt64) (src dst : Status) (x : UInt64) :
    (s.relink e src dst).status x = if x = e then dst else s.status x := by
  simp only [relink, pushMru, unlink, Function.update_apply]

lemma lists_relink_of_ne (he : e ∈ s.lists src) (dst : Status) (hne : src ≠ dst) :
    Removes (s.lists src) ((s.relink e src dst).lists src) ∧
      ((s.relink e src dst).lists dst).length = (s.lists dst).length + 1 ∧
      ∀ l, l ≠ src → l ≠ dst → (s.relink e src dst).lists l = s.lists l := by
  refine ⟨⟨e, he, ?_⟩, ?_, fun l hsrc hdst => ?_⟩
  · rw [lists_relink, if_neg hne, if_pos rfl]
  · rw [lists_relink, if_pos rfl, if_neg hne.symm, List.length_cons]
  · rw [lists_relink, if_neg hdst, if_neg hsrc]

lemma length_relink_self (he : e ∈ s.lists l) (l' : Status) :
    ((s.relink e l l).lists l').length = (s.lists l').length := by
  have hpos := List.length_pos_of_mem he
  simp only [lists_relink, if_true]
  split_ifs with h
  · rw [h, List.length_cons, List.length_erase_of_mem he]
    omega
  · rfl

end CacheShard

section Lists

variable {s : CacheShard} {e : UInt64} {l src dst : Status}

lemma Linked.mem_map (h : Linked s) (he : e ∈ s.lists l) : e ∈ s.map := ((h.mem l e).mp he).1

lemma Linked.status_eq (h : Linked s) (he : e ∈ s.lists l) : s.status e = l := ((h.mem l e).mp he).2

lemma Linked.relink (h : Linked s) (he : e ∈ s.lists src) (dst : Status) :
    Linked (s.relink e src dst) := by
  refine ⟨fun l x => ?_, fun l => ?_⟩
  · have hmap : (s.relink e src dst).map = s.map := rfl
    rw [s.lists_relink, s.status_relink, hmap]
    by_cases hx : x = e
    · subst hx
      have hin := h.mem_map he
      rw [if_pos rfl]
      split_ifs with h₁ h₂ h₂
      · simp [hin, h₁]
      · simp [hin, h₁]
      · simp [(h.nodup src).mem_erase_iff, Ne.symm h₁]
      · have hnot : x ∉ s.lists l := fun hmem => h₂ ((h.status_eq hmem).symm.trans (h.status_eq he))
        simp [hnot, Ne.symm h₁]
    · rw [if_neg hx]
      split_ifs with h₁ h₂ h₂
      · rw [List.mem_cons, or_iff_right hx, List.mem_erase_of_ne hx, h.mem, h₁, h₂]
      · rw [List.mem_cons, or_iff_right hx, h.mem, h₁]
      · rw [List.mem_erase_of_ne hx, h.mem, h₂]
      · exact h.mem l x
  · rw [s.lists_relink]
    split_ifs with h₁ h₂ h₂
    · refine List.nodup_cons.mpr ⟨?_, (h.nodup src).erase e⟩
      simp [(h.nodup src).mem_erase_iff]
    · refine List.nodup_cons.mpr ⟨fun hmem => ?_, h.nodup dst⟩
      exact h₂ ((h.status_eq hmem).symm.trans (h.status_eq he))
    · exact (h.nodup src).erase e
    · exact h.nodup l

lemma Linked.push (h : Linked s) (he : e ∉ s.map) (l : Status) :
    Linked { s.pushMru l e with map := insert e s.map } := by
  have hnot : ∀ l, e ∉ s.lists l := fun l hmem => he (h.mem_map hmem)
  refine ⟨fun l' x => ?_, fun l' => ?_⟩
  · simp only [CacheShard.pushMru, Function.update_apply, Finset.mem_insert]
    by_cases hx : x = e
    · subst hx
      simp only [if_true, true_or, true_and]
      split_ifs with h₁
      · simp [h₁]
      · simp [hnot, Ne.symm h₁]
    · rw [if_neg hx]
      split_ifs with h₁
      · rw [List.mem_cons, or_iff_right hx, or_iff_right hx, h.mem, h₁]
      · rw [or_iff_right hx, h.mem]
  · simp only [CacheShard.pushMru, Function.update_apply]
    split_ifs with h₁
    · exact List.nodup_cons.mpr ⟨hnot l, h.nodup l⟩
    · exact h.nodup l'

end Lists

/-! ### Operations -/

section Operations

variable {s s' : CacheShard} {e : UInt64} {l : Status}

lemma toNat_pred {x : UInt32} (h : 0 < x.toNat) : (x - 1).toNat + 1 = x.toNat := by
  have hle : (1 : UInt32) ≤ x := UInt32.le_iff_toNat_le.mpr h
  rw [UInt32.toNat_sub_of_le _ _ hle]
  exact Nat.sub_add_cancel h

lemma toNat_succ {x : UInt32} (h : x.toNat + 1 < 2 ^ 32) : (x + 1).toNat = x.toNat + 1 := by
  rw [UInt32.toNat_add]
  exact Nat.mod_eq_of_lt h

structure SameLimits (s s' : CacheShard) : Prop where
  capacity : s'.capacity = s.capacity
  maxWindow : s'.maxWindow = s.maxWindow
  maxProtected : s'.maxProtected = s.maxProtected

lemma mem_of_lru (h : s.lru l = some e) : e ∈ s.lists l := List.mem_of_getLast? h

lemma freeEntry_frame (s : CacheShard) (e : UInt64) :
    SameLimits s (s.freeEntry e) ∧ (s.freeEntry e).map = s.map.erase e ∧
      (s.freeEntry e).status = s.status ∧ (s.freeEntry e).lists = s.lists := by
  rw [CacheShard.freeEntry]
  cases s.status e <;> exact ⟨⟨rfl, rfl, rfl⟩, rfl, rfl, rfl⟩

lemma Wf.drop (h : Wf s) (he : e ∈ s.lists l) :
    Wf ((s.unlink l e).freeEntry e) ∧ SameLimits s ((s.unlink l e).freeEntry e) ∧
      ((s.unlink l e).freeEntry e).map.card + 1 = s.map.card ∧
      ∀ l', ((s.unlink l e).freeEntry e).lists l' = if l' = l then (s.lists l).erase e else s.lists l' := by
  have hpos := List.length_pos_of_mem he
  have hlen := List.length_erase_of_mem he
  obtain ⟨⟨hcap, hwin, hprot⟩, hmap, hstatus, hlists⟩ := freeEntry_frame (s.unlink l e) e
  have hlists' : ∀ l', ((s.unlink l e).freeEntry e).lists l' =
      if l' = l then (s.lists l).erase e else s.lists l' := fun l' => by
    rw [hlists]
    simp only [CacheShard.unlink, Function.update_apply]
  have hst : (s.unlink l e).status e = l := h.status_eq he
  refine ⟨⟨⟨fun l' x => ?_, fun l' => ?_⟩, ?_, ?_⟩, ⟨hcap, hwin, hprot⟩, ?_, hlists'⟩
  · have hold : (s.unlink l e).map = s.map ∧ (s.unlink l e).status = s.status := ⟨rfl, rfl⟩
    rw [hlists', hmap, hstatus, hold.1, hold.2, Finset.mem_erase]
    split_ifs with h₁
    · rw [(h.nodup l).mem_erase_iff, h.mem, h₁, and_assoc]
    · rw [h.mem]
      constructor
      · rintro ⟨hin, hx⟩
        refine ⟨⟨fun heq => h₁ ?_, hin⟩, hx⟩
        rw [← hx, heq]
        exact h.status_eq he
      · exact fun hx => ⟨hx.1.2, hx.2⟩
  · rw [hlists']
    split_ifs
    · exact (h.nodup l).erase e
    · exact h.nodup l'
  · rw [hlists', CacheShard.freeEntry, hst]
    have hsize := h.sizeWindow
    cases l with
    | inWindow =>
      have hpred := toNat_pred (x := s.sizeWindow) (by omega)
      show (s.sizeWindow - 1).toNat = ((s.lists .inWindow).erase e).length
      omega
    | inProbation => exact hsize
    | inProtected => exact hsize
  · rw [hlists', CacheShard.freeEntry, hst]
    have hsize := h.sizeProtected
    cases l with
    | inWindow => exact hsize
    | inProbation => exact hsize
    | inProtected =>
      have hpred := toNat_pred (x := s.sizeProtected) (by omega)
      show (s.sizeProtected - 1).toNat = ((s.lists .inProtected).erase e).length
      omega
  · rw [hmap]
    exact Finset.card_erase_add_one (h.mem_map he)

lemma Wf.touch (h : Wf s) (he : e ∈ s.lists l) : Wf (s.relink e l l) where
  toLinked := h.relink he l
  sizeWindow := h.sizeWindow.trans (CacheShard.length_relink_self he _).symm
  sizeProtected := h.sizeProtected.trans (CacheShard.length_relink_self he _).symm

lemma Wf.spill (h : Wf s) (he : e ∈ s.lists .inWindow) :
    Wf { s.relink e .inWindow .inProbation with sizeWindow := s.sizeWindow - 1 } := by
  obtain ⟨hsrc, -, hrest⟩ := CacheShard.lists_relink_of_ne he .inProbation (by decide)
  have hlists : (s.relink e .inWindow .inProbation).lists .inProtected = s.lists .inProtected :=
    hrest .inProtected (by decide) (by decide)
  have hlen := hsrc.length
  have hsize := h.sizeWindow
  have hpred := toNat_pred (x := s.sizeWindow) (by omega)
  refine ⟨⟨(h.relink he .inProbation).mem, (h.relink he .inProbation).nodup⟩, ?_, ?_⟩
  · show (s.sizeWindow - 1).toNat = ((s.relink e .inWindow .inProbation).lists .inWindow).length
    omega
  · show s.sizeProtected.toNat = ((s.relink e .inWindow .inProbation).lists .inProtected).length
    rw [hlists]
    exact h.sizeProtected

lemma Wf.demoteLast (h : Wf s) (hs : s.demoteLast = some s') :
    Wf s' ∧ SameLimits s s' ∧ s'.map = s.map ∧ s'.lists .inWindow = s.lists .inWindow ∧
      Removes (s.lists .inProtected) (s'.lists .inProtected) := by
  obtain ⟨e, he, rfl⟩ := Option.map_eq_some_iff.mp hs
  have he := mem_of_lru he
  obtain ⟨hsrc, -, hrest⟩ := CacheShard.lists_relink_of_ne he .inProbation (by decide)
  have hlists : (s.relink e .inProtected .inProbation).lists .inWindow = s.lists .inWindow :=
    hrest .inWindow (by decide) (by decide)
  have hlen := hsrc.length
  have hsize := h.sizeProtected
  have hpred := toNat_pred (x := s.sizeProtected) (by omega)
  refine ⟨⟨⟨(h.relink he .inProbation).mem, (h.relink he .inProbation).nodup⟩, ?_, ?_⟩,
    ⟨rfl, rfl, rfl⟩, rfl, hlists, hsrc⟩
  · show s.sizeWindow.toNat = ((s.relink e .inProtected .inProbation).lists .inWindow).length
    rw [hlists]
    exact h.sizeWindow
  · show (s.sizeProtected - 1).toNat =
      ((s.relink e .inProtected .inProbation).lists .inProtected).length
    omega

lemma Wf.exists_demoteLast (h : Wf s) (hpos : 0 < s.sizeProtected.toNat) : ∃ s', s.demoteLast = some s' := by
  have hne : s.lists .inProtected ≠ [] := by
    intro hnil
    have hsize := h.sizeProtected
    rw [hnil] at hsize
    exact hpos.ne' hsize
  exact ⟨_, by rw [CacheShard.demoteLast, CacheShard.lru, List.getLast?_eq_some_getLast hne]; rfl⟩

lemma Wf.onProbationHit (h : Wf s) (he : e ∈ s.lists .inProbation)
    (hroom : (s.lists .inProtected).length + 1 < 2 ^ 32) :
    Wf (s.onProbationHit e) ∧ SameLimits s (s.onProbationHit e) ∧ (s.onProbationHit e).map = s.map ∧
      (s.onProbationHit e).lists .inWindow = s.lists .inWindow ∧
      ((s.onProbationHit e).lists .inProtected).length ≤
        max (s.lists .inProtected).length s.maxProtected.toNat := by
  obtain ⟨-, hdst, hrest⟩ := CacheShard.lists_relink_of_ne he .inProtected (by decide)
  have hlists : (s.relink e .inProbation .inProtected).lists .inWindow = s.lists .inWindow :=
    hrest .inWindow (by decide) (by decide)
  have hsize := h.sizeProtected
  set t : CacheShard := { s.relink e .inProbation .inProtected with
    sizeProtected := s.sizeProtected + 1 } with ht
  have hsucc : t.sizeProtected.toNat = s.sizeProtected.toNat + 1 := toNat_succ (by omega)
  have hwf : Wf t := by
    refine ⟨⟨(h.relink he .inProtected).mem, (h.relink he .inProtected).nodup⟩, ?_, ?_⟩
    · show s.sizeWindow.toNat = ((s.relink e .inProbation .inProtected).lists .inWindow).length
      rw [hlists]
      exact h.sizeWindow
    · show t.sizeProtected.toNat = ((s.relink e .inProbation .inProtected).lists .inProtected).length
      omega
  have hwindow : t.lists .inWindow = s.lists .inWindow := hlists
  have hlen : (t.lists .inProtected).length = (s.lists .inProtected).length + 1 := hdst
  have hbody : s.onProbationHit e =
      if t.maxProtected < t.sizeProtected then t.demoteLast.getD t else t := rfl
  rw [hbody]
  split_ifs with hover
  · obtain ⟨u, hu⟩ := hwf.exists_demoteLast (by omega)
    obtain ⟨huwf, ⟨hcap, hwin, hprot⟩, humap, huwindow, hgone⟩ := hwf.demoteLast hu
    have hulen := hgone.length
    rw [hu, Option.getD_some]
    exact ⟨huwf, ⟨hcap, hwin, hprot⟩, humap, huwindow.trans hwindow, le_max_of_le_left (by omega)⟩
  · have hle : t.sizeProtected.toNat ≤ s.maxProtected.toNat :=
      UInt32.le_iff_toNat_le.mp (UInt32.not_lt.mp hover)
    exact ⟨hwf, ⟨rfl, rfl, rfl⟩, rfl, hwindow, le_max_of_le_right (by omega)⟩

/-- A round of admission frees an entry: the window is too long, the shard is too full, and there is
another entry on probation to compare the candidate with. -/
def Evicts (s : CacheShard) : Prop :=
  s.maxWindow < s.sizeWindow ∧ s.capacity < UInt32.ofNat s.map.card ∧ s.lists .inProbation ≠ []

lemma admits_rng (s : CacheShard) (freq : UInt64 → UInt32) (candidate victim : UInt64) :
    ∃ r, (s.admits freq candidate victim).2 = { s with rng := r } := by
  rw [CacheShard.admits]
  dsimp only
  split_ifs
  · exact ⟨s.rng, rfl⟩
  · exact ⟨_, rfl⟩
  · exact ⟨s.rng, rfl⟩

/-- **What a round of admission can do**: nothing, or the last entry of the window goes on probation,
and then an entry on probation may be freed. -/
lemma admit_cases (h : Wf s) (freq : UInt64 → UInt32) :
    (¬ s.maxWindow < s.sizeWindow ∧ s.admitOneFromWindow freq = s) ∨
      s.maxWindow < s.sizeWindow ∧ ∃ candidate ∈ s.lists .inWindow, ∃ t : CacheShard,
        t = { s.relink candidate .inWindow .inProbation with sizeWindow := s.sizeWindow - 1 } ∧
        (¬ Evicts s ∧ s.admitOneFromWindow freq = t ∨
          Evicts s ∧ ∃ gone ∈ t.lists .inProbation, ∃ r,
            s.admitOneFromWindow freq =
              (({ t with rng := r } : CacheShard).unlink .inProbation gone).freeEntry gone) := by
  by_cases hover : s.maxWindow < s.sizeWindow
  swap
  · exact .inl ⟨hover, if_pos (UInt32.not_lt.mp hover)⟩
  refine .inr ⟨hover, ?_⟩
  have hne : s.lists .inWindow ≠ [] := by
    intro hnil
    have hsize := h.sizeWindow
    rw [hnil, List.length_nil] at hsize
    have := UInt32.lt_iff_toNat_lt.mp hover
    omega
  set candidate := (s.lists .inWindow).getLast hne with hcand
  have hlru : s.lru .inWindow = some candidate := List.getLast?_eq_some_getLast hne
  have hmem : candidate ∈ s.lists .inWindow := List.getLast_mem hne
  set t : CacheShard := { s.relink candidate .inWindow .inProbation with
    sizeWindow := s.sizeWindow - 1 } with ht
  refine ⟨candidate, hmem, t, rfl, ?_⟩
  have hprob : t.lists .inProbation = candidate :: s.lists .inProbation := by
    show (s.relink candidate .inWindow .inProbation).lists .inProbation = _
    rw [s.lists_relink, if_pos rfl, if_neg (by decide)]
  have hfull : t.capacity < UInt32.ofNat t.map.card ↔ s.capacity < UInt32.ofNat s.map.card := Iff.rfl
  by_cases hcap : s.capacity < UInt32.ofNat s.map.card
  swap
  · refine .inl ⟨fun hev => hcap hev.2.1, ?_⟩
    rewrite [CacheShard.admitOneFromWindow, if_neg (UInt32.not_le.mpr hover), hlru]
    exact if_neg (hfull.not.mpr hcap)
  have hnot : candidate ∉ s.lists .inProbation := fun hin => by
    have := (h.status_eq hin).symm.trans (h.status_eq hmem)
    cases this
  by_cases hempty : s.lists .inProbation = []
  · have hlast : t.lru .inProbation = some candidate := by
      rw [CacheShard.lru, hprob, hempty]
      rfl
    refine .inl ⟨fun hev => hev.2.2 hempty, ?_⟩
    rewrite [CacheShard.admitOneFromWindow, if_neg (UInt32.not_le.mpr hover), hlru]
    refine (if_pos (hfull.mpr hcap)).trans ?_
    rewrite [hlast]
    exact if_pos rfl
  · set victim := (s.lists .inProbation).getLast hempty with hvictim
    have hlast : t.lru .inProbation = some victim := by
      rw [CacheShard.lru, hprob, List.getLast?_cons_of_ne_nil hempty, List.getLast?_eq_some_getLast hempty]
    have hin : victim ∈ s.lists .inProbation := List.getLast_mem hempty
    have hdistinct : victim ≠ candidate := fun heq => hnot (heq ▸ hin)
    obtain ⟨r, hr⟩ := admits_rng t freq candidate victim
    have hround : s.admitOneFromWindow freq =
        if (t.admits freq candidate victim).1 then
          (({ t with rng := r } : CacheShard).unlink .inProbation victim).freeEntry victim
        else (({ t with rng := r } : CacheShard).unlink .inProbation candidate).freeEntry candidate := by
      rewrite [CacheShard.admitOneFromWindow, if_neg (UInt32.not_le.mpr hover), hlru]
      refine (if_pos (hfull.mpr hcap)).trans ?_
      rewrite [hlast, ← hr]
      exact if_neg hdistinct
    refine .inr ⟨⟨hover, hcap, hempty⟩, ?_⟩
    rw [hround]
    split_ifs
    · exact ⟨victim, hprob ▸ List.mem_cons_of_mem _ hin, r, rfl⟩
    · exact ⟨candidate, hprob ▸ List.mem_cons_self, r, rfl⟩

lemma Wf.admitOneFromWindow (h : Wf s) (freq : UInt64 → UInt32) :
    Wf (s.admitOneFromWindow freq) ∧ SameLimits s (s.admitOneFromWindow freq) ∧
      (s.admitOneFromWindow freq).lists .inProtected = s.lists .inProtected ∧
      (¬ s.maxWindow < s.sizeWindow ∧ s.admitOneFromWindow freq = s ∨
        s.maxWindow < s.sizeWindow ∧
          Removes (s.lists .inWindow) ((s.admitOneFromWindow freq).lists .inWindow)) ∧
      (¬ Evicts s ∧ (s.admitOneFromWindow freq).map.card = s.map.card ∨
        Evicts s ∧ (s.admitOneFromWindow freq).map.card + 1 = s.map.card) := by
  rcases admit_cases h freq with ⟨hover, heq⟩ | ⟨hover, candidate, hmem, t, ht, hrest⟩
  · rw [heq]
    exact ⟨h, ⟨rfl, rfl, rfl⟩, rfl, .inl ⟨hover, rfl⟩, .inl ⟨fun hev => hover hev.1, rfl⟩⟩
  have hwf : Wf t := ht ▸ h.spill hmem
  obtain ⟨hsrc, -, hother⟩ := CacheShard.lists_relink_of_ne hmem .inProbation (by decide)
  have hwindow : Removes (s.lists .inWindow) (t.lists .inWindow) := by rw [ht]; exact hsrc
  have hprot : t.lists .inProtected = s.lists .inProtected := by
    rw [ht]
    exact hother .inProtected (by decide) (by decide)
  have hlimits : SameLimits s t := by
    rw [ht]
    exact ⟨rfl, rfl, rfl⟩
  have hcard : t.map.card = s.map.card := by rw [ht]; rfl
  rcases hrest with ⟨hev, heq⟩ | ⟨hev, gone, hgone, r, heq⟩
  · rw [heq]
    exact ⟨hwf, hlimits, hprot, .inr ⟨hover, hwindow⟩, .inl ⟨hev, hcard⟩⟩
  · have hwf' : Wf ({ t with rng := r } : CacheShard) :=
      ⟨⟨hwf.mem, hwf.nodup⟩, hwf.sizeWindow, hwf.sizeProtected⟩
    obtain ⟨hdrop, ⟨hc, hw, hp⟩, hdropCard, hlists⟩ := hwf'.drop hgone
    have hinWindow := hlists .inWindow
    have hinProtected := hlists .inProtected
    rw [if_neg (by decide)] at hinWindow hinProtected
    rw [heq]
    refine ⟨hdrop, ⟨hc.trans hlimits.1, hw.trans hlimits.2, hp.trans hlimits.3⟩,
      hinProtected.trans hprot, .inr ⟨hover, ?_⟩, .inr ⟨hev, hdropCard.trans hcard⟩⟩
    rw [hinWindow]
    exact hwindow

end Operations

/-! ### States -/

/-- What holds of every state, whenever the limits are stored. The sizes do not overflow: a limit of
the window leaves room for two more, and the other limit is a share of a number of 32 bits. -/
structure Inv (σ : State) : Prop where
  wf : Wf σ.shard
  maxWindow : σ.shard.maxWindow.toNat ≤ 2 ^ 32 - 3
  maxProtected : σ.shard.maxProtected.toNat ≤ 42949672
  storeWindow : ∀ w p, σ.climb = .storeWindow w p → w.toNat ≤ 2 ^ 32 - 3 ∧ p.toNat ≤ 42949672
  storeProtected : ∀ p, σ.climb = .storeProtected p → p.toNat ≤ 42949672
  window : (σ.shard.lists .inWindow).length + 2 ≤ 2 ^ 32 + if σ.pc = .insertAdmit then 1 else 0
  guarded : (σ.shard.lists .inProtected).length ≤ 42949672

section States

variable {σ σ' : State} {freq : UInt64 → UInt32} {ev : Event}

lemma protectedOf_le (a b : UInt32) : (CacheShard.protectedOf a b).toNat ≤ 42949672 := by
  have hlt := ((a - b) * 80).toNat_lt
  rw [CacheShard.protectedOf, UInt32.toNat_div, show (100 : UInt32).toNat = 100 from rfl]
  omega

lemma windowOf_le (a : UInt32) : (CacheShard.windowOf a).toNat ≤ 2 ^ 32 - 3 := by
  have hlt := (a * 1).toNat_lt
  have hdiv : (a * 1 / 100).toNat ≤ 42949672 := by
    rw [UInt32.toNat_div, show (100 : UInt32).toNat = 100 from rfl]
    omega
  have hmax : CacheShard.windowOf a = if 1 ≤ a * 1 / 100 then a * 1 / 100 else 1 := rfl
  rw [hmax]
  split_ifs
  · omega
  · decide

lemma climbLimits_le (hc w : UInt32) (amount : ℤ) :
    (climbLimits hc w amount).1.toNat ≤ 2 ^ 32 - 3 ∧ (climbLimits hc w amount).2.toNat ≤ 42949672 := by
  refine ⟨?_, protectedOf_le _ _⟩
  have hlt := hc.toNat_lt
  rw [climbLimits, UInt32.toNat_ofNat']
  refine (Nat.mod_le _ _).trans ?_
  omega

lemma Inv.next (h : Inv σ) {s : CacheShard} (hwf : Wf s) (hmw : s.maxWindow.toNat ≤ 2 ^ 32 - 3)
    (hmp : s.maxProtected.toNat ≤ 42949672) (hw : (s.lists .inWindow).length + 2 ≤ 2 ^ 32)
    (hg : (s.lists .inProtected).length ≤ 42949672) (pc : Pc) :
    Inv { σ with shard := s, pc := pc } :=
  ⟨hwf, hmw, hmp, h.storeWindow, h.storeProtected, hw.trans (Nat.le_add_right _ _), hg⟩

lemma Inv.room (h : Inv σ) (hpc : σ.pc ≠ .insertAdmit) :
    (σ.shard.lists .inWindow).length + 2 ≤ 2 ^ 32 := by
  have hw := h.window
  rwa [if_neg hpc] at hw

lemma Inv.goto (h : Inv σ) (hpc : σ.pc ≠ .insertAdmit) (pc : Pc) : Inv { σ with pc := pc } :=
  h.next h.wf h.maxWindow h.maxProtected (h.room hpc) h.guarded pc

lemma Inv.admitOne (h : Inv σ) (freq : UInt64 → UInt32) (pc : Pc) :
    Inv { σ with shard := σ.shard.admitOneFromWindow freq, pc := pc } := by
  obtain ⟨hwf, ⟨-, hmw, hmp⟩, hprot, hwindow, -⟩ := h.wf.admitOneFromWindow freq
  refine h.next hwf (hmw ▸ h.maxWindow) (hmp ▸ h.maxProtected) ?_ (hprot ▸ h.guarded) pc
  have hw := h.window
  have hsize := h.wf.sizeWindow
  have hmax := h.maxWindow
  rcases hwindow with ⟨hover, heq⟩ | ⟨-, hgone⟩
  · have hle := UInt32.le_iff_toNat_le.mp (UInt32.not_lt.mp hover)
    rw [heq]
    omega
  · have hlen := hgone.length
    split_ifs at hw <;> omega

lemma resizeVictim_mem {s : CacheShard} (h : Linked s) {e : UInt64} (he : s.resizeVictim = some e) :
    e ∈ s.lists (s.status e) := by
  have hmem : ∃ l, e ∈ s.lists l := by
    rw [CacheShard.resizeVictim, Option.or_eq_some_iff, Option.or_eq_some_iff] at he
    rcases he with he | ⟨-, he | ⟨-, he⟩⟩
    · exact ⟨_, mem_of_lru he⟩
    · exact ⟨_, mem_of_lru he⟩
    · exact ⟨_, mem_of_lru he⟩
  obtain ⟨l, hl⟩ := hmem
  rw [h.status_eq hl]
  exact hl

lemma Inv.drop (h : Inv σ) (hpc : σ.pc ≠ .insertAdmit) {l : Status} {e : UInt64}
    (he : e ∈ σ.shard.lists l) (pc : Pc) :
    Inv { σ with shard := (σ.shard.unlink l e).freeEntry e, pc := pc } := by
  obtain ⟨hwf, ⟨-, hmw, hmp⟩, -, hlists⟩ := h.wf.drop he
  have hle : ∀ l', (((σ.shard.unlink l e).freeEntry e).lists l').length ≤ (σ.shard.lists l').length :=
    fun l' => by
      rw [hlists]
      split_ifs with heq
      · rw [heq]
        exact List.length_erase_le
      · exact le_rfl
  exact h.next hwf (hmw ▸ h.maxWindow) (hmp ▸ h.maxProtected)
    ((Nat.add_le_add_right (hle _) 2).trans (h.room hpc)) ((hle _).trans h.guarded) pc

lemma Inv.insertBody (h : Inv σ) (hpc : σ.pc ≠ .insertAdmit) (block : UInt64) :
    Inv (σ.insertBody block) := by
  have hroom := h.room hpc
  rw [State.insertBody]
  dsimp only
  split_ifs with hin hzero
  · have hmem : block ∈ σ.shard.lists (σ.shard.status block) := (h.wf.mem _ _).mpr ⟨hin, rfl⟩
    cases hst : σ.shard.status block with
    | inWindow =>
      rw [hst] at hmem
      have hlen := CacheShard.length_relink_self hmem
      exact h.next (h.wf.touch hmem) h.maxWindow h.maxProtected ((hlen _).symm ▸ hroom)
        ((hlen _).symm ▸ h.guarded) .idle
    | inProbation =>
      rw [hst] at hmem
      have hg := h.guarded
      obtain ⟨hwf, ⟨-, hmw, hmp⟩, -, hwindow, hlen⟩ := h.wf.onProbationHit hmem (by omega)
      exact h.next hwf (hmw ▸ h.maxWindow) (hmp ▸ h.maxProtected) (hwindow ▸ hroom)
        (hlen.trans (max_le h.guarded h.maxProtected)) .idle
    | inProtected =>
      rw [hst] at hmem
      have hlen := CacheShard.length_relink_self hmem
      exact h.next (h.wf.touch hmem) h.maxWindow h.maxProtected ((hlen _).symm ▸ hroom)
        ((hlen _).symm ▸ h.guarded) .idle
  · exact h.goto hpc .idle
  · have hpush := h.wf.toLinked.push hin .inWindow
    have hsize := h.wf.sizeWindow
    have hwindow : ((σ.shard.pushMru .inWindow block).lists .inWindow).length =
        (σ.shard.lists .inWindow).length + 1 := by
      simp only [CacheShard.pushMru, Function.update_self, List.length_cons]
    have hprot : (σ.shard.pushMru .inWindow block).lists .inProtected = σ.shard.lists .inProtected := by
      simp only [CacheShard.pushMru, Function.update_apply, reduceCtorEq, if_false]
    refine ⟨⟨⟨hpush.mem, hpush.nodup⟩, ?_, ?_⟩, h.maxWindow, h.maxProtected, h.storeWindow,
      h.storeProtected, ?_, ?_⟩
    · show (σ.shard.sizeWindow + 1).toNat = ((σ.shard.pushMru .inWindow block).lists .inWindow).length
      rw [toNat_succ (by omega)]
      omega
    · show σ.shard.sizeProtected.toNat =
        ((σ.shard.pushMru .inWindow block).lists .inProtected).length
      rw [hprot]
      exact h.wf.sizeProtected
    · show ((σ.shard.pushMru .inWindow block).lists .inWindow).length + 2 ≤ _
      rw [if_pos rfl]
      omega
    · show ((σ.shard.pushMru .inWindow block).lists .inProtected).length ≤ 42949672
      rw [hprot]
      exact h.guarded

lemma inv_run (h : Inv σ) (hstep : σ.run freq = some σ') : Inv σ' := by
  rw [State.run] at hstep
  cases hpc : σ.pc with
  | idle =>
    rw [hpc] at hstep
    cases hstep
  | resizeLimits =>
    rw [hpc] at hstep
    cases hstep
    have hne : σ.pc ≠ .insertAdmit := by rw [hpc]; exact Pc.noConfusion
    have hwf : Wf { σ.shard with
        maxProtected := CacheShard.protectedOf σ.shard.capacity σ.shard.maxWindow } :=
      ⟨⟨h.wf.mem, h.wf.nodup⟩, h.wf.sizeWindow, h.wf.sizeProtected⟩
    exact h.next hwf h.maxWindow (protectedOf_le _ _) (h.room hne) h.guarded .evict
  | evict =>
    have hne : σ.pc ≠ .insertAdmit := by rw [hpc]; exact Pc.noConfusion
    rw [hpc] at hstep
    dsimp only at hstep
    split_ifs at hstep
    · cases hv : σ.shard.resizeVictim with
      | none =>
        rw [hv] at hstep
        cases hstep
        exact h.goto hne _
      | some victim =>
        rw [hv] at hstep
        cases hstep
        exact h.drop hne (resizeVictim_mem h.wf.toLinked hv) .evict
    · cases hstep
      exact h.goto hne _
  | adaptProtected k | adaptWindow k p =>
    have hne : σ.pc ≠ .insertAdmit := by rw [hpc]; exact Pc.noConfusion
    rw [hpc] at hstep
    cases hstep
    exact h.goto hne _
  | demote k p w =>
    have hne : σ.pc ≠ .insertAdmit := by rw [hpc]; exact Pc.noConfusion
    rw [hpc] at hstep
    dsimp only at hstep
    split_ifs at hstep
    · cases hd : σ.shard.demoteLast with
      | none =>
        rw [hd] at hstep
        cases hstep
        exact h.goto hne _
      | some s =>
        rw [hd] at hstep
        cases hstep
        obtain ⟨hwf, ⟨-, hmw, hmp⟩, -, hwindow, hgone⟩ := h.wf.demoteLast hd
        have hlen := hgone.length
        have hg := h.guarded
        exact h.next hwf (hmw ▸ h.maxWindow) (hmp ▸ h.maxProtected) (hwindow ▸ h.room hne)
          (by omega) (.demote k p w)
    · cases hstep
      exact h.goto hne _
  | spill k w =>
    have hne : σ.pc ≠ .insertAdmit := by rw [hpc]; exact Pc.noConfusion
    rw [hpc] at hstep
    dsimp only at hstep
    split_ifs at hstep
    · cases hstep
      exact h.admitOne freq (.spill k w)
    · cases k with
      | insert block =>
        cases hstep
        exact h.goto hne _
      | resized =>
        cases hstep
        exact h.goto hne _
  | insertBody block =>
    have hne : σ.pc ≠ .insertAdmit := by rw [hpc]; exact Pc.noConfusion
    rw [hpc] at hstep
    cases hstep
    exact h.insertBody hne block
  | insertAdmit =>
    rw [hpc] at hstep
    cases hstep
    exact h.admitOne freq .idle

/-- **Every step keeps the invariant**, and so do those of `climb`. -/
lemma inv_step (h : Inv σ) (hstep : σ.step ev = some σ') : Inv σ' := by
  cases ev with
  | lookup block =>
    simp only [State.step] at hstep
    split_ifs at hstep
    cases hstep
    exact h
  | insert block =>
    simp only [State.step] at hstep
    split_ifs at hstep with hpc
    cases hstep
    exact h.goto (by rw [hpc]; decide) _
  | resize newCapacity =>
    simp only [State.step] at hstep
    split_ifs at hstep with hpc
    cases hstep
    have hwf : Wf { σ.shard with
        capacity := newCapacity, maxWindow := CacheShard.windowOf newCapacity } :=
      ⟨⟨h.wf.mem, h.wf.nodup⟩, h.wf.sizeWindow, h.wf.sizeProtected⟩
    exact h.next hwf (windowOf_le _) h.maxProtected (h.room (by rw [hpc]; decide)) h.guarded _
  | run freq => exact inv_run h hstep
  | climb amount =>
    rw [State.step] at hstep
    cases hc : σ.climb with
    | idle =>
      rw [hc] at hstep
      dsimp only at hstep
      split_ifs at hstep
      cases hstep
      refine ⟨h.wf, h.maxWindow, h.maxProtected, fun w p heq => ?_, fun p heq => ?_, h.window, h.guarded⟩
      · cases heq
        exact climbLimits_le _ _ _
      · cases heq
    | storeWindow w p =>
      rw [hc] at hstep
      cases hstep
      obtain ⟨hw, hp⟩ := h.storeWindow w p hc
      refine ⟨⟨⟨h.wf.mem, h.wf.nodup⟩, h.wf.sizeWindow, h.wf.sizeProtected⟩, hw, h.maxProtected,
        fun w' p' heq => ?_, fun p' heq => ?_, h.window, h.guarded⟩
      · cases heq
      · cases heq
        exact hp
    | storeProtected p =>
      rw [hc] at hstep
      cases hstep
      refine ⟨⟨⟨h.wf.mem, h.wf.nodup⟩, h.wf.sizeWindow, h.wf.sizeProtected⟩, h.maxWindow,
        h.storeProtected p hc, fun w' p' heq => ?_, fun p' heq => ?_, h.window, h.guarded⟩
      · cases heq
      · cases heq
  | resetClimber =>
    cases hstep
    exact ⟨h.wf, h.maxWindow, h.maxProtected, h.storeWindow, h.storeProtected, h.window, h.guarded⟩

lemma inv_start (capacity : UInt32) : Inv (start capacity) where
  wf := ⟨⟨fun l e => by simp [start, CacheShard.new], fun l => List.nodup_nil⟩, rfl, rfl⟩
  maxWindow := windowOf_le _
  maxProtected := protectedOf_le _ _
  storeWindow := fun w p h => by cases h
  storeProtected := fun p h => by cases h
  window := by simp [start, CacheShard.new]
  guarded := Nat.zero_le _

end States

/-! ### Runs -/

/-- A round of a loop of `maybe_adapt` is about to start, and the list is the one that it tests. -/
inductive Iterates (σ : State) : Status → Prop
  | demote {k : After} {p w : UInt32} (hpc : σ.pc = .demote k p w) (h : p < σ.shard.sizeProtected) :
    Iterates σ .inProtected
  | spill {k : After} {w : UInt32} (hpc : σ.pc = .spill k w) (h : w < σ.shard.sizeWindow) :
    Iterates σ .inWindow

/-- The limit of the window is not above its size when the second loop of `maybe_adapt` goes round,
and an insertion that has filled the shard to the capacity and two has an entry to evict. -/
def Ready (s : CacheShard) : Pc → Prop
  | .spill _ curMaxWindow => curMaxWindow < s.sizeWindow → s.maxWindow < s.sizeWindow
  | .insertAdmit => s.capacity.toNat + 1 < s.map.card → Evicts s
  | _ => True

/-- The operation that has the lock goes on from a state in which it is ready. -/
def Meets (σ : State) : Event → Prop
  | .run _ => Ready σ.shard σ.pc
  | _ => True

instance (s : CacheShard) : ∀ pc, Decidable (Ready s pc)
  | .spill _ w => inferInstanceAs (Decidable (w < s.sizeWindow → s.maxWindow < s.sizeWindow))
  | .insertAdmit => inferInstanceAs (Decidable (s.capacity.toNat + 1 < s.map.card →
      s.maxWindow < s.sizeWindow ∧ s.capacity < UInt32.ofNat s.map.card ∧ s.lists .inProbation ≠ []))
  | .idle | .resizeLimits | .evict | .adaptProtected _ | .adaptWindow _ _ | .demote _ _ _
  | .insertBody _ => .isTrue trivial

instance (σ : State) : ∀ ev, Decidable (Meets σ ev)
  | .run _ => inferInstanceAs (Decidable (Ready σ.shard σ.pc))
  | .lookup _ | .insert _ | .resize _ | .climb _ | .resetClimber => .isTrue trivial

/-- How many entries there may be, but for `resize` before it has evicted. -/
def Bounded (σ : State) : Prop :=
  σ.pc ≠ .resizeLimits → σ.pc ≠ .evict →
    σ.shard.map.card ≤ σ.shard.capacity.toNat + if σ.pc = .insertAdmit then 2 else 1

/-- How many steps an operation can take before it gives the lock back. -/
def work (σ : State) : ℕ :=
  let window := (σ.shard.lists .inWindow).length
  let guarded := (σ.shard.lists .inProtected).length
  match σ.pc with
  | .idle => 0
  | .insertAdmit => 1
  | .insertBody _ => 2
  | .spill _ _ => window + 3
  | .demote _ _ _ => guarded + window + 4
  | .adaptWindow _ _ => guarded + window + 5
  | .adaptProtected _ => guarded + window + 6
  | .evict => σ.shard.map.card + guarded + window + 7
  | .resizeLimits => σ.shard.map.card + guarded + window + 8

section Runs

variable {σ σ' : State} {freq : UInt64 → UInt32} {ev : Event} {l : Status}

lemma Bounded.card_le (h : Bounded σ) (h₁ : σ.pc ≠ .resizeLimits) (h₂ : σ.pc ≠ .evict)
    (h₃ : σ.pc ≠ .insertAdmit) : σ.shard.map.card ≤ σ.shard.capacity.toNat + 1 := by
  have hle := h h₁ h₂
  rwa [if_neg h₃] at hle

lemma bounded_of_card_le (h : σ.shard.map.card ≤ σ.shard.capacity.toNat + 1) : Bounded σ :=
  fun _ _ => h.trans (by split_ifs <;> omega)

lemma Wf.exists_resizeVictim {s : CacheShard} (h : Wf s) (hpos : 0 < s.map.card) :
    ∃ e, s.resizeVictim = some e := by
  obtain ⟨e, he⟩ := Finset.card_pos.mp hpos
  have hmem : e ∈ s.lists (s.status e) := (h.mem _ _).mpr ⟨he, rfl⟩
  have hne : s.resizeVictim ≠ none := by
    intro hnone
    simp only [CacheShard.resizeVictim, CacheShard.lru, Option.or_eq_none_iff,
      List.getLast?_eq_none_iff] at hnone
    obtain ⟨h₁, h₂, h₃⟩ := hnone
    cases hst : s.status e <;> rw [hst] at hmem
    · exact List.not_mem_nil (h₁ ▸ hmem)
    · exact List.not_mem_nil (h₂ ▸ hmem)
    · exact List.not_mem_nil (h₃ ▸ hmem)
  exact Option.ne_none_iff_exists'.mp hne

lemma bounded_insertBody (h : Inv σ) (hcard : σ.shard.map.card ≤ σ.shard.capacity.toNat + 1)
    (block : UInt64) : Bounded (σ.insertBody block) ∧ work (σ.insertBody block) ≤ 1 := by
  rw [State.insertBody]
  dsimp only
  split_ifs with hin hzero
  · have hmem : block ∈ σ.shard.lists (σ.shard.status block) := (h.wf.mem _ _).mpr ⟨hin, rfl⟩
    cases hst : σ.shard.status block with
    | inWindow | inProtected => exact ⟨bounded_of_card_le hcard, Nat.zero_le _⟩
    | inProbation =>
      rw [hst] at hmem
      have hg := h.guarded
      obtain ⟨-, ⟨hcap, -, -⟩, hmap, -⟩ := h.wf.onProbationHit hmem (by omega)
      refine ⟨bounded_of_card_le ?_, Nat.zero_le _⟩
      show (σ.shard.onProbationHit block).map.card ≤ (σ.shard.onProbationHit block).capacity.toNat + 1
      rw [hmap, hcap]
      exact hcard
  · exact ⟨bounded_of_card_le hcard, Nat.zero_le _⟩
  · refine ⟨fun _ _ => ?_, le_rfl⟩
    show (insert block σ.shard.map).card ≤ σ.shard.capacity.toNat + 2
    rw [Finset.card_insert_of_notMem hin]
    omega

/-- **The operation that has the lock uses up its work** and keeps the bound. -/
lemma run_spec (h : Inv σ) (hb : Bounded σ) (hm : Meets σ (.run freq))
    (hstep : σ.run freq = some σ') : Bounded σ' ∧ work σ' + 1 ≤ work σ := by
  rw [State.run] at hstep
  cases hpc : σ.pc with
  | idle =>
    rw [hpc] at hstep
    cases hstep
  | resizeLimits =>
    rw [hpc] at hstep
    cases hstep
    refine ⟨fun _ hne => absurd rfl hne, ?_⟩
    rw [work, work, hpc]
  | evict =>
    rw [hpc] at hstep
    dsimp only at hstep
    split_ifs at hstep with hfull
    · obtain ⟨victim, hv⟩ := h.wf.exists_resizeVictim (Nat.zero_lt_of_lt hfull)
      rw [hv] at hstep
      cases hstep
      obtain ⟨-, -, hcard, hlists⟩ := h.wf.drop (resizeVictim_mem h.wf.toLinked hv)
      refine ⟨fun _ hne => absurd rfl hne, ?_⟩
      have hle : ∀ l, (((σ.shard.unlink (σ.shard.status victim) victim).freeEntry victim).lists
          l).length ≤ (σ.shard.lists l).length := fun l => by
        rw [hlists]
        split_ifs with heq
        · rw [heq]
          exact List.length_erase_le
        · exact le_rfl
      have hw := hle .inWindow
      have hg := hle .inProtected
      rw [work, work, hpc]
      dsimp only
      omega
    · cases hstep
      refine ⟨bounded_of_card_le (Nat.le_succ_of_le (Nat.not_lt.mp hfull)), ?_⟩
      rw [work, work, hpc]
      dsimp only
      omega
  | adaptProtected k | adaptWindow k p =>
    have hcard := hb.card_le (by rw [hpc]; exact Pc.noConfusion) (by rw [hpc]; exact Pc.noConfusion)
      (by rw [hpc]; exact Pc.noConfusion)
    rw [hpc] at hstep
    cases hstep
    refine ⟨bounded_of_card_le hcard, ?_⟩
    rw [work, work, hpc]
  | demote k p w =>
    have hcard := hb.card_le (by rw [hpc]; exact Pc.noConfusion) (by rw [hpc]; exact Pc.noConfusion)
      (by rw [hpc]; exact Pc.noConfusion)
    have hdone : work { σ with pc := .spill k w } + 1 ≤ work σ := by
      rw [work, work, hpc]
      dsimp only
      omega
    rw [hpc] at hstep
    dsimp only at hstep
    split_ifs at hstep
    · cases hd : σ.shard.demoteLast with
      | none =>
        rw [hd] at hstep
        cases hstep
        exact ⟨bounded_of_card_le hcard, hdone⟩
      | some s =>
        rw [hd] at hstep
        cases hstep
        obtain ⟨-, ⟨hcap, -, -⟩, hmap, hwindow, hgone⟩ := h.wf.demoteLast hd
        have hlen := hgone.length
        refine ⟨bounded_of_card_le ?_, ?_⟩
        · show s.map.card ≤ s.capacity.toNat + 1
          rw [hmap, hcap]
          exact hcard
        · rw [work, work, hpc]
          dsimp only
          rw [hwindow]
          omega
    · cases hstep
      exact ⟨bounded_of_card_le hcard, hdone⟩
  | spill k w =>
    have hcard := hb.card_le (by rw [hpc]; exact Pc.noConfusion) (by rw [hpc]; exact Pc.noConfusion)
      (by rw [hpc]; exact Pc.noConfusion)
    rw [hpc] at hstep
    dsimp only at hstep
    split_ifs at hstep with hover
    · cases hstep
      simp only [Meets, Ready, hpc] at hm
      obtain ⟨-, ⟨hcap, -, -⟩, -, hwindow, hev⟩ := h.wf.admitOneFromWindow freq
      obtain ⟨-, hgone⟩ := hwindow.resolve_left fun hno => hno.1 (hm hover)
      have hlen := hgone.length
      refine ⟨bounded_of_card_le ?_, ?_⟩
      · show (σ.shard.admitOneFromWindow freq).map.card ≤
          (σ.shard.admitOneFromWindow freq).capacity.toNat + 1
        rw [hcap]
        omega
      · rw [work, work, hpc]
        dsimp only
        omega
    · cases k with
      | insert block =>
        cases hstep
        refine ⟨bounded_of_card_le hcard, ?_⟩
        rw [work, work, hpc]
        dsimp only
        omega
      | resized =>
        cases hstep
        refine ⟨bounded_of_card_le hcard, ?_⟩
        rw [work, work, hpc]
        dsimp only
        omega
  | insertBody block =>
    have hcard := hb.card_le (by rw [hpc]; exact Pc.noConfusion) (by rw [hpc]; exact Pc.noConfusion)
      (by rw [hpc]; exact Pc.noConfusion)
    rw [hpc] at hstep
    cases hstep
    obtain ⟨hbound, hwork⟩ := bounded_insertBody h hcard block
    refine ⟨hbound, ?_⟩
    have htwo : work σ = 2 := by rw [work, hpc]
    omega
  | insertAdmit =>
    have hcard := hb (by rw [hpc]; exact Pc.noConfusion) (by rw [hpc]; exact Pc.noConfusion)
    rw [if_pos hpc] at hcard
    rw [hpc] at hstep
    cases hstep
    simp only [Meets, Ready, hpc] at hm
    obtain ⟨-, ⟨hcap, -, -⟩, -, -, hev⟩ := h.wf.admitOneFromWindow freq
    refine ⟨bounded_of_card_le ?_, ?_⟩
    · show (σ.shard.admitOneFromWindow freq).map.card ≤
        (σ.shard.admitOneFromWindow freq).capacity.toNat + 1
      rw [hcap]
      rcases hev with ⟨hno, heq⟩ | ⟨-, heq⟩
      · have hle := Nat.not_lt.mp (mt hm hno)
        omega
      · omega
    · rw [work, work, hpc]

/-- **What every step keeps**, `climb` or not: the entries in their lists and how many there are. -/
lemma bounded_step (h : Inv σ) (hb : Bounded σ) (hm : Meets σ ev) (hstep : σ.step ev = some σ') :
    Bounded σ' := by
  cases ev with
  | lookup block =>
    simp only [State.step] at hstep
    split_ifs at hstep
    cases hstep
    exact hb
  | insert block =>
    simp only [State.step] at hstep
    split_ifs at hstep with hpc
    cases hstep
    exact bounded_of_card_le (hb.card_le (by rw [hpc]; decide) (by rw [hpc]; decide) (by rw [hpc]; decide))
  | resize newCapacity =>
    simp only [State.step] at hstep
    split_ifs at hstep
    cases hstep
    exact fun hne => absurd rfl hne
  | run freq => exact (run_spec h hb hm hstep).1
  | climb amount =>
    rw [State.step] at hstep
    cases hc : σ.climb with
    | idle =>
      rw [hc] at hstep
      dsimp only at hstep
      split_ifs at hstep
      cases hstep
      exact hb
    | storeWindow w p | storeProtected p =>
      rw [hc] at hstep
      cases hstep
      exact hb
  | resetClimber =>
    cases hstep
    exact hb

/-- Whether the operation that has the lock takes the step. -/
def isRun : Event → Bool
  | .run _ => true
  | _ => false

lemma work_step (h : Inv σ) (hb : Bounded σ) (hm : Meets σ ev) (hpc : σ.pc ≠ .idle)
    (hstep : σ.step ev = some σ') : work σ' + (if isRun ev then 1 else 0) ≤ work σ := by
  cases ev with
  | lookup block | insert block | resize newCapacity =>
    simp only [State.step] at hstep
    rw [if_neg hpc] at hstep
    cases hstep
  | run freq => exact (run_spec h hb hm hstep).2
  | climb amount =>
    rw [State.step] at hstep
    cases hc : σ.climb with
    | idle =>
      rw [hc] at hstep
      dsimp only at hstep
      split_ifs at hstep
      cases hstep
      exact le_rfl
    | storeWindow w p | storeProtected p =>
      rw [hc] at hstep
      cases hstep
      exact le_rfl
  | resetClimber =>
    cases hstep
    exact le_rfl

/-- **A round of a loop** that meets the condition takes an entry out of the list that the loop tests. -/
lemma removes_of_iterates (h : Inv σ) (hit : Iterates σ l) (hm : Meets σ (.run freq))
    (hstep : σ.run freq = some σ') :
    σ'.pc = σ.pc ∧ Removes (σ.shard.lists l) (σ'.shard.lists l) := by
  rw [State.run] at hstep
  cases hit with
  | demote hpc hover =>
    obtain ⟨s, hd⟩ := h.wf.exists_demoteLast (Nat.zero_lt_of_lt (UInt32.lt_iff_toNat_lt.mp hover))
    rw [hpc] at hstep
    dsimp only at hstep
    rw [if_pos hover, hd] at hstep
    cases hstep
    exact ⟨hpc.symm, (h.wf.demoteLast hd).2.2.2.2⟩
  | spill hpc hover =>
    rw [hpc] at hstep
    dsimp only at hstep
    rw [if_pos hover] at hstep
    cases hstep
    simp only [Meets, Ready, hpc] at hm
    obtain ⟨-, -, -, hwindow, -⟩ := h.wf.admitOneFromWindow freq
    exact ⟨hpc.symm, (hwindow.resolve_left fun hno => hno.1 (hm hover)).2⟩

lemma exists_run (hpc : σ.pc ≠ .idle) (freq : UInt64 → UInt32) : ∃ σ', σ.run freq = some σ' := by
  cases hcase : σ.pc with
  | idle => exact absurd hcase hpc
  | resizeLimits | adaptProtected k | adaptWindow k p | insertBody block | insertAdmit =>
    simp only [State.run, hcase]
    exact ⟨_, rfl⟩
  | evict =>
    simp only [State.run, hcase]
    split_ifs
    · cases σ.shard.resizeVictim <;> exact ⟨_, rfl⟩
    · exact ⟨_, rfl⟩
  | demote k p w =>
    simp only [State.run, hcase]
    split_ifs
    · cases σ.shard.demoteLast <;> exact ⟨_, rfl⟩
    · exact ⟨_, rfl⟩
  | spill k w =>
    simp only [State.run, hcase]
    split_ifs
    · exact ⟨_, rfl⟩
    · cases k <;> exact ⟨_, rfl⟩

/-- Where the limit has risen above the size, a round of the second loop leaves the shard as it is. -/
lemma spill_stuck {k : After} {w : UInt32} (hpc : σ.pc = .spill k w)
    (hm : ¬ Meets σ (.run freq)) : σ.step (.run freq) = some σ := by
  simp only [Meets, Ready, hpc, Classical.not_imp] at hm
  have hbody : σ.shard.admitOneFromWindow freq = σ.shard := if_pos (UInt32.not_lt.mp hm.2)
  rw [State.step, State.run, hpc]
  dsimp only
  rw [if_pos hm.1, hbody, ← hpc]

end Runs

/-- A state of the shard, in runs whose steps all meet `P`: its entries are in their lists, with the
sizes that are kept; an operation that is over has left at most one entry too many; a round of a loop
takes an entry out of the list that the loop tests; the operation that has the lock can go on, and
gives it back after so many steps, whatever `climb` does in between. -/
structure Sound (P : State → Event → Prop) (σ : State) : Prop where
  entries : Wf σ.shard
  bound : σ.pc = .idle → σ.shard.map.card ≤ σ.shard.capacity.toNat + 1
  round : ∀ l freq σ', Iterates σ l → P σ (.run freq) → σ.step (.run freq) = some σ' →
    σ'.pc = σ.pc ∧ Removes (σ.shard.lists l) (σ'.shard.lists l)
  goesOn : σ.pc ≠ .idle → ∀ freq, ∃ σ', σ.step (.run freq) = some σ'
  terminates : ∃ n, ∀ es τ, Run State.step (fun t e => P t e ∧ t.pc ≠ .idle) σ es τ →
    es.countP isRun ≤ n

/-- **The shard respects its capacity and does not hang** in every run that meets the condition. -/
theorem sound_of_meets {capacity : UInt32} {es : List Event} {σ : State}
    (h : Run State.step Meets (start capacity) es σ) : Sound Meets σ := by
  have hkeep : ∀ t e u, Inv t ∧ Bounded t → Meets t e → t.step e = some u → Inv u ∧ Bounded u :=
    fun t e u ht hm hstep => ⟨inv_step ht.1 hstep, bounded_step ht.1 ht.2 hm hstep⟩
  have hstart : Inv (start capacity) ∧ Bounded (start capacity) :=
    ⟨inv_start capacity, bounded_of_card_le (Nat.zero_le _)⟩
  have hσ := h.invariant hstart hkeep
  refine ⟨hσ.1.wf, fun hpc => ?_, fun l freq σ' hit hm hstep => removes_of_iterates hσ.1 hit hm hstep,
    fun hpc freq => exists_run hpc freq, work σ, fun es τ hrun => ?_⟩
  · exact hσ.2.card_le (by rw [hpc]; decide) (by rw [hpc]; decide) (by rw [hpc]; decide)
  · have hcount := hrun.count_le hσ
      (fun t e u ht hm hstep => hkeep t e u ht hm.1 hstep)
      (fun t e u ht hm hstep => work_step ht.1 ht.2 hm.1 hm.2 hstep)
    exact (Nat.le_add_right _ _).trans hcount

/-- The operation goes on for `n` steps, with a sketch that has seen no block. -/
def goOn (n : ℕ) : List Event := List.replicate n (.run fun _ => 0)

/-- Insertions that find the window no longer than its limit. -/
def inserts (blocks : List UInt64) : List Event := blocks.flatMap fun b => .insert b :: goOn 6

/-- `climb` from its start to its end. -/
def climbs (amount : ℤ) : List Event := [.climb amount, .climb 0, .climb 0]

/-- An insertion that spills the window, where `climb` has lowered its limit. -/
theorem sound_of_meets_spill : ∃ es σ, Run State.step Meets (start 4) es σ ∧
    σ.shard.lists .inWindow = [7] ∧ σ.shard.lists .inProbation = [9, 5, 3] ∧ Sound Meets σ := by
  have hsome : ((inserts [3, 5] ++ climbs 1 ++ inserts [9] ++ climbs (-1) ++ [Event.insert 7] ++
      goOn 7).foldlM (fun σ ev => if Meets σ ev then State.step σ ev else none) (start 4)).any
      (fun σ => σ.shard.lists .inWindow = [7] ∧ σ.shard.lists .inProbation = [9, 5, 3]) := by
    decide +kernel
  obtain ⟨σ, hfold, hσ⟩ := (Option.any_eq_true _ _).mp hsome
  obtain ⟨hw, hp⟩ := of_decide_eq_true hσ
  have hrun := Run.of_foldlM hfold
  exact ⟨_, σ, hrun, hw, hp, sound_of_meets hrun⟩

/-- A limit that rises while the shard is full: nothing is evicted for two insertions. -/
def overfull : List Event := inserts [1, 2, 3, 4, 5] ++ climbs 2 ++ inserts [6, 7]

/-- A limit that falls, so that the window has to be spilled, and rises before it is. -/
def stuck : List Event :=
  climbs 1 ++ inserts [3, 5] ++ climbs (-1) ++ [Event.insert 9] ++ goOn 2 ++ climbs 1 ++ goOn 1

/-- **A limit that rises** lets seven entries into a shard of five, and makes an insertion hang. -/
theorem rising_limit_breaks :
    (∃ σ, Run State.step (fun _ _ => True) (start 5) overfull σ ∧
      σ.pc = .idle ∧ σ.shard.capacity.toNat + 2 ≤ σ.shard.map.card ∧ ¬ Sound (fun _ _ => True) σ) ∧
    ∃ σ, Run State.step (fun _ _ => True) (start 4) stuck σ ∧
      (∀ freq, σ.step (.run freq) = some σ) ∧ ¬ Sound (fun _ _ => True) σ := by
  constructor
  · have hsome : (overfull.foldlM (fun σ ev => if True then State.step σ ev else none) (start 5)).any
        (fun σ => σ.pc = .idle ∧ σ.shard.capacity.toNat + 2 ≤ σ.shard.map.card) := by
      decide +kernel
    obtain ⟨σ, hfold, hσ⟩ := (Option.any_eq_true _ _).mp hsome
    obtain ⟨hpc, hcard⟩ := of_decide_eq_true hσ
    refine ⟨σ, .of_foldlM hfold, hpc, hcard, fun hsound => ?_⟩
    have hle := hsound.bound hpc
    omega
  · have hsome : (stuck.foldlM (fun σ ev => if True then State.step σ ev else none) (start 4)).any
        (fun σ => σ.pc = .spill (.insert 9) 1 ∧ ¬ Ready σ.shard (.spill (.insert 9) 1)) := by
      decide +kernel
    obtain ⟨σ, hfold, hσ⟩ := (Option.any_eq_true _ _).mp hsome
    obtain ⟨hpc, hready⟩ := of_decide_eq_true hσ
    have hstuck : ∀ freq, σ.step (.run freq) = some σ := fun freq =>
      spill_stuck hpc (by rw [Meets, hpc]; exact hready)
    refine ⟨σ, .of_foldlM hfold, hstuck, fun hsound => ?_⟩
    obtain ⟨n, hn⟩ := hsound.terminates
    have hcount := hn (goOn (n + 1)) σ
      (.replicate ⟨trivial, by rw [hpc]; exact Pc.noConfusion⟩ (hstuck _) _)
    have hall : (goOn (n + 1)).countP isRun = n + 1 := by
      rw [goOn, List.countP_replicate]
      rfl
    omega

end SextantTree.BlockCache
