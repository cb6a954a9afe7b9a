import SextantTree.PlaneSpec
import SextantTree.PlaneWriter
import Mathlib.Data.List.Perm.Basic

/-!
The paths of the plane writer: a leaf does not depend on the order in which its members are
encoded, and the kept leaves, the spill file and the detached rows all have its bytes.
-/

namespace SextantTree.Plane

open ByteMem

variable {k : Codec} {pm : PlaneMeta}

/-! ### The order of the members -/

lemma setLaneNibble_comm {lane lane' nib nib' : ℕ} (h : nib < 16) (h' : nib' < 16)
    (hne : ¬ (16 ≤ lane ↔ 16 ≤ lane')) (byte : UInt8) :
    setLaneNibble lane nib (setLaneNibble lane' nib' byte) =
      setLaneNibble lane' nib' (setLaneNibble lane nib byte) := by
  have hb : byte.toNat < 256 := byte.toNat_lt
  rw [← UInt8.toNat_inj]
  unfold setLaneNibble
  by_cases hl : 16 ≤ lane
  · have hl' : ¬ 16 ≤ lane' := fun h' => hne (iff_of_true hl h')
    simp only [if_pos hl, if_neg hl', UInt8.toNat_ofNat']
    omega
  · have hl' : 16 ≤ lane' := by
      by_contra h'
      exact hne (iff_of_false hl h')
    simp only [if_neg hl, if_pos hl', UInt8.toNat_ofNat']
    omega

lemma setNibble_comm {slot slot' g g' : ℕ} {nib nib' : ℕ → ℕ} (hslot : slot ≠ slot')
    (hg : g < pm.segments) (hg' : g' < pm.segments) (hnib : nib g < 16) (hnib' : nib' g' < 16)
    (blocks : Mem) :
    setNibble pm slot nib (setNibble pm slot' nib' blocks g') g =
      setNibble pm slot' nib' (setNibble pm slot nib blocks g) g' := by
  unfold setNibble
  by_cases hpos : bytePos pm slot g = bytePos pm slot' g'
  · -- The two slots have the two halves of one byte.
    obtain ⟨hgg, hb, hl⟩ := bytePos_inj hg hg' hpos
    have hhalf : ¬ (16 ≤ slot % kVecsPerBlock ↔ 16 ≤ slot' % kVecsPerBlock) := by
      unfold kVecsPerBlock
      omega
    rw [hpos]
    simp only [Function.update_self, Function.update_idem]
    rw [setLaneNibble_comm hnib hnib' hhalf]
  · rw [Function.update_of_ne hpos, Function.update_of_ne (Ne.symm hpos),
      Function.update_comm hpos]

lemma foldl_comm_step {α β : Type} {f : β → α → β} {g : β → β} (l : List α)
    (h : ∀ a ∈ l, ∀ b, g (f b a) = f (g b) a) : ∀ b, g (l.foldl f b) = l.foldl f (g b) := by
  induction l with
  | nil => exact fun b => rfl
  | cons a l ih =>
    intro b
    rw [List.foldl_cons, List.foldl_cons, ih (fun x hx => h x (List.mem_cons_of_mem a hx)),
      h a List.mem_cons_self]

lemma blocks_encodeInto_comm (blocks : Mem) {w w' : ℕ × Proj} (h : w.1 ≠ w'.1) :
    (List.range pm.segments).foldl (setNibble pm w'.1 (nibble k pm w'.2))
        ((List.range pm.segments).foldl (setNibble pm w.1 (nibble k pm w.2)) blocks) =
      (List.range pm.segments).foldl (setNibble pm w.1 (nibble k pm w.2))
        ((List.range pm.segments).foldl (setNibble pm w'.1 (nibble k pm w'.2)) blocks) := by
  refine foldl_comm_step (g := fun b =>
    (List.range pm.segments).foldl (setNibble pm w'.1 (nibble k pm w'.2)) b) _
    (fun g hg b => ?_) blocks
  refine (foldl_comm_step (g := fun b => setNibble pm w.1 (nibble k pm w.2) b g) _
    (fun g' hg' b => ?_) b).symm
  exact setNibble_comm h (List.mem_range.mp hg) (List.mem_range.mp hg') (nibble_lt k pm _ _)
    (nibble_lt k pm _ _) b

lemma encodeInto_comm (ls : LeafState) {w w' : ℕ × Proj} (h : w.1 ≠ w'.1) :
    encodeInto k pm (encodeInto k pm ls w) w' = encodeInto k pm (encodeInto k pm ls w') w := by
  have hblocks : (encodeInto k pm (encodeInto k pm ls w) w').blocks =
      (encodeInto k pm (encodeInto k pm ls w') w).blocks :=
    blocks_encodeInto_comm ls.blocks h
  have hnBlocks : (encodeInto k pm (encodeInto k pm ls w) w').nBlocks =
      (encodeInto k pm (encodeInto k pm ls w') w).nBlocks :=
    max_right_comm _ _ _
  have hnAlphas : (encodeInto k pm (encodeInto k pm ls w) w').nAlphas =
      (encodeInto k pm (encodeInto k pm ls w') w).nAlphas := by
    simp only [encodeInto]
    split
    · exact max_right_comm _ _ _
    · rfl
  have halphas : (encodeInto k pm (encodeInto k pm ls w) w').alphas =
      (encodeInto k pm (encodeInto k pm ls w') w).alphas := by
    cases hpv : pm.pv with
    | true =>
      funext slot
      rw [alphas_encodeInto _ _ hpv, alphas_encodeInto _ _ hpv, alphas_encodeInto _ _ hpv,
        alphas_encodeInto _ _ hpv]
      by_cases hw : slot = w.1
      · rw [if_neg (fun hw' => h (hw.symm.trans hw')), if_pos hw, if_pos hw]
      · rw [if_neg hw, if_neg hw]
    | false => simp only [encodeInto, hpv, Bool.false_eq_true, if_false]
  generalize encodeInto k pm (encodeInto k pm ls w) w' = a at *
  generalize encodeInto k pm (encodeInto k pm ls w') w = b at *
  cases a
  cases b
  congr

def slotted (members : List Proj) : List SlotWrite := members.zipIdx.map Prod.swap

lemma map_fst_slotted (members : List Proj) :
    (slotted members).map Prod.fst = List.range members.length := by
  rw [slotted, List.map_map, List.range_eq_range', ← List.zipIdx_map_snd 0 members]
  rfl

/-- **A leaf does not depend on the order of its members.** -/
lemma foldl_encodeInto_perm {ws : List SlotWrite} {members : List Proj}
    (h : ws.Perm (slotted members)) :
    ws.foldl (encodeInto k pm) .empty = encodeLeaf k pm members := by
  have hnodup : (ws.map Prod.fst).Nodup := by
    rw [(h.map Prod.fst).nodup_iff, map_fst_slotted]
    exact List.nodup_range
  refine h.foldl_eq' (fun x hx y hy ls => ?_) _
  by_cases hxy : x = y
  · rw [hxy]
  · exact encodeInto_comm ls fun heq => hxy (List.inj_on_of_nodup_map hnodup hx hy heq)

/-! ### The sizes of a leaf -/

lemma encode_sizes_le {n : ℕ} (ws : List SlotWrite) : ∀ ls : LeafState, (∀ w ∈ ws, w.1 < n) →
    ls.nBlocks ≤ blocksFor n → ls.nAlphas ≤ n →
    (ws.foldl (encodeInto k pm) ls).nBlocks ≤ blocksFor n ∧
      (ws.foldl (encodeInto k pm) ls).nAlphas ≤ n := by
  induction ws with
  | nil => exact fun ls _ hb ha => ⟨hb, ha⟩
  | cons w ws ih =>
    intro ls hws hb ha
    have hw := hws w List.mem_cons_self
    refine ih _ (fun x hx => hws x (List.mem_cons_of_mem w hx)) ?_ ?_
    · have hslot : w.1 / kVecsPerBlock + 1 ≤ blocksFor n := by
        unfold blocksFor kVecsPerBlock
        omega
      exact max_le hb hslot
    · simp only [encodeInto]
      split
      · exact max_le ha hw
      · exact ha

lemma nAlphas_of_not_pv (hpv : pm.pv = false) (ws : List SlotWrite) :
    ∀ ls : LeafState, (ws.foldl (encodeInto k pm) ls).nAlphas = ls.nAlphas := by
  induction ws with
  | nil => exact fun ls => rfl
  | cons w ws ih =>
    intro ls
    rw [List.foldl_cons, ih]
    simp [encodeInto, hpv]

lemma sizes_encodeLeaf (members : List Proj) :
    (encodeLeaf k pm members).nBlocks = blocksFor members.length ∧
      (encodeLeaf k pm members).nAlphas = if pm.pv then members.length else 0 := by
  have hpacks := encodeLeaf_packs k pm members
  have hslots : ∀ w ∈ slotted members, w.1 < members.length := by
    intro w hw
    have := List.mem_map_of_mem (f := Prod.fst) hw
    rw [map_fst_slotted] at this
    exact List.mem_range.mp this
  obtain ⟨hb, ha⟩ := @encode_sizes_le k pm _ (slotted members) .empty hslots
    (Nat.zero_le _) (Nat.zero_le _)
  refine ⟨le_antisymm hb hpacks.nBlocks, ?_⟩
  split
  · rename_i hpv
    exact le_antisymm ha (hpacks.nAlphas hpv)
  · rename_i hpv
    exact nAlphas_of_not_pv (Bool.eq_false_iff.mpr hpv) (slotted members) .empty

/-! ### The spill file -/

def Spill.contents (sp : Spill) : List UInt8 := sp.file ++ sp.wbuf

lemma Spill.contents_flush (sp : Spill) : sp.flush.file = sp.contents := rfl

lemma Spill.makeRoom_spec (sp : Spill) :
    sp.makeRoom.contents = sp.contents ∧ sp.makeRoom.nRecs = sp.nRecs := by
  unfold Spill.makeRoom
  split
  · exact ⟨by simp [Spill.contents, Spill.flush], rfl⟩
  · exact ⟨rfl, rfl⟩

lemma Spill.put_spec (sp : Spill) (b : List UInt8) :
    (sp.put b).contents = sp.contents ++ b ∧ (sp.put b).nRecs = sp.nRecs := by
  induction sp, b using Spill.put.induct with
  | case1 sp =>
    rw [Spill.put]
    exact ⟨(List.append_nil _).symm, rfl⟩
  | case2 sp x b room ih =>
    obtain ⟨hc, hn⟩ := sp.makeRoom_spec
    rw [Spill.put]
    refine ⟨ih.1.trans ?_, ih.2.trans hn⟩
    rw [← hc]
    simp only [Spill.contents, List.append_assoc]
    rw [List.take_append_drop]

lemma Spill.puts_spec (bs : List (List UInt8)) : ∀ sp : Spill,
    (bs.foldl Spill.put sp).contents = sp.contents ++ bs.flatten ∧
      (bs.foldl Spill.put sp).nRecs = sp.nRecs := by
  induction bs with
  | nil => exact fun sp => ⟨(List.append_nil _).symm, rfl⟩
  | cons b bs ih =>
    intro sp
    obtain ⟨hc, hn⟩ := sp.put_spec b
    obtain ⟨hc', hn'⟩ := ih (sp.put b)
    exact ⟨by rw [List.foldl_cons, hc', hc, List.flatten_cons, List.append_assoc], hn'.trans hn⟩

/-! ### Interleavings -/

/-- What the calls so far have encoded: for each cluster since its last flush, and for each flushed
leaf. -/
structure Progress where
  pending : ℕ → List SlotWrite
  groups : List (List SlotWrite)

def Progress.next (p : Progress) : PlaneEvent → Progress
  | .encode c x => { p with pending := Function.update p.pending c (p.pending c ++ [x]) }
  | .flush c _ =>
    { pending := Function.update p.pending c []
      groups := p.groups ++ [p.pending c] }

def progress (es : List PlaneEvent) : Progress := es.foldl Progress.next ⟨fun _ => [], []⟩

def flushIds (es : List PlaneEvent) : List ℕ :=
  es.filterMap fun
    | .encode _ _ => none
    | .flush _ leaf => some leaf

/-- An interleaving that emits these leaves: the flushes come in the order of the leaf ids, and each
finds the members of its leaf, in their slots and in any order. -/
structure Emits (es : List PlaneEvent) (leaves : List (List Proj)) : Prop where
  ids : flushIds es = List.range leaves.length
  groups : List.Forall₂ (fun g members => g.Perm (slotted members)) (progress es).groups leaves

lemma groups_suffix (es : List PlaneEvent) : ∀ p : Progress,
    ∃ gs, (es.foldl Progress.next p).groups = p.groups ++ gs := by
  induction es with
  | nil => exact fun p => ⟨[], (List.append_nil _).symm⟩
  | cons e es ih =>
    intro p
    obtain ⟨gs, hgs⟩ := ih (p.next e)
    rw [List.foldl_cons, hgs]
    cases e with
    | encode c x => exact ⟨gs, rfl⟩
    | flush c leaf => exact ⟨p.pending c :: gs, by simp [Progress.next]⟩

variable (T : Trained)

def stateOf (g : List SlotWrite) : LeafState := g.foldl (encodeInto T.codec T.pm) .empty

/-- Every stage has what was encoded under its cluster since the last flush. -/
def StageOk (stage : List LeafState) (pending : ℕ → List SlotWrite) : Prop :=
  ∀ c, stage.getD c .empty = stateOf T (pending c) ∧ (pending c ≠ [] → c < stage.length)

variable {T}

lemma getD_growTo (ls : List LeafState) (n c : ℕ) :
    (growTo ls n).getD c .empty = ls.getD c .empty := by
  unfold growTo
  rcases Nat.lt_or_ge c ls.length with h | h
  · rw [List.getD_append _ _ _ _ h]
  · rw [List.getD_append_right _ _ _ _ h, List.getD_eq_default _ _ h,
      List.getD_eq_getElem?_getD, List.getElem?_replicate]
    split <;> rfl

lemma length_growTo (ls : List LeafState) (n : ℕ) : (growTo ls n).length = max ls.length n := by
  rw [growTo, List.length_append, List.length_replicate]
  omega

lemma getD_modify (ls : List LeafState) (f : LeafState → LeafState) {c : ℕ} (hc : c < ls.length)
    (c' : ℕ) : (ls.modify c f).getD c' .empty =
      if c' = c then f (ls.getD c .empty) else ls.getD c' .empty := by
  simp only [List.getD_eq_getElem?_getD, List.getElem?_modify]
  by_cases h : c' = c
  · subst h
    rw [if_pos rfl, List.getElem?_eq_getElem hc]
    simp
  · rw [if_neg h]
    simp [Ne.symm h]

lemma StageOk.encode {w : PlaneWriter} {p : Progress} (h : StageOk T w.stage p.pending) (c : ℕ)
    (x : SlotWrite) : StageOk T (encodeStaged T w c x).stage (p.next (.encode c x)).pending := by
  have hc : c < (growTo w.stage (c + 1)).length := by
    rw [length_growTo]
    omega
  intro c'
  obtain ⟨hstate, hlen⟩ := h c'
  simp only [encodeStaged, Progress.next]
  rw [getD_modify _ _ hc, getD_growTo, getD_growTo, List.length_modify, length_growTo]
  by_cases hcc : c' = c
  · subst hcc
    rw [if_pos rfl, Function.update_self, hstate]
    refine ⟨?_, fun _ => by omega⟩
    rw [stateOf, stateOf, List.foldl_append]
    rfl
  · rw [if_neg hcc, Function.update_of_ne hcc]
    exact ⟨hstate, fun hne => by have := hlen hne; omega⟩

lemma StageOk.reset {stage : List LeafState} {p : Progress} (h : StageOk T stage p.pending)
    (c leaf : ℕ) : StageOk T (stage.set c .empty) (p.next (.flush c leaf)).pending := by
  intro c'
  obtain ⟨hstate, hlen⟩ := h c'
  simp only [Progress.next, List.length_set]
  by_cases hcc : c' = c
  · subst hcc
    rw [Function.update_self]
    refine ⟨?_, fun hne => absurd rfl hne⟩
    rw [List.getD_eq_getElem?_getD, List.getElem?_set_self']
    cases stage[c']? <;> rfl
  · rw [Function.update_of_ne hcc, List.getD_eq_getElem?_getD, List.getElem?_set_ne (Ne.symm hcc),
      ← List.getD_eq_getElem?_getD]
    exact ⟨hstate, hlen⟩

lemma StageOk.staged {stage : List LeafState} {p : Progress} (h : StageOk T stage p.pending) {c : ℕ}
    (hc : p.pending c ≠ []) : stage[c]? = some (stateOf T (p.pending c)) := by
  obtain ⟨hstate, hlen⟩ := h c
  rw [← hstate, List.getD_eq_getElem _ _ (hlen hc)]
  exact List.getElem?_eq_getElem (hlen hc)

/-- The records of flushed leaves in the spill file. -/
def spillBytes (T : Trained) (groups : List (List SlotWrite)) : List UInt8 :=
  (groups.zipIdx.map fun x => (spillRecord T x.2 (stateOf T x.1)).flatten).flatten

/-- The writer after some calls: the stages, and the leaves that were flushed. -/
structure TransferInv (T : Trained) (prepared : ℕ) (w : PlaneWriter) (p : Progress) : Prop where
  stage : StageOk T w.stage p.pending
  kept : w.spill = none → w.leaves = growTo (p.groups.map (stateOf T)) prepared
  spilled : ∀ sp, w.spill = some sp →
    sp.contents = spillBytes T p.groups ∧ sp.nRecs = p.groups.length

lemma set_growTo (ls : List LeafState) (n : ℕ) (x : LeafState) :
    (growTo (growTo ls n) (ls.length + 1)).set ls.length x = growTo (ls ++ [x]) n := by
  have happend : growTo (growTo ls n) (ls.length + 1) =
      ls ++ .empty :: List.replicate (n - (ls.length + 1)) .empty := by
    have hlen := length_growTo ls n
    unfold growTo at hlen ⊢
    rw [hlen, List.append_assoc, ← List.replicate_add, ← List.replicate_succ]
    congr 2
    omega
  rw [happend, List.set_append_right _ _ le_rfl, Nat.sub_self, List.set_cons_zero, growTo,
    List.length_append, List.length_singleton, List.append_assoc, List.singleton_append]

lemma TransferInv.flush {prepared : ℕ} {w : PlaneWriter} {p : Progress}
    (h : TransferInv T prepared w p) {c leaf : ℕ} (hleaf : leaf = p.groups.length)
    (hc : p.pending c ≠ []) :
    ∃ w', transferLeaf T w c leaf = .ok w' ∧ TransferInv T prepared w' (p.next (.flush c leaf)) ∧
      w'.spill.isSome = w.spill.isSome := by
  have hstaged := h.stage.staged hc
  unfold transferLeaf
  cases hsp : w.spill with
  | none =>
    have hkept := h.kept hsp
    have hempty : (growTo w.leaves (leaf + 1)).getD leaf .empty = .empty := by
      rw [getD_growTo, hkept, getD_growTo, hleaf, List.getD_eq_default _ _ (by simp)]
    simp only [hstaged, hempty]
    refine ⟨_, rfl, ⟨h.stage.reset c leaf, fun _ => ?_, fun sp hs => ?_⟩, hsp ▸ rfl⟩
    · simp only [Progress.next, List.map_append, List.map_cons, List.map_nil]
      rw [hkept, hleaf]
      have hset := set_growTo (p.groups.map (stateOf T)) prepared (stateOf T (p.pending c))
      rwa [List.length_map] at hset
    · cases hs
  | some sp =>
    obtain ⟨hcont, hn⟩ := h.spilled sp hsp
    obtain ⟨hcont', hn'⟩ := Spill.puts_spec (spillRecord T leaf (stateOf T (p.pending c))) sp
    simp only [hstaged]
    refine ⟨_, rfl, ⟨h.stage.reset c leaf, nofun, fun sp' hs => ?_⟩, rfl⟩
    cases hs
    refine ⟨?_, ?_⟩
    · change (List.foldl Spill.put sp _).contents = _
      rw [hcont', hcont, hleaf]
      simp [spillBytes, Progress.next, List.zipIdx_append]
    · simp [hn', hn, Progress.next]

/-- **Every interleaving** leaves the leaves in memory or in the spill file. -/
lemma transferRun_spec {prepared : ℕ} (es : List PlaneEvent) :
    ∀ (w : PlaneWriter) (p : Progress) (n : ℕ), TransferInv T prepared w p →
      flushIds es = List.range' p.groups.length n →
      (∀ g ∈ (es.foldl Progress.next p).groups, g ≠ []) →
      ∃ w', transferRun T w es = .ok w' ∧ TransferInv T prepared w' (es.foldl Progress.next p) ∧
        w'.spill.isSome = w.spill.isSome := by
  induction es with
  | nil => exact fun w p n h _ _ => ⟨w, rfl, h, rfl⟩
  | cons e es ih =>
    intro w p n h hids hne
    cases e with
    | encode c x =>
      exact ih (encodeStaged T w c x) (p.next (.encode c x)) n
        ⟨h.stage.encode c x, h.kept, h.spilled⟩ hids hne
    | flush c leaf =>
      obtain ⟨gs, hgs⟩ := groups_suffix es (p.next (.flush c leaf))
      have hc : p.pending c ≠ [] := by
        refine hne _ ?_
        rw [List.foldl_cons, hgs]
        simp [Progress.next]
      cases n with
      | zero => simp [flushIds] at hids
      | succ n =>
        have hcons : flushIds (.flush c leaf :: es) = leaf :: flushIds es := rfl
        rw [hcons, List.range'_succ] at hids
        obtain ⟨hleaf, hids⟩ := List.cons.inj hids
        obtain ⟨w', hw', hinv, hsp⟩ := h.flush hleaf hc
        obtain ⟨w'', hrun, hinv', hsp'⟩ := ih w' _ n hinv
          (by rw [hids, Progress.next, List.length_append, List.length_singleton]) hne
        refine ⟨w'', ?_, hinv', hsp'.trans hsp⟩
        simp only [transferRun, hw', hrun]

/-! ### The detached rows -/

def detachedRows (T : Trained) (g : List SlotWrite) (count : ℕ) : List UInt8 :=
  peek (stateOf T g).blocks 0 (blocks32 count * T.pm.blockBytes) ++
    (if T.pm.pv then leafAlphas (stateOf T g) count else [])

lemma blocks32_le (count : ℕ) : blocks32 count ≤ blocksFor count :=
  Nat.div_le_div_right (Nat.mod_le _ _)

lemma stateOf_of_perm {g : List SlotWrite} {members : List Proj} (h : g.Perm (slotted members)) :
    stateOf T g = encodeLeaf T.codec T.pm members :=
  foldl_encodeInto_perm h

/-- The members of a group, and how many the leaf is said to have. -/
def Counted (g : List SlotWrite) (count : ℕ) : Prop :=
  ∃ members, g.Perm (slotted members) ∧ members.length = count ∧ 0 < count

lemma Counted.ne_nil {g : List SlotWrite} {count : ℕ} (h : Counted g count) : g ≠ [] := by
  obtain ⟨members, hperm, hlen, hpos⟩ := h
  rintro rfl
  have := hperm.length_eq
  simp only [slotted, List.length_nil, List.length_map, List.length_zipIdx] at this
  omega

lemma Counted.sizes {g : List SlotWrite} {count : ℕ} (h : Counted g count) :
    (stateOf T g).nBlocks = blocksFor count ∧
      (stateOf T g).nAlphas = if T.pm.pv then count else 0 := by
  obtain ⟨members, hperm, rfl, -⟩ := h
  rw [stateOf_of_perm hperm]
  exact sizes_encodeLeaf members

lemma detachLeaf_spec {w : PlaneWriter} {p : Progress} (h : StageOk T w.stage p.pending) {c count : ℕ}
    (hcounted : Counted (p.pending c) count) :
    detachLeaf T w c count =
      .ok (detachedRows T (p.pending c) count, { w with stage := w.stage.set c .empty }) := by
  obtain ⟨hb, ha⟩ := hcounted.sizes (T := T)
  have hblocks : ¬ (stateOf T (p.pending c)).nBlocks * T.pm.blockBytes <
      blocks32 count * T.pm.blockBytes := by
    rw [hb, not_lt]
    exact Nat.mul_le_mul_right _ (blocks32_le count)
  have halphas : ¬ (T.pm.pv ∧ (stateOf T (p.pending c)).nAlphas < count) := by
    rintro ⟨hpv, hlt⟩
    rw [ha, if_pos hpv] at hlt
    omega
  unfold detachLeaf
  rw [h.staged hcounted.ne_nil]
  simp only [if_neg hblocks, if_neg halphas]
  rfl

/-- **Every interleaving** detaches the rows of its leaves, one after the other. -/
lemma detachRun_spec {counts : List ℕ} (es : List PlaneEvent) :
    ∀ (w : PlaneWriter) (p : Progress) (gs : List (List SlotWrite)), StageOk T w.stage p.pending →
      (es.foldl Progress.next p).groups = p.groups ++ gs →
      flushIds es = List.range' p.groups.length gs.length →
      List.Forall₂ Counted gs (counts.drop p.groups.length) →
      detachRun T counts w es =
        .ok (List.zipWith (detachedRows T) gs (counts.drop p.groups.length)) := by
  induction es with
  | nil =>
    intro w p gs _ hgs _ _
    obtain rfl : gs = [] := by simpa using hgs
    rfl
  | cons e es ih =>
    intro w p gs h hgs hids hcounted
    cases e with
    | encode c x =>
      exact ih (encodeStaged T w c x) (p.next (.encode c x)) gs (h.encode c x) hgs hids hcounted
    | flush c leaf =>
      obtain ⟨gs', hgs'⟩ := groups_suffix es (p.next (.flush c leaf))
      obtain rfl : gs = p.pending c :: gs' := by
        rw [List.foldl_cons, hgs'] at hgs
        simpa [Progress.next] using hgs.symm
      have hcons : flushIds (.flush c leaf :: es) = leaf :: flushIds es := rfl
      rw [hcons, List.length_cons, List.range'_succ] at hids
      obtain ⟨rfl, hids'⟩ := List.cons.inj hids
      have hlen : (p.next (.flush c p.groups.length)).groups.length = p.groups.length + 1 := by
        simp [Progress.next]
      cases hdrop : counts.drop p.groups.length with
      | nil =>
        rw [hdrop] at hcounted
        cases hcounted
      | cons count rest =>
        rw [hdrop] at hcounted
        obtain ⟨hhead, htail⟩ := List.forall₂_cons.mp hcounted
        have hcount : counts.getD p.groups.length 0 = count := by
          rw [List.getD_eq_getElem?_getD, ← List.head?_drop, hdrop]
          rfl
        have hrest : counts.drop (p.groups.length + 1) = rest := by
          rw [← List.drop_drop, hdrop]
          rfl
        have hrun := ih { w with stage := w.stage.set c .empty } (p.next (.flush c p.groups.length))
          gs' (h.reset c _) hgs' (by rw [hids', hlen]) (by rwa [hlen, hrest])
        simp only [detachRun, hcount, detachLeaf_spec h hhead, hrun]
        rw [hlen, hrest]
        rfl

/-! ### The kept leaves -/

/-- The blocks of a leaf with these members. -/
def leafRun (T : Trained) (members : List Proj) : List UInt8 :=
  (encodeLeaf T.codec T.pm members).blockBytes T

/-- The factors of a leaf with these members. -/
def leafFactors (T : Trained) (members : List Proj) : List UInt8 :=
  if T.pm.pv then leafAlphas (encodeLeaf T.codec T.pm members) members.length else []

def countsOf (leaves : List (List Proj)) : List ℕ := leaves.map List.length

def blobOf (T : Trained) (leaves : List (List Proj)) : List UInt8 :=
  blobFront T (countsOf leaves) ++ (leaves.flatMap (leafFactors T) ++ leaves.flatMap (leafRun T))

lemma length_leafRun (members : List Proj) :
    (leafRun T members).length = blocksFor members.length * T.pm.blockBytes := by
  rw [leafRun, LeafState.blockBytes, length_peek, (sizes_encodeLeaf members).1]

lemma length_leafFactors (members : List Proj) :
    (leafFactors T members).length = if T.pm.pv then members.length * 2 else 0 := by
  unfold leafFactors
  split
  · exact (length_leafAlphas _ _).trans (mul_comm _ _)
  · rfl

/-- The run of a leaf is counted right in 32 bits. -/
def RunFits (T : Trained) (count : ℕ) : Prop :=
  blocks32 count * T.pm.blockBytes = blocksFor count * T.pm.blockBytes

lemma keptBlocks_encodeLeaf {members : List Proj} (h : RunFits T members.length) :
    keptBlocks T (encodeLeaf T.codec T.pm members) members.length = leafRun T members := by
  have hle : blocks32 members.length ≤ (encodeLeaf T.codec T.pm members).nBlocks := by
    rw [(sizes_encodeLeaf members).1]
    exact blocks32_le _
  rw [keptBlocks, if_pos hle, h, leafRun, LeafState.blockBytes, (sizes_encodeLeaf members).1]

lemma keptLeaves_spec (leaves : List (List Proj)) (h : ∀ members ∈ leaves, RunFits T members.length) :
    keptLeaves T ((leaves.map (encodeLeaf T.codec T.pm)).zip (countsOf leaves)) =
      .ok (leaves.flatMap (leafFactors T), leaves.flatMap (leafRun T)) := by
  induction leaves with
  | nil => rfl
  | cons members leaves ih =>
    have hal : ¬ (T.pm.pv ∧ (encodeLeaf T.codec T.pm members).nAlphas < members.length) := by
      rintro ⟨hpv, hlt⟩
      rw [(sizes_encodeLeaf members).2, if_pos hpv] at hlt
      omega
    have htail := ih fun x hx => h x (List.mem_cons_of_mem members hx)
    simp only [countsOf] at htail
    simp only [countsOf, List.map_cons, List.zip_cons_cons, keptLeaves, if_neg hal, htail]
    rw [keptBlocks_encodeLeaf (h members List.mem_cons_self)]
    rfl

lemma finalizeBlob_kept {w : PlaneWriter} {leaves : List (List Proj)} (hspill : w.spill = none)
    (hleaves : w.leaves = leaves.map (encodeLeaf T.codec T.pm))
    (h : ∀ members ∈ leaves, RunFits T members.length) :
    finalizeBlob T w (countsOf leaves) = .ok (blobOf T leaves) := by
  have hlen : ¬ w.leaves.length ≠ (countsOf leaves).length := by simp [hleaves, countsOf]
  simp only [finalizeBlob, hspill, if_neg hlen]
  rw [hleaves, keptLeaves_spec leaves h]
  rfl

/-! ### The members one by one -/

/-- The members of all leaves with their leaves and slots. -/
def placed (leaves : List (List Proj)) : List (ℕ × SlotWrite) :=
  leaves.zipIdx.flatMap fun x => (slotted x.1).map (Prod.mk x.2)

def writesTo (ws : List (ℕ × SlotWrite)) (l : ℕ) : List SlotWrite :=
  (ws.filter (·.1 == l)).map Prod.snd

lemma spill_directRun (ws : List (ℕ × SlotWrite)) : ∀ w : PlaneWriter,
    (directRun T w ws).spill = w.spill := by
  induction ws with
  | nil => exact fun w => rfl
  | cons x ws ih => exact fun w => ih _

lemma getD_directRun (l : ℕ) (ws : List (ℕ × SlotWrite)) : ∀ w : PlaneWriter,
    (directRun T w ws).leaves.getD l .empty =
      (writesTo ws l).foldl (encodeInto T.codec T.pm) (w.leaves.getD l .empty) := by
  induction ws with
  | nil => exact fun w => rfl
  | cons x ws ih =>
    intro w
    have hx : x.1 < (growTo w.leaves (x.1 + 1)).length := by
      rw [length_growTo]
      omega
    have hstep : (encodeFromProj T w x.1 x.2).leaves.getD l .empty =
        if l = x.1 then encodeInto T.codec T.pm (w.leaves.getD l .empty) x.2
        else w.leaves.getD l .empty := by
      simp only [encodeFromProj]
      rw [getD_modify _ _ hx, getD_growTo, getD_growTo]
      by_cases hl : l = x.1
      · rw [if_pos hl, if_pos hl, hl]
      · rw [if_neg hl, if_neg hl]
    refine (ih _).trans ?_
    rw [hstep]
    by_cases hl : l = x.1
    · simp [writesTo, hl]
    · simp [writesTo, hl, Ne.symm hl]

lemma length_directRun {n : ℕ} (ws : List (ℕ × SlotWrite)) : ∀ w : PlaneWriter,
    w.leaves.length ≤ n → (∀ x ∈ ws, x.1 < n) →
      (directRun T w ws).leaves.length ≤ n ∧
      (∀ x ∈ ws, x.1 < (directRun T w ws).leaves.length) ∧
      w.leaves.length ≤ (directRun T w ws).leaves.length := by
  induction ws with
  | nil => exact fun w h _ => ⟨h, nofun, le_rfl⟩
  | cons x ws ih =>
    intro w h hws
    have hx := hws x List.mem_cons_self
    have hlen : (encodeFromProj T w x.1 x.2).leaves.length = max w.leaves.length (x.1 + 1) := by
      simp only [encodeFromProj, List.length_modify, length_growTo]
    obtain ⟨hle, hmem, hge⟩ := ih (encodeFromProj T w x.1 x.2) (by rw [hlen]; omega)
      fun y hy => hws y (List.mem_cons_of_mem x hy)
    rw [hlen] at hge
    refine ⟨hle, fun y hy => ?_, le_trans (le_max_left _ _) hge⟩
    rcases List.mem_cons.mp hy with rfl | hy
    · exact le_trans (le_max_right _ _) hge
    · exact hmem y hy

lemma writesTo_append (ws ws' : List (ℕ × SlotWrite)) (l : ℕ) :
    writesTo (ws ++ ws') l = writesTo ws l ++ writesTo ws' l := by
  simp [writesTo]

lemma writesTo_leaf (ws : List SlotWrite) (j l : ℕ) :
    writesTo (ws.map (Prod.mk j)) l = if j = l then ws else [] := by
  by_cases h : j = l
  · simp [writesTo, List.filter_map, h, Function.comp_def]
  · simp [writesTo, List.filter_map, h, Function.comp_def]

lemma writesTo_placed (leaves : List (List Proj)) (l : ℕ) : ∀ n : ℕ,
    writesTo ((leaves.zipIdx n).flatMap fun x => (slotted x.1).map (Prod.mk x.2)) l =
      if n ≤ l then (leaves[l - n]?.map slotted).getD [] else [] := by
  induction leaves with
  | nil =>
    intro n
    simp [writesTo]
  | cons members leaves ih =>
    intro n
    rw [List.zipIdx_cons, List.flatMap_cons, writesTo_append, writesTo_leaf, ih (n + 1)]
    rcases lt_trichotomy n l with h | h | h
    · have hsub : l - n = l - (n + 1) + 1 := by omega
      rw [if_neg (by omega), if_pos (by omega), if_pos (by omega), hsub, List.getElem?_cons_succ,
        List.nil_append]
    · subst h
      rw [if_pos rfl, if_neg (by omega), if_pos le_rfl, Nat.sub_self]
      simp
    · rw [if_neg (by omega), if_neg (by omega), if_neg (by omega), List.nil_append]

lemma mem_placed {leaves : List (List Proj)} {l : ℕ} {members : List Proj}
    (h : leaves[l]? = some members) {x : SlotWrite} (hx : x ∈ slotted members) :
    (l, x) ∈ placed leaves := by
  refine List.mem_flatMap.mpr ⟨(members, l), ?_, List.mem_map_of_mem hx⟩
  rw [List.mem_zipIdx_iff_getElem?]
  exact h

lemma lt_of_mem_placed {leaves : List (List Proj)} {x : ℕ × SlotWrite} (h : x ∈ placed leaves) :
    x.1 < leaves.length := by
  obtain ⟨y, hy, hx⟩ := List.mem_flatMap.mp h
  obtain ⟨w, -, rfl⟩ := List.mem_map.mp hx
  rw [List.mem_zipIdx_iff_getElem?] at hy
  exact (List.getElem?_eq_some_iff.mp hy).1

/-- **The members in any order** make the leaves. -/
lemma directRun_spec {leaves : List (List Proj)} {ws : List (ℕ × SlotWrite)} {prepared : ℕ}
    (hws : ws.Perm (placed leaves)) (hprep : prepared ≤ leaves.length)
    (hne : ∀ members ∈ leaves, members ≠ []) :
    (directRun T (prepare prepared {}) ws).leaves = leaves.map (encodeLeaf T.codec T.pm) := by
  have hstart : (prepare prepared {}).leaves = List.replicate prepared .empty := by
    simp [prepare, growTo]
  obtain ⟨hle, hlt, -⟩ := length_directRun (T := T) (n := leaves.length) ws (prepare prepared {})
    (by rw [hstart, List.length_replicate]; exact hprep)
    fun x hx => lt_of_mem_placed (hws.subset hx)
  have hlen : (directRun T (prepare prepared {}) ws).leaves.length = leaves.length := by
    refine le_antisymm hle ?_
    rcases Nat.eq_zero_or_pos leaves.length with hzero | hpos
    · omega
    · -- The last leaf has a member, so a write reaches it.
      obtain ⟨members, hlast⟩ : ∃ members, leaves[leaves.length - 1]? = some members :=
        ⟨_, List.getElem?_eq_getElem (by omega)⟩
      obtain ⟨x, hx⟩ : ∃ x, x ∈ slotted members := by
        refine List.exists_mem_of_ne_nil _ fun hnil => hne members (List.mem_of_getElem? hlast) ?_
        simpa [slotted] using hnil
      have := hlt _ (hws.mem_iff.mpr (mem_placed hlast hx))
      simp only at this
      omega
  refine List.ext_getElem (by rw [hlen, List.length_map]) fun l h₁ h₂ => ?_
  have hl : l < leaves.length := by omega
  have hget := getD_directRun (T := T) l ws (prepare prepared {})
  rw [List.getD_eq_getElem _ _ h₁, hstart] at hget
  have hempty : (List.replicate prepared LeafState.empty).getD l .empty = .empty := by
    rw [List.getD_eq_getElem?_getD, List.getElem?_replicate]
    split <;> rfl
  have hperm : (writesTo ws l).Perm (slotted leaves[l]) := by
    have := (hws.filter (·.1 == l)).map Prod.snd
    have hplaced := writesTo_placed leaves l 0
    rw [if_pos (Nat.zero_le l), Nat.sub_zero, List.getElem?_eq_getElem hl] at hplaced
    rw [writesTo] at hplaced ⊢
    exact this.trans (List.Perm.of_eq hplaced)
  rw [hget, hempty, List.getElem_map]
  exact foldl_encodeInto_perm hperm

end SextantTree.Plane
