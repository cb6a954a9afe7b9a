import SextantTree.PlaneReplay

/-!
The same blob on every path: members encoded leaf by leaf in any order, leaves kept in memory,
leaves spilled, and the rows that are detached for the extents of the leaves. The paths agree as
long as the 32-bit counts hold.
-/

namespace SextantTree.Plane

open ByteMem

variable {T : Trained} {pm : PlaneMeta}

/-- The bytes of a leaf in a blob: the run of its blocks and its factors. -/
def RowsIn (T : Trained) (counts : List ℕ) (blob : List UInt8) (l count : ℕ) (rows : List UInt8) :
    Prop :=
  ∃ run factors, rows = run ++ factors ∧
    run.length = blocksFor count * T.pm.blockBytes ∧
    Slice.At blob ((blobHeader T counts).blocksOff + runBytes T (counts.take l)) run ∧
    (factors.length = if T.pm.pv then count * 2 else 0) ∧
    Slice.At blob ((blobHeader T counts).alphaOff + alphaPrefix T counts l) factors

/-- The members of these leaves make the same blob on every path. -/
structure MakesBlob (T : Trained) (leaves : List (List Proj)) (blob : List UInt8) : Prop where
  /-- `encode_from_proj` for each member, in any order. -/
  direct : ∀ prepared ≤ leaves.length, ∀ ws : List (ℕ × SlotWrite), ws.Perm (placed leaves) →
    finalizeBlob T (directRun T (prepare prepared {}) ws) (countsOf leaves) = .ok blob
  /-- `encode_staged` and `transfer_leaf`, with a spill file or without. -/
  transfer : ∀ prepared ≤ leaves.length, ∀ spill, spill = none ∨ spill = some {} →
    ∀ es, Emits es leaves → ∃ w, transferRun T (prepare prepared { spill }) es = .ok w ∧
      finalizeBlob T w (countsOf leaves) = .ok blob
  /-- `encode_staged` and `detach_leaf_blocks`. -/
  detach : ∀ es, Emits es leaves → ∃ rows, detachRun T (countsOf leaves) {} es = .ok rows ∧
    rows.length = leaves.length ∧
    ∀ l count r, (countsOf leaves)[l]? = some count → rows[l]? = some r →
      RowsIn T (countsOf leaves) blob l count r

/-- For these counts the paths agree, whatever was trained and whatever the members are. -/
def PathsAgree (pm : PlaneMeta) (counts : List ℕ) : Prop :=
  ∀ T : Trained, T.pm = pm → ∀ leaves, countsOf leaves = counts → ∃ blob, MakesBlob T leaves blob

/-- No count of blocks wraps, and no run in front of the last leaf is counted short. -/
def RunsCounted (pm : PlaneMeta) (counts : List ℕ) : Prop :=
  pm.blockBytes = 0 ∨ (∀ c ∈ counts, c + 31 < 2 ^ 32) ∧
    ∀ c ∈ counts.dropLast, blocksFor c * pm.blockBytes < 2 ^ 32

/-! ### The paths agree -/

lemma runFits_of {c : ℕ} (h : T.pm.blockBytes = 0 ∨ c + 31 < 2 ^ 32) : RunFits T c := by
  unfold RunFits
  rcases h with h | h
  · rw [h, Nat.mul_zero, Nat.mul_zero]
  · have : blocks32 c = blocksFor c := by
      unfold blocks32 blocksFor kVecsPerBlock
      rw [Nat.mod_eq_of_lt (by omega)]
    rw [this]

lemma mem_dropLast_of_take {counts : List ℕ} {l c : ℕ} (hl : l < counts.length)
    (h : c ∈ counts.take l) : c ∈ counts.dropLast := by
  have htake : counts.take l = (counts.take (counts.length - 1)).take l := by
    rw [List.take_take]
    congr 1
    omega
  rw [List.dropLast_eq_take]
  exact List.mem_of_mem_take (htake ▸ h)

lemma RunsCounted.fits {counts : List ℕ} (h : RunsCounted T.pm counts) {c : ℕ} (hc : c ∈ counts) :
    RunFits T c := by
  rcases h with h | ⟨h, -⟩
  · exact runFits_of (.inl h)
  · exact runFits_of (.inr (h c hc))

lemma RunsCounted.places {counts : List ℕ} (h : RunsCounted T.pm counts) :
    ∀ l < counts.length, blocksPrefix T counts l = runBytes T (counts.take l) := by
  intro l hl
  refine blocksPrefix_eq (fun c hc => h.fits (List.mem_of_mem_take hc)) fun c hc => ?_
  rcases h with h | ⟨-, h⟩
  · rw [h, Nat.mul_zero]
    norm_num
  · exact h c (mem_dropLast_of_take hl hc)

lemma Emits.states {es : List PlaneEvent} {leaves : List (List Proj)} (h : Emits es leaves) :
    (progress es).groups.map (stateOf T) = leaves.map (encodeLeaf T.codec T.pm) := by
  have hgroups := h.groups
  clear h
  generalize (progress es).groups = groups at hgroups ⊢
  induction hgroups with
  | nil => rfl
  | cons hg _ ih => rw [List.map_cons, List.map_cons, stateOf_of_perm hg, ih]

lemma Emits.counted {es : List PlaneEvent} {leaves : List (List Proj)} (h : Emits es leaves)
    (hne : ∀ members ∈ leaves, members ≠ []) :
    List.Forall₂ Counted (progress es).groups (countsOf leaves) := by
  have hgroups := h.groups
  clear h
  generalize (progress es).groups = groups at hgroups ⊢
  induction hgroups with
  | nil => exact .nil
  | cons hg _ ih =>
    refine .cons ⟨_, hg, rfl, ?_⟩ (ih fun x hx => hne x (List.mem_cons_of_mem _ hx))
    exact List.length_pos_of_ne_nil (hne _ List.mem_cons_self)

lemma stageOk_nil : StageOk T [] fun _ => [] := fun _ => ⟨rfl, fun h => absurd rfl h⟩

lemma Emits.transferred {es : List PlaneEvent} {leaves : List (List Proj)} (h : Emits es leaves)
    (hne : ∀ members ∈ leaves, members ≠ []) (prepared : ℕ) {spill : Option Spill}
    (hspill : spill = none ∨ spill = some {}) :
    ∃ w, transferRun T (prepare prepared { spill }) es = .ok w ∧
      TransferInv T prepared w (progress es) ∧ w.spill.isSome = spill.isSome := by
  have hstart : TransferInv T prepared (prepare prepared { spill }) ⟨fun _ => [], []⟩ := by
    refine ⟨stageOk_nil, fun _ => ?_, fun sp hsp => ?_⟩
    · simp [prepare, growTo]
    · rcases hspill with rfl | rfl
      · cases hsp
      · cases hsp
        exact ⟨rfl, rfl⟩
  refine transferRun_spec es _ _ leaves.length hstart ?_ ?_
  · rw [h.ids, List.range_eq_range']
    rfl
  · intro g hg
    obtain ⟨i, hi, rfl⟩ := List.getElem_of_mem hg
    have hcounted := h.counted hne
    exact (hcounted.get hi (hcounted.length_eq ▸ hi)).ne_nil

lemma blobAfter_all (counts : List ℕ) (leaves : List (List Proj)) (h : counts = countsOf leaves) :
    blobAfter T (blobFront T counts) leaves [] = blobOf T leaves := by
  subst h
  simp [blobAfter, blobOf]

lemma blankBlob_eq {counts : List ℕ} {leaves : List (List Proj)} (h : counts = countsOf leaves)
    (hfits : ∀ c ∈ counts, RunFits T c) :
    blankBlob T counts = blobAfter T (blobFront T counts) [] leaves := by
  simp only [blankBlob, blobAfter, blobHeader, List.flatMap_nil, List.nil_append]
  rw [List.replicate_add, nBlocksOf_mul hfits, length_factors, length_runs, h]

lemma blocksOff_eq (counts : List ℕ) :
    (blobHeader T counts).blocksOff = (blobFront T counts).length + alphaBytesOf T counts := by
  rw [length_blobFront]
  rfl

lemma rowsIn_blobOf {leaves : List (List Proj)} {l : ℕ} {members : List Proj}
    (h : leaves[l]? = some members) :
    RowsIn T (countsOf leaves) (blobOf T leaves) l members.length
      (leafRun T members ++ leafFactors T members) := by
  obtain ⟨hl, rfl⟩ := List.getElem?_eq_some_iff.mp h
  have hsplit : leaves = leaves.take l ++ leaves[l] :: leaves.drop (l + 1) := by
    rw [← List.drop_eq_getElem_cons hl, List.take_append_drop]
  have htake : (countsOf leaves).take l = countsOf (leaves.take l) := by
    simp [countsOf]
  refine ⟨_, _, rfl, length_leafRun _, ?_, length_leafFactors _, ?_⟩
  · refine ⟨blobFront T (countsOf leaves) ++ leaves.flatMap (leafFactors T) ++
      (leaves.take l).flatMap (leafRun T), (leaves.drop (l + 1)).flatMap (leafRun T), ?_, ?_⟩
    · have hruns : leaves.flatMap (leafRun T) = (leaves.take l).flatMap (leafRun T) ++
          (leafRun T leaves[l] ++ (leaves.drop (l + 1)).flatMap (leafRun T)) := by
        rw [← List.flatMap_cons, ← List.flatMap_append, ← hsplit]
      rw [blobOf, hruns]
      simp only [List.append_assoc]
    · rw [List.length_append, List.length_append, length_factors, length_runs, blocksOff_eq, htake]
  · refine ⟨blobFront T (countsOf leaves) ++ (leaves.take l).flatMap (leafFactors T),
      (leaves.drop (l + 1)).flatMap (leafFactors T) ++ leaves.flatMap (leafRun T), ?_, ?_⟩
    · have hfactors : leaves.flatMap (leafFactors T) = (leaves.take l).flatMap (leafFactors T) ++
          (leafFactors T leaves[l] ++ (leaves.drop (l + 1)).flatMap (leafFactors T)) := by
        rw [← List.flatMap_cons, ← List.flatMap_append, ← hsplit]
      rw [blobOf, hfactors]
      simp only [List.append_assoc]
    · rw [List.length_append, length_factors, length_blobFront, alphaPrefix, htake]

lemma Emits.detached {es : List PlaneEvent} {leaves : List (List Proj)} (h : Emits es leaves)
    (hne : ∀ members ∈ leaves, members ≠ []) :
    detachRun T (countsOf leaves) {} es =
      .ok (List.zipWith (detachedRows T) (progress es).groups (countsOf leaves)) := by
  have hcounted := h.counted hne
  have hlen : (progress es).groups.length = leaves.length := by
    rw [hcounted.length_eq, countsOf, List.length_map]
  refine detachRun_spec es {} ⟨fun _ => [], []⟩ (progress es).groups stageOk_nil rfl ?_ hcounted
  rw [h.ids, hlen, List.range_eq_range']
  rfl

lemma detachedRows_eq {g : List SlotWrite} {members : List Proj} (h : g.Perm (slotted members))
    (hfits : RunFits T members.length) :
    detachedRows T g members.length = leafRun T members ++ leafFactors T members := by
  rw [detachedRows, stateOf_of_perm h, hfits, leafRun, leafFactors, LeafState.blockBytes,
    (sizes_encodeLeaf members).1]

/-- **The paths agree** when the counts hold. -/
lemma makesBlob_of_runsCounted {leaves : List (List Proj)} (hne : ∀ members ∈ leaves, members ≠ [])
    (hlt : ∀ members ∈ leaves, members.length < 2 ^ 32) (hlen : leaves.length ≤ 2 ^ 32)
    (h : RunsCounted T.pm (countsOf leaves)) : MakesBlob T leaves (blobOf T leaves) := by
  have hfits : ∀ members ∈ leaves, RunFits T members.length := fun members hm =>
    h.fits (List.mem_map_of_mem hm)
  refine ⟨fun prepared hprep ws hws => ?_, fun prepared hprep spill hspill es hes => ?_,
    fun es hes => ?_⟩
  · exact finalizeBlob_kept (spill_directRun ws _) (directRun_spec hws hprep hne) hfits
  · obtain ⟨w, hrun, hinv, hsome⟩ := hes.transferred (T := T) hne prepared hspill
    refine ⟨w, hrun, ?_⟩
    cases hw : w.spill with
    | none =>
      refine finalizeBlob_kept hw ?_ hfits
      rw [hinv.kept hw, hes.states, growTo, List.length_map,
        Nat.sub_eq_zero_of_le hprep, List.replicate_zero, List.append_nil]
    | some sp =>
      obtain ⟨hcont, hrecs⟩ := hinv.spilled sp hw
      rw [finalizeBlob_spilled hw hcont hrecs hes.states hlen hlt, blocksOff_eq, ← length_blobFront,
        blankBlob_eq rfl fun c hc => h.fits hc]
      have hplaced := placeLeaves_spec (T := T) (blobFront T (countsOf leaves)) leaves [] rfl h.places
      rwa [List.nil_append, blobAfter_all _ _ rfl] at hplaced
  · refine ⟨_, hes.detached hne, ?_, fun l count r hcount hr => ?_⟩
    · rw [List.length_zipWith, hes.groups.length_eq, countsOf, List.length_map, Nat.min_self]
    · rw [countsOf, List.getElem?_map, Option.map_eq_some_iff] at hcount
      obtain ⟨members, hmembers, rfl⟩ := hcount
      obtain ⟨hl, rfl⟩ := List.getElem?_eq_some_iff.mp hmembers
      have hl' : l < (progress es).groups.length := hes.groups.length_eq ▸ hl
      obtain rfl : detachedRows T (progress es).groups[l] leaves[l].length = r := by
        rw [List.getElem?_zipWith, List.getElem?_eq_getElem hl', countsOf, List.getElem?_map,
          List.getElem?_eq_getElem hl] at hr
        exact Option.some.inj hr
      have hperm : (progress es).groups[l].Perm (slotted leaves[l]) := hes.groups.get hl' hl
      rw [detachedRows_eq hperm (hfits _ (List.getElem_mem hl))]
      exact rowsIn_blobOf hmembers

/-! ### The paths differ -/

/-- The calls for one leaf after the other, all under one cluster. -/
def emitAll (leaves : List (List Proj)) : List PlaneEvent :=
  leaves.zipIdx.flatMap fun x => (slotted x.1).map (.encode 0) ++ [.flush 0 x.2]

lemma foldl_encode (ws : List SlotWrite) : ∀ p : Progress,
    (ws.map (PlaneEvent.encode 0)).foldl Progress.next p =
      { p with pending := Function.update p.pending 0 (p.pending 0 ++ ws) } := by
  induction ws with
  | nil =>
    intro p
    rw [List.append_nil, Function.update_eq_self]
    rfl
  | cons x ws ih =>
    intro p
    rw [List.map_cons, List.foldl_cons, ih]
    simp [Progress.next]

lemma flushIds_append (es es' : List PlaneEvent) :
    flushIds (es ++ es') = flushIds es ++ flushIds es' :=
  List.filterMap_append

lemma flushIds_encode (ws : List SlotWrite) : flushIds (ws.map (PlaneEvent.encode 0)) = [] := by
  induction ws with
  | nil => rfl
  | cons x ws ih => exact ih

lemma emitAll_spec (leaves : List (List Proj)) : ∀ (n : ℕ) (p : Progress), p.pending 0 = [] →
    flushIds ((leaves.zipIdx n).flatMap fun x => (slotted x.1).map (.encode 0) ++ [.flush 0 x.2]) =
        List.range' n leaves.length ∧
      (((leaves.zipIdx n).flatMap fun x => (slotted x.1).map (.encode 0) ++ [.flush 0 x.2]).foldl
        Progress.next p).groups = p.groups ++ leaves.map slotted := by
  induction leaves with
  | nil => exact fun n p _ => ⟨rfl, (List.append_nil _).symm⟩
  | cons members leaves ih =>
    intro n p hp
    have hstep : ((slotted members).map (PlaneEvent.encode 0) ++ [PlaneEvent.flush 0 n]).foldl Progress.next p =
        ⟨Function.update p.pending 0 [], p.groups ++ [slotted members]⟩ := by
      rw [List.foldl_append, foldl_encode]
      simp [Progress.next, hp]
    obtain ⟨hids, hgroups⟩ := ih (n + 1)
      ⟨Function.update p.pending 0 [], p.groups ++ [slotted members]⟩ (by simp)
    refine ⟨?_, ?_⟩
    · rw [List.zipIdx_cons, List.flatMap_cons, flushIds_append, flushIds_append, flushIds_encode, hids]
      rfl
    · rw [List.zipIdx_cons, List.flatMap_cons, List.foldl_append, hstep, hgroups]
      simp

lemma emits_emitAll (leaves : List (List Proj)) : Emits (emitAll leaves) leaves := by
  obtain ⟨hids, hgroups⟩ := emitAll_spec leaves 0 ⟨fun _ => [], []⟩ rfl
  refine ⟨by rw [List.range_eq_range']; exact hids, ?_⟩
  have : (progress (emitAll leaves)).groups = leaves.map slotted := hgroups
  rw [this, List.forall₂_map_left_iff, List.forall₂_same]
  exact fun members _ => List.Perm.refl _

lemma length_detachedRows (g : List SlotWrite) (count : ℕ) :
    (detachedRows T g count).length =
      blocks32 count * T.pm.blockBytes + if T.pm.pv then count * 2 else 0 := by
  rw [detachedRows, List.length_append, length_peek]
  split
  · rw [length_leafAlphas, mul_comm 2]
  · rfl

lemma runFits_of_makesBlob {leaves : List (List Proj)} {blob : List UInt8}
    (hne : ∀ members ∈ leaves, members ≠ []) (h : MakesBlob T leaves blob) {c : ℕ}
    (hc : c ∈ countsOf leaves) : RunFits T c := by
  obtain ⟨l, hl, rfl⟩ := List.getElem_of_mem hc
  obtain ⟨rows, hrun, hlen, hrows⟩ := h.detach _ (emits_emitAll leaves)
  rw [(emits_emitAll leaves).detached hne, Except.ok.injEq] at hrun
  have hl' : l < (progress (emitAll leaves)).groups.length := by
    rw [(emits_emitAll leaves).groups.length_eq]
    simpa [countsOf] using hl
  have hr : rows[l]? = some (detachedRows T (progress (emitAll leaves)).groups[l] (countsOf leaves)[l]) := by
    rw [← hrun, List.getElem?_zipWith, List.getElem?_eq_getElem hl', List.getElem?_eq_getElem hl]
  obtain ⟨run, factors, heq, hrunLen, -, hfacLen, -⟩ := hrows l _ _ (List.getElem?_eq_getElem hl) hr
  have := congrArg List.length heq
  rw [length_detachedRows, List.length_append, hrunLen, hfacLen] at this
  unfold RunFits
  omega

lemma MakesBlob.blob_eq {leaves : List (List Proj)} {blob : List UInt8}
    (h : MakesBlob T leaves blob) (hne : ∀ members ∈ leaves, members ≠ []) :
    blob = blobOf T leaves := by
  have hdirect := h.direct 0 (Nat.zero_le _) _ (List.Perm.refl _)
  rw [finalizeBlob_kept (spill_directRun _ _) (directRun_spec (.refl _) (Nat.zero_le _) hne)
    fun members hm => runFits_of_makesBlob hne h (List.mem_map_of_mem hm)] at hdirect
  exact (Except.ok.inj hdirect).symm

lemma MakesBlob.replayed {leaves : List (List Proj)} {blob : List UInt8}
    (h : MakesBlob T leaves blob) (hne : ∀ members ∈ leaves, members ≠ [])
    (hlt : ∀ members ∈ leaves, members.length < 2 ^ 32) (hlen : leaves.length ≤ 2 ^ 32) :
    placeLeaves T (countsOf leaves) (blobHeader T (countsOf leaves)).blocksOff
        (blobHeader T (countsOf leaves)).alphaOff 0 (leaves.map (encodeLeaf T.codec T.pm))
        (blankBlob T (countsOf leaves)) = .ok blob := by
  have hes := emits_emitAll leaves
  obtain ⟨w, hw, hblob⟩ := h.transfer 0 (Nat.zero_le _) (some {}) (.inr rfl) _ hes
  obtain ⟨w', hw', hinv, hsome⟩ := hes.transferred (T := T) hne 0
    (show (some {} : Option Spill) = none ∨ (some {} : Option Spill) = some {} from .inr rfl)
  obtain rfl : w = w' := Except.ok.inj (hw.symm.trans hw')
  obtain ⟨sp, hsp⟩ := Option.isSome_iff_exists.mp hsome
  obtain ⟨hcont, hrecs⟩ := hinv.spilled sp hsp
  rwa [finalizeBlob_spilled hsp hcont hrecs hes.states hlen hlt] at hblob

lemma last_run {leaves : List (List Proj)} {l : ℕ} {members : List Proj}
    (h : leaves[l]? = some members) (hpos : 0 < members.length) (hpm : 0 < T.pm.blockBytes) :
    (blobOf T leaves)[(blobHeader T (countsOf leaves)).blocksOff +
        runBytes T ((countsOf leaves).take l)]? =
      some ((encodeLeaf T.codec T.pm members).blocks 0) := by
  have hrun : 0 < (leafRun T members).length := by
    rw [length_leafRun]
    refine Nat.mul_pos ?_ hpm
    unfold blocksFor kVecsPerBlock
    omega
  obtain ⟨run, factors, heq, hlen, hat, -⟩ := rowsIn_blobOf (T := T) h
  obtain ⟨rfl, -⟩ := List.append_inj heq (by rw [hlen, length_leafRun])
  obtain ⟨front, after, hblob, hoff⟩ := hat
  rw [hblob, ← hoff, List.getElem?_append_right le_rfl, Nat.sub_self, List.getElem?_append_left hrun]
  rw [length_leafRun, ← (@sizes_encodeLeaf T.codec T.pm members).1] at hrun
  rw [leafRun, LeafState.blockBytes, peek, List.getElem?_map, List.getElem?_range hrun]
  rfl

def frontPlane (pm : PlaneMeta) (counts : List ℕ) : PlaneFile where
  pm := pm
  v2 := false
  n := counts.length
  counts l := counts.getD l 0
  planePage := 0
  preBytes := 0
  leafPage _ := 0
  leafPlaneOffset _ := 0

/-- Members whose codes are all zero but one, the first of the last leaf. -/
def oneCodeLeaves (pm : PlaneMeta) (counts : List ℕ) : List (List Proj) :=
  (List.range counts.length).map (oneCodeMembers (frontPlane pm counts) (counts.length - 1))

lemma getElem?_oneCodeLeaves {counts : List ℕ} {l : ℕ} (hl : l < counts.length) :
    (oneCodeLeaves pm counts)[l]? =
      some (oneCodeMembers (frontPlane pm counts) (counts.length - 1) l) := by
  rw [oneCodeLeaves, List.getElem?_map, List.getElem?_range hl]
  rfl

/-- A writer with codes that are their own centroids. -/
def stepTrained (pm : PlaneMeta) : Trained where
  pm := pm
  dim := 1
  codec := stepCodec
  basis := List.replicate (1 * pm.rank * 4) 0
  mean := List.replicate (1 * 4) 0
  codebook := List.replicate ((if pm.encoding = .b1g then pm.rank else pm.rank * 16) * 4) 0
  dim_lt := by norm_num
  basis_length := List.length_replicate
  mean_length := List.length_replicate
  codebook_length := List.length_replicate

section OneCode

variable {counts : List ℕ}

lemma countsOf_oneCodeLeaves (hpos : ∀ c ∈ counts, 0 < c) :
    countsOf (oneCodeLeaves pm counts) = counts := by
  refine List.ext_getElem (by simp [countsOf, oneCodeLeaves]) fun l h₁ h₂ => ?_
  have hlast : 0 < (frontPlane pm counts).counts (counts.length - 1) := by
    change 0 < counts.getD (counts.length - 1) 0
    rw [List.getD_eq_getElem _ _ (by omega)]
    exact hpos _ (List.getElem_mem _)
  simp only [countsOf, oneCodeLeaves, List.map_map, List.getElem_map, List.getElem_range,
    Function.comp_apply]
  rw [← length_oneCodeMembers hlast l]
  exact List.getD_eq_getElem _ _ h₂

lemma blocks_oneCodeLeaves {l i : ℕ} {members : List Proj}
    (h : (oneCodeLeaves pm counts)[l]? = some members) (hne : ¬ (l = counts.length - 1 ∧ i = 0)) :
    (encodeLeaf stepCodec pm members).blocks i = 0 := by
  have hl : l < counts.length := by
    have := (List.getElem?_eq_some_iff.mp h).1
    rwa [oneCodeLeaves, List.length_map, List.length_range] at this
  obtain rfl : oneCodeMembers (frontPlane pm counts) (counts.length - 1) l = members := by
    rw [getElem?_oneCodeLeaves hl] at h
    exact Option.some.inj h
  exact blocks_oneCode (f := frontPlane pm counts) hne

lemma head_oneCodeMembers (hpm : 0 < pm.segments) (l : ℕ) :
    (encodeLeaf stepCodec pm (oneCodeMembers (frontPlane pm counts) l l)).blocks 0 ≠ 0 := by
  intro hzero
  have hmem : (oneCodeMembers (frontPlane pm counts) l l)[0]? = some oneMember := by
    rw [oneCodeMembers, if_pos rfl]
    rfl
  have hcode := (encodeLeaf_packs stepCodec pm _).nibble 0 oneMember hmem 0 hpm
  rw [nibble_oneMember, if_pos rfl, nibbleAt, bytePos] at hcode
  simp only [Nat.zero_div, Nat.zero_mul, Nat.zero_mod, Nat.add_zero] at hcode
  rw [hzero] at hcode
  exact absurd hcode (by decide)

lemma blocksPrefix_lt {l c : ℕ} (hc : c ∈ counts.take l)
    (hlong : 2 ^ 32 ≤ blocks32 c * T.pm.blockBytes) :
    blocksPrefix T counts l < runBytes T (counts.take l) := by
  have hle : ∀ c, blocks32 c * T.pm.blockBytes ≤ blocksFor c * T.pm.blockBytes := fun c =>
    Nat.mul_le_mul_right _ (blocks32_le c)
  refine List.sum_lt_sum _ _ (fun c _ => (Nat.mod_le _ _).trans (hle c)) ⟨c, hc, ?_⟩
  exact lt_of_lt_of_le (lt_of_lt_of_le (Nat.mod_lt _ (by norm_num)) hlong) (hle c)

lemma take_cons_drop {l c : ℕ} (h : counts[l]? = some c) :
    counts = counts.take l ++ c :: counts.drop (l + 1) := by
  obtain ⟨hl, rfl⟩ := List.getElem?_eq_some_iff.mp h
  rw [← List.drop_eq_getElem_cons hl, List.take_append_drop]

lemma alphaPrefix_add_le {l c : ℕ} (hpv : T.pm.pv = true) (h : counts[l]? = some c) :
    alphaPrefix T counts l + c * 2 ≤ alphaBytesOf T counts := by
  rw [alphaPrefix, alphaBytesOf, alphaBytesOf, if_pos hpv, if_pos hpv]
  conv_rhs => rw [take_cons_drop h]
  rw [List.map_append, List.sum_append, List.map_cons, List.sum_cons]
  omega

lemma runBytes_take_add_le {l c : ℕ} (h : counts[l]? = some c) :
    runBytes T (counts.take l) + blocksFor c * T.pm.blockBytes ≤ runBytes T counts := by
  unfold runBytes
  conv_rhs => rw [take_cons_drop h]
  rw [List.map_append, List.sum_append, List.map_cons, List.sum_cons]
  omega

lemma blankBlob_last {last : ℕ} (hlast : counts[counts.length - 1]? = some last) (hpos : 0 < last)
    (hpm : 0 < T.pm.blockBytes) (hfits : ∀ c ∈ counts, RunFits T c) :
    (blankBlob T counts)[(blobHeader T counts).blocksOff +
      runBytes T (counts.take (counts.length - 1))]? = some 0 := by
  have hrun := runBytes_take_add_le (T := T) hlast
  have hblocks : 0 < blocksFor last * T.pm.blockBytes := by
    refine Nat.mul_pos ?_ hpm
    unfold blocksFor kVecsPerBlock
    omega
  have hbytes : (blobHeader T counts).blocksBytes = runBytes T counts := nBlocksOf_mul hfits
  have halpha : (blobHeader T counts).alphaBytes = alphaBytesOf T counts := rfl
  rw [blankBlob, blocksOff_eq, List.getElem?_append_right (by omega), List.getElem?_replicate,
    if_pos (by rw [hbytes, halpha]; omega)]

lemma small_of_makesBlob (hpos : ∀ c ∈ counts, 0 < c ∧ c < 2 ^ 32) (hpm : 0 < pm.blockBytes)
    {blob : List UInt8} (h : MakesBlob (stepTrained pm) (oneCodeLeaves pm counts) blob) {c : ℕ}
    (hc : c ∈ counts) : c + 31 < 2 ^ 32 := by
  have hcounts : countsOf (oneCodeLeaves pm counts) = counts :=
    countsOf_oneCodeLeaves fun c hc => (hpos c hc).1
  have hne : ∀ members ∈ oneCodeLeaves pm counts, members ≠ [] := fun members hm =>
    List.ne_nil_of_length_pos (hpos _ (hcounts ▸ List.mem_map_of_mem hm)).1
  have hfits : RunFits (stepTrained pm) c := runFits_of_makesBlob hne h (hcounts.symm ▸ hc)
  have hblocks : blocks32 c = blocksFor c := Nat.eq_of_mul_eq_mul_right hpm hfits
  obtain ⟨hc₀, hc₁⟩ := hpos c hc
  unfold blocks32 blocksFor kVecsPerBlock at hblocks
  omega

lemma not_makesBlob_of_wrap (hpos : ∀ c ∈ counts, 0 < c ∧ c < 2 ^ 32) (hlen : counts.length ≤ 2 ^ 32)
    (hpm : 0 < pm.blockBytes) {c : ℕ} (hc : c ∈ counts.dropLast)
    (hlong : 2 ^ 32 ≤ blocksFor c * pm.blockBytes) (blob : List UInt8) :
    ¬ MakesBlob (stepTrained pm) (oneCodeLeaves pm counts) blob := by
  intro h
  have hcounts : countsOf (oneCodeLeaves pm counts) = counts :=
    countsOf_oneCodeLeaves fun c hc => (hpos c hc).1
  have hlengths : ∀ members ∈ oneCodeLeaves pm counts, 0 < members.length ∧ members.length < 2 ^ 32 :=
    fun members hm => hpos _ (hcounts ▸ List.mem_map_of_mem hm)
  have hne : ∀ members ∈ oneCodeLeaves pm counts, members ≠ [] := fun members hm =>
    List.ne_nil_of_length_pos (hlengths members hm).1
  have hfits : ∀ c ∈ counts, RunFits (stepTrained pm) c := fun c hc =>
    runFits_of_makesBlob hne h (hcounts.symm ▸ hc)
  rw [h.blob_eq hne] at h
  rw [List.dropLast_eq_take] at hc
  have hn : counts.length - 1 < counts.length := by
    have := List.length_pos_of_mem (List.mem_of_mem_take hc)
    omega
  have hshort := blocksPrefix_lt (T := stepTrained pm) hc
    (by rw [hfits c (List.mem_of_mem_take hc)]; exact hlong)
  have hplaced := h.replayed hne (fun members hm => (hlengths members hm).2)
    (by rw [oneCodeLeaves, List.length_map, List.length_range]; exact hlen)
  rw [hcounts] at hplaced
  have hzero := placeLeaves_zero _ 0 _ _ hplaced
    (blankBlob_last (List.getElem?_eq_getElem hn) (hpos _ (List.getElem_mem hn)).1 hpm hfits)
    (fun j ls hls i hi hlt => ?_) fun j ls hls hpv => ?_
  · -- In the blob from memory the code of the first member is there.
    have hmembers := @getElem?_oneCodeLeaves pm counts _ hn
    have hrun := last_run (T := stepTrained pm) hmembers (hlengths _ (List.mem_of_getElem? hmembers)).1 hpm
    rw [hcounts] at hrun
    exact head_oneCodeMembers (Nat.pos_of_mul_pos_right hpm) _ (Option.some.inj (hrun.symm.trans hzero))
  · rw [List.getElem?_map, Option.map_eq_some_iff] at hls
    obtain ⟨members, hmembers, rfl⟩ := hls
    refine blocks_oneCodeLeaves hmembers ?_
    rintro ⟨rfl, rfl⟩
    rw [Nat.zero_add] at hi
    omega
  · rw [List.getElem?_map, Option.map_eq_some_iff] at hls
    obtain ⟨members, hmembers, rfl⟩ := hls
    have hcount : counts[j]? = some members.length := by
      rw [← hcounts, countsOf, List.getElem?_map, hmembers]
      rfl
    have := alphaPrefix_add_le hpv hcount
    rw [(sizes_encodeLeaf members).2, if_pos hpv, Nat.zero_add, blocksOff_eq, length_blobFront]
    omega

end OneCode

/-- **The paths of the plane writer agree** if and only if no count of blocks wraps and no run in
front of the last leaf has 4 GiB. -/
theorem plane_paths_agree_iff (pm : PlaneMeta) (counts : List ℕ)
    (hcounts : ∀ c ∈ counts, 0 < c ∧ c < 2 ^ 32) (hlen : counts.length < 2 ^ 32) :
    PathsAgree pm counts ↔ RunsCounted pm counts := by
  constructor
  · intro h
    rcases Nat.eq_zero_or_pos pm.blockBytes with hpm | hpm
    · exact .inl hpm
    obtain ⟨blob, hblob⟩ := h (stepTrained pm) rfl (oneCodeLeaves pm counts)
      (countsOf_oneCodeLeaves fun c hc => (hcounts c hc).1)
    refine .inr ⟨fun c hc => ?_, fun c hc => ?_⟩
    · exact small_of_makesBlob hcounts hpm hblob hc
    · by_contra hlong
      exact not_makesBlob_of_wrap hcounts hlen.le hpm hc (by omega) blob hblob
  · rintro h T rfl leaves rfl
    have hpos : ∀ members ∈ leaves, 0 < members.length ∧ members.length < 2 ^ 32 := fun members hm =>
      hcounts _ (List.mem_map_of_mem hm)
    exact ⟨_, makesBlob_of_runsCounted
      (fun members hm => List.ne_nil_of_length_pos (hpos members hm).1)
      (fun members hm => (hpos members hm).2) (by simpa [countsOf] using hlen.le) h⟩

/-- Two leaves of a small plane. -/
theorem plane_paths_agree_small :
    PathsAgree ⟨.u4lm, 4, by decide, by decide⟩ [33, 1] :=
  (plane_paths_agree_iff _ [33, 1] (by decide) (by decide)).mpr (.inr ⟨by decide, by decide⟩)

/-- The largest rank, and a first leaf of 4097 blocks. -/
theorem plane_paths_differ :
    ¬ PathsAgree ⟨.u4lm, 65535, by decide, by decide⟩ [131073, 1] := by
  intro h
  have hcounts : ∀ c ∈ [131073, 1], 0 < c ∧ c < 2 ^ 32 := by decide
  obtain ⟨blob, hblob⟩ := h (stepTrained _) rfl (oneCodeLeaves _ [131073, 1])
    (countsOf_oneCodeLeaves fun c hc => (hcounts c hc).1)
  exact not_makesBlob_of_wrap hcounts (by decide) (by decide) (c := 131073) (by decide) (by decide)
    blob hblob

end SextantTree.Plane
