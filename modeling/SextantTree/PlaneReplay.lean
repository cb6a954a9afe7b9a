import SextantTree.PlaneSweep
import SextantTree.PlaneWriterSpec

/-!
The replay of the spill file. Record after record the blocks and the factors of a leaf are copied
to their places in the blob; the place of the blocks is summed up from products in 32 bits, so it
is right as long as no leaf in front has a run of 4 GiB.
-/

namespace SextantTree.Plane

open ByteMem

variable {T : Trained}

/-! ### The records -/

/-- What the record of a leaf does to the blob. -/
def placeLeaf (T : Trained) (counts : List ℕ) (blocksOff alphaOff leaf : ℕ) (ls : LeafState)
    (blob : List UInt8) : Except WriterError (List UInt8) :=
  match copyInto blob (blocksOff + blocksPrefix T counts leaf) (ls.blockBytes T) with
  | .ok blob =>
    if T.pm.pv then copyInto blob (alphaOff + alphaPrefix T counts leaf) (leafAlphas ls ls.nAlphas)
    else .ok blob
  | .error e => .error e

def placeLeaves (T : Trained) (counts : List ℕ) (blocksOff alphaOff : ℕ) :
    ℕ → List LeafState → List UInt8 → Except WriterError (List UInt8)
  | _, [], blob => .ok blob
  | leaf, ls :: rest, blob =>
    match placeLeaf T counts blocksOff alphaOff leaf ls blob with
    | .ok blob => placeLeaves T counts blocksOff alphaOff (leaf + 1) rest blob
    | .error e => .error e

/-- A reader that has nothing left to read but `rest`. -/
def before (rest : List UInt8) {α : Type} : Except WriterError α → Except WriterError (α × List UInt8)
  | .ok a => .ok (a, rest)
  | .error e => .error e

/-- The state of a leaf of `count` members. -/
def Sized (T : Trained) (ls : LeafState) (count : ℕ) : Prop :=
  ls.nBlocks = blocksFor count ∧ (ls.nAlphas = if T.pm.pv then count else 0) ∧ count < 2 ^ 32

lemma blocksFor_lt {count : ℕ} (h : count < 2 ^ 32) : blocksFor count < 2 ^ 32 := by
  unfold blocksFor kVecsPerBlock
  omega

lemma Sized.alphas_lt {ls : LeafState} {count : ℕ} (h : Sized T ls count) : ls.nAlphas < 2 ^ 32 := by
  rw [h.2.1]
  split
  · exact h.2.2
  · norm_num

lemma length_blockBytes (ls : LeafState) : (ls.blockBytes T).length = ls.nBlocks * T.pm.blockBytes := by
  rw [LeafState.blockBytes, length_peek]

lemma replayRecord_eq {counts : List ℕ} (blocksOff alphaOff : ℕ) {leaf count : ℕ} {ls : LeafState}
    (hleaf : leaf < 2 ^ 32) (hcount : counts[leaf]? = some count) (hls : Sized T ls count)
    (blob rest : List UInt8) :
    replayRecord T counts blocksOff alphaOff leaf blob ((spillRecord T leaf ls).flatten ++ rest) =
      before rest (placeLeaf T counts blocksOff alphaOff leaf ls blob) := by
  obtain ⟨hb, ha, hc⟩ := hls
  have hfit : ¬ (ls.nBlocks < blocks32 count ∨ ¬ T.pm.pv ∧ ls.nAlphas ≠ 0 ∨
      T.pm.pv ∧ ls.nAlphas < count) := by
    have := blocks32_le count
    rintro (h | ⟨hpv, h⟩ | ⟨hpv, h⟩)
    · omega
    · rw [ha, if_neg hpv] at h
      exact h rfl
    · rw [ha, if_pos hpv] at h
      omega
  have hrec : (ls.blockBytes T ++ leafAlphas ls ls.nAlphas).length =
      ls.nBlocks * T.pm.blockBytes + ls.nAlphas * 2 := by
    rw [List.length_append, length_blockBytes, length_leafAlphas, mul_comm 2]
  have htake : (ls.blockBytes T ++ leafAlphas ls ls.nAlphas).take (ls.nBlocks * T.pm.blockBytes) =
      ls.blockBytes T := by
    rw [← length_blockBytes, List.take_left]
  have hdrop : (ls.blockBytes T ++ leafAlphas ls ls.nAlphas).drop (ls.nBlocks * T.pm.blockBytes) =
      leafAlphas ls ls.nAlphas := by
    rw [← length_blockBytes, List.drop_left]
  unfold replayRecord spillRecord
  simp only [List.flatten_cons, List.flatten_nil, List.append_nil, List.append_assoc]
  rw [Reader.bind_of_ok (Reader.reads_word shortRead (by omega) _),
    Reader.bind_of_ok (Reader.reads_word shortRead (by rw [hb]; exact blocksFor_lt hc) _),
    Reader.bind_of_ok (Reader.reads_word shortRead (Sized.alphas_lt ⟨hb, ha, hc⟩) _)]
  simp only [ne_eq, not_true_eq_false, if_false, hcount, if_neg hfit]
  rw [← List.append_assoc, Reader.bind_of_ok (Reader.reads_take shortRead hrec _), htake, hdrop]
  unfold placeLeaf
  cases hcopy : copyInto blob (blocksOff + blocksPrefix T counts leaf) (ls.blockBytes T) with
  | error e =>
    rw [Reader.bind_of_error (e := e) rfl]
    rfl
  | ok blob' =>
    have hlift : (liftCopy (.ok blob') : Reader WriterError (List UInt8)) rest = .ok (blob', rest) := rfl
    rw [Reader.bind_of_ok hlift]
    by_cases hpv : T.pm.pv = true
    · have htrim : (leafAlphas ls ls.nAlphas).take (count * 2) = leafAlphas ls ls.nAlphas := by
        rw [List.take_of_length_le]
        rw [length_leafAlphas, ha, if_pos hpv]
        omega
      simp only [hpv, if_true, htrim]
      cases copyInto blob' (alphaOff + alphaPrefix T counts leaf) (leafAlphas ls ls.nAlphas) <;> rfl
    · simp only [hpv]
      rfl

/-- **The replay** places leaf after leaf. -/
lemma replay_eq {counts : List ℕ} (blocksOff alphaOff : ℕ) (hlen : counts.length ≤ 2 ^ 32)
    (sts : List LeafState) : ∀ (l : ℕ) (blob : List UInt8),
    List.Forall₂ (Sized T) sts (counts.drop l) → l ≤ counts.length →
    replay T counts blocksOff alphaOff sts.length l blob
        (((sts.zipIdx l).map fun x => (spillRecord T x.2 x.1).flatten).flatten) =
      before [] (placeLeaves T counts blocksOff alphaOff l sts blob) := by
  induction sts with
  | nil =>
    intro l blob hsized hl
    have hend : l = counts.length := by
      have := hsized.length_eq
      rw [List.length_nil, List.length_drop] at this
      omega
    simp only [List.length_nil, replay, hend, ne_eq, not_true_eq_false, if_false]
    rfl
  | cons ls sts ih =>
    intro l blob hsized hl
    cases hdrop : counts.drop l with
    | nil =>
      rw [hdrop] at hsized
      cases hsized
    | cons count rest =>
      rw [hdrop] at hsized
      obtain ⟨hhead, htail⟩ := List.forall₂_cons.mp hsized
      have hcount : counts[l]? = some count := by
        rw [← List.head?_drop, hdrop]
        rfl
      have hrest : counts.drop (l + 1) = rest := by
        rw [← List.drop_drop, hdrop]
        rfl
      have hlt := (List.getElem?_eq_some_iff.mp hcount).1
      rw [List.zipIdx_cons, List.map_cons, List.flatten_cons, List.length_cons, replay, placeLeaves]
      have hrec := replayRecord_eq blocksOff alphaOff
        (lt_of_lt_of_le hlt hlen) hcount hhead blob
        (((sts.zipIdx (l + 1)).map fun x => (spillRecord T x.2 x.1).flatten).flatten)
      cases hplace : placeLeaf T counts blocksOff alphaOff l ls blob with
      | error e =>
        rw [hplace] at hrec
        exact Reader.bind_of_error hrec
      | ok blob' =>
        rw [hplace] at hrec
        rw [Reader.bind_of_ok hrec]
        exact ih (l + 1) blob' (by rwa [hrest]) hlt

/-! ### The places -/

lemma length_header (h : PlaneHeader) : h.bytes.length = kPlaneHeader := by
  simp [PlaneHeader.bytes, kPlaneHeader]

lemma length_blobFront (counts : List ℕ) :
    (blobFront T counts).length = (blobHeader T counts).alphaOff := by
  simp only [blobFront, List.length_append, length_header, T.basis_length, T.mean_length, blobHeader]

lemma length_factors (leaves : List (List Proj)) :
    (leaves.flatMap (leafFactors T)).length = alphaBytesOf T (countsOf leaves) := by
  induction leaves with
  | nil => simp [alphaBytesOf, countsOf]
  | cons members leaves ih =>
    rw [List.flatMap_cons, List.length_append, ih, length_leafFactors]
    unfold alphaBytesOf countsOf
    split
    · simp
    · rfl

def runBytes (T : Trained) (counts : List ℕ) : ℕ :=
  (counts.map fun c => blocksFor c * T.pm.blockBytes).sum

lemma length_runs (leaves : List (List Proj)) :
    (leaves.flatMap (leafRun T)).length = runBytes T (countsOf leaves) := by
  induction leaves with
  | nil => simp [runBytes, countsOf]
  | cons members leaves ih =>
    rw [List.flatMap_cons, List.length_append, ih, length_leafRun]
    simp [runBytes, countsOf]

lemma nBlocksOf_mul {counts : List ℕ} (h : ∀ c ∈ counts, RunFits T c) :
    nBlocksOf counts * T.pm.blockBytes = runBytes T counts := by
  rw [nBlocksOf, ← List.sum_map_mul_right, runBytes]
  exact congrArg List.sum (List.map_congr_left h)

lemma blocksPrefix_eq {counts : List ℕ} {l : ℕ} (hfits : ∀ c ∈ counts.take l, RunFits T c)
    (h : ∀ c ∈ counts.take l, blocksFor c * T.pm.blockBytes < 2 ^ 32) :
    blocksPrefix T counts l = runBytes T (counts.take l) := by
  unfold blocksPrefix runBytes
  refine congrArg List.sum (List.map_congr_left fun c hc => ?_)
  rw [hfits c hc, Nat.mod_eq_of_lt (h c hc)]

lemma copyInto_middle (xs : List UInt8) {ys zs : List UInt8} (h : ys.length = zs.length)
    (ws : List UInt8) {off : ℕ} (hoff : off = xs.length) :
    copyInto (xs ++ (zs ++ ws)) off ys = .ok (xs ++ (ys ++ ws)) := by
  have hin : off + ys.length ≤ (xs ++ (zs ++ ws)).length := by
    simp only [List.length_append]
    omega
  rw [copyInto, if_pos hin, hoff, Slice.overwrite_middle 0 xs h]

/-- The blob with the leaves in front in it. -/
def blobAfter (T : Trained) (front : List UInt8) (done todo : List (List Proj)) : List UInt8 :=
  front ++ ((done.flatMap (leafFactors T) ++ List.replicate (todo.flatMap (leafFactors T)).length 0) ++
    (done.flatMap (leafRun T) ++ List.replicate (todo.flatMap (leafRun T)).length 0))

lemma alphas_encodeLeaf (hpv : T.pm.pv = true) (members : List Proj) :
    leafAlphas (encodeLeaf T.codec T.pm members) (encodeLeaf T.codec T.pm members).nAlphas =
      leafFactors T members := by
  rw [leafFactors, if_pos hpv, (sizes_encodeLeaf members).2, if_pos hpv]

lemma placeLeaf_next (front : List UInt8) {done todo : List (List Proj)} {members : List Proj}
    {counts : List ℕ} (hcounts : counts = countsOf (done ++ members :: todo))
    (hplace : blocksPrefix T counts done.length = (done.flatMap (leafRun T)).length) :
    placeLeaf T counts (front.length + alphaBytesOf T counts) front.length done.length
        (encodeLeaf T.codec T.pm members) (blobAfter T front done (members :: todo)) =
      .ok (blobAfter T front (done ++ [members]) todo) := by
  have hcopy : copyInto (blobAfter T front done (members :: todo))
      (front.length + alphaBytesOf T counts + blocksPrefix T counts done.length)
      ((encodeLeaf T.codec T.pm members).blockBytes T) =
      .ok (front ++ (done.flatMap (leafFactors T) ++
          List.replicate ((members :: todo).flatMap (leafFactors T)).length 0) ++
        done.flatMap (leafRun T) ++ (leafRun T members ++
          List.replicate (todo.flatMap (leafRun T)).length 0)) := by
    have hshape : blobAfter T front done (members :: todo) =
        front ++ (done.flatMap (leafFactors T) ++
            List.replicate ((members :: todo).flatMap (leafFactors T)).length 0) ++
          done.flatMap (leafRun T) ++ (List.replicate (leafRun T members).length 0 ++
            List.replicate (todo.flatMap (leafRun T)).length 0) := by
      rw [← List.replicate_add, ← List.length_append, ← List.flatMap_cons, blobAfter]
      simp only [List.append_assoc]
    rw [hshape]
    refine copyInto_middle _ (List.length_replicate).symm _ ?_
    simp only [List.length_append, List.length_replicate, hplace]
    rw [hcounts, ← length_factors, List.flatMap_append, List.length_append]
  unfold placeLeaf
  rw [hcopy]
  by_cases hpv : T.pm.pv = true
  · rw [alphas_encodeLeaf hpv]
    have hshape : front ++ (done.flatMap (leafFactors T) ++
          List.replicate ((members :: todo).flatMap (leafFactors T)).length 0) ++
        done.flatMap (leafRun T) ++ (leafRun T members ++
          List.replicate (todo.flatMap (leafRun T)).length 0) =
        front ++ done.flatMap (leafFactors T) ++ (List.replicate (leafFactors T members).length 0 ++
          (List.replicate (todo.flatMap (leafFactors T)).length 0 ++ (done.flatMap (leafRun T) ++
            (leafRun T members ++ List.replicate (todo.flatMap (leafRun T)).length 0)))) := by
      rw [List.flatMap_cons, List.length_append, List.replicate_add]
      simp only [List.append_assoc]
    simp only [hpv, if_true]
    rw [hshape, copyInto_middle _ (List.length_replicate).symm]
    · simp [blobAfter]
    · rw [List.length_append, length_factors, alphaPrefix, hcounts]
      simp [countsOf]
  · have hnil : ∀ x, leafFactors T x = [] := fun x => if_neg hpv
    simp [hpv, blobAfter, hnil]

/-- **The replayed blob** when no run in front of the last leaf is too long. -/
lemma placeLeaves_spec (front : List UInt8) {counts : List ℕ} (todo : List (List Proj)) :
    ∀ done : List (List Proj), counts = countsOf (done ++ todo) →
      (∀ l < counts.length, blocksPrefix T counts l = runBytes T (counts.take l)) →
      placeLeaves T counts (front.length + alphaBytesOf T counts) front.length done.length
          (todo.map (encodeLeaf T.codec T.pm)) (blobAfter T front done todo) =
        .ok (blobAfter T front (done ++ todo) []) := by
  induction todo with
  | nil =>
    intro done _ _
    rw [List.append_nil]
    rfl
  | cons members todo ih =>
    intro done hcounts hplaces
    have hlt : done.length < counts.length := by
      rw [hcounts, countsOf, List.length_map, List.length_append, List.length_cons]
      omega
    have hplace : blocksPrefix T counts done.length = (done.flatMap (leafRun T)).length := by
      rw [hplaces _ hlt, length_runs, hcounts]
      simp [countsOf]
    rw [List.map_cons, placeLeaves, placeLeaf_next front hcounts hplace]
    have := ih (done ++ [members]) (by rw [hcounts, List.append_assoc]; rfl) hplaces
    simpa using this

lemma spillBytes_eq {groups : List (List SlotWrite)} {sts : List LeafState}
    (h : groups.map (stateOf T) = sts) :
    spillBytes T groups = ((sts.zipIdx 0).map fun x => (spillRecord T x.2 x.1).flatten).flatten := by
  rw [← h, List.zipIdx_map, List.map_map]
  rfl

lemma sized_leaves (leaves : List (List Proj)) (h : ∀ members ∈ leaves, members.length < 2 ^ 32) :
    List.Forall₂ (Sized T) (leaves.map (encodeLeaf T.codec T.pm)) (countsOf leaves) := by
  induction leaves with
  | nil => exact .nil
  | cons members leaves ih =>
    obtain ⟨hb, ha⟩ := @sizes_encodeLeaf T.codec T.pm members
    exact .cons ⟨hb, ha, h members List.mem_cons_self⟩
      (ih fun x hx => h x (List.mem_cons_of_mem members hx))

def blankBlob (T : Trained) (counts : List ℕ) : List UInt8 :=
  blobFront T counts ++
    List.replicate ((blobHeader T counts).alphaBytes + (blobHeader T counts).blocksBytes) 0

lemma finalizeBlob_spilled {w : PlaneWriter} {sp : Spill} {groups : List (List SlotWrite)}
    {leaves : List (List Proj)} (hspill : w.spill = some sp)
    (hcont : sp.contents = spillBytes T groups) (hrecs : sp.nRecs = groups.length)
    (hgroups : groups.map (stateOf T) = leaves.map (encodeLeaf T.codec T.pm))
    (hlen : leaves.length ≤ 2 ^ 32) (hcounts : ∀ members ∈ leaves, members.length < 2 ^ 32) :
    finalizeBlob T w (countsOf leaves) =
      placeLeaves T (countsOf leaves) (blobHeader T (countsOf leaves)).blocksOff
        (blobHeader T (countsOf leaves)).alphaOff 0 (leaves.map (encodeLeaf T.codec T.pm))
        (blankBlob T (countsOf leaves)) := by
  have hn : sp.nRecs = (leaves.map (encodeLeaf T.codec T.pm)).length := by
    rw [hrecs, ← hgroups, List.length_map]
  have hlen' : (countsOf leaves).length ≤ 2 ^ 32 := by rwa [countsOf, List.length_map]
  have hreplay := replay_eq (T := T) (blobHeader T (countsOf leaves)).blocksOff
    (blobHeader T (countsOf leaves)).alphaOff hlen'
    (leaves.map (encodeLeaf T.codec T.pm)) 0 (blankBlob T (countsOf leaves))
    (sized_leaves leaves hcounts) (Nat.zero_le _)
  rw [← spillBytes_eq hgroups, ← hcont, ← hn] at hreplay
  simp only [finalizeBlob, hspill]
  rw [Spill.contents_flush]
  rw [blankBlob] at hreplay ⊢
  rw [hreplay]
  cases placeLeaves T (countsOf leaves) (blobHeader T (countsOf leaves)).blocksOff
    (blobHeader T (countsOf leaves)).alphaOff 0 (leaves.map (encodeLeaf T.codec T.pm)) _ <;> rfl

/-! ### The last leaf behind a run that is too long -/

lemma copyInto_zero {blob blob' b : List UInt8} {off x : ℕ} (h : copyInto blob off b = .ok blob')
    (hx : blob[x]? = some 0) (hb : off ≤ x → x < off + b.length → b[x - off]? = some 0) :
    blob'[x]? = some 0 := by
  unfold copyInto at h
  split at h
  · rename_i hin
    cases h
    rw [Slice.getElem?_overwrite 0 hin]
    split
    · rename_i hr
      exact hb hr.1 hr.2
    · exact hx
  · cases h

lemma placeLeaf_zero {counts : List ℕ} {blocksOff alphaOff leaf x : ℕ} {ls : LeafState}
    {blob blob' : List UInt8}
    (h : placeLeaf T counts blocksOff alphaOff leaf ls blob = .ok blob') (hx : blob[x]? = some 0)
    (hblocks : ∀ i, blocksOff + blocksPrefix T counts leaf + i = x → i < ls.nBlocks * T.pm.blockBytes →
      ls.blocks i = 0)
    (halphas : T.pm.pv = true → alphaOff + alphaPrefix T counts leaf + ls.nAlphas * 2 ≤ x) :
    blob'[x]? = some 0 := by
  unfold placeLeaf at h
  cases hcopy : copyInto blob (blocksOff + blocksPrefix T counts leaf) (ls.blockBytes T) with
  | error e =>
    rw [hcopy] at h
    cases h
  | ok mid =>
    have hmid : mid[x]? = some 0 := by
      refine copyInto_zero hcopy hx fun hlo hhi => ?_
      rw [length_blockBytes] at hhi
      have hzero := hblocks (x - (blocksOff + blocksPrefix T counts leaf)) (by omega) (by omega)
      rw [LeafState.blockBytes, peek, List.getElem?_map, List.getElem?_range (by omega)]
      simp only [Option.map_some, Nat.zero_add, hzero]
    simp only [hcopy] at h
    by_cases hpv : T.pm.pv = true
    · rw [if_pos hpv] at h
      refine copyInto_zero h hmid fun hlo hhi => ?_
      rw [length_leafAlphas] at hhi
      have := halphas hpv
      omega
    · rw [if_neg hpv] at h
      cases h
      exact hmid

lemma placeLeaves_zero {counts : List ℕ} {blocksOff alphaOff x : ℕ} (sts : List LeafState) :
    ∀ (l : ℕ) (blob blob' : List UInt8),
      placeLeaves T counts blocksOff alphaOff l sts blob = .ok blob' → blob[x]? = some 0 →
      (∀ j ls, sts[j]? = some ls → ∀ i, blocksOff + blocksPrefix T counts (l + j) + i = x →
        i < ls.nBlocks * T.pm.blockBytes → ls.blocks i = 0) →
      (∀ j ls, sts[j]? = some ls → T.pm.pv = true →
        alphaOff + alphaPrefix T counts (l + j) + ls.nAlphas * 2 ≤ x) →
      blob'[x]? = some 0 := by
  induction sts with
  | nil =>
    intro l blob blob' h hx _ _
    cases h
    exact hx
  | cons ls sts ih =>
    intro l blob blob' h hx hblocks halphas
    rw [placeLeaves] at h
    cases hplace : placeLeaf T counts blocksOff alphaOff l ls blob with
    | error e =>
      rw [hplace] at h
      cases h
    | ok mid =>
      rw [hplace] at h
      have hmid := placeLeaf_zero hplace hx (hblocks 0 ls rfl) (halphas 0 ls rfl)
      refine ih (l + 1) mid blob' h hmid (fun j st hj => ?_) fun j st hj => ?_
      · have := hblocks (j + 1) st hj
        rwa [show l + (j + 1) = l + 1 + j by omega] at this
      · have := halphas (j + 1) st hj
        rwa [show l + (j + 1) = l + 1 + j by omega] at this

end SextantTree.Plane
