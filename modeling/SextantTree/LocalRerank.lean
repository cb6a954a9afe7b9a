import SextantTree.LocalDecode

/-!
`LocalPqCoder::rerank` on one thread. Without a setup it goes through a quantizer that all coders of
the thread share: it is made in the shape of the first of them, and keeps its codebook as long as the
address of the leaf does not change. Calls are right as long as that quantizer has the shape of the
coder and the buffer at that address is still the one its codebook came from.
-/

namespace SextantTree.LocalPq

open ByteMem LeafCodes PackedCells

/-! ### The thread -/

/-- `LocalPqCoder::Setup`, with the coder that made it. `fresh` is not in the source: the buffer is as
it was when the leaf was bound. -/
structure Setup where
  coder : LocalPqCoder
  boundLeaf : Option ℕ := none
  leafQ : PqQuantizer
  fresh : Bool := false

/-- Leaf buffers by address, setups by number, `g_rerank_ctx` and the vector `code` of `rerank_with`.
`fresh` is not in the source: the buffer at `lastLeaf` is as it was when its codebook was taken. -/
structure Thread where
  heap : ℕ → Mem
  setups : ℕ → Option Setup := fun _ => none
  quant : Option PqQuantizer := none
  lastLeaf : Option ℕ := none
  code : Mem := fun _ => 0
  codeLen : ℕ := 0
  fresh : Bool := false

/-- The calls of a thread, and buffers that get other bytes between them. -/
inductive Call where
  | fill (addr : ℕ) (bytes : Mem)
  | scanSetup (id : ℕ) (c : LocalPqCoder)
  | bindLeaf (id addr : ℕ)
  | rerank (c : LocalPqCoder) (query : List ℕ) (addr localIdx : ℕ)
  | rerankSetup (query : List ℕ) (id addr localIdx : ℕ)

def LocalPqCoder.newQuantizer (c : LocalPqCoder) : PqQuantizer :=
  { dim := c.dim, m := c.m4, bits := c.bits }

/-- `set_codebook_data` from a leaf. -/
def PqQuantizer.ofLeaf (q : PqQuantizer) (leaf : Mem) : PqQuantizer :=
  q.setCodebookData leaf (word leaf 4 96)

namespace Thread

def fill (t : Thread) (addr : ℕ) (bytes : Mem) : Thread :=
  { t with
    heap := Function.update t.heap addr bytes
    setups := fun id => (t.setups id).map fun s =>
      if s.boundLeaf = some addr then { s with fresh := false } else s
    fresh := if t.lastLeaf = some addr then false else t.fresh }

/-- `scan_setup`, without the tables of the scan. -/
def scanSetup (t : Thread) (id : ℕ) (c : LocalPqCoder) : Thread :=
  { t with
    setups := Function.update t.setups id (some { coder := c, leafQ := c.newQuantizer }) }

/-- `bind_leaf`, without the tables of the scan. -/
def bindLeaf (t : Thread) (id addr : ℕ) : Thread :=
  { t with
    setups := Function.update t.setups id ((t.setups id).map fun s =>
      { s with boundLeaf := some addr, leafQ := s.leafQ.ofLeaf (t.heap addr), fresh := true }) }

section Platform

variable (fl : FloatUnit) (distance : (innerProduct : Bool) → (query decoded : List ℕ) → ℕ)

/-- `rerank_with`. The vector `code` keeps what it has from earlier calls. -/
def rerankWith (t : Thread) (c : LocalPqCoder) (query : List ℕ) (addr localIdx : ℕ) (q : PqQuantizer) :
    Thread × ℕ :=
  let leaf := t.heap addr
  let m4 := word leaf 2 24
  let bits := word leaf 1 26
  let resized : Mem := fun i => if i < t.codeLen then t.code i else 0
  let code := extractCodeFromLeaf leaf localIdx m4 bits (c.codesOff leaf) 0 resized
  ({ t with code := code, codeLen := codeSize m4 bits },
    distance c.innerProduct query (c.addCentroid fl (q.decodeCode code) leaf))

/-- `rerank` without a setup. -/
def rerank (t : Thread) (c : LocalPqCoder) (query : List ℕ) (addr localIdx : ℕ) : Thread × ℕ :=
  if t.lastLeaf ≠ some addr ∨ t.quant = none then
    let q := (t.quant.getD c.newQuantizer).ofLeaf (t.heap addr)
    rerankWith fl distance { t with lastLeaf := some addr, quant := some q, fresh := true } c query
      addr localIdx q
  else rerankWith fl distance t c query addr localIdx (t.quant.getD c.newQuantizer)

/-- `rerank` with a setup. -/
def rerankSetup (t : Thread) (s : Setup) (query : List ℕ) (addr localIdx : ℕ) : Thread × ℕ :=
  if s.boundLeaf = some addr then rerankWith fl distance t s.coder query addr localIdx s.leafQ
  else t.rerank fl distance s.coder query addr localIdx

def step (t : Thread) : Call → Thread × Option ℕ
  | .fill addr bytes => (t.fill addr bytes, none)
  | .scanSetup id c => (t.scanSetup id c, none)
  | .bindLeaf id addr => (t.bindLeaf id addr, none)
  | .rerank c query addr localIdx =>
    ((t.rerank fl distance c query addr localIdx).1,
      some (t.rerank fl distance c query addr localIdx).2)
  | .rerankSetup query id addr localIdx =>
    match t.setups id with
    | none => (t, none)
    | some s => ((t.rerankSetup fl distance s query addr localIdx).1,
        some (t.rerankSetup fl distance s query addr localIdx).2)

end Platform

end Thread

/-! ### What a distance should be -/

structure LocalPqCoder.OwnLeaf (c : LocalPqCoder) (leaf : Mem) : Prop where
  header : ∃ count, c.Header leaf count
  centroidOff : word leaf 4 92 = localCentroidOffset (summarySize c.schema)
  codebookOff : word leaf 4 96 = localCodebookOffset (summarySize c.schema) c.dim

/-- The distance to the centroid of a leaf plus the codewords that its own codebook has for the code
of a slot. -/
def LocalPqCoder.ownDistance (c : LocalPqCoder) (fl : FloatUnit)
    (distance : (innerProduct : Bool) → (query decoded : List ℕ) → ℕ) (query : List ℕ) (leaf : Mem)
    (localIdx : ℕ) : ℕ :=
  distance c.innerProduct query (c.vectorOf fl
    (fun k => leaf (localCentroidOffset (summarySize c.schema) + k))
    (fun k => leaf (localCodebookOffset (summarySize c.schema) c.dim + k))
    fun s => cell (widthOf c.bits) leaf (laneAddr c.bits c.m4 c.base localIdx s))

namespace Thread

def expected (fl : FloatUnit) (distance : (innerProduct : Bool) → (query decoded : List ℕ) → ℕ)
    (t : Thread) : Call → Option ℕ
  | .rerank c query addr localIdx => some (c.ownDistance fl distance query (t.heap addr) localIdx)
  | .rerankSetup query id addr localIdx => (t.setups id).map fun s =>
      s.coder.ownDistance fl distance query (t.heap addr) localIdx
  | _ => none

/-- The shared quantizer has the shape of the coder, and if its codebook is from this address the
buffer is still the same. -/
def CacheOk (t : Thread) (c : LocalPqCoder) (addr : ℕ) : Prop :=
  ∀ q, t.quant = some q → q.dim = c.dim ∧ q.m = c.m4 ∧ q.bits = c.bits ∧
    (t.lastLeaf = some addr → t.fresh = true)

/-- What a call needs: a leaf of its coder, a binding that is repeated after the buffer changes, and
where the shared quantizer is used that it fits. -/
def Meets (t : Thread) : Call → Prop
  | .rerank c _ addr _ => c.OwnLeaf (t.heap addr) ∧ t.CacheOk c addr
  | .rerankSetup _ id addr _ => ∀ s, t.setups id = some s → s.coder.OwnLeaf (t.heap addr) ∧
      if s.boundLeaf = some addr then s.fresh = true else t.CacheOk s.coder addr
  | _ => True

variable (fl : FloatUnit) (distance : (innerProduct : Bool) → (query decoded : List ℕ) → ℕ)

def MeetsAll (t : Thread) : List Call → Prop
  | [] => True
  | call :: calls => t.Meets call ∧ MeetsAll (t.step fl distance call).1 calls

/-- All calls of a run return what they should. -/
def RightRun (t : Thread) : List Call → Prop
  | [] => True
  | call :: calls => (t.step fl distance call).2 = t.expected fl distance call ∧
      RightRun (t.step fl distance call).1 calls

end Thread

/-! ### Calls -/

section Calls

variable {fl : FloatUnit} {distance : (innerProduct : Bool) → (query decoded : List ℕ) → ℕ}
  {c : LocalPqCoder} {leaf : Mem}

lemma LocalPqCoder.OwnLeaf.framed (h : c.OwnLeaf leaf) : ∃ count, c.Framed leaf count
    (fun k => leaf (localCentroidOffset (summarySize c.schema) + k))
    (fun k => leaf (localCodebookOffset (summarySize c.schema) c.dim + k)) := by
  obtain ⟨count, hheader⟩ := h.header
  exact ⟨count, hheader, h.centroidOff, h.codebookOff, fun _ _ => rfl, fun _ _ => rfl⟩

lemma rerankWith_entries {t : Thread} {addr count : ℕ} {centroid codebook : Mem}
    (hf : c.Framed (t.heap addr) count centroid codebook) (cb : Mem) (query : List ℕ) (localIdx : ℕ) :
    (t.rerankWith fl distance c query addr localIdx
      { c.newQuantizer with codebook := c.entries cb }).2 =
      distance c.innerProduct query (c.vectorOf fl centroid cb fun s =>
        cell (widthOf c.bits) (t.heap addr) (laneAddr c.bits c.m4 c.base localIdx s)) := by
  simp only [Thread.rerankWith, hf.header.m4, hf.header.bits, hf.codesOff_eq]
  congr 1
  exact hf.addCentroid_entries
    (fun s hs => LocalPqCoder.readCode_extract c.bitsOk c.m4 c.base localIdx _ _ hs)
    fun s hs => LocalPqCoder.toNat_cell_lt c.bitsOk _ _

lemma rerankWith_right (t : Thread) (query : List ℕ) (addr localIdx : ℕ)
    (h : c.OwnLeaf (t.heap addr)) :
    (t.rerankWith fl distance c query addr localIdx (c.newQuantizer.ofLeaf (t.heap addr))).2 =
      c.ownDistance fl distance query (t.heap addr) localIdx := by
  obtain ⟨count, hf⟩ := h.framed
  have hq := hf.setCodebookData_eq
  rw [LocalPqCoder.newQuantizer, PqQuantizer.ofLeaf, hq]
  exact rerankWith_entries hf _ query localIdx

end Calls

namespace Thread

/-- What holds in every state of a run: a setup that is fresh has the codebook of the leaf it is bound
to, and so has the shared quantizer for the leaf of the last call. -/
structure Inv (t : Thread) : Prop where
  setups : ∀ id s, t.setups id = some s →
    (∃ b, s.leafQ = { s.coder.newQuantizer with codebook := b }) ∧
    ∀ addr, s.boundLeaf = some addr → s.fresh = true →
      s.leafQ = s.coder.newQuantizer.ofLeaf (t.heap addr)
  cache : ∀ q addr, t.quant = some q → t.lastLeaf = some addr → t.fresh = true →
    q = ({ q with codebook := [] } : PqQuantizer).ofLeaf (t.heap addr)

variable {fl : FloatUnit} {distance : (innerProduct : Bool) → (query decoded : List ℕ) → ℕ}
  {t : Thread}

lemma inv_start (heap : ℕ → Mem) : Inv { heap := heap } :=
  ⟨fun _ _ h => (by cases h), fun _ _ h => (by cases h)⟩

lemma inv_fill (h : t.Inv) (addr : ℕ) (bytes : Mem) : (t.fill addr bytes).Inv := by
  refine ⟨fun id s hs => ?_, fun q a hq ha hfresh => ?_⟩
  · simp only [fill, Option.map_eq_some_iff] at hs
    obtain ⟨s₀, hs₀, rfl⟩ := hs
    obtain ⟨hshape, hbound⟩ := h.setups id s₀ hs₀
    by_cases hb : s₀.boundLeaf = some addr
    · rw [if_pos hb]
      exact ⟨hshape, fun _ _ hf => by cases hf⟩
    · rw [if_neg hb]
      refine ⟨hshape, fun a ha hf => ?_⟩
      have hne : a ≠ addr := fun heq => hb (heq ▸ ha)
      simp only [fill, Function.update_of_ne hne]
      exact hbound a ha hf
  · simp only [fill] at hq ha hfresh
    split at hfresh
    · cases hfresh
    · rename_i hne
      have hne : a ≠ addr := fun heq => hne (heq ▸ ha)
      simp only [fill, Function.update_of_ne hne]
      exact h.cache q a hq ha hfresh

lemma inv_setup (h : t.Inv) (id : ℕ) {r : Option Setup}
    (hr : ∀ s, r = some s → (∃ b, s.leafQ = { s.coder.newQuantizer with codebook := b }) ∧
      ∀ addr, s.boundLeaf = some addr → s.fresh = true →
        s.leafQ = s.coder.newQuantizer.ofLeaf (t.heap addr)) :
    Inv { t with setups := Function.update t.setups id r } := by
  refine ⟨fun id' s hs => ?_, h.cache⟩
  by_cases hid : id' = id
  · subst hid
    exact hr s (by simpa only [Function.update_self] using hs)
  · exact h.setups id' s (by simpa only [Function.update_of_ne hid] using hs)

lemma inv_bindLeaf (h : t.Inv) (id addr : ℕ) : (t.bindLeaf id addr).Inv := by
  refine inv_setup h id fun s hs => ?_
  obtain ⟨s₀, hs₀, rfl⟩ := Option.map_eq_some_iff.mp hs
  obtain ⟨⟨b, hshape⟩, -⟩ := h.setups id s₀ hs₀
  refine ⟨⟨_, by rw [hshape]; rfl⟩, fun a ha _ => ?_⟩
  obtain rfl : addr = a := Option.some.inj ha
  rw [hshape]
  rfl

lemma inv_rerankWith (h : t.Inv) (c : LocalPqCoder) (query : List ℕ) (addr localIdx : ℕ)
    (q : PqQuantizer) : (t.rerankWith fl distance c query addr localIdx q).1.Inv := ⟨h.setups, h.cache⟩

lemma inv_rerank (h : t.Inv) (c : LocalPqCoder) (query : List ℕ) (addr localIdx : ℕ) :
    (t.rerank fl distance c query addr localIdx).1.Inv := by
  unfold rerank
  split
  · have hfilled : Inv { t with
        lastLeaf := some addr
        quant := some ((t.quant.getD c.newQuantizer).ofLeaf (t.heap addr))
        fresh := true } := by
      refine ⟨h.setups, fun q a hq ha _ => ?_⟩
      obtain rfl := Option.some.inj hq
      obtain rfl : addr = a := Option.some.inj ha
      rfl
    exact inv_rerankWith hfilled c query addr localIdx _
  · exact inv_rerankWith h c query addr localIdx _

lemma rerank_right (h : t.Inv) {c : LocalPqCoder} (query : List ℕ) {addr : ℕ} (localIdx : ℕ)
    (hown : c.OwnLeaf (t.heap addr)) (hcache : t.CacheOk c addr) :
    (t.rerank fl distance c query addr localIdx).2 =
      c.ownDistance fl distance query (t.heap addr) localIdx := by
  unfold rerank
  split
  · -- The codebook is taken from the leaf, into a quantizer of the shape of the coder.
    have hq : (t.quant.getD c.newQuantizer).ofLeaf (t.heap addr) =
        c.newQuantizer.ofLeaf (t.heap addr) := by
      cases hquant : t.quant with
      | none => rfl
      | some q =>
        obtain ⟨h₁, h₂, h₃, -⟩ := hcache q hquant
        simp only [Option.getD_some, PqQuantizer.ofLeaf, PqQuantizer.setCodebookData, PqQuantizer.K,
          PqQuantizer.subDim, LocalPqCoder.newQuantizer, h₁, h₂, h₃]
    simp only [hq]
    exact rerankWith_right _ query addr localIdx hown
  · rename_i hhit
    rw [not_or, not_not] at hhit
    obtain ⟨hlast, hsome⟩ := hhit
    obtain ⟨q, hquant⟩ := Option.ne_none_iff_exists'.mp hsome
    obtain ⟨h₁, h₂, h₃, hfresh⟩ := hcache q hquant
    have hq := h.cache q addr hquant hlast (hfresh hlast)
    have hq' : q = c.newQuantizer.ofLeaf (t.heap addr) := by
      rw [hq]
      simp only [PqQuantizer.ofLeaf, PqQuantizer.setCodebookData, PqQuantizer.K, PqQuantizer.subDim,
        LocalPqCoder.newQuantizer, h₁, h₂, h₃]
    rw [hquant, Option.getD_some, hq']
    exact rerankWith_right t query addr localIdx hown

/-- **One call**: it returns what it should, and the invariant stays. -/
lemma step_right (h : t.Inv) (call : Call) (hmeets : t.Meets call) :
    (t.step fl distance call).2 = t.expected fl distance call ∧ (t.step fl distance call).1.Inv := by
  cases call with
  | fill addr bytes => exact ⟨rfl, inv_fill h addr bytes⟩
  | scanSetup id c =>
    refine ⟨rfl, inv_setup h id fun s hs => ?_⟩
    obtain rfl := Option.some.inj hs
    exact ⟨⟨[], rfl⟩, fun _ hb => by cases hb⟩
  | bindLeaf id addr => exact ⟨rfl, inv_bindLeaf h id addr⟩
  | rerank c query addr localIdx =>
    exact ⟨congrArg some (rerank_right h query localIdx hmeets.1 hmeets.2),
      inv_rerank h c query addr localIdx⟩
  | rerankSetup query id addr localIdx =>
    simp only [step, expected]
    cases hs : t.setups id with
    | none => exact ⟨rfl, h⟩
    | some s =>
      obtain ⟨hown, hcond⟩ := hmeets s hs
      simp only [Option.map_some, Option.some.injEq, rerankSetup]
      split at hcond
      · rename_i hbound
        rw [if_pos hbound]
        refine ⟨?_, inv_rerankWith h s.coder query addr localIdx s.leafQ⟩
        rw [(h.setups id s hs).2 addr hbound hcond]
        exact rerankWith_right t query addr localIdx hown
      · rename_i hbound
        rw [if_neg hbound]
        exact ⟨rerank_right h query localIdx hown hcond, inv_rerank h s.coder query addr localIdx⟩

/-- **Whole runs.** -/
lemma rightRun_of_meetsAll (h : t.Inv) (calls : List Call) (hall : t.MeetsAll fl distance calls) :
    t.RightRun fl distance calls := by
  induction calls generalizing t with
  | nil => trivial
  | cons call calls ih =>
    obtain ⟨hmeets, hrest⟩ := hall
    obtain ⟨hright, hinv⟩ := step_right h call hmeets
    exact ⟨hright, ih hinv hrest⟩

end Thread

/-- **The distance of a rerank depends on its arguments only**, in every run of calls on a thread in
which a binding is repeated after its buffer changes, and in which a call that uses the shared
quantizer finds it without a codebook from a replaced buffer and in the shape of its coder. -/
theorem local_rerank_right (fl : FloatUnit)
    (distance : (innerProduct : Bool) → (query decoded : List ℕ) → ℕ) (heap : ℕ → Mem)
    (calls : List Call) (hall : Thread.MeetsAll fl distance { heap := heap } calls) :
    Thread.RightRun fl distance { heap := heap } calls :=
  Thread.rightRun_of_meetsAll (Thread.inv_start heap) calls hall

/-- The squared distance of 0.0 to 0.0 or 1.0. -/
def firstFloat (_ : Bool) (_ decoded : List ℕ) : ℕ := decoded.getD 0 0

lemma ownLeaf_oneLeaf {c : LocalPqCoder} (hoff : c.OffsetsFit) : c.OwnLeaf c.oneLeaf := by
  obtain ⟨-, h⟩ := (LocalPqCoder.localLeaf_oneLeaf hoff).stored hoff
  exact ⟨⟨1, h.header⟩, h.centroidOff, h.codebookOff⟩

/-- A setup bound to the leaf at address 7, a call through it and one without it. -/
theorem local_rerank_right_bound :
    Thread.RightRun patternSum firstFloat { heap := fun _ => byteCoder.oneLeaf }
      [.scanSetup 0 byteCoder, .bindLeaf 0 7, .rerankSetup [0] 0 7 0, .rerank byteCoder [0] 7 0] := by
  refine local_rerank_right _ _ _ _ ⟨trivial, trivial, fun s hs => ?_, ⟨ownLeaf_oneLeaf byteCoder_offsetsFit, ?_⟩, trivial⟩
  · obtain rfl := Option.some.inj hs
    exact ⟨ownLeaf_oneLeaf byteCoder_offsetsFit, rfl⟩
  · intro q hq
    cases hq

def zeroLeaf : Mem :=
  (localFlush 1 1 8 0 1 (fun _ => 0) (fun _ => 0) LocalPqCoder.sixteenCode byteCoder.oneHeader).1

lemma stored_zeroLeaf : byteCoder.Stored zeroLeaf 1 1 (flushSegments 8 1 LocalPqCoder.sixteenCode)
    (fun _ => 0) fun _ => 0 :=
  (LocalPqCoder.LocalLeaf.flushed (c := byteCoder) (fun _ => 0) (fun _ => 0) LocalPqCoder.sixteenCode
    byteCoder.oneHeader 1 (by norm_num)
    (LocalPqCoder.header_oneHeader byteCoder_offsetsFit)).stored byteCoder_offsetsFit |>.2

lemma rerankWith_zeroLeaf (t : Thread) (ht : t.heap 7 = zeroLeaf) (cb : Mem) :
    (t.rerankWith patternSum firstFloat byteCoder [0] 7 0
      { byteCoder.newQuantizer with codebook := byteCoder.entries cb }).2 = floatAt cb 0 16 := by
  have hf := stored_zeroLeaf.toFramed
  rw [← ht] at hf
  have hlane := stored_zeroLeaf.lanes 0 (by norm_num) 0 (by decide)
  rw [rerankWith_entries hf, ht, LocalPqCoder.vectorOf_eq]
  have hid : cell (widthOf byteCoder.bits) zeroLeaf
      (laneAddr byteCoder.bits byteCoder.m4 byteCoder.base 0 (0 / (byteCoder.dim / byteCoder.m4))) =
      16 := hlane
  have hrange : List.range byteCoder.dim = [0] := rfl
  simp only [hrange, List.map_cons, List.map_nil, firstFloat, hid]
  exact Nat.add_zero _

/-- A leaf is read into the buffer of another one between two calls: the second distance is still that
of the first leaf. -/
theorem rerank_keeps_codebook :
    byteCoder.OwnLeaf byteCoder.oneLeaf ∧ byteCoder.OwnLeaf zeroLeaf ∧
    ¬ Thread.RightRun patternSum firstFloat { heap := fun _ => byteCoder.oneLeaf }
      [.rerank byteCoder [0] 7 0, .fill 7 zeroLeaf, .rerank byteCoder [0] 7 0] := by
  have hown : byteCoder.OwnLeaf zeroLeaf :=
    ⟨⟨1, stored_zeroLeaf.header⟩, stored_zeroLeaf.centroidOff, stored_zeroLeaf.codebookOff⟩
  refine ⟨ownLeaf_oneLeaf byteCoder_offsetsFit, hown, fun hright => ?_⟩
  set t := (Thread.step patternSum firstFloat (Thread.step patternSum firstFloat
    { heap := fun _ => byteCoder.oneLeaf } (.rerank byteCoder [0] 7 0)).1 (.fill 7 zeroLeaf)).1 with ht
  have hheap : t.heap 7 = zeroLeaf := by
    simp only [ht, Thread.step, Thread.fill, Function.update_self]
  -- The shared quantizer still has the codebook of the first leaf.
  have hquant : t.quant = some { byteCoder.newQuantizer with
      codebook := byteCoder.entries byteCoder.oneCodebook } :=
    congrArg some ((LocalPqCoder.localLeaf_oneLeaf byteCoder_offsetsFit).stored
      byteCoder_offsetsFit).2.setCodebookData_eq
  have hlast : t.lastLeaf = some 7 := rfl
  have hout : (t.rerank patternSum firstFloat byteCoder [0] 7 0).2 =
      byteCoder.ownDistance patternSum firstFloat [0] (t.heap 7) 0 := Option.some.inj hright.2.2.1
  have hstale : (t.rerank patternSum firstFloat byteCoder [0] 7 0).2 = 0x3F800000 := by
    rw [Thread.rerank, if_neg (by rw [hlast, hquant]; simp), hquant, Option.getD_some,
      rerankWith_zeroLeaf t hheap]
    exact byteCoder.floatAt_oneCodebook
  have hfresh : byteCoder.ownDistance patternSum firstFloat [0] (t.heap 7) 0 = 0 := by
    rw [← rerankWith_right t [0] 7 0 (by rw [hheap]; exact hown), hheap]
    have hq : byteCoder.newQuantizer.ofLeaf zeroLeaf =
        { byteCoder.newQuantizer with codebook := byteCoder.entries fun _ => 0 } :=
      stored_zeroLeaf.setCodebookData_eq
    rw [hq, rerankWith_zeroLeaf t hheap]
    decide
  rw [hstale, hfresh] at hout
  exact absurd hout (by norm_num)

end SextantTree.LocalPq
