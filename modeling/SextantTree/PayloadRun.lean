import SextantTree.PayloadOffsets
import SextantTree.RowConservation

/-!
Payloads along a run. An insert rewrites the payload extent of every leaf it appends to, vacuum and
defrag leave the extents alone, and leaves with payloads are neither split nor compacted; so what
`fetch_payload` returns for a row is what the row came with, as long as the extents stay small.
-/

namespace SextantTree

open Pages Alloc AllocInv AllocRun Heap FilterHash Outcome Stepwise

variable {s : Schema} {eng : Engine} {card : List (FilterRow s) → Bytes} {idx idx' : Index s}
  {c c' : Contents s} {file : TreeFile s} {b : BuildInput s} {ops : List (Op s)}

/-! ### Reading a payload -/

/-- `fetch_payload`; `none` is a read outside of the extent. -/
def fetchPayload (file : TreeFile s) (l : Leaf s) (slot : ℕ) : Option Bytes :=
  if l.payload.page = none ∨ l.payload.pages = 0 then some []
  else (readPayload file l.payload).bind fun bytes =>
    PushStage.fetchPayload (padded bytes) l.count slot

/-- What is told of a row, and its payload. -/
abbrev PaidRow (s : Schema) : Type := (RowId × FilterRow s) × Bytes

/-- The rows of a leaf, each with what `fetch_payload` returns for its slot. -/
def paidSlots (file : TreeFile s) (l : Leaf s) : Option (List (PaidRow s)) :=
  l.rows.zipIdx.mapM fun x => (fetchPayload file l x.2).map fun p => (x.1.bare, p)

/-- The rows reachable from the root with their payloads. -/
def filePaid (file : TreeFile s) : Option (Multiset (PaidRow s)) :=
  ((reachableLeaves file).bind fun ls => ls.mapM (paidSlots file)).map fun rows =>
    (rows.map fun l : List (PaidRow s) => (l : Multiset (PaidRow s))).sum

lemma fetchPayload_padded {ps : List Bytes} (h : payloadBytes ps < 2 ^ 32) {i : ℕ} {p : Bytes}
    (hi : ps[i]? = some p) : PushStage.fetchPayload (padded (payloadImage ps)) ps.length i = some p := by
  obtain ⟨o, ho, hslice⟩ := slice_offsets [] [] hi
  obtain ⟨tail, htail⟩ := drop_padded h
  have hlt := (List.getElem?_eq_some_iff.mp hi).1
  have hle : o + p.length ≤ ps.flatten.length := by
    unfold slice at hslice
    split_ifs at hslice with hin
    simpa using hin
  simp only [List.nil_append, List.append_nil] at hslice
  rw [PushStage.fetchPayload, if_neg (by omega), u32At_offset h ho, u32At_length h hi]
  simp only [bind, Option.bind]
  have hlen := congrArg List.length htail
  rw [List.length_drop, List.length_append] at hlen
  rw [slice, ← List.drop_drop, htail]
  rw [slice, if_pos hle] at hslice
  rw [List.drop_append_of_le_length (by omega), List.take_append_of_le_length
    (by rw [List.length_drop]; omega)]
  by_cases hroom : 8 * ps.length + o + p.length ≤ (padded (payloadImage ps)).length
  · rw [if_pos hroom, hslice]
  · -- the words alone reach to the end only if there is no data
    exfalso
    obtain ⟨tail', htail'⟩ := padded_payloadImage h
    have := congrArg List.length htail'
    rw [List.length_append, length_flatMap_u32le, length_payloadWords, List.length_append] at this
    omega

def StoredLeaf.paid (l : StoredLeaf s) : List (PaidRow s) := (l.leaf.rows.map LeafRow.bare).zip l.payloads

def Contents.paid (c : Contents s) : Multiset (PaidRow s) :=
  (c.leaves.map fun l => (l.paid : Multiset (PaidRow s))).sum

lemma Committed.paidSlots_eq {sb : SuperblockDisk} (hC : Committed file sb c) (hp : s.hasPayload = true)
    {l : StoredLeaf s} (hl : l ∈ c.leaves) (hsmall : PayloadSmall file l.leaf) :
    paidSlots file l.leaf = some l.paid := by
  obtain ⟨a, ha⟩ := hC.holds
  have hok := hC.sound.leaf l hl
  obtain ⟨hlen, hpos⟩ := hok.paid hp
  have hread := readPayload_of_holds ha (Contents.leaf_exts_mem hl) hok hp
  simp only at hread
  have hbytes : payloadBytes l.payloads < 2 ^ 32 := by
    have := hsmall _ hread
    rw [length_payloadImage, hlen] at this
    omega
  have hvalid : ¬ (l.leaf.payload.page = none ∨ l.leaf.payload.pages = 0) := by
    have : 0 < pagesFor (payloadImage l.payloads).length :=
      pagesFor_pos (payloadImage_pos (by omega))
    rw [hok.payload, StoredLeaf.payExtent, StoredLeaf.pay, if_pos hp]
    simp only [Option.elim_some, reduceCtorEq, false_or]
    omega
  unfold paidSlots
  apply mapM_eq_some_of_forall₂
  rw [List.forall₂_iff_get]
  have hpaid : l.paid.length = l.leaf.rows.length := by
    rw [StoredLeaf.paid, List.length_zip, List.length_map, hlen, Leaf.count, Nat.min_self]
  refine ⟨by rw [List.length_zipIdx, hpaid], fun i hi hi' => ?_⟩
  have hi₁ : i < l.payloads.length := by
    rw [List.length_zipIdx] at hi
    rw [hlen]
    exact hi
  have hfetch := fetchPayload_padded hbytes (List.getElem?_eq_getElem hi₁)
  rw [hlen] at hfetch
  simp only [List.get_eq_getElem, List.getElem_zipIdx, Nat.zero_add, fetchPayload, if_neg hvalid, hread,
    Option.bind_some, hfetch, Option.map_some, StoredLeaf.paid, List.getElem_zip, List.getElem_map]

/-- **The paid rows of a file are those of its contents.** -/
lemma IndexOk.filePaid_eq (h : IndexOk eng idx c) (hp : s.hasPayload = true)
    (hsmall : ∀ ls, reachableLeaves idx.file = some ls → ∀ l ∈ ls, PayloadSmall idx.file l) :
    filePaid idx.file = some c.paid := by
  obtain ⟨L, hls, hL⟩ := h.reachableLeaves_eq
  have hread : (L.map StoredLeaf.leaf).mapM (paidSlots idx.file) = some (L.map StoredLeaf.paid) := by
    apply mapM_eq_some_of_forall₂
    rw [List.forall₂_map_left_iff, List.forall₂_map_right_iff, List.forall₂_same]
    intro l hl
    exact h.committed.paidSlots_eq hp (hL.mem_iff.mp hl)
      (hsmall _ hls _ (List.mem_map_of_mem hl))
  have hsum := (hL.map fun l : StoredLeaf s => (l.paid : Multiset (PaidRow s))).sum_eq
  rw [filePaid, hls, Option.bind_some, hread, Option.map_some, Contents.paid, ← hsum, List.map_map]
  rfl

/-! ### What a call does -/

def InsertPoint.paid (p : InsertPoint s) : Option (PaidRow s) :=
  p.row.map fun r => ((p.rowId, r), p.payload)

lemma paid_insertedRows (l : Leaf s) {ps : List (InsertPoint s)} {rs : List (FilterRow s)}
    (h : ps.mapM InsertPoint.row = some rs) :
    ((insertedRows eng l ps rs).map LeafRow.bare).zip (ps.map (·.payload)) =
      ps.filterMap InsertPoint.paid := by
  induction ps generalizing rs with
  | nil => rfl
  | cons p ps ih =>
    rw [List.mapM_cons] at h
    obtain ⟨r, hr, h⟩ := Option.bind_eq_some_iff.mp h
    obtain ⟨rs', hrs', h⟩ := Option.bind_eq_some_iff.mp h
    cases h
    rw [List.filterMap_cons, InsertPoint.paid, hr, Option.map_some, ← ih hrs']
    rfl

lemma paid_appended {l : StoredLeaf s} (hlen : l.payloads.length = l.leaf.count)
    {ps : List (InsertPoint s)} {rs : List (FilterRow s)} (h : ps.mapM InsertPoint.row = some rs)
    (page payPage : ℕ) :
    (l.appended eng ps rs page payPage).paid = l.paid ++ ps.filterMap InsertPoint.paid := by
  rw [StoredLeaf.paid, StoredLeaf.rows_appended, List.map_append]
  change ((l.leaf.rows.map LeafRow.bare) ++ _).zip (l.payloads ++ ps.map (·.payload)) = _
  rw [List.zip_append (by rw [List.length_map, hlen, Leaf.count]), paid_insertedRows l.leaf h]
  rfl

lemma paid_of_leaves (h : c'.leaves = c.leaves) : c'.paid = c.paid := by rw [Contents.paid, h]; rfl

lemma sum_paid_pointsFor {pts : List (InsertPoint s)} {ids : List ℕ} (hlen : ids.length = pts.length)
    {n : ℕ} (hids : ∀ id ∈ ids, id < n) :
    ∑ i ∈ Finset.range n, ((pointsFor pts ids i).filterMap InsertPoint.paid : Multiset (PaidRow s)) =
      (pts.filterMap InsertPoint.paid : List (PaidRow s)) := by
  have hall := congrArg (Multiset.filterMap InsertPoint.paid) (sum_pointsFor hlen hids)
  rw [Multiset.filterMap_coe] at hall
  rw [← hall]
  clear hall hids
  induction n with
  | zero => rfl
  | succ n ih =>
    rw [Finset.sum_range_succ, Finset.sum_range_succ, Multiset.filterMap_add, ih]
    rfl

/-- **An insert brings the payloads of its points.** -/
lemma Inserted.paid {pts : List (InsertPoint s)} {ids : List ℕ} (hp : s.hasPayload = true)
    (hok : ∀ l ∈ c.leaves, l.Ok) (hlen : ids.length = pts.length) (h : Inserted eng pts ids c c') :
    c'.paid = c.paid + (pts.filterMap InsertPoint.paid : List (PaidRow s)) := by
  obtain ⟨L₁, c₂, c₃, ht, hsame, -, hsame', hnosplit⟩ := h.steps
  have hids : ∀ id ∈ ids, id < c.leaves.length := fun id hid => ht.inTable id (mem_insertKeys.mpr hid)
  have hrows : ∀ i l, c.leaves[i]? = some l → ∃ l', L₁[i]? = some l' ∧
      (l'.paid : Multiset (PaidRow s)) =
        l.paid + ((pointsFor pts ids i).filterMap InsertPoint.paid : List (PaidRow s)) := by
    intro i l hl
    obtain ⟨l', hl', hin, hout⟩ := ht.leaf i l hl
    refine ⟨l', hl', ?_⟩
    by_cases hi : i ∈ insertKeys eng ids
    · obtain ⟨rs, page, payPage, hrs, rfl⟩ := hin hi
      rw [paid_appended ((hok l (List.mem_of_getElem? hl)).paid hp).1 hrs, Multiset.coe_add]
    · rw [hout hi, pointsFor_eq_nil (mem_insertKeys.not.mp hi)]
      simp
  have hfirst : ({ c with leaves := L₁ } : Contents s).paid = c.paid +
      ∑ i ∈ Finset.range c.leaves.length,
        ((pointsFor pts ids i).filterMap InsertPoint.paid : Multiset (PaidRow s)) :=
    sum_map_add_of_entries ht.length hrows
  rw [sum_paid_pointsFor hlen hids] at hfirst
  rw [paid_of_leaves (hsame'.leaves.trans ((congrArg Contents.leaves (hnosplit hp)).trans hsame.leaves)),
    ← hfirst]

lemma paid_of_forall₂ {P : StoredLeaf s → StoredLeaf s → Prop}
    (h : List.Forall₂ P c.leaves c'.leaves) (hP : ∀ l l', P l l' → l'.paid = l.paid) :
    c'.paid = c.paid :=
  congrArg List.sum (map_of_forall₂ h fun l l' hl => by rw [hP l l' hl])

/-- The paid rows after a call on an index with payloads, which takes no deletes. -/
def Op.onPaid (R : Multiset (PaidRow s)) : Op s → Multiset (PaidRow s)
  | insert pts => R + (pts.filterMap InsertPoint.paid : List (PaidRow s))
  | delete _ | vacuum _ | defrag _ | reopen => R

lemma Op.Result.paid (hp : s.hasPayload = true) (h : Opened eng idx c) {op : Op s}
    (hres : op.Result eng card idx c idx' c') : c'.paid = op.onPaid c.paid := by
  cases op with
  | insert pts =>
    obtain ⟨rfl, -, rfl⟩ | hins := hres
    · simp [Op.onPaid]
    · obtain ⟨ids, hids, hsteps⟩ := hins.inserted
      exact hsteps.paid hp h.index.committed.sound.leaf (mapM_eq_ok_iff.mp hids).length_eq.symm
  | delete rowIds => rw [DeleteResult.paid hres hp]; rfl
  | vacuum cfg =>
    refine paid_of_forall₂ hres.pass.leaves fun l l' hl => ?_
    rw [StoredLeaf.paid, hl.rows, hl.2]
    rfl
  | defrag cfg =>
    refine paid_of_forall₂ hres.leaves fun l l' hl => ?_
    rw [StoredLeaf.paid, hl.1, hl.2]
    rfl
  | reopen => rw [hres.1]; rfl

lemma MutationRun.paid (hp : s.hasPayload = true) (hrun : MutationRun eng card idx ops idx')
    (h : Opened eng idx c) : ∃ c', Opened eng idx' c' ∧ c'.paid = ops.foldl Op.onPaid c.paid := by
  obtain ⟨c', h', hsteps⟩ := hrun.steps (A := fun R op R' => R' = op.onPaid R) Contents.paid h
    fun h hres => hres.paid hp h
  exact ⟨c', h', hsteps.foldl fun _ _ _ heq => heq⟩

/-! ### Runs -/

/-- The rows a build stores with their payloads, once for each target cluster. -/
def builtPaid (b : BuildInput s) : Multiset (PaidRow s) :=
  (b.corpus.map fun r => Multiset.replicate (b.targets r.vector).length (r.bare, r.payload)).sum

lemma paid_stored (f : Flushed s) : (f.stored b).paid = f.rows.map fun r => (r.bare, r.payload) := by
  rw [StoredLeaf.paid, bare_stored]
  change (f.rows.map BuildRow.bare).zip (f.rows.map (·.payload)) = _
  rw [List.zip_map']

lemma OpenedBuild.paid_eq {old : TreeFile s} {st : Emission s} {F : List (Flushed s)}
    (h : OpenedBuild eng b old st F idx c) : c.paid = builtPaid b := by
  rw [builtPaid, ← h.sum_flushed fun r => (r.bare, r.payload), Contents.paid, h.built.leaves,
    List.map_map]
  congr 1
  apply List.map_congr_left
  intro f _
  rw [Function.comp_apply, paid_stored]

/-- **Payloads follow their rows.** On an index with payloads, after any run on a build, the rows that
the root reaches have the ids and filter values they came with, and `fetch_payload` returns for each
the payload it came with, if no payload extent has grown to `2 ^ 32` bytes. -/
theorem run_keeps_payloads {old : TreeFile s} (hp : s.hasPayload = true)
    (hb : build b old = .ok file) (heng : eng.coder = b.coder) (hpca : PcaShaped b)
    (hone : OneLeafEach b) (hopen : openIndex eng file = .ok idx)
    (hrun : MutationRun eng card idx ops idx')
    (hsmall : ∀ ls, reachableLeaves idx'.file = some ls → ∀ l ∈ ls, PayloadSmall idx'.file l) :
    filePaid idx'.file = some (ops.foldl Op.onPaid (builtPaid b)) := by
  obtain ⟨st, F, c, hbuilt, hopened⟩ := opened_of_build hb heng hpca hone hopen
  obtain ⟨c', h', hpaid⟩ := hrun.paid hp hopened
  rw [h'.index.filePaid_eq hp hsmall, hpaid, hbuilt.paid_eq]

/-! ### A run -/

def paidSchema : Schema := { columns := [], hasPayload := true }

def paidTwo : BuildInput paidSchema :=
  lineBuild paidSchema 2 0 [⟨7, [0], ⟨[], .nil⟩, [10]⟩, ⟨8, [1], ⟨[], .nil⟩, [11, 12]⟩]

def openedPaid : Index paidSchema := okOr (blankIndex _) (openIndex (lineEngine paidSchema) (builtFile paidTwo))

/-- An insert with payloads into one leaf, a vacuum, a defrag, and the file opened again. -/
def paidCalls : List (Op paidSchema) :=
  [.insert [⟨1, [0], [], [13, 14, 15], fun _ => .nil⟩], .vacuum ⟨1, true⟩, .defrag ⟨1, false⟩, .reopen]

def paidEnd : Index paidSchema :=
  paidCalls.foldl (Op.after (lineEngine paidSchema) fun _ => []) openedPaid

theorem run_keeps_payloads_two :
    filePaid paidEnd.file = some (paidCalls.foldl Op.onPaid (builtPaid paidTwo)) := by
  refine run_keeps_payloads rfl (build_eq_builtFile (b := paidTwo) (by decide +kernel)) rfl
    (fun m hm => by cases hm) (.inr (by decide +kernel)) (eq_okOr (blankIndex _) (by decide +kernel))
    (run_of_allCalls (Op.passes _) (fun _ _ => Op.admissible_of_passes rfl) _ _ (by decide +kernel)) ?_
  have hsmall : ((reachableLeaves paidEnd.file).all fun ls =>
      ls.all fun l => decide (PayloadSmall paidEnd.file l)) = true := by decide +kernel
  intro ls hls l hl
  rw [hls, Option.all_some, List.all_eq_true] at hsmall
  simpa using hsmall l hl

end SextantTree
