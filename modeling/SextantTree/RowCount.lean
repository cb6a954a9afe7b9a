import SextantTree.RowConservation

/-!
The row count of the manifest. It counts rows of the input, not copies in leaves: a row staged under
several clusters counts once. An insert adds the length of its batch and a delete takes off the listed
ids it finds, so the count stays exact as long as fresh ids are inserted and no stored id is listed
twice in one delete.
-/

namespace SextantTree

open Pages Alloc AllocInv AllocRun Heap FilterHash Outcome Stepwise

/-! ### Distinct members of a multiset -/

section

variable {α : Type*} [DecidableEq α] {R : Multiset α} {L : List α}

lemma card_toFinset_filter_notMem (R : Multiset α) (L : List α) :
    (R.filter (· ∉ L)).toFinset.card + (L.filter (· ∈ R)).toFinset.card = R.toFinset.card := by
  have hsplit := Finset.card_filter_add_card_filter_not (s := R.toFinset) (· ∈ L)
  rw [← hsplit, Nat.add_comm]
  congr 1
  · congr 1
    ext a
    simp [and_comm]
  · congr 1
    ext a
    simp

lemma card_filter_eq_iff (R : Multiset α) (L : List α) :
    (L.filter (· ∈ R)).toFinset.card = (L.filter (· ∈ R)).length ↔ (L.filter (· ∈ R)).Nodup := by
  rw [List.card_toFinset, ← List.dedup_eq_self]
  refine ⟨fun h => ?_, fun h => congrArg List.length h⟩
  exact (List.dedup_sublist _).eq_of_length h

lemma card_toFinset_add (hL : L.Nodup) (hnew : ∀ a ∈ L, a ∉ R) :
    (R + (L : Multiset α)).toFinset.card = R.toFinset.card + L.length := by
  rw [Multiset.toFinset_add, Finset.card_union_of_disjoint]
  · congr 1
    exact List.toFinset_card_of_nodup hL
  · rw [Finset.disjoint_left]
    intro a ha haL
    exact hnew a (by simpa using haL) (by simpa using ha)

end

variable {s : Schema} {eng : Engine} {card : List (FilterRow s) → Bytes} {idx idx' idx'' : Index s}
  {c c' : Contents s} {file : TreeFile s} {b : BuildInput s}

/-! ### The ids of the stored rows -/

def Contents.rowIds (c : Contents s) : Multiset RowId := c.rows.map LeafRow.rowId

lemma rowIds_eq (eng : Engine) (c : Contents s) : c.rowIds = (c.seen (bareView eng s)).map Prod.fst := by
  rw [Contents.rowIds, Contents.seen, Multiset.map_map]
  rfl

lemma isStored_iff {r : RowId} : isStored (c.leaves.map StoredLeaf.leaf) r = true ↔ r ∈ c.rowIds := by
  have hmem : ∀ L : List (StoredLeaf s),
      r ∈ (L.map fun l => (l.leaf.rows : Multiset (LeafRow s))).sum.map LeafRow.rowId ↔
        ∃ l ∈ L, ∃ x ∈ l.leaf.rows, x.rowId = r := by
    intro L
    induction L with
    | nil => simp
    | cons l L ih =>
      rw [List.map_cons, List.sum_cons, Multiset.map_add, Multiset.mem_add, ih]
      simp
  rw [Contents.rowIds, Contents.rows, hmem]
  simp [isStored]

def Contents.found (c : Contents s) (rowIds : List RowId) : List RowId :=
  rowIds.filter fun r => r ∈ c.rowIds

lemma notFound_add_found (c : Contents s) (rowIds : List RowId) :
    rowIds.countP (fun r => !isStored (c.leaves.map StoredLeaf.leaf) r) + (c.found rowIds).length =
      rowIds.length := by
  have hfound : (c.found rowIds).length =
      rowIds.countP fun r => isStored (c.leaves.map StoredLeaf.leaf) r := by
    rw [Contents.found, ← List.countP_eq_length_filter]
    apply List.countP_congr
    intro r _
    simp [isStored_iff]
  have hall : rowIds.length = _ :=
    List.length_eq_countP_add_countP fun r => isStored (c.leaves.map StoredLeaf.leaf) r
  rw [hfound, Nat.add_comm, hall]
  simp

lemma countAfterDelete_eq (c : Contents s) {n : ℕ} {rowIds : List RowId}
    (hlen : rowIds.length < 2 ^ 32) :
    countAfterDelete n (c.leaves.map StoredLeaf.leaf) rowIds =
      (n + 2 ^ 64 - (c.found rowIds).length) % 2 ^ 64 := by
  have hsum := notFound_add_found c rowIds
  have hlost : rowIds.length - rowIds.countP (fun r => !isStored (c.leaves.map StoredLeaf.leaf) r) %
      2 ^ 32 = (c.found rowIds).length := by
    rw [Nat.mod_eq_of_lt (by omega)]
    omega
  simp only [countAfterDelete, hlost]

/-! ### One call -/

/-- The count in memory is the number of distinct stored ids. -/
structure CountsRows (idx : Index s) (c : Contents s) : Prop where
  memory : idx.manifest.nVectors = c.rowIds.toFinset.card
  small : idx.manifest.nVectors < 2 ^ 64

/-- A call the count follows, with `n` rows counted and `ids` stored: fresh ids are inserted, each
once, and no stored id is deleted twice. -/
def Op.Countable (n : ℕ) (ids : Multiset RowId) : Op s → Prop
  | insert pts => (pts.map InsertPoint.rowId).Nodup ∧ (∀ p ∈ pts, p.rowId ∉ ids) ∧
      n + pts.length < 2 ^ 64
  | delete rowIds => (rowIds.filter fun r => r ∈ ids).Nodup ∧ rowIds.length < 2 ^ 32
  | vacuum _ | defrag _ | reopen => True

lemma Encodes.rowIds {pts : List (InsertPoint s)} {new : Multiset (LeafRow s)}
    (h : Encodes eng pts new) : new.map LeafRow.rowId = (pts.map InsertPoint.rowId : List RowId) := by
  have hrel : Multiset.Rel (· = ·) ((pts : Multiset (InsertPoint s)).map InsertPoint.rowId)
      (new.map LeafRow.rowId) := by
    rw [Multiset.rel_map]
    refine h.mono fun p _ r _ hpr => hpr.1.symm
  rw [← Multiset.rel_eq.mp hrel]
  rfl

lemma Op.Result.rowIds_insert {pts : List (InsertPoint s)}
    (h : (Op.insert pts).Result eng card idx c idx' c') :
    c'.rowIds = c.rowIds + (pts.map InsertPoint.rowId : List RowId) := by
  obtain ⟨new, hnew, heq⟩ := Op.Result.effect (bareView eng s) h
  rw [rowIds_eq eng, heq, Multiset.map_add, ← rowIds_eq eng, ← hnew.rowIds, Multiset.map_map]
  rfl

lemma Op.Result.rowIds_delete {rowIds : List RowId}
    (h : (Op.delete rowIds).Result eng card idx c idx' c') :
    c'.rowIds = c.rowIds.filter (· ∉ rowIds) := by
  have heq := Op.Result.effect (bareView eng s) h
  rw [rowIds_eq eng, heq, rowIds_eq eng c, Multiset.filter_map]
  rfl

lemma rowIds_of_seen (h : c'.seen (bareView eng s) = c.seen (bareView eng s)) :
    c'.rowIds = c.rowIds := by
  rw [rowIds_eq eng, h, ← rowIds_eq eng]

/-- **The count of a delete** stays exact just when no stored id is listed twice. -/
theorem delete_count_iff {rowIds : List RowId} (hcount : CountsRows idx c)
    (hlen : rowIds.length < 2 ^ 32) (h : DeleteResult eng rowIds idx c idx' c') :
    idx'.manifest.nVectors = c'.rowIds.toFinset.card ↔ (c.found rowIds).Nodup := by
  have hids : c'.rowIds = c.rowIds.filter (· ∉ rowIds) :=
    Op.Result.rowIds_delete (show (Op.delete rowIds).Result eng (fun _ => []) idx c idx' c' from h)
  have hsplit := card_toFinset_filter_notMem c.rowIds rowIds
  have hle : (c.found rowIds).toFinset.card ≤ (c.found rowIds).length := by
    rw [List.card_toFinset]
    exact (List.dedup_sublist _).length_le
  have hfound : (c.found rowIds).length ≤ rowIds.length := List.length_filter_le _ _
  have hiff := card_filter_eq_iff c.rowIds rowIds
  obtain ⟨rfl, rfl, hnone⟩ | ⟨-, hn⟩ := h.moved
  · -- nothing is found
    have hnil : c'.found rowIds = [] := by
      rw [Contents.found, List.filter_eq_nil_iff]
      intro r hr hstored
      have := isStored_iff.mpr (by simpa using hstored)
      rw [hnone r hr] at this
      cases this
    simp [hnil, hcount.memory]
  · rw [hn, countAfterDelete_eq c hlen, hids]
    rw [Contents.found] at hle hfound ⊢
    rw [← hiff]
    have hmem := hcount.memory
    have hsmall := hcount.small
    omega

/-- **One call.** -/
theorem CountsRows.call (hcount : CountsRows idx c) (h : Opened eng idx c) {op : Op s}
    (hop : op.Countable idx.manifest.nVectors c.rowIds)
    (hres : op.Result eng card idx c idx' c') : CountsRows idx' c' := by
  have hmem := hcount.memory
  have hsmall := hcount.small
  cases op with
  | insert pts =>
    obtain ⟨hnodup, hfresh, hroom⟩ := hop
    have hids := Op.Result.rowIds_insert hres
    have hcard := card_toFinset_add (R := c.rowIds) hnodup (by
      intro a ha
      obtain ⟨p, hp, rfl⟩ := List.mem_map.mp ha
      exact hfresh p hp)
    rw [← hids, List.length_map] at hcard
    obtain ⟨rfl, rfl, rfl⟩ | hins := hres
    · exact hcount
    · have hn : idx'.manifest.nVectors = idx.manifest.nVectors + pts.length := by
        rw [hins.count, Nat.mod_eq_of_lt hroom]
      exact ⟨by omega, by omega⟩
  | delete rowIds =>
    obtain ⟨hnodup, hlen⟩ := hop
    have hn := (delete_count_iff hcount hlen hres).mpr hnodup
    have hsplit := card_toFinset_filter_notMem c.rowIds rowIds
    rw [← Op.Result.rowIds_delete hres] at hsplit
    exact ⟨hn, by omega⟩
  | vacuum cfg =>
    have hn : idx'.manifest.nVectors = idx.manifest.nVectors := hres.pass.count
    have hids := rowIds_of_seen (Op.Result.effect (bareView eng s) hres)
    exact ⟨by rw [hn, hids, hmem], by omega⟩
  | defrag cfg =>
    have hn : idx'.manifest.nVectors = idx.manifest.nVectors := hres.count
    have hids := rowIds_of_seen (Op.Result.effect (bareView eng s) hres)
    exact ⟨by rw [hn, hids, hmem], by omega⟩
  | reopen =>
    obtain ⟨rfl, -, hman⟩ := hres
    have hn : idx'.manifest.nVectors = idx.manifest.nVectors := by
      rw [hman, h.index.count, h.index.agrees.disk]
    exact ⟨by rw [hn, hmem], by omega⟩

/-! ### Runs -/

/-- A run of calls the count follows. -/
abbrev CountedRun (eng : Engine) (card : List (FilterRow s) → Bytes) :
    Index s → List (Op s) → Index s → Prop :=
  Run (fun idx op => (op.call eng card idx).toOption) fun idx op => op.Admissible eng idx ∧
    ∃ R, fileRows idx.file = some R ∧ op.Countable idx.manifest.nVectors (R.map LeafRow.rowId)

lemma CountedRun.counts {ops : List (Op s)} (hrun : CountedRun eng card idx ops idx')
    (h : Opened eng idx c) (hcount : CountsRows idx c) :
    ∃ c', Opened eng idx' c' ∧ CountsRows idx' c' := by
  refine hrun.invariant (I := fun idx => ∃ c, Opened eng idx c ∧ CountsRows idx c) ⟨c, h, hcount⟩ ?_
  rintro idx op idx' ⟨c, h, hcount⟩ ⟨hok, R, hR, hop⟩ hcall
  obtain ⟨c', h', hres⟩ := call_spec h hok (toOption_eq_some.mp hcall)
  rw [h.index.fileRows_eq] at hR
  cases hR
  exact ⟨c', h', hcount.call h hop hres⟩

lemma mem_builtRows {x : RowId × FilterRow s} :
    x ∈ builtRows b ↔ ∃ r ∈ b.corpus, b.targets r.vector ≠ [] ∧ (r.rowId, r.filter) = x := by
  rw [builtRows]
  induction b.corpus with
  | nil => simp
  | cons r rows ih =>
    rw [List.map_cons, List.sum_cons, Multiset.mem_add, ih, Multiset.mem_replicate]
    have hx : x = (r.rowId, r.filter) ↔ (r.rowId, r.filter) = x := eq_comm
    simp [hx]

lemma OpenedBuild.counts {old : TreeFile s} {st : Emission s} {F : List (Flushed s)}
    (h : OpenedBuild eng b old st F idx c) (hids : (b.corpus.map BuildRow.rowId).Nodup)
    (hall : ∀ r ∈ b.corpus, b.targets r.vector ≠ []) (hlen : b.corpus.length < 2 ^ 64) :
    CountsRows idx c := by
  have hn : idx.manifest.nVectors = b.corpus.length := by
    rw [h.index.count, h.index.agrees.disk, h.built.manifest]
    rfl
  have hset : c.rowIds.toFinset = (b.corpus.map BuildRow.rowId).toFinset := by
    ext id
    have hmap : c.rowIds = (c.rows.map LeafRow.bare).map Prod.fst := by
      rw [Contents.rowIds, Multiset.map_map]
      rfl
    rw [Multiset.mem_toFinset, hmap, h.rows_eq, Multiset.mem_map, List.mem_toFinset, List.mem_map]
    constructor
    · rintro ⟨x, hx, rfl⟩
      obtain ⟨r, hr, -, rfl⟩ := mem_builtRows.mp hx
      exact ⟨r, hr, rfl⟩
    · rintro ⟨r, hr, rfl⟩
      exact ⟨_, mem_builtRows.mpr ⟨r, hr, hall r hr, rfl⟩, rfl⟩
  refine ⟨?_, by omega⟩
  rw [hn, hset, List.toFinset_card_of_nodup hids, List.length_map]

section

variable {old : TreeFile s} (hb : build b old = .ok file) (heng : eng.coder = b.coder)
  (hpca : PcaShaped b) (hone : OneLeafEach b) (hopen : openIndex eng file = .ok idx)
  (hids : (b.corpus.map BuildRow.rowId).Nodup) (hall : ∀ r ∈ b.corpus, b.targets r.vector ≠ [])
  (hlen : b.corpus.length < 2 ^ 64) {ops : List (Op s)} (hrun : CountedRun eng card idx ops idx')

include hb heng hpca hone hopen hids hall hlen hrun

/-- **The row count is exact**, in memory and in the manifest on disk, after any run on a build of
distinct ids in which fresh ids are inserted and no stored id is listed twice in one delete. -/
theorem run_counts_rows :
    ∃ R m, fileRows idx'.file = some R ∧ readConfig idx'.file idx'.super.config = some m ∧
      idx'.manifest.nVectors = (R.map LeafRow.rowId).toFinset.card ∧
      m.nVectors = (R.map LeafRow.rowId).toFinset.card := by
  obtain ⟨st, F, c, hbuilt, hopened⟩ := opened_of_build hb heng hpca hone hopen
  obtain ⟨c', h', hcount⟩ := hrun.counts hopened (hbuilt.counts hids hall hlen)
  refine ⟨c'.rows, c'.manifest, h'.index.fileRows_eq, h'.index.readConfig, hcount.memory, ?_⟩
  rw [← h'.index.agrees.disk, ← h'.index.count]
  exact hcount.memory

/-- **A delete miscounts repeated ids.** In every state such a run reaches, the count after a delete
that returns is the number of distinct stored ids exactly when the list has no stored id twice. -/
theorem run_deletes_count_iff {rowIds : List RowId} (hshort : rowIds.length < 2 ^ 32)
    (hcall : deleteBatch eng idx' rowIds = .ok idx'') :
    ∃ R R', fileRows idx'.file = some R ∧ fileRows idx''.file = some R' ∧
      (idx''.manifest.nVectors = (R'.map LeafRow.rowId).toFinset.card ↔
        (rowIds.filter fun r => r ∈ R.map LeafRow.rowId).Nodup) := by
  obtain ⟨st, F, c, hbuilt, hopened⟩ := opened_of_build hb heng hpca hone hopen
  obtain ⟨c', h', hcount⟩ := hrun.counts hopened (hbuilt.counts hids hall hlen)
  obtain ⟨c'', hres⟩ := (deleteBatch_spec h'.index rowIds).result hcall
  have hok'' : IndexOk eng idx'' c'' := by
    obtain ⟨rfl, rfl, -⟩ | ⟨hadv, -⟩ := hres.moved
    · exact h'.index
    · exact hadv.index
  exact ⟨c'.rows, c''.rows, h'.index.fileRows_eq, hok''.fileRows_eq, delete_count_iff hcount hshort hres⟩

end

instance (n : ℕ) (ids : Multiset RowId) (op : Op s) : Decidable (op.Countable n ids) :=
  match op with
  | .insert _ => inferInstanceAs (Decidable (_ ∧ _ ∧ _))
  | .delete _ => inferInstanceAs (Decidable (_ ∧ _))
  | .vacuum _ | .defrag _ | .reopen => inferInstanceAs (Decidable True)

def Op.counts (eng : Engine) (idx : Index s) (op : Op s) : Bool :=
  op.passes eng idx && (fileRows idx.file).elim false fun R =>
    decide (op.Countable idx.manifest.nVectors (R.map LeafRow.rowId))

lemma busyEnd_counts :
    allCalls (lineEngine plainSchema) (fun _ => []) (Op.counts (lineEngine plainSchema)) openedTwo
        busyCalls = true ∧
      (deleteBatch (lineEngine plainSchema) busyEnd [8, 8]).isOk = true := by
  decide +kernel

lemma busy_counted : CountedRun (lineEngine plainSchema) (fun _ => []) openedTwo busyCalls busyEnd := by
  refine run_of_allCalls (Op.counts _) ?_ _ _ busyEnd_counts.1
  intro idx op h
  obtain ⟨hpass, hcount⟩ := Bool.and_eq_true_iff.mp h
  refine ⟨Op.admissible_of_passes rfl hpass, ?_⟩
  cases hR : fileRows idx.file with
  | none => simp [hR] at hcount
  | some R => exact ⟨R, rfl, by simpa [hR] using hcount⟩

theorem run_counts_rows_two :
    ∃ R m, fileRows busyEnd.file = some R ∧ readConfig busyEnd.file busyEnd.super.config = some m ∧
      busyEnd.manifest.nVectors = (R.map LeafRow.rowId).toFinset.card ∧
      m.nVectors = (R.map LeafRow.rowId).toFinset.card :=
  run_counts_rows build_pairBuild rfl pcaShaped_pairBuild oneLeafEach_pairBuild open_pairBuild
    (by decide) pairBuild_returns.2.1 (by decide) busy_counted

theorem run_deletes_count_twice :
    ∃ R R', fileRows busyEnd.file = some R ∧
      fileRows (Op.after (lineEngine plainSchema) (fun _ => []) busyEnd (.delete [8, 8])).file =
        some R' ∧
      ((Op.after (lineEngine plainSchema) (fun _ => []) busyEnd (.delete [8, 8])).manifest.nVectors =
        (R'.map LeafRow.rowId).toFinset.card ↔
          ([8, 8].filter fun r => r ∈ R.map LeafRow.rowId).Nodup) :=
  run_deletes_count_iff build_pairBuild rfl pcaShaped_pairBuild oneLeafEach_pairBuild open_pairBuild
    (by decide) pairBuild_returns.2.1 (by decide) busy_counted (by decide)
    (eq_okOr _ busyEnd_counts.2)

end SextantTree
