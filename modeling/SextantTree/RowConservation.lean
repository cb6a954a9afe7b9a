import SextantTree.MutationRun

/-!
Rows along a run of mutations. What a build stores, what every call adds and takes away, and that
nothing else ever happens to a row: splits, batches of commits, relocations and reopening move rows
about and lose none.
-/

namespace SextantTree

open Pages Alloc AllocInv AllocRun Heap FilterHash Outcome Stepwise

variable {s : Schema} {eng : Engine} {card : List (FilterRow s) → Bytes} {idx idx' : Index s}
  {c c' : Contents s} {file : TreeFile s} {sb : SuperblockDisk} {b : BuildInput s} {κ : Type}

/-! ### The rows of a file -/

/-- Every entry of the leaf table is behind exactly one entry below the root. -/
def Linked (file : TreeFile s) : Prop :=
  ∃ table refs, fileLeafTable file = some table ∧ fileRefs file = some refs ∧
    (refs.map Prod.snd).Perm (List.range table.length)

/-- The rows of the leaves reachable from the root, once for every way that leads to them. -/
def fileRows (file : TreeFile s) : Option (Multiset (LeafRow s)) :=
  (reachableLeaves file).map fun ls => (ls.map fun l => (l.rows : Multiset (LeafRow s))).sum

lemma IndexOk.linked (h : IndexOk eng idx c) : Linked idx.file := by
  refine ⟨c.table, c.tree.refs, h.committed.fileLeafTable_eq, h.committed.fileRefs_eq, ?_⟩
  rw [Contents.table, List.length_map]
  exact h.agrees.linked

lemma Committed.mapM_leafAt (h : Committed file sb c) {refs : List (List Summary × ℕ)}
    (hids : ∀ x ∈ refs, x.2 < c.leaves.length) :
    refs.mapM (fun x => leafAt file x.2) =
      some ((refs.map Prod.snd).filterMap fun i => (c.leaves[i]?).map StoredLeaf.leaf) := by
  induction refs with
  | nil => rfl
  | cons x refs ih =>
    have hl := List.getElem?_eq_getElem (hids x List.mem_cons_self)
    rw [List.mapM_cons, h.leafAt_eq hl, ih fun y hy => hids y (List.mem_cons_of_mem _ hy),
      List.map_cons, List.filterMap_cons, hl]
    rfl

lemma IndexOk.reachableLeaves_refs (h : IndexOk eng idx c) : reachableLeaves idx.file =
    some ((c.tree.refs.map Prod.snd).filterMap fun i => (c.leaves[i]?).map StoredLeaf.leaf) := by
  rw [reachableLeaves, h.committed.fileRefs_eq, Option.bind_eq_bind, Option.bind_some,
    h.committed.mapM_leafAt fun x hx => h.agrees.lt_length (List.mem_map_of_mem hx)]

/-- **The reachable leaves of a file are those of its contents.** -/
lemma IndexOk.reachableLeaves_eq (h : IndexOk eng idx c) :
    ∃ L : List (StoredLeaf s), reachableLeaves idx.file = some (L.map StoredLeaf.leaf) ∧
      L.Perm c.leaves := by
  refine ⟨(c.tree.refs.map Prod.snd).filterMap (c.leaves[·]?), ?_, ?_⟩
  · rw [h.reachableLeaves_refs, List.map_filterMap]
  · refine (h.agrees.linked.filterMap _).trans ?_
    rw [filterMap_range_getElem?]

/-- **The rows of a file are those of its contents.** -/
lemma IndexOk.fileRows_eq (h : IndexOk eng idx c) : fileRows idx.file = some c.rows := by
  obtain ⟨L, hls, hperm⟩ := h.reachableLeaves_eq
  have hsum := (hperm.map fun l : StoredLeaf s => (l.leaf.rows : Multiset (LeafRow s))).sum_eq
  rw [fileRows, hls, Option.map_some, Contents.rows, ← hsum, List.map_map]
  rfl

lemma IndexOk.readConfig (h : IndexOk eng idx c) :
    SextantTree.readConfig idx.file idx.super.config = some c.manifest := by
  obtain ⟨a, ha⟩ := h.committed.holds
  rw [h.committed.named.config]
  exact readConfig_of_holds ha h.committed.sound.config

/-! ### The rows of a build -/

/-- The rows a build stores: every input row, once for each of its target clusters. -/
def builtRows (b : BuildInput s) : Multiset (RowId × FilterRow s) :=
  (b.corpus.map fun r => Multiset.replicate (b.targets r.vector).length (r.rowId, r.filter)).sum

def BuildRow.bare (r : BuildRow s) : RowId × FilterRow s := (r.rowId, r.filter)

lemma bare_stored (f : Flushed s) :
    (f.stored b).leaf.rows.map LeafRow.bare = f.rows.map BuildRow.bare := by
  have hlen : f.rows.length = (b.coder.flushLeaf (f.rows.map (·.vector))).2.length := by
    rw [b.coder.length_flushLeaf, List.length_map]
  simp only [Flushed.stored, flushedLeaf, List.map_zipWith]
  rw [← List.map_uncurry_zip_eq_zipWith]
  conv_rhs => rw [← List.map_fst_zip hlen.le, List.map_map]
  rfl

lemma sum_staged (b : BuildInput s) (g : BuildRow s → κ) :
    ∑ i ∈ Finset.range b.kRoot, ((staged b i).map g : Multiset κ) =
      (b.corpus.map fun r => Multiset.replicate (b.targets r.vector).length (g r)).sum := by
  have hstaged : ∀ i ∈ Finset.range b.kRoot, (((staged b i).map g : List κ) : Multiset κ) =
      (b.corpus.map fun r => if b.isTarget r.vector i then {g r} else 0).sum := by
    intro i hi
    rw [staged, if_pos (Finset.mem_range.mp hi)]
    induction b.corpus with
    | nil => rfl
    | cons r rows ih =>
      rw [List.filter_cons, List.map_cons, List.sum_cons, ← ih]
      split_ifs with h
      · simp
      · simp
  rw [Finset.sum_congr rfl hstaged]
  induction b.corpus with
  | nil => simp
  | cons r rows ih =>
    simp only [List.map_cons, List.sum_cons, Finset.sum_add_distrib, ih]
    congr 1
    rw [BuildInput.targets]
    induction b.kRoot with
    | zero => rfl
    | succ n ihn =>
      rw [Finset.sum_range_succ, ihn, List.range_succ, List.filter_append, List.length_append,
        Multiset.replicate_add]
      congr 1
      cases ht : b.isTarget r.vector n <;> simp [ht]

lemma OpenedBuild.sum_flushed {old : TreeFile s} {st : Emission s} {F : List (Flushed s)}
    (h : OpenedBuild eng b old st F idx c) (g : BuildRow s → κ) :
    (F.map fun f => (f.rows.map g : Multiset κ)).sum =
      (b.corpus.map fun r => Multiset.replicate (b.targets r.vector).length (g r)).sum := by
  have hgroups : F.Perm ((List.range b.kRoot).flatMap (ofCluster F)) := by
    have hperm := flatMap_filter_perm Flushed.cluster F b.kRoot
    have hall : F.filter (fun f => decide (f.cluster < b.kRoot)) = F := by
      rw [List.filter_eq_self]
      intro f hf
      simpa using h.emitted.clusters f hf
    rw [hall] at hperm
    exact hperm.symm
  have hsum := (hgroups.map fun f => (f.rows.map g : Multiset κ)).sum_eq
  rw [hsum, ← sum_staged]
  induction b.kRoot with
  | zero => rfl
  | succ n ih =>
    rw [List.range_succ, List.flatMap_append, List.map_append, List.sum_append, ih,
      Finset.sum_range_succ, ← h.rows n, List.flatMap_singleton]
    congr 1
    induction ofCluster F n with
    | nil => rfl
    | cons f L ihL => simp [ihL]

/-- **What a build stores.** -/
lemma OpenedBuild.rows_eq {old : TreeFile s} {st : Emission s} {F : List (Flushed s)}
    (h : OpenedBuild eng b old st F idx c) : c.rows.map LeafRow.bare = builtRows b := by
  have hrows : c.rows.map LeafRow.bare =
      (F.map fun f => (f.rows.map BuildRow.bare : Multiset (RowId × FilterRow s))).sum := by
    have hseen : c.seen (bareView eng s) = c.rows.map LeafRow.bare := rfl
    rw [← hseen, Contents.seen_eq, h.built.leaves, List.map_map]
    congr 1
    apply List.map_congr_left
    intro f _
    exact congrArg _ (bare_stored f)
  rw [hrows, h.sum_flushed]
  rfl

/-! ### What a call does to the rows -/

def Op.Effect (V : RowView eng s κ) (R : Multiset κ) (op : Op s) (R' : Multiset κ) : Prop :=
  match op with
  | insert pts => ∃ new, Encodes eng pts new ∧ R' = R + new.map V.see
  | delete rowIds => R' = R.filter fun x => V.rowId x ∉ rowIds
  | vacuum _ | defrag _ | reopen => R' = R

/-- **The effect of a call.** -/
theorem Op.Result.effect (V : RowView eng s κ) {op : Op s} (h : op.Result eng card idx c idx' c') :
    op.Effect V (c.seen V) (c'.seen V) := by
  cases op with
  | insert pts =>
    obtain ⟨rfl, -, rfl⟩ | hres := h
    · exact ⟨0, .zero, by simp⟩
    · obtain ⟨ids, hids, hins⟩ := hres.inserted
      have hlen : ids.length = pts.length :=
        (mapM_eq_ok_iff.mp hids).length_eq.symm
      exact hins.seen V hlen
  | delete rowIds => exact h.deleted.seen V
  | vacuum cfg => exact seen_of_forall₂ (fun _ _ hl => hl.rows) h.pass.leaves V
  | defrag cfg => exact seen_of_forall₂ (fun _ _ hl => by rw [hl.1]) h.leaves V
  | reopen => rw [Op.Effect, h.1]

lemma MutationRun.effects (V : RowView eng s κ) {ops : List (Op s)}
    (hrun : MutationRun eng card idx ops idx') (h : Opened eng idx c) :
    ∃ c', Opened eng idx' c' ∧ Steps (Op.Effect V) (c.seen V) ops (c'.seen V) :=
  hrun.steps (Contents.seen V) h fun _ hres => hres.effect V

/-- The ids and filter values of the rows after a call. -/
def Op.onRows (R : Multiset (RowId × FilterRow s)) : Op s → Multiset (RowId × FilterRow s)
  | insert pts => R + (pts.filterMap fun p => p.row.map fun r => (p.rowId, r) : List _)
  | delete rowIds => R.filter fun x => x.1 ∉ rowIds
  | vacuum _ | defrag _ | reopen => R

lemma Encodes.bare {pts : List (InsertPoint s)} {new : Multiset (LeafRow s)}
    (h : Encodes eng pts new) : new.map LeafRow.bare =
      (pts.filterMap fun p => p.row.map fun r => (p.rowId, r) : List (RowId × FilterRow s)) := by
  induction pts generalizing new with
  | nil =>
    rw [Encodes, Multiset.coe_nil, Multiset.rel_zero_left] at h
    rw [h]
    rfl
  | cons p pts ih =>
    rw [Encodes, ← Multiset.cons_coe, Multiset.rel_cons_left] at h
    obtain ⟨r, new', ⟨hid, hrow, -⟩, hrest, rfl⟩ := h
    rw [Multiset.map_cons, ih hrest, List.filterMap_cons, hrow, Option.map_some, Multiset.cons_coe,
      LeafRow.bare, hid]

lemma Op.onRows_of_effect {op : Op s} {R R' : Multiset (RowId × FilterRow s)}
    (h : op.Effect (bareView eng s) R R') : R' = op.onRows R := by
  cases op with
  | insert pts =>
    obtain ⟨new, hnew, rfl⟩ := h
    have hbare := hnew.bare
    exact congrArg (R + ·) hbare
  | delete rowIds => exact h
  | vacuum cfg => exact h
  | defrag cfg => exact h
  | reopen => exact h

lemma MutationRun.rows {ops : List (Op s)} (hrun : MutationRun eng card idx ops idx')
    (h : Opened eng idx c) : ∃ c', Opened eng idx' c' ∧
      c'.rows.map LeafRow.bare = ops.foldl Op.onRows (c.rows.map LeafRow.bare) := by
  obtain ⟨c', h', hsteps⟩ := hrun.effects (bareView eng s) h
  exact ⟨c', h', hsteps.foldl fun _ _ _ => Op.onRows_of_effect⟩

/-! ### Runs -/

def lateInsert : Op plainSchema := .insert [linePoint 4 1, linePoint 5 1]

end SextantTree
