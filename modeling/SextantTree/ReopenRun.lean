import SextantTree.RowConservation

/-!
What a run of mutations keeps besides rows: without PCA closing the index loses nothing, since what is in
memory can be read off the file again.
-/

namespace SextantTree

open Pages Alloc AllocInv AllocRun Heap FilterHash Outcome Stepwise

variable {s : Schema} {eng : Engine} {card : List (FilterRow s) → Bytes} {idx idx' : Index s}
  {c c' : Contents s} {file : TreeFile s} {b : BuildInput s} {ops : List (Op s)}

/-! ### What is fixed -/

lemma Opened.fixed (h : Opened eng idx c) : idx.manifest.fixed = c.manifest.fixed :=
  h.index.agrees.manifest

lemma Op.Result.fixed (h : Opened eng idx c) {op : Op s} (hres : op.Result eng card idx c idx' c') :
    idx'.manifest.fixed = idx.manifest.fixed := by
  by_cases hop : op = .reopen
  · subst hop
    rw [hres.2.2]
    exact h.fixed.symm
  · obtain rfl | hadv := hres.moved hop
    · rfl
    · exact hadv.fixed

/-! ### Closing and opening -/

structure PcaOff (idx : Index s) : Prop where
  tables : idx.pca = PcaTables.off
  dims : idx.manifest.pcaDims = 0

lemma pcaDims_of_fixed {m m' : Manifest} (h : m.fixed = m'.fixed) : m.pcaDims = m'.pcaDims := by
  have := congrArg Manifest.pcaDims h
  exact this

lemma openPca_off (file : TreeFile s) (sb : SuperblockDisk) {m : Manifest} (h : m.pcaDims = 0) :
    openPca file sb m = .ok PcaTables.off := by
  rw [openPca, if_neg (by omega)]

/-- **What `open` returns without PCA**: the index as it was, with the leaf count of the manifest on
disk. -/
theorem Opened.reopen (h : Opened eng idx c) (hoff : PcaOff idx) : openIndex eng idx.file =
    .ok { idx with manifest := { idx.manifest with nLeaves := c.manifest.nLeaves } } := by
  have hC := h.index.committed
  have hcode := (codebookNamed_iff hC).mpr h.codebook
  have hdims : c.manifest.pcaDims = 0 := (pcaDims_of_fixed h.fixed).symm.trans hoff.dims
  have hload := h.index.loaded
  rw [h.index.table] at hload
  have hman : c.manifest = { idx.manifest with nLeaves := c.manifest.nLeaves } := by
    have hn : c.manifest.nVectors = idx.manifest.nVectors := by
      rw [h.index.count, h.index.agrees.disk]
    have := h.fixed
    rcases hm : c.manifest with ⟨dim, depth, kRoot, kL1, cap, n, m, d⟩
    rcases hm' : idx.manifest with ⟨dim', depth', kRoot', kL1', cap', n', m', d'⟩
    rw [hm, hm'] at this hn
    simp only [Manifest.fixed, Manifest.mk.injEq] at this hn ⊢
    obtain ⟨rfl, rfl, rfl, rfl, rfl, -, -, rfl⟩ := this
    exact ⟨rfl, rfl, rfl, rfl, rfl, hn, trivial, rfl⟩
  rw [openIndex_committed hC, if_pos hcode, openPca_off _ _ hdims, ok_bind,
    openRoot_eq_ok hload (if_neg fun hcon => absurd hcon.1 (lt_irrefl 0))]
  have hplane := slotNames_isSome hC.named.plane
  rw [← h.plane] at hplane
  congr 1
  conv_rhs => rw [← hman]
  rcases idx with ⟨f, sb, m, n, table, children, pca, plane⟩
  simp only [openedIndex, Index.mk.injEq, true_and]
  exact ⟨h.index.agrees.disk.symm, h.index.table.symm, hoff.tables.symm, hplane.symm⟩

lemma Advanced.pcaOff (h : Advanced eng idx idx' c') (hoff : PcaOff idx) : PcaOff idx' :=
  ⟨h.off hoff.tables, (pcaDims_of_fixed h.fixed).trans hoff.dims⟩

lemma call_pcaOff (h : Opened eng idx c) {op : Op s} (hcall : op.call eng card idx = .ok idx')
    (hres : op.Result eng card idx c idx' c') (hoff : PcaOff idx) : PcaOff idx' := by
  by_cases hop : op = .reopen
  · subst hop
    rw [Op.call, h.reopen hoff] at hcall
    cases hcall
    exact ⟨hoff.tables, hoff.dims⟩
  · obtain rfl | hadv := hres.moved hop
    · exact hoff
    · exact hadv.pcaOff hoff

lemma MutationRun.pcaOff (hrun : MutationRun eng card idx ops idx') (h : Opened eng idx c)
    (hoff : PcaOff idx) : ∃ c', Opened eng idx' c' ∧ PcaOff idx' :=
  hrun.keeps (I := fun idx _ => PcaOff idx) h hoff fun _ h => call_pcaOff h

lemma OpenedBuild.pcaDims {old : TreeFile s} {st : Emission s} {F : List (Flushed s)}
    (h : OpenedBuild eng b old st F idx c) :
    idx.manifest.pcaDims = b.routingPca.elim 0 fun m => m.proj.length := by
  rw [pcaDims_of_fixed h.index.agrees.manifest, h.built.manifest]
  unfold BuildInput.routingPca
  cases hm : b.pca with
  | none => simp [buildManifest, hm]
  | some m =>
    cases hp : m.proj with
    | nil => simp [buildManifest, hm, hp, Option.filter]
    | cons r rs => simp [buildManifest, hm, hp, Option.filter]

lemma pcaOff_of_open (h : Opened eng idx c) (hopen : openIndex eng idx.file = .ok idx)
    (hdims : idx.manifest.pcaDims = 0) : PcaOff idx := by
  obtain ⟨-, pca, children, bases, hpca, -, hbases, hidx⟩ := openIndex_inv h.index.committed hopen
  rw [openPca_off _ _ ((pcaDims_of_fixed h.fixed).symm.trans hdims)] at hpca
  cases hpca
  rw [if_neg fun hcon => absurd hcon.1 (lt_irrefl 0)] at hbases
  cases hbases
  exact ⟨by rw [hidx]; rfl, hdims⟩

/-- **Closing loses nothing.** After any run on a build without PCA, opening the file gives the index
that is open already; only the leaf count of the manifest is that of the manifest blob, which a commit
writes before it counts the leaves. -/
theorem run_reopens {old : TreeFile s} (hoff : b.routingPca = none) (hb : build b old = .ok file)
    (heng : eng.coder = b.coder) (hpca : PcaShaped b) (hone : OneLeafEach b)
    (hopen : openIndex eng file = .ok idx) (hrun : MutationRun eng card idx ops idx') :
    ∃ m, readConfig idx'.file idx'.super.config = some m ∧ openIndex eng idx'.file =
      .ok { idx' with manifest := { idx'.manifest with nLeaves := m.nLeaves } } := by
  obtain ⟨st, F, c, hbuilt, hopened⟩ := opened_of_build hb heng hpca hone hopen
  have hdims : idx.manifest.pcaDims = 0 := by rw [hbuilt.pcaDims, hoff]; rfl
  rw [← file_of_build hb hopen] at hopen
  obtain ⟨c', h', hoff'⟩ := hrun.pcaOff hopened (pcaOff_of_open hopened hopen hdims)
  exact ⟨c'.manifest, h'.index.readConfig, h'.reopen hoff'⟩

theorem run_reopens_two : ∃ m, readConfig busyEnd.file busyEnd.super.config = some m ∧
    openIndex (lineEngine plainSchema) busyEnd.file =
      .ok { busyEnd with manifest := { busyEnd.manifest with nLeaves := m.nLeaves } } :=
  run_reopens rfl build_pairBuild rfl pcaShaped_pairBuild oneLeafEach_pairBuild open_pairBuild busy_run

end SextantTree
