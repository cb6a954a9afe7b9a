import SextantTree.RowConservation

/-!
Vacuum and defrag on an index that has been written to: what they make of each leaf, in the order of
the tree, and of the cardinality blob.
-/

namespace SextantTree

open Pages Alloc AllocInv AllocRun Heap FilterHash Outcome Stepwise

variable {s : Schema} {eng : Engine} {card : List (FilterRow s) → Bytes} {idx idx' idx'' : Index s}
  {c c' : Contents s} {file : TreeFile s} {b : BuildInput s} {ops : List (Op s)}

/-- The bytes of a blob as `open` reads them; `none` is a slot without a blob. -/
def readBlob (file : TreeFile s) (e : Extent) : Option Bytes :=
  readAs (fun | .blob bytes => some bytes | _ => none) file e

def vacuumed (l : Leaf s) : Leaf s := if l.summaryDirty then repairedLeaf l else l

lemma IndexOk.reachable_map {f : Leaf s → Leaf s} (h : IndexOk eng idx c) (h' : IndexOk eng idx' c')
    (hshape : c'.shape = c.shape)
    (hleaves : List.Forall₂ (fun l l' => l'.leaf = f l.leaf) c.leaves c'.leaves) :
    reachableLeaves idx'.file = (reachableLeaves idx.file).map (List.map f) := by
  have hrefs : c'.tree.refs = c.tree.refs :=
    congrArg (fun t : Σ d, Tree (d + 1) => t.2.refs) hshape
  have hmap : c'.leaves.map StoredLeaf.leaf = c.leaves.map fun l => f l.leaf :=
    map_of_forall₂ hleaves fun _ _ hl => hl
  have hat : ∀ i : ℕ, (c'.leaves[i]?).map StoredLeaf.leaf = ((c.leaves[i]?).map StoredLeaf.leaf).map f := by
    intro i
    rw [← List.getElem?_map, hmap, List.getElem?_map, Option.map_map]
    rfl
  rw [h.reachableLeaves_refs, h'.reachableLeaves_refs, hrefs, Option.map_some, List.map_filterMap]
  simp only [hat]

lemma IndexOk.readCardinality (h : IndexOk eng idx c) (hblob : c.cardinality.map Prod.snd =
    cardinalityBlob card c) : readBlob idx.file idx.super.cardinality =
      if (card c.filters).isEmpty then none else some (card c.filters) := by
  have hnames := h.committed.named.cardinality
  unfold cardinalityBlob at hblob
  by_cases hempty : (card c.filters).isEmpty
  · rw [if_pos hempty, Option.map_eq_none_iff] at hblob
    rw [hblob] at hnames
    have hno : idx.super.cardinality.pages = 0 := hnames
    rw [if_pos hempty, readBlob, readAs, Option.bind_eq_none_iff]
    intro q _
    rw [hno]
    unfold readObj
    split
    · rw [if_neg (by omega)]
      rfl
    · rfl
  · rw [if_neg hempty] at hblob ⊢
    obtain ⟨⟨p, o⟩, hx, rfl⟩ := Option.map_eq_some_iff.mp hblob
    obtain ⟨a, ha⟩ := h.committed.holds
    rw [hx] at hnames
    rw [hnames.1]
    exact readAs_of_holds ha (by simp [Contents.heap, Slot.exts, hx]) hnames.2 rfl

lemma coe_filters (c : Contents s) :
    (c.filters : Multiset (FilterRow s)) = (c.rows.map LeafRow.bare).map Prod.snd := by
  rw [Contents.filters, Contents.rows, Multiset.map_map]
  induction c.leaves with
  | nil => rfl
  | cons l L ih =>
    rw [List.flatMap_cons, ← Multiset.coe_add, ih, List.map_cons, List.sum_cons, Multiset.map_add]
    rfl

section

variable {old : TreeFile s} (hb : build b old = .ok file) (heng : eng.coder = b.coder)
  (hpca : PcaShaped b) (hone : OneLeafEach b) (hopen : openIndex eng file = .ok idx)
  (hrun : MutationRun eng card idx ops idx')

include hb heng hpca hone hopen hrun

/-- **A defrag moves leaves and changes none.** -/
theorem run_defrags {cfg : DefragConfig} (hkeep : cfg.shrinkFile = false)
    (hcall : defrag eng cfg idx' = .ok idx'') :
    reachableLeaves idx''.file = reachableLeaves idx'.file := by
  obtain ⟨st, F, c, hbuilt, hopened⟩ := opened_of_build hb heng hpca hone hopen
  obtain ⟨c₁, h₁, -⟩ := hrun.rows hopened
  obtain ⟨c₂, hres⟩ := (defrag_spec h₁.index cfg hkeep).result hcall
  rw [h₁.index.reachable_map (f := id) hres.index hres.shape (hres.leaves.imp fun _ _ hl => hl.1)]
  simp

end

lemma busyEnd_maintained :
    (vacuum (lineEngine plainSchema) (fun _ => []) ⟨1, true⟩ busyEnd).isOk = true ∧
      (defrag (lineEngine plainSchema) ⟨1, false⟩ busyEnd).isOk = true := by
  decide +kernel

theorem run_defrags_two :
    reachableLeaves (Op.after (lineEngine plainSchema) (fun _ => []) busyEnd (.defrag ⟨1, false⟩)).file =
      reachableLeaves busyEnd.file :=
  run_defrags build_pairBuild rfl pcaShaped_pairBuild oneLeafEach_pairBuild open_pairBuild busy_run rfl
    (eq_okOr _ busyEnd_maintained.2)

end SextantTree
