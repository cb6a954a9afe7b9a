import SextantTree.Disk

/-!
The shape of a tree on disk. A tree of depth `d` is its root node with its children down to
the leaf references; which page images it stands for, which extents it owns and which leaves
it reaches are functions of it. Nothing of this is computed by the engine: a tree here is
what the invariants say the pages hold.
-/

namespace SextantTree

open Pages Alloc AllocInv Heap

/-- What a child entry says besides where the child is. -/
structure Label where
  centroid : Vec
  summary : Summary

/-- A leaf as its parent names it: the position in the leaf table, and the extent length the
entry was written with. -/
structure LeafRef where
  id : ℕ
  pages : ℕ

/-- An internal node at `page` over children of type `α`; an empty cluster has no child. -/
structure Inner (α : Type) where
  page : ℕ
  kids : List (Label × Option α)

/-- Trees by depth; a tree of depth zero is a leaf. -/
def Tree : ℕ → Type
  | 0 => LeafRef
  | d + 1 => Inner (Tree d)

section

variable (s : Schema) (dim : ℕ)

def Inner.pages {α : Type} (n : Inner α) : ℕ := nodeExtentPages dim n.kids.length s.summarySize

def Tree.entry : {d : ℕ} → Label × Option (Tree d) → ChildEntry
  | 0, (a, none) => ⟨none, 0, true, a.centroid, a.summary⟩
  | 0, (a, some r) => ⟨some (LeafRef.id r), LeafRef.pages r, true, a.centroid, a.summary⟩
  | _ + 1, (a, none) => ⟨none, 0, false, a.centroid, a.summary⟩
  | _ + 1, (a, some n) => ⟨some (Inner.page n), Inner.pages s dim n, false, a.centroid, a.summary⟩

def Inner.node {d : ℕ} (n : Inner (Tree d)) : Node where
  children := n.kids.map (Tree.entry s dim)
  extentPages := n.pages s dim

def Inner.extent {α : Type} (n : Inner α) : Extent := ⟨some n.page, n.pages s dim⟩

def Inner.ext {d : ℕ} (n : Inner (Tree d)) : Ext (Obj s) :=
  ⟨n.page, n.pages s dim, some (.node (n.node s dim))⟩

def Tree.exts : {d : ℕ} → Tree d → List (Ext (Obj s))
  | 0, _ => []
  | _ + 1, n => Inner.ext s dim n :: (Inner.kids n).flatMap fun k => k.2.elim [] Tree.exts

end

/-- The leaves a tree reaches, each with the summaries of the entries on the way. -/
def Tree.refs : {d : ℕ} → Tree d → List (List Summary × ℕ)
  | 0, r => [([], LeafRef.id r)]
  | _ + 1, n => (Inner.kids n).flatMap fun k =>
      k.2.elim [] fun t => (Tree.refs t).map fun x => (k.1.summary :: x.1, x.2)

def Tree.ids {d : ℕ} (t : Tree d) : List ℕ := t.refs.map Prod.snd

lemma Tree.ids_succ {d : ℕ} (n : Inner (Tree d)) :
    Tree.ids (d := d + 1) n = n.kids.flatMap fun k => k.2.elim [] Tree.ids := by
  simp only [Tree.ids, Tree.refs, List.map_flatMap]
  refine List.flatMap_congr fun k _ => ?_
  cases k.2 with
  | none => rfl
  | some t => simp [Tree.ids, Function.comp_def]

lemma Tree.mem_ids {d i : ℕ} {t : Tree (d + 1)} :
    i ∈ t.ids ↔ ∃ k ∈ Inner.kids t, i ∈ k.2.elim [] Tree.ids := by
  rw [← List.mem_flatMap]
  exact iff_of_eq (congrArg (i ∈ ·) (Tree.ids_succ t))

/-- The leaves below a child entry, where `walk` finds those below a node. -/
def refsBelow (walk : Extent → Option (List (List Summary × ℕ))) (c : ChildEntry) :
    Option (List (List Summary × ℕ)) :=
  match c.childPage with
  | none => some []
  | some p =>
    if c.isLeaf then some [([c.summary], p)]
    else (walk ⟨some p, c.childPages⟩).map (·.map fun x => (c.summary :: x.1, x.2))

/-- The leaves reached from the node in an extent, through at most `fuel` nodes. -/
def leafRefs {s : Schema} (file : TreeFile s) : (fuel : ℕ) → Extent → Option (List (List Summary × ℕ))
  | 0, _ => none
  | fuel + 1, e => do
    let n ← readNode file e
    let below ← n.children.mapM (refsBelow (leafRefs file fuel))
    some below.flatten

/-! ### Reading what the heap holds -/

section

variable {s : Schema} {dim : ℕ}

lemma mapM_map_eq_some {α β γ : Type} {f : β → Option γ} {g : α → β} {r : α → γ} {l : List α}
    (h : ∀ a ∈ l, f (g a) = some (r a)) : (l.map g).mapM f = some (l.map r) := by
  induction l with
  | nil => rfl
  | cons a l ih =>
    rw [List.map_cons, List.mapM_cons, h a List.mem_cons_self,
      ih fun b hb => h b (List.mem_cons_of_mem _ hb)]
    rfl

lemma pagesFor_pos {n : ℕ} (h : 0 < n) : 0 < pagesFor n := by
  simp only [pagesFor, kPageSize]
  omega

lemma nodeExtentPages_pos (dim n z : ℕ) : 0 < nodeExtentPages dim n z :=
  pagesFor_pos (by simp only [nodeExtentBytes]; omega)

lemma Inner.pages_pos {α : Type} (n : Inner α) : 0 < n.pages s dim := nodeExtentPages_pos _ _ _

lemma readObj_of_holds {v : TreeVol s} {H : List (Ext (Obj s))} {p n : ℕ} {o : Obj s}
    (h : Holds Obj.image v H) (hmem : (⟨p, n, some o⟩ : Ext (Obj s)) ∈ H) (hn : 0 < o.pages)
    (hle : o.pages ≤ n) : readObj v.file p n = some o := by
  have hst : ∀ i < n, v.file.pages (p + i) = .part o i := fun i hi =>
    h.stored _ hmem o rfl i hi
  have hin : p + n ≤ v.file.numPages := by
    obtain ⟨S, hok⟩ := h.ok
    rw [hok.fileSize]
    exact h.inFile _ hmem
  have h0 := hst 0 (by omega)
  rw [Nat.add_zero] at h0
  unfold readObj
  rw [h0]
  refine if_pos ⟨hn, hle, hin, ?_⟩
  rw [List.all_eq_true]
  intro i hi
  rw [List.mem_range] at hi
  simp [holdsPart, hst i (by omega)]

theorem writeObj_of_holds {v : TreeVol s} {H : List (Ext (Obj s))} {o : Obj s}
    (h : Holds Obj.image v H) (hpos : 0 < o.pages) :
    ∃ p v', writeObj v o = (⟨some p, o.pages⟩, v') ∧
      Holds Obj.image v' (⟨p, o.pages, some o⟩ :: H) ∧ Kept v v' := by
  obtain ⟨p, v₁, halloc, h₁, hk₁⟩ := h.alloc hpos
  obtain ⟨h₂, hk₂⟩ := h₁.write o
  refine ⟨p, _, ?_, h₂, hk₁.trans hk₂⟩
  simp only [writeObj, halloc]

lemma readNode_of_holds {v : TreeVol s} {H : List (Ext (Obj s))} {d : ℕ} {n : Inner (Tree d)}
    (h : Holds Obj.image v H) (hmem : n.ext s dim ∈ H) :
    readNode v.file (n.extent s dim) = some (n.node s dim) := by
  have := readObj_of_holds h hmem (o := .node (n.node s dim)) n.pages_pos le_rfl
  simp [readNode, readAs, Inner.extent, this]

/-- **Reading a tree.** From the root of a tree the heap holds, the walk meets exactly the
leaves of the tree, in order. -/
theorem leafRefs_of_holds {v : TreeVol s} {H : List (Ext (Obj s))} (h : Holds Obj.image v H) :
    ∀ {d : ℕ} (t : Tree (d + 1)), (∀ e ∈ t.exts s dim, e ∈ H) →
      leafRefs v.file (d + 1) (Inner.extent s dim t) = some t.refs
  | d, (n : Inner (Tree d)), hsub => by
    have hnode := readNode_of_holds h (hsub _ List.mem_cons_self)
    have hkids : ∀ k ∈ n.kids, ∀ e ∈ k.2.elim [] (Tree.exts s dim), e ∈ H := fun k hk e he =>
      hsub e (List.mem_cons_of_mem _ (List.mem_flatMap.mpr ⟨k, hk, he⟩))
    have hbelow : ∀ k ∈ n.kids, refsBelow (leafRefs v.file d) (Tree.entry s dim k) =
        some (k.2.elim [] fun t => (Tree.refs t).map fun x => (k.1.summary :: x.1, x.2)) := by
      rintro ⟨a, t⟩ hk
      cases d with
      | zero => cases t <;> rfl
      | succ d =>
        cases t with
        | none => rfl
        | some t =>
          have ih := leafRefs_of_holds h t (hkids _ hk)
          simp only [Inner.extent] at ih
          simp [refsBelow, Tree.entry, ih]
    simp only [leafRefs, hnode, bind, Option.bind, Inner.node]
    rw [mapM_map_eq_some hbelow]
    simp [Tree.refs, List.flatMap]

end

end SextantTree
