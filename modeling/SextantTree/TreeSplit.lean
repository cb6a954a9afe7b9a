import SextantTree.CommitSpec
import SextantTree.OpenRoute

/-!
What a split does to a tree: the node with the entry of the split leaf gets one more entry, and
the node above it may have to say that it has moved. All else of the tree is as before.
-/

namespace SextantTree

open Pages Alloc AllocInv AllocRun Heap FilterHash Outcome

variable {s : Schema} {dim : ℕ}

/-! ### One entry changed -/

lemma map_modify_eq {α β : Type} {l : List α} {i : ℕ} {f : α → β} {g : α → α} {h : β → β}
    (hfg : ∀ a, l[i]? = some a → f (g a) = h (f a)) :
    (l.modify i g).map f = (l.map f).modify i h := by
  refine List.ext_getElem? fun j => ?_
  simp only [List.getElem?_map, List.getElem?_modify]
  by_cases hij : i = j
  · subst hij
    cases ha : l[i]? with
    | none => simp
    | some a => simp [hfg a ha]
  · simp [hij]

lemma flatMap_modify {α β : Type} {l : List α} {i : ℕ} {f : α → List β} {g : α → α}
    (hfg : ∀ a, f (g a) = f a) : (l.modify i g).flatMap f = l.flatMap f := by
  rw [List.flatMap_def, List.flatMap_def, map_modify_eq (h := id) fun a _ => hfg a, List.modify_id]

/-! ### The node with the entry of the split leaf -/

def Tree.ref (id pages : ℕ) : Tree 0 := (⟨id, pages⟩ : LeafRef)

/-- The entries of a node after one of its leaves was split. -/
def splitKids (kids : List (Label × Option (Tree 0))) (slot pages : ℕ) (cent0 cent1 : Vec)
    (newId newPages : ℕ) : List (Label × Option (Tree 0)) :=
  kids.modify slot (fun k =>
    (⟨cent0, k.1.summary⟩, k.2.map fun (r : Tree 0) => Tree.ref (LeafRef.id r) pages)) ++
  [(⟨cent1, Summary.zero⟩, some (Tree.ref newId newPages))]

section

variable {kids : List (Label × Option (Tree 0))} {slot pages newId newPages : ℕ} {cent0 cent1 : Vec}

lemma entries_splitKids {a : Label} {r : Tree 0} (h : kids[slot]? = some (a, some r)) :
    (splitKids kids slot pages cent0 cent1 newId newPages).map (Tree.entry s dim) =
      (kids.map (Tree.entry s dim)).modify slot (fun c =>
        { c with childPages := pages, centroid := cent0 }) ++
      [⟨some newId, newPages, true, cent1, Summary.zero⟩] := by
  rw [splitKids, List.map_append]
  congr 1
  refine map_modify_eq fun k hk => ?_
  rw [h] at hk
  cases hk
  rfl

@[simp] lemma length_splitKids :
    (splitKids kids slot pages cent0 cent1 newId newPages).length = kids.length + 1 := by
  simp [splitKids]

lemma refs_splitKids (p q : ℕ) :
    Tree.refs (d := 1) (⟨q, splitKids kids slot pages cent0 cent1 newId newPages⟩ : Inner (Tree 0)) =
      Tree.refs (d := 1) (⟨p, kids⟩ : Inner (Tree 0)) ++ [([Summary.zero], newId)] := by
  simp only [Tree.refs, splitKids, List.flatMap_append]
  congr 1
  refine flatMap_modify fun k => ?_
  obtain ⟨a, _ | r⟩ := k <;> rfl

lemma isSome_splitKids (h : ∀ k ∈ kids, k.2.isSome) :
    ∀ k ∈ splitKids kids slot pages cent0 cent1 newId newPages, k.2.isSome := by
  intro k hk
  rw [splitKids, List.mem_append, List.mem_singleton] at hk
  rcases hk with hk | rfl
  · obtain ⟨i, hi⟩ := List.mem_iff_getElem?.mp hk
    rw [List.getElem?_modify, Option.map_eq_map, Option.map_eq_some_iff] at hi
    obtain ⟨k', hk', rfl⟩ := hi
    have := h k' (List.mem_of_getElem? hk')
    split
    · simpa using this
    · exact this
  · rfl

end

/-! ### A node whose child was replaced -/

def Inner.put {α : Type} (g : Inner α) (j : ℕ) (a : Label) (n : α) : Inner α :=
  ⟨g.page, g.kids.set j (a, some n)⟩

section

variable {d : ℕ} {g : Inner (Tree d)} {j : ℕ} {a : Label} {n n' : Tree d}

lemma put_extent : (g.put j a n').extent s dim = g.extent s dim := by
  simp [Inner.put, Inner.extent, Inner.pages]

/-- The other nodes below `g`. -/
def Inner.besides (s : Schema) (dim : ℕ) (g : Inner (Tree d)) (j : ℕ) : List (Ext (Obj s)) :=
  (g.kids.eraseIdx j).flatMap fun k => k.2.elim [] (Tree.exts s dim)

lemma exts_perm (h : g.kids[j]? = some (a, some n)) :
    (Tree.exts s dim (d := d + 1) g).Perm (g.ext s dim :: (n.exts s dim ++ g.besides s dim j)) :=
  (flatMap_perm_eraseIdx _ h).cons _

lemma exts_put_perm (h : g.kids[j]? = some (a, some n)) :
    (Tree.exts s dim (d := d + 1) (g.put j a n')).Perm
      ((g.put j a n').ext s dim :: (n'.exts s dim ++ g.besides s dim j)) :=
  (flatMap_set_perm _ h).cons _

lemma refs_put_perm (h : g.kids[j]? = some (a, some n)) {x : List Summary × ℕ}
    (hn : n'.refs.Perm (n.refs ++ [x])) :
    (Tree.refs (d := d + 1) (g.put j a n')).Perm
      (Tree.refs (d := d + 1) g ++ [(a.summary :: x.1, x.2)]) := by
  refine (flatMap_set_perm _ h).trans (.trans ?_ ((flatMap_perm_eraseIdx _ h).symm.append_right _))
  simp only [Option.elim_some]
  refine ((hn.map _).append_right _).trans ?_
  rw [List.map_append, List.map_singleton, List.append_assoc, List.append_assoc]
  exact List.perm_append_comm.append_left _

lemma mem_refs_of_kid (h : g.kids[j]? = some (a, some n)) {x : List Summary × ℕ} (hx : x ∈ n.refs) :
    (a.summary :: x.1, x.2) ∈ Tree.refs (d := d + 1) g := by
  refine List.mem_flatMap.mpr ⟨_, List.mem_of_getElem? h, ?_⟩
  exact List.mem_map.mpr ⟨x, hx, rfl⟩

lemma set_entries {α β : Type} {l : List α} {i : ℕ} {f : α → β} {b : α} {h : β → β}
    (hfg : ∀ x, l[i]? = some x → f b = h (f x)) : (l.set i b).map f = (l.map f).modify i h := by
  rw [List.set_eq_modify]
  exact map_modify_eq hfg

end

lemma entries_put {d : ℕ} {g : Inner (Tree (d + 1))} {j : ℕ} {a : Label} {n n' : Tree (d + 1)}
    (h : g.kids[j]? = some (a, some n)) :
    (g.put j a n').kids.map (Tree.entry s dim) =
      (g.kids.map (Tree.entry s dim)).modify j (fun c =>
        { c with childPage := (Inner.extent s dim n').page,
                 childPages := (Inner.extent s dim n').pages }) := by
  refine set_entries fun x hx => ?_
  rw [h] at hx
  cases hx
  rfl

lemma entries_put_same {d : ℕ} {g : Inner (Tree (d + 1))} {j : ℕ} {a : Label} {n n' : Tree (d + 1)}
    (h : g.kids[j]? = some (a, some n)) (he : Inner.extent s dim n' = Inner.extent s dim n) :
    (g.put j a n').kids.map (Tree.entry s dim) = g.kids.map (Tree.entry s dim) := by
  have hsame : Tree.entry s dim (a, some n') = Tree.entry s dim (a, some n) := by
    simp only [Inner.extent, Extent.mk.injEq, Option.some.injEq] at he
    simp only [Tree.entry, he.1, he.2]
  rw [Inner.put, List.map_set, hsame]
  exact set_of_getElem? (by rw [List.getElem?_map, h]; rfl)

lemma ext_put_same {d : ℕ} {g : Inner (Tree (d + 1))} {j : ℕ} {a : Label} {n n' : Tree (d + 1)}
    (h : g.kids[j]? = some (a, some n)) (he : Inner.extent s dim n' = Inner.extent s dim n) :
    (g.put j a n').ext s dim = g.ext s dim := by
  have hp : (g.put j a n').pages s dim = g.pages s dim := by simp [Inner.put, Inner.pages]
  simp only [Inner.ext, Inner.node, hp, entries_put_same h he]
  rfl

/-! ### What routing reads -/

/-- The root entries, and which of them lead somewhere. -/
def Tree.rootLabels {d : ℕ} (t : Tree (d + 1)) : List (Label × Bool) :=
  (Inner.kids t).map fun k => (k.1, k.2.isSome)

def Tree.Rooted {d : ℕ} (t : Tree (d + 1)) : Prop := ∀ k ∈ Inner.kids t, ∀ x, k.2 = some x → x.Full

/-- Nothing gets empty on the way from one tree to the other, and above the lowest level the root
entries are the same. -/
structure Inherits {d : ℕ} (t t' : Tree (d + 1)) : Prop where
  full : t.Full → t'.Full
  rooted : t.Rooted → t'.Rooted
  labels : 0 < d → t'.rootLabels = t.rootLabels

lemma inherits_bottom {n n' : Tree 1} {slot pages newId newPages : ℕ} {cent0 cent1 : Vec}
    (hkids : Inner.kids n' = splitKids (Inner.kids n) slot pages cent0 cent1 newId newPages) :
    Inherits n n' where
  full h := by
    refine ⟨fun hnil => ?_, fun k hk => ?_⟩
    · rw [hkids, ← List.length_eq_zero_iff, length_splitKids] at hnil
      omega
    · rw [hkids] at hk
      obtain ⟨x, hx⟩ := Option.isSome_iff_exists.mp (isSome_splitKids (fun k hk => by
        obtain ⟨x, hx, -⟩ := h.2 k hk
        exact Option.isSome_iff_exists.mpr ⟨x, hx⟩) k hk)
      exact ⟨x, hx, True.intro⟩
  rooted _ _ _ _ _ := True.intro
  labels h := absurd h (lt_irrefl 0)

lemma Inherits.put {d : ℕ} {g : Inner (Tree (d + 1))} {j : ℕ} {a : Label} {n n' : Tree (d + 1)}
    (hj : g.kids[j]? = some (a, some n)) (h : Inherits n n') :
    Inherits (d := d + 1) g (g.put j a n') := by
  have hmem : (a, some n) ∈ g.kids := List.mem_of_getElem? hj
  have hrooted : Tree.Rooted (d := d + 1) g → Tree.Rooted (d := d + 1) (g.put j a n') := by
    intro hg k hk x hx
    rcases List.mem_or_eq_of_mem_set hk with hk | rfl
    · exact hg k hk x hx
    · cases hx
      exact h.full (hg _ hmem n rfl)
  refine ⟨fun hg => ⟨fun hnil => ?_, fun k hk => ?_⟩, hrooted, fun _ => ?_⟩
  · have hlen : (g.put j a n').kids.length = g.kids.length := by simp [Inner.put]
    rw [hnil] at hlen
    exact hg.1 (List.length_eq_zero_iff.mp hlen.symm)
  · rcases List.mem_or_eq_of_mem_set hk with hk | rfl
    · exact hg.2 k hk
    · obtain ⟨x, hx, hfull⟩ := hg.2 _ hmem
      cases hx
      exact ⟨n', rfl, h.full hfull⟩
  · change (g.kids.set j (a, some n')).map (fun k => (k.1, k.2.isSome)) =
      g.kids.map fun k => (k.1, k.2.isSome)
    rw [List.map_set]
    refine set_of_getElem? ?_
    rw [List.getElem?_map, hj]
    rfl

lemma exts_bottom (n : Tree 1) : n.exts s dim = [Inner.ext s dim n] := by
  have : ((Inner.kids n).flatMap fun k => k.2.elim [] (Tree.exts s dim)) = [] := by
    refine List.flatMap_eq_nil_iff.mpr fun k _ => ?_
    cases k.2 <;> rfl
  exact congrArg _ this

end SextantTree
