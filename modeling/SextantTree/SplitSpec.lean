import SextantTree.TreeSplit

/-!
A split on the heap. The search for the parent reads the nodes from the file, so it sees what
earlier splits of the batch did; at depth three it starts from the root children in memory,
which a split never changes. Whatever the depth, the entry of a reachable leaf is found, and
the new leaf becomes reachable.
-/

namespace SextantTree

open Pages Alloc AllocInv AllocRun Heap FilterHash Outcome

variable {s : Schema} {dim : ℕ}

/-! ### Finding the parent -/

section

variable {id : ℕ}

/-- The entry of the leaf is in a slot of the node. -/
def Inner.HasSlot (n : Inner (Tree 0)) (id i : ℕ) : Prop :=
  ∃ a r, n.kids[i]? = some (a, some r) ∧ LeafRef.id r = id

lemma hasSlot_of_slotOf {n : Inner (Tree 0)} {i : ℕ} (h : slotOf (n.node s dim) id = some i) :
    n.HasSlot id i := by
  unfold slotOf at h
  obtain ⟨hi, hp, -⟩ := List.findIdx?_eq_some_iff_getElem.mp h
  simp only [Inner.node, List.length_map] at hi
  simp only [Inner.node, List.getElem_map] at hp
  rcases hk : n.kids[i] with ⟨a, _ | r⟩
  · rw [hk] at hp
    simp [Tree.entry] at hp
  · rw [hk] at hp
    refine ⟨a, r, by rw [List.getElem?_eq_getElem hi, hk], ?_⟩
    simpa [Tree.entry] using hp

lemma not_mem_ids_of_slotOf {n : Inner (Tree 0)} (h : slotOf (n.node s dim) id = none) :
    id ∉ Tree.ids (d := 1) n := by
  unfold slotOf at h
  rw [List.findIdx?_eq_none_iff] at h
  intro hmem
  obtain ⟨⟨a, _ | r⟩, hk, hid⟩ := Tree.mem_ids.mp hmem
  · cases hid
  · have hr : id = LeafRef.id r := by simpa [Tree.ids, Tree.refs] using hid
    have := h _ (List.mem_map_of_mem hk)
    simp [Tree.entry, hr] at this

variable {v : TreeVol s} {H : List (Ext (Obj s))}

/-- What a scan of the nodes below `e` found: the entry of the leaf, or that there is none. -/
def Scanned (s : Schema) (dim id : ℕ) (e : Extent) (k : ℕ) (ks : List (Label × Option (Tree 1)))
    (r : Option ParentLoc) : Prop :=
  match r with
  | some loc => ∃ (j : ℕ) (a : Label) (n : Tree 1) (i : ℕ), ks[j]? = some (a, some n) ∧
      Inner.HasSlot n id i ∧
      loc = ⟨Inner.extent s dim n, i, some (e, k + j)⟩
  | none => ∀ x ∈ ks, id ∉ x.2.elim [] Tree.ids

lemma Scanned.cons {e : Extent} {k : ℕ} {ks : List (Label × Option (Tree 1))}
    {r : Option ParentLoc} {x : Label × Option (Tree 1)} (h : Scanned s dim id e (k + 1) ks r)
    (hx : id ∉ x.2.elim [] Tree.ids) : Scanned s dim id e k (x :: ks) r := by
  cases r with
  | none => exact List.forall_mem_cons.mpr ⟨hx, h⟩
  | some loc =>
    obtain ⟨j, a, n, i, hj, hi, rfl⟩ := h
    exact ⟨j + 1, a, n, i, hj, hi, by rw [Nat.add_right_comm, Nat.add_assoc]⟩

lemma scanChildren_of_holds (h : Holds Obj.image v H) (id : ℕ) (e : Extent) :
    ∀ (ks : List (Label × Option (Tree 1))) (k : ℕ),
      (∀ x ∈ ks, ∀ n, x.2 = some n → Inner.ext s dim n ∈ H) →
      ∃ r, scanChildren v.file id e ((ks.map (Tree.entry s dim)).zipIdx k) = .ok r ∧
        Scanned s dim id e k ks r
  | [], _, _ => ⟨none, rfl, fun _ hx => absurd hx List.not_mem_nil⟩
  | (a, none) :: ks, k, hmem => by
    obtain ⟨r, hr, hsc⟩ := scanChildren_of_holds h id e ks (k + 1) fun x hx =>
      hmem x (List.mem_cons_of_mem _ hx)
    refine ⟨r, ?_, hsc.cons List.not_mem_nil⟩
    rw [List.map_cons, List.zipIdx_cons, scanChildren]
    exact (if_pos rfl).trans hr
  | (a, some n) :: ks, k, hmem => by
    have hnode := nodeAt_of_holds h (hmem _ List.mem_cons_self n rfl)
    have hread : scanChildren v.file id e ((((a, some n) :: ks).map (Tree.entry s dim)).zipIdx k) =
        (slotOf (Inner.node s dim n) id).elim
          (scanChildren v.file id e ((ks.map (Tree.entry s dim)).zipIdx (k + 1)))
          fun slot => .ok (some ⟨Inner.extent s dim n, slot, some (e, k)⟩) := by
      rw [List.map_cons, List.zipIdx_cons, scanChildren]
      refine (if_neg (by simp [Tree.entry])).trans ?_
      have hext : (⟨(Tree.entry s dim (a, some n)).childPage,
          (Tree.entry s dim (a, some n)).childPages⟩ : Extent) = Inner.extent s dim n := rfl
      rw [hext, hnode, ok_bind]
      cases slotOf (Inner.node s dim n) id <;> rfl
    cases hs : slotOf (Inner.node s dim n) id with
    | some slot =>
      rw [hs] at hread
      exact ⟨_, hread, 0, a, n, slot, rfl, hasSlot_of_slotOf hs, rfl⟩
    | none =>
      rw [hs] at hread
      obtain ⟨r, hr, hsc⟩ := scanChildren_of_holds h id e ks (k + 1) fun x hx =>
        hmem x (List.mem_cons_of_mem _ hx)
      exact ⟨r, hread.trans hr, hsc.cons (not_mem_ids_of_slotOf hs)⟩

/-- What the scan from the root children found. -/
def ScannedDeep (s : Schema) (dim id : ℕ) (ks : List (Label × Option (Tree 2)))
    (r : Option ParentLoc) : Prop :=
  match r with
  | some loc => ∃ (c : ℕ) (b : Label) (m : Tree 2), ks[c]? = some (b, some m) ∧
      Scanned s dim id (Inner.extent s dim m) 0 (Inner.kids m) (some loc)
  | none => ∀ x ∈ ks, id ∉ x.2.elim [] Tree.ids

lemma ScannedDeep.cons {ks : List (Label × Option (Tree 2))} {r : Option ParentLoc}
    {x : Label × Option (Tree 2)} (h : ScannedDeep s dim id ks r)
    (hx : id ∉ x.2.elim [] Tree.ids) : ScannedDeep s dim id (x :: ks) r := by
  cases r with
  | none => exact List.forall_mem_cons.mpr ⟨hx, h⟩
  | some loc =>
    obtain ⟨c, b, m, hc, hsc⟩ := h
    exact ⟨c + 1, b, m, hc, hsc⟩

lemma scanRootChildren_of_holds (h : Holds Obj.image v H) (id : ℕ) :
    ∀ ks : List (Label × Option (Tree 2)),
      (∀ x ∈ ks, ∀ m, x.2 = some m → ∀ e ∈ Tree.exts s dim m, e ∈ H) →
      ∃ r, scanRootChildren v.file id (ks.map fun k => nodeChild (Tree.entry s dim k)) = .ok r ∧
        ScannedDeep s dim id ks r
  | [], _ => ⟨none, rfl, fun _ hx => absurd hx List.not_mem_nil⟩
  | (b, none) :: ks, hmem => by
    obtain ⟨r, hr, hsc⟩ := scanRootChildren_of_holds h id ks fun x hx =>
      hmem x (List.mem_cons_of_mem _ hx)
    refine ⟨r, ?_, hsc.cons List.not_mem_nil⟩
    rw [List.map_cons, scanRootChildren]
    exact (if_pos rfl).trans hr
  | (b, some m) :: ks, hmem => by
    have hm := hmem _ List.mem_cons_self m rfl
    have hnode := nodeAt_of_holds h (hm _ List.mem_cons_self)
    obtain ⟨r₁, hr₁, hsc₁⟩ := scanChildren_of_holds h id (Inner.extent s dim m)
      (Inner.kids m) 0 fun x hx n hn => hm _ (kid_ext_mem hx hn)
    have hread : scanRootChildren v.file id
        (((b, some m) :: ks).map fun k => nodeChild (Tree.entry s dim k)) =
        match r₁ with
        | some loc => .ok (some loc)
        | none => scanRootChildren v.file id (ks.map fun k => nodeChild (Tree.entry s dim k)) := by
      rw [List.map_cons, scanRootChildren]
      refine (if_neg (by simp [nodeChild, Tree.entry])).trans ?_
      have hext : (⟨(nodeChild (Tree.entry s dim (b, some m))).page,
          (nodeChild (Tree.entry s dim (b, some m))).pages⟩ : Extent) = Inner.extent s dim m := rfl
      rw [hext, hnode]
      simp only [bind, Except.bind, Inner.node, hr₁]
      cases r₁ <;> rfl
    cases r₁ with
    | some loc => exact ⟨_, hread, 0, b, m, rfl, hsc₁⟩
    | none =>
      obtain ⟨r, hr, hsc⟩ := scanRootChildren_of_holds h id ks fun x hx =>
        hmem x (List.mem_cons_of_mem _ hx)
      refine ⟨r, hread.trans hr, hsc.cons ?_⟩
      intro hid
      obtain ⟨k, hk, hid⟩ := Tree.mem_ids.mp hid
      exact hsc₁ k hk hid

end

/-! ### Growing the parent -/

lemma nodeExtentPages_mono {dim z n m : ℕ} (h : n ≤ m) :
    nodeExtentPages dim n z ≤ nodeExtentPages dim m z := by
  have := Nat.mul_le_mul_left (childEntrySize dim z) h
  simp only [nodeExtentPages, nodeExtentBytes, pagesFor, kPageSize]
  omega

section

variable {idx : Index s} {w : Work s} {H : List (Ext (Obj s))}

lemma updateInternalChild_of_holds {g : Inner (Tree 1)} {j : ℕ} {a : Label} {n : Tree 1}
    (n' : Tree 1) (h : Holds Obj.image w.vol (g.ext s dim :: H)) (hj : g.kids[j]? = some (a, some n)) :
    ∃ v', updateInternalChild w (g.extent s dim) j (Inner.extent s dim n') =
        .ok { w with vol := v' } ∧
      Holds Obj.image v' ((g.put j a n').ext s dim :: H) ∧ Kept w.vol v' := by
  have hpages : (g.put j a n').pages s dim = g.pages s dim := by simp [Inner.put, Inner.pages]
  have hread := nodeAt_of_holds h List.mem_cons_self
  have hnode : { g.node s dim with
      children := (g.node s dim).children.modify j fun c =>
        { c with childPage := (Inner.extent s dim n').page,
                 childPages := (Inner.extent s dim n').pages } } = (g.put j a n').node s dim := by
    simp only [Inner.node, hpages]
    rw [entries_put hj]
  obtain ⟨hold, hk⟩ := h.write (.node ((g.put j a n').node s dim))
  refine ⟨_, ?_, ?_, hk⟩
  · simp only [updateInternalChild, hread, Work.lift, bind, Except.bind, hnode, writeAt, Obj.pages]
    simp only [Inner.node, hpages]
    rfl
  · have hext : (g.put j a n').ext s dim =
        ⟨g.page, g.pages s dim, some (.node ((g.put j a n').node s dim))⟩ := by
      rw [Inner.ext, hpages]
      rfl
    rw [hext]
    exact hold

/-- The node `add_child_to_parent_` writes: in its place, or at a new page when it has outgrown
its extent. -/
lemma addChildAt_of_holds {n : Tree 1} {i leafId : ℕ} (hdim : idx.manifest.dim = dim)
    (h : Holds Obj.image w.vol (Inner.ext s dim n :: H)) (hi : Inner.HasSlot n leafId i)
    (newId newPages : ℕ) (cent0 cent1 : Vec) (gp : Option (Extent × ℕ)) :
    ∃ (n' : Tree 1) (v' : TreeVol s), Inner.kids n' = splitKids (Inner.kids n) i
        (w.leafTable.getD leafId Extent.invalid).pages cent0 cent1 newId newPages ∧
      Holds Obj.image v' (Inner.ext s dim n' :: H) ∧ Kept w.vol v' ∧
      ((Inner.extent s dim n' = Inner.extent s dim n ∧
          addChildAt idx w ⟨Inner.extent s dim n, i, gp⟩ leafId newId cent0 cent1 newPages =
            .ok { w with vol := v' }) ∨
        addChildAt idx w ⟨Inner.extent s dim n, i, gp⟩ leafId newId cent0 cent1 newPages =
          if idx.manifest.depth = 1 then .ok { w with vol := v', root := Inner.extent s dim n' }
          else match gp with
            | some (g, slot) =>
              updateInternalChild { w with vol := v' } g slot (Inner.extent s dim n')
            | none => .ok { w with vol := v' }) := by
  change Inner (Tree 0) at n
  obtain ⟨a, r, hk, -⟩ := hi
  generalize hkids : splitKids n.kids i (w.leafTable.getD leafId Extent.invalid).pages cent0 cent1
    newId newPages = kids
  have hread := nodeAt_of_holds h List.mem_cons_self
  have hentries : (n.node s dim).children.modify i (fun c =>
      { c with childPages := (w.leafTable.getD leafId Extent.invalid).pages, centroid := cent0 }) ++
      [⟨some newId, newPages, true, cent1, Summary.zero⟩] = kids.map (Tree.entry s dim) := by
    rw [← hkids, entries_splitKids hk]
    rfl
  have hlen : kids.length = n.kids.length + 1 := by
    rw [← hkids, length_splitKids]
  -- the node written does not depend on its page
  obtain ⟨nd, hnd⟩ : ∃ nd, nd = (⟨n.page, kids⟩ : Inner (Tree 0)).node s dim := ⟨_, rfl⟩
  have hnode : (⟨kids.map (Tree.entry s dim), nodeExtentPages idx.manifest.dim
      (kids.map (Tree.entry s dim)).length s.summarySize⟩ : Node) = nd := by
    rw [hnd]
    simp only [Inner.node, Inner.pages, hdim, List.length_map]
  have hpages : nd.extentPages = nodeExtentPages dim kids.length s.summarySize := by
    rw [hnd]
    rfl
  have hstep : addChildAt idx w ⟨n.extent s dim, i, gp⟩ leafId newId cent0 cent1 newPages =
      if nd.extentPages ≤ n.pages s dim then
        .ok { w with vol := writeAt w.vol (some n.page) (.node nd) }
      else
        let r := writeObj w.vol (.node nd)
        let w' : Work s := { w with vol := freeAt r.2 (n.extent s dim) }
        if idx.manifest.depth = 1 then .ok { w' with root := r.1 }
        else match gp with
          | some (g, slot) => updateInternalChild w' g slot r.1
          | none => .ok w' := by
    have hlen' : nodeExtentPages idx.manifest.dim (kids.map (Tree.entry s dim)).length
        s.summarySize = nd.extentPages := congrArg Node.extentPages hnode
    simp only [addChildAt, hread, Work.lift, bind, Except.bind, hentries, hnode]
    rw [hlen']
    rfl
  by_cases hle : nd.extentPages ≤ n.pages s dim
  · -- one more entry and no more pages: the length is the same
    have hsame : nd.extentPages = n.pages s dim := by
      refine le_antisymm hle ?_
      rw [hpages, hlen]
      exact nodeExtentPages_mono (Nat.le_succ _)
    obtain ⟨hold, hkept⟩ := h.write (.node nd)
    refine ⟨⟨n.page, kids⟩, _, rfl, ?_, hkept, .inl ⟨?_, ?_⟩⟩
    · have hext : (⟨n.page, kids⟩ : Inner (Tree 0)).ext s dim =
          ⟨n.page, n.pages s dim, some (.node nd)⟩ := by
        rw [Inner.ext, ← hnd, ← hsame, hpages]
        rfl
      rw [hext]
      exact hold
    · rw [Inner.extent, Inner.extent, ← hsame, hpages]
      rfl
    · rw [hstep, if_pos hle]
      simp only [writeAt, Obj.pages, hsame]
  · have hpos : 0 < nd.extentPages := hpages ▸ nodeExtentPages_pos _ _ _
    obtain ⟨p, v₁, hw, h₁, hk₁⟩ := writeObj_of_holds (o := Obj.node nd) h hpos
    obtain ⟨h₂, hk₂⟩ := (h₁.perm (.swap _ _ _)).free
    refine ⟨⟨p, kids⟩, _, rfl, ?_, hk₁.trans hk₂, .inr ?_⟩
    · have hext : (⟨p, kids⟩ : Inner (Tree 0)).ext s dim = ⟨p, nd.extentPages, some (.node nd)⟩ := by
        rw [hpages, hnd]
        rfl
      rw [hext]
      exact h₂
    · have hext : (⟨p, kids⟩ : Inner (Tree 0)).extent s dim = ⟨some p, nd.extentPages⟩ := by
        rw [hpages]
        rfl
      rw [hstep, if_neg hle, hext]
      simp only [hw]
      rfl

/-! ### The tree after a split -/

/-- The tree reaches one more leaf, below the same nodes as the one that was split; its entry
has a zeroed summary. -/
def Reaches {d : ℕ} (t t' : Tree d) (id newId : ℕ) : Prop :=
  ∃ path sm, (path ++ [sm], id) ∈ t.refs ∧ t'.refs.Perm (t.refs ++ [(path ++ [Summary.zero], newId)])

lemma reaches_bottom {n n' : Tree 1} {id newId i pages newPages : ℕ} {cent0 cent1 : Vec}
    (hi : Inner.HasSlot n id i)
    (hkids : Inner.kids n' = splitKids (Inner.kids n) i pages cent0 cent1 newId newPages) :
    Reaches n n' id newId := by
  obtain ⟨a, r, hk, rfl⟩ := hi
  refine ⟨[], a.summary, List.mem_flatMap.mpr ⟨_, List.mem_of_getElem? hk, List.mem_singleton_self _⟩,
    .of_eq ?_⟩
  obtain ⟨p, kids⟩ := n
  obtain ⟨p', kids'⟩ := n'
  simp only at hkids
  subst hkids
  exact refs_splitKids p p'

lemma Reaches.up {d : ℕ} {g : Inner (Tree d)} {j : ℕ} {a : Label} {n n' : Tree d} {id newId : ℕ}
    (hj : g.kids[j]? = some (a, some n)) (h : Reaches n n' id newId) :
    Reaches (d := d + 1) g (g.put j a n') id newId := by
  obtain ⟨path, sm, hmem, hperm⟩ := h
  exact ⟨a.summary :: path, sm, mem_refs_of_kid hj hmem, refs_put_perm hj hperm⟩

structure Grown (s : Schema) (dim : ℕ) {d : ℕ} (t t' : Tree (d + 1)) (id newId : ℕ) : Prop where
  reaches : Reaches t t' id newId
  inherits : Inherits t t'
  full : d = 0 → (∀ k ∈ Inner.kids t, k.2.isSome) → ∀ k ∈ Inner.kids t', k.2.isSome
  children : d = 2 → (Inner.kids t').map (Tree.entry s dim) = (Inner.kids t).map (Tree.entry s dim)

structure GrownOn (dim : ℕ) {d : ℕ} (w w' : Work s) (t' : Tree (d + 1)) (H : List (Ext (Obj s))) :
    Prop where
  holds : Holds Obj.image w'.vol (t'.exts s dim ++ H)
  kept : Kept w.vol w'.vol
  table : w'.leafTable = w.leafTable
  root : w'.root = Inner.extent s dim t'

variable {leafId : ℕ}

lemma addChild_depth_one {t : Tree 1} (hdim : idx.manifest.dim = dim)
    (hdepth : idx.manifest.depth = 1) (h : Holds Obj.image w.vol (t.exts s dim ++ H))
    (hroot : w.root = Inner.extent s dim t) (hmem : leafId ∈ t.ids)
    (newId newPages : ℕ) (cent0 cent1 : Vec) :
    ∃ t' w', addChildToParent idx w leafId newId cent0 cent1 newPages = .ok w' ∧
      Grown s dim t t' leafId newId ∧ GrownOn dim w w' t' H := by
  rw [exts_bottom] at h
  have hread := nodeAt_of_holds h List.mem_cons_self
  cases hs : slotOf (Inner.node s dim t) leafId with
  | none => exact absurd hmem (not_mem_ids_of_slotOf hs)
  | some i =>
    have hi := hasSlot_of_slotOf hs
    obtain ⟨n', v', hkids, hold, hk, hadd⟩ := addChildAt_of_holds hdim h hi newId newPages cent0
      cent1 none
    have hstep : addChildToParent idx w leafId newId cent0 cent1 newPages =
        addChildAt idx w ⟨Inner.extent s dim t, i, none⟩ leafId newId cent0 cent1 newPages := by
      simp only [addChildToParent, findParent, hdepth, if_true, hroot, hread, hs, Work.lift, bind,
        Except.bind, Option.map_some]
    refine ⟨n', { w with vol := v', root := Inner.extent s dim n' }, ?_,
      ⟨reaches_bottom hi hkids, inherits_bottom hkids, fun _ hf => ?_, fun hd => by cases hd⟩, ?_, hk,
      rfl, rfl⟩
    · rw [hstep]
      rcases hadd with ⟨hsame, hadd⟩ | hadd
      · rw [hadd, hsame, ← hroot]
      · rw [hadd, if_pos hdepth]
    · rw [hkids]
      exact isSome_splitKids hf
    · rw [exts_bottom]
      exact hold

/-- A node above leaves found from a node above it: the parent grows, and the node above it
learns where it is. -/
lemma addChild_below {g : Inner (Tree 1)} {loc : ParentLoc} (hdim : idx.manifest.dim = dim)
    (hdepth : idx.manifest.depth ≠ 1)
    (h : Holds Obj.image w.vol (Tree.exts s dim (d := 2) g ++ H))
    (hloc : Scanned s dim leafId (g.extent s dim) 0 g.kids (some loc))
    (newId newPages : ℕ) (cent0 cent1 : Vec) :
    ∃ (g' : Inner (Tree 1)) (v' : TreeVol s),
      addChildAt idx w loc leafId newId cent0 cent1 newPages = .ok { w with vol := v' } ∧
      Reaches (d := 2) g g' leafId newId ∧ Inherits (d := 1) g g' ∧
      g'.extent s dim = g.extent s dim ∧
      Holds Obj.image v' (Tree.exts s dim (d := 2) g' ++ H) ∧ Kept w.vol v' := by
  obtain ⟨j, a, n, i, hj, hi, rfl⟩ := hloc
  rw [Nat.zero_add]
  -- the parent in front, the node above it next
  have hfront : Holds Obj.image w.vol
      (Inner.ext s dim n :: g.ext s dim :: (g.besides s dim j ++ H)) := by
    have := h.perm ((exts_perm hj).append_right H)
    rw [exts_bottom] at this
    exact this.perm (.swap _ _ _)
  obtain ⟨n', v', hkids, hold, hk, hadd⟩ := addChildAt_of_holds hdim hfront hi newId newPages cent0
    cent1 (some (g.extent s dim, j))
  have hback : ∀ v'' : TreeVol s, Holds Obj.image v''
      ((g.put j a n').ext s dim :: Inner.ext s dim n' :: (g.besides s dim j ++ H)) →
      Holds Obj.image v'' (Tree.exts s dim (d := 2) (g.put j a n') ++ H) := by
    intro v'' hv
    refine hv.perm (List.Perm.symm ?_)
    have hput : (Tree.exts s dim (d := 2) (g.put j a n')).Perm _ := exts_put_perm hj
    have := hput.append_right H
    rw [exts_bottom] at this
    exact this
  have hreach := (reaches_bottom hi hkids).up hj
  have hinh := (inherits_bottom hkids).put hj
  rcases hadd with ⟨hsame, hadd⟩ | hadd
  · refine ⟨g.put j a n', v', hadd, hreach, hinh, put_extent, hback _ ?_, hk⟩
    rw [ext_put_same hj hsame]
    exact hold.perm (.swap _ _ _)
  · obtain ⟨v'', hupd, hold', hk'⟩ := updateInternalChild_of_holds (w := { w with vol := v' }) n'
      (hold.perm (.swap _ _ _)) hj
    refine ⟨g.put j a n', v'', ?_, hreach, hinh, put_extent, hback _ hold', hk.trans hk'⟩
    rw [hadd, if_neg hdepth]
    exact hupd

lemma addChild_depth_two {t : Tree 2} (hdim : idx.manifest.dim = dim)
    (hdepth : idx.manifest.depth = 2) (h : Holds Obj.image w.vol (t.exts s dim ++ H))
    (hroot : w.root = Inner.extent s dim t) (hmem : leafId ∈ t.ids)
    (newId newPages : ℕ) (cent0 cent1 : Vec) :
    ∃ t' w', addChildToParent idx w leafId newId cent0 cent1 newPages = .ok w' ∧
      Grown s dim t t' leafId newId ∧ GrownOn dim w w' t' H := by
  have hread := nodeAt_of_holds h (List.mem_append_left _ List.mem_cons_self)
  obtain ⟨r, hr, hsc⟩ := scanChildren_of_holds h leafId (Inner.extent s dim t) (Inner.kids t) 0
    fun x hx n hn => List.mem_append_left _ (kid_ext_mem hx hn)
  cases r with
  | none =>
    obtain ⟨k, hk, hid⟩ := Tree.mem_ids.mp hmem
    exact absurd hid (hsc k hk)
  | some loc =>
    obtain ⟨g', v', hadd, hreach, hinh, hext, hold, hk⟩ := addChild_below hdim (by omega) h hsc
      newId newPages cent0 cent1
    refine ⟨g', { w with vol := v' }, ?_, ⟨hreach, hinh, (fun hd => by cases hd),
      (fun hd => by cases hd)⟩,
      hold, hk, rfl, hroot.trans hext.symm⟩
    have hfind : findParent idx w leafId = .ok (some loc) := by
      rw [findParent, if_neg (by omega), if_pos hdepth, hroot, hread]
      exact hr
    simp only [addChildToParent, hfind, Work.lift, bind, Except.bind]
    exact hadd

lemma addChild_depth_three {t : Tree 3} (hdim : idx.manifest.dim = dim)
    (hdepth : idx.manifest.depth = 3) (h : Holds Obj.image w.vol (t.exts s dim ++ H))
    (hroot : w.root = Inner.extent s dim t) (hmem : leafId ∈ t.ids)
    (hchildren : idx.rootChildren =
      (Inner.kids t).map fun k => nodeChild (Tree.entry s dim k))
    (newId newPages : ℕ) (cent0 cent1 : Vec) :
    ∃ t' w', addChildToParent idx w leafId newId cent0 cent1 newPages = .ok w' ∧
      Grown s dim t t' leafId newId ∧ GrownOn dim w w' t' H := by
  obtain ⟨r, hr, hsc⟩ := scanRootChildren_of_holds h leafId (Inner.kids t)
    fun x hx m hm e he => List.mem_append_left _ (List.mem_cons_of_mem _
      (List.mem_flatMap.mpr ⟨x, hx, by rw [hm]; exact he⟩))
  cases r with
  | none =>
    obtain ⟨k, hk, hid⟩ := Tree.mem_ids.mp hmem
    exact absurd hid (hsc k hk)
  | some loc =>
    obtain ⟨c, b, m, hc, hscm⟩ := hsc
    -- the node of the root child in front
    have hfront : Holds Obj.image w.vol (m.exts s dim ++
        (Inner.ext s dim t :: (Inner.besides s dim t c ++ H))) := by
      have hperm : (t.exts s dim).Perm _ := exts_perm hc
      have := h.perm (hperm.append_right H)
      refine this.perm ?_
      rw [List.cons_append, List.append_assoc]
      exact List.perm_middle.symm
    obtain ⟨g', v', hadd, hreach, hinh, hext, hold, hk⟩ := addChild_below hdim (by omega) hfront
      hscm newId newPages cent0 cent1
    refine ⟨Inner.put t c b g', { w with vol := v' }, ?_, ⟨hreach.up hc, hinh.put hc,
      (fun hd => by cases hd), fun _ => entries_put_same hc hext⟩, ?_, hk, rfl, hroot.trans put_extent.symm⟩
    · have hfind : findParent idx w leafId = .ok (some loc) := by
        rw [findParent, if_neg (by omega), if_neg (by omega), hchildren]
        exact hr
      simp only [addChildToParent, hfind, Work.lift, bind, Except.bind]
      exact hadd
    · have hperm : (Tree.exts s dim (d := 3) (Inner.put t c b g')).Perm _ := exts_put_perm hc
      rw [ext_put_same hc hext] at hperm
      refine hold.perm (.trans ?_ (hperm.append_right H).symm)
      rw [List.cons_append, List.append_assoc]
      exact List.perm_middle

/-- **The parent of a split leaf.** Whatever the depth, it is found and gets the new entry. -/
theorem addChildToParent_of_holds {d : ℕ} {t : Tree (d + 1)} (hdim : idx.manifest.dim = dim)
    (hdepth : idx.manifest.depth = d + 1) (hd : d ≤ 2)
    (h : Holds Obj.image w.vol (t.exts s dim ++ H)) (hroot : w.root = Inner.extent s dim t)
    (hmem : leafId ∈ t.ids)
    (hchildren : d = 2 → idx.rootChildren =
      (Inner.kids t).map fun k => nodeChild (Tree.entry s dim k))
    (newId newPages : ℕ) (cent0 cent1 : Vec) :
    ∃ t' w', addChildToParent idx w leafId newId cent0 cent1 newPages = .ok w' ∧
      Grown s dim t t' leafId newId ∧ GrownOn dim w w' t' H := by
  match d, t with
  | 0, t => exact addChild_depth_one hdim hdepth h hroot hmem newId newPages cent0 cent1
  | 1, t => exact addChild_depth_two hdim hdepth h hroot hmem newId newPages cent0 cent1
  | 2, t =>
    exact addChild_depth_three hdim hdepth h hroot hmem (hchildren rfl) newId newPages cent0 cent1
  | d + 3, t => omega

end

end SextantTree
