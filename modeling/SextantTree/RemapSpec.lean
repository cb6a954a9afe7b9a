import SextantTree.Session

/-!
What `open` and `remap_` read from a committed file: the root children, and on a tree of depth
two the table of projected leaf centroids with the positions its root children start at.
-/

namespace SextantTree

open Pages Alloc AllocInv AllocRun Heap FilterHash Outcome

variable {s : Schema} {dim : ℕ}

/-! ### The root children -/

lemma nodeAt_of_holds {v : TreeVol s} {H : List (Ext (Obj s))} {d : ℕ} {n : Inner (Tree d)}
    (h : Holds Obj.image v H) (hmem : n.ext s dim ∈ H) :
    nodeAt v.file (n.extent s dim) = .ok (n.node s dim) := by
  rw [nodeAt, readNode_of_holds h hmem]

lemma rootChild_node {d : ℕ} (table : List LeafTableEntry) (k : Label × Option (Tree (d + 1))) :
    rootChild table (Tree.entry s dim k) = .ok (nodeChild (Tree.entry s dim k)) := by
  obtain ⟨a, _ | n⟩ := k <;> rfl

lemma rootChild_leaf {table : List LeafTableEntry} {k : Label × Option (Tree 0)} (hk : k.2.isSome)
    (h : ∀ r, k.2 = some r → LeafRef.id r < table.length) :
    ∃ rc, rootChild table (Tree.entry s dim k) = .ok rc := by
  obtain ⟨a, _ | r⟩ := k
  · cases hk
  · have hr := h r rfl
    refine ⟨⟨table[LeafRef.id r].page, table[LeafRef.id r].pages, true, a.centroid⟩, ?_⟩
    simp only [rootChild, Tree.entry, if_true, Option.bind_some, List.getElem?_eq_getElem hr]

lemma mapM_exists {ε α β : Type} {f : α → Except ε β} {l : List α}
    (h : ∀ a ∈ l, ∃ b, f a = .ok b) : ∃ bs, l.mapM f = .ok bs := by
  induction l with
  | nil => exact ⟨[], rfl⟩
  | cons a l ih =>
    obtain ⟨b, hb⟩ := h a List.mem_cons_self
    obtain ⟨bs, hbs⟩ := ih fun x hx => h x (List.mem_cons_of_mem _ hx)
    refine ⟨b :: bs, ?_⟩
    rw [List.mapM_cons, hb, hbs]
    rfl

lemma mem_ids_of_kid {t : Tree 1} {k : Label × Option (Tree 0)} (hk : k ∈ Inner.kids t)
    {r : Tree 0} (hr : k.2 = some r) : LeafRef.id r ∈ t.ids := by
  simp only [Tree.ids, Tree.refs, List.mem_map, List.mem_flatMap]
  refine ⟨([k.1.summary], LeafRef.id r), ⟨k, hk, ?_⟩, rfl⟩
  rw [hr]
  simp

lemma loadRoot_of_holds {v : TreeVol s} {H : List (Ext (Obj s))} {d : ℕ} {t : Tree (d + 1)}
    (h : Holds Obj.image v H) (hmem : Inner.ext s dim t ∈ H) (table : List LeafTableEntry)
    (hfull : d = 0 → ∀ k ∈ Inner.kids t, k.2.isSome) (hids : ∀ i ∈ t.ids, i < table.length) :
    ∃ cs, loadRoot v.file (Inner.extent s dim t) table = .ok cs ∧
      (0 < d → cs = (Inner.kids t).map fun k => nodeChild (Tree.entry s dim k)) := by
  have hnode := nodeAt_of_holds h hmem
  have hpage : (Inner.extent s dim t).page ≠ none := Option.some_ne_none _
  cases d with
  | zero =>
    obtain ⟨cs, hcs⟩ := mapM_exists (f := rootChild table)
      (l := (Inner.kids t).map (Tree.entry s dim)) (by
        intro e he
        obtain ⟨k, hk, rfl⟩ := List.mem_map.mp he
        exact rootChild_leaf (hfull rfl k hk) fun r hr => hids _ (mem_ids_of_kid hk hr))
    refine ⟨cs, ?_, fun h => absurd h (lt_irrefl 0)⟩
    simp only [loadRoot, if_neg hpage, hnode, bind, Except.bind]
    exact hcs
  | succ d =>
    refine ⟨_, ?_, fun _ => rfl⟩
    simp only [loadRoot, if_neg hpage, hnode, bind, Except.bind, Inner.node]
    rw [List.mapM_map]
    exact mapM_ok fun k _ => rootChild_node table k

/-! ### The PCA leaf table -/

/-- Where the leaves of each root child start, counting from `g` on. -/
def leafBases : (g : ℕ) → List (Label × Option (Tree 1)) → List (Option ℕ)
  | _, [] => []
  | g, (_, none) :: ks => none :: leafBases g ks
  | g, (_, some n) :: ks => some g :: leafBases (g + (Inner.kids n).length) ks

/-- The centroids of the leaf entries in tree order. -/
def leafCentroidsOf (ks : List (Label × Option (Tree 1))) : List Vec :=
  ks.flatMap fun k => k.2.elim [] fun n => (Inner.kids n).map fun k' => k'.1.centroid

lemma isLeaf_entry (k : Label × Option (Tree 0)) :
    (Tree.entry s dim k).isLeaf = true ∧ (Tree.entry s dim k).centroid = k.1.centroid := by
  obtain ⟨a, _ | r⟩ := k <;> exact ⟨rfl, rfl⟩

lemma leafCentroids_node (n : Inner (Tree 0)) (f : Vec → Vec) :
    (((n.node s dim).children.filter (·.isLeaf)).map fun c => f c.centroid) =
      n.kids.map fun k => f k.1.centroid := by
  rw [Inner.node, List.filter_eq_self.mpr, List.map_map]
  · exact List.map_congr_left fun k _ => congrArg f (isLeaf_entry k).2
  · intro e he
    obtain ⟨k, -, rfl⟩ := List.mem_map.mp he
    exact (isLeaf_entry k).1

lemma rebuildPca_of_holds {v : TreeVol s} {H : List (Ext (Obj s))} (h : Holds Obj.image v H)
    (t : PcaTables) : ∀ (ks : List (Label × Option (Tree 1))) (g : ℕ),
      (∀ k ∈ ks, ∀ n, k.2 = some n → Inner.ext s dim n ∈ H) →
      rebuildPca v.file t g (ks.map fun k => nodeChild (Tree.entry s dim k)) =
        .ok (leafBases g ks, (leafCentroidsOf ks).map (projectPca t.proj t.meanProj))
  | [], _, _ => rfl
  | (a, none) :: ks, g, hmem => by
    have ih := rebuildPca_of_holds h t ks g fun k hk => hmem k (List.mem_cons_of_mem _ hk)
    have hskip : ((nodeChild (Tree.entry s dim (a, (none : Option (Tree 1))))).isLeaf ||
        (nodeChild (Tree.entry s dim (a, (none : Option (Tree 1))))).page.isNone) = true := rfl
    rw [List.map_cons, rebuildPca, if_pos hskip, ih]
    rfl
  | (a, some n) :: ks, g, hmem => by
    have ih := rebuildPca_of_holds h t ks (g + (Inner.kids n).length) fun k hk =>
      hmem k (List.mem_cons_of_mem _ hk)
    have hnode := nodeAt_of_holds h (hmem _ List.mem_cons_self n rfl)
    have hcents := @leafCentroids_node s dim n (projectPca t.proj t.meanProj)
    rw [List.map_cons, rebuildPca, if_neg (by simp [nodeChild, Tree.entry])]
    have hext : (⟨(nodeChild (Tree.entry s dim (a, some n))).page,
        (nodeChild (Tree.entry s dim (a, some n))).pages⟩ : Extent) = Inner.extent s dim n := rfl
    simp only [hext, hnode, bind, Except.bind, hcents, List.length_map]
    rw [ih]
    simp [leafBases, leafCentroidsOf]

lemma openLeafBase_of_holds {v : TreeVol s} {H : List (Ext (Obj s))} (h : Holds Obj.image v H) :
    ∀ (ks : List (Label × Option (Tree 1))) (g : ℕ),
      (∀ k ∈ ks, ∀ n, k.2 = some n → Inner.ext s dim n ∈ H) →
      openLeafBase v.file g (ks.map fun k => nodeChild (Tree.entry s dim k)) = .ok (leafBases g ks)
  | [], _, _ => rfl
  | (a, none) :: ks, g, hmem => by
    have ih := openLeafBase_of_holds h ks g fun k hk => hmem k (List.mem_cons_of_mem _ hk)
    have hskip : ((nodeChild (Tree.entry s dim (a, (none : Option (Tree 1))))).isLeaf ||
        (nodeChild (Tree.entry s dim (a, (none : Option (Tree 1))))).page.isNone) = true := rfl
    rw [List.map_cons, openLeafBase, if_pos hskip, ih]
    rfl
  | (a, some n) :: ks, g, hmem => by
    have ih := openLeafBase_of_holds h ks (g + (Inner.kids n).length) fun k hk =>
      hmem k (List.mem_cons_of_mem _ hk)
    have hnode := nodeAt_of_holds h (hmem _ List.mem_cons_self n rfl)
    rw [List.map_cons, openLeafBase, if_neg (by simp [nodeChild, Tree.entry])]
    have hext : (⟨(nodeChild (Tree.entry s dim (a, some n))).page,
        (nodeChild (Tree.entry s dim (a, some n))).pages⟩ : Extent) = Inner.extent s dim n := rfl
    simp only [hext, hnode, bind, Except.bind]
    have hlen : (n.node s dim).children.length = (Inner.kids n).length := by
      simp [Inner.node]
    rw [hlen, ih]
    rfl

/-! ### Remapping -/

/-- The root entries of a tree of depth two. -/
def Tree.clusters : {d : ℕ} → Tree (d + 1) → List (Label × Option (Tree 1))
  | 1, t => Inner.kids t
  | _, _ => []

structure Projects (p : PcaTables) (ks : List (Label × Option (Tree 1))) : Prop where
  bases : p.leafBase = leafBases 0 ks
  centroids : p.leafCentroids = (leafCentroidsOf ks).map (projectPca p.proj p.meanProj)

lemma kid_ext_mem {t : Tree 2} {k : Label × Option (Tree 1)} (hk : k ∈ Inner.kids t) {n : Tree 1}
    (hn : k.2 = some n) : Inner.ext s dim n ∈ Tree.exts s dim t := by
  refine List.mem_cons_of_mem _ (List.mem_flatMap.mpr ⟨k, hk, ?_⟩)
  rw [hn]
  exact List.mem_cons_self

lemma rebuildPca_of_tree {v : TreeVol s} {H : List (Ext (Obj s))} (h : Holds Obj.image v H) {d : ℕ}
    (hd : d = 1) (t : Tree (d + 1)) (hmem : ∀ e ∈ t.exts s dim, e ∈ H) (p : PcaTables) :
    rebuildPca v.file p 0 ((Inner.kids t).map fun k => nodeChild (Tree.entry s dim k)) =
      .ok (leafBases 0 t.clusters, (leafCentroidsOf t.clusters).map (projectPca p.proj p.meanProj)) := by
  subst hd
  exact rebuildPca_of_holds h p _ 0 fun k hk n hn => hmem _ (kid_ext_mem hk hn)

/-- What `remap_` does to an index whose file is committed. -/
structure Remapped (idx idx' : Index s) (c : Contents s) : Prop where
  file : idx'.file = idx.file
  super : idx'.super = idx.super
  manifest : idx'.manifest = { idx.manifest with nLeaves := c.leaves.length }
  disk : idx'.nVectorsDisk = idx.nVectorsDisk
  table : idx'.leafTable = c.table
  plane : idx'.plane = idx.plane
  children : 0 < c.below → idx'.rootChildren =
    (Inner.kids c.tree).map fun k => nodeChild (Tree.entry s c.manifest.dim k)
  /-- The tables besides the leaf table are those in memory. -/
  pca : ∃ bases cents, idx'.pca = { idx.pca with leafBase := bases, leafCentroids := cents }
  projects : c.below = 1 → idx.pca.dims ≠ 0 → Projects idx'.pca c.tree.clusters

theorem remap_of_committed {idx : Index s} {c : Contents s} (h : Committed idx.file idx.super c)
    (hdepth : idx.manifest.depth = c.below + 1)
    (hfull : c.below = 0 → ∀ k ∈ Inner.kids c.tree, k.2.isSome)
    (hids : ∀ i ∈ c.tree.ids, i < c.leaves.length) :
    ∃ idx', remap idx = .ok idx' ∧ Remapped idx idx' c := by
  obtain ⟨a, ha⟩ := h.holds
  have htree : ∀ e ∈ c.tree.exts s c.manifest.dim, e ∈ c.heap := fun e he => by
    simp [Contents.heap, he]
  have htable := readLeafTable_of_holds ha
  obtain ⟨cs, hcs, hkids⟩ := loadRoot_of_holds ha (htree _ List.mem_cons_self) c.table hfull
    (by simpa [Contents.table] using hids)
  have hload : loadSuperblock idx.file = some idx.super := h.current.load
  have hvalid : ¬ (idx.super.leafTable.page = none ∨ idx.super.leafTable.pages = 0) := by
    have : 0 < (Obj.leafTable (s := s) c.table).pages := pagesFor_pos (by omega)
    rw [h.named.table]
    simp only [reduceCtorEq, false_or]
    omega
  have hr : ∃ r, (if idx.pca.dims = 0 ∨ idx.manifest.depth ≠ 2 then .ok ([], [])
      else rebuildPca idx.file idx.pca 0 cs) = (.ok r : Except ErrorKind _) ∧
      (c.below = 1 → idx.pca.dims ≠ 0 → r = (leafBases 0 c.tree.clusters,
        (leafCentroidsOf c.tree.clusters).map (projectPca idx.pca.proj idx.pca.meanProj))) := by
    by_cases hoff : idx.pca.dims = 0 ∨ idx.manifest.depth ≠ 2
    · refine ⟨_, if_pos hoff, fun hb hd => ?_⟩
      rw [hdepth, hb] at hoff
      simp [hd] at hoff
    · have hb : c.below = 1 := by
        rw [hdepth] at hoff
        omega
      rw [if_neg hoff, hkids (by omega)]
      exact ⟨_, rebuildPca_of_tree ha hb c.tree htree idx.pca, fun _ _ => rfl⟩
  obtain ⟨r, hr, hproj⟩ := hr
  refine ⟨{ idx with
    manifest := { idx.manifest with nLeaves := c.leaves.length }
    leafTable := c.table
    rootChildren := cs
    pca := { idx.pca with leafBase := r.1, leafCentroids := r.2 } }, ?_,
    ⟨rfl, rfl, rfl, rfl, rfl, rfl, hkids, ⟨_, _, rfl⟩, fun hb hd => ?_⟩⟩
  · rw [h.named.table] at hvalid
    simp only at htable hcs
    simp only [remap, hload, bind, Except.bind, h.named.table, h.named.root, h.named.nLeaves,
      if_neg hvalid, htable, hcs]
    by_cases hoff : idx.pca.dims = 0 ∨ idx.manifest.depth ≠ 2
    · rw [if_pos hoff] at hr ⊢
      cases hr
      rfl
    · rw [if_neg hoff] at hr ⊢
      rw [hr]
  · rw [hproj hb hd]
    exact ⟨rfl, rfl⟩

end SextantTree
