import SextantTree.ReopenRun

/-!
Routing along a run. A vector is routed by the entries of the root, and below a root entry nothing is
ever empty. No mutation changes which root entries lead somewhere, so a vector that the opened build
routes is routed ever after, and one that it does not route never is.
-/

namespace SextantTree

open Pages Alloc AllocInv AllocRun Heap FilterHash Outcome Stepwise

variable {s : Schema} {eng : Engine} {card : List (FilterRow s) → Bytes} {idx idx' : Index s}
  {c c' : Contents s} {file : TreeFile s} {b : BuildInput s} {ops : List (Op s)} {v : Vec}

/-! ### One index -/

def rootDistances (eng : Engine) (idx : Index s) (v : Vec) : Except ErrorKind (List (Option ℚ)) :=
  if 0 < idx.pca.dims then rootPcaDists eng idx (projectPca idx.pca.proj idx.pca.meanProj v)
  else .ok (idx.rootChildren.map fun rc => eng.dist v rc.centroid)

/-- The root entry a vector is nearest to leads somewhere. -/
def Guided (eng : Engine) (idx : Index s) (labels : List (Label × Bool)) (v : Vec) : Prop :=
  ∃ ds a, rootDistances eng idx v = .ok ds ∧ labels[nearest ds]? = some (a, true)

/-- What routing needs below the root: no empty node, and a PCA leaf table with room for the leaves. -/
structure Routable (idx : Index s) (c : Contents s) : Prop where
  rooted : c.tree.Rooted
  table : c.below = 1 → idx.pca.dims ≠ 0 → idx.pca.leafBase = leafBases 0 c.tree.clusters ∧
    (leafCentroidsOf c.tree.clusters).length ≤ idx.pca.leafCentroids.length

lemma leads_iff_label {d : ℕ} {t : Tree (d + 1)} {i : ℕ} :
    Leads (Inner.kids t) i ↔ ∃ a, t.rootLabels[i]? = some (a, true) := by
  rw [Tree.rootLabels, List.getElem?_map]
  constructor
  · rintro ⟨k, x, hk, hx⟩
    exact ⟨k.1, by simp [hk, hx]⟩
  · rintro ⟨a, ha⟩
    obtain ⟨k, hk, hlab⟩ := Option.map_eq_some_iff.mp ha
    simp only [Prod.mk.injEq] at hlab
    obtain ⟨x, hx⟩ := Option.isSome_iff_exists.mp hlab.2
    exact ⟨k, x, hk, hx⟩

lemma routeToLeafId_eq (eng : Engine) (v : Vec) (h : ¬ (0 < idx.pca.dims ∧ idx.manifest.depth = 2)) :
    routeToLeafId eng idx v = (do
      let ds ← rootDistances eng idx v
      let rc ← elemAt idx.rootChildren (nearest ds)
      if rc.isLeaf then do
        let n ← nodeAt idx.file idx.super.root
        let c ← elemAt n.children (nearest ds)
        .ok (c.childPage.getD (2 ^ 32 - 1))
      else routeDescend eng idx.file v (idx.manifest.depth - 1) ⟨rc.page, rc.pages⟩) := by
  rw [routeToLeafId, if_neg h, rootDistances]
  split_ifs <;> rfl

section

variable {w : TreeVol s} {H : List (Ext (Obj s))} {n dim : ℕ}

lemma guided_iff_leads {d : ℕ} {t : Tree (d + 1)} {ds : List (Option ℚ)}
    (hds : rootDistances eng idx v = .ok ds) :
    Guided eng idx t.rootLabels v ↔ Leads (Inner.kids t) (nearest ds) := by
  rw [leads_iff_label, Guided, hds]
  simp

lemma not_guided {labels : List (Label × Bool)} {k : ErrorKind}
    (hds : rootDistances eng idx v = .error k) : ¬ Guided eng idx labels v := by
  rintro ⟨ds, a, hds', -⟩
  rw [hds] at hds'
  cases hds'

lemma not_routed {x : Except ErrorKind ℕ} {k : ErrorKind} (h : x = .error k) :
    ¬ ∃ id, x = .ok id ∧ id < n := by
  rintro ⟨id, hid, -⟩
  rw [h] at hid
  cases hid

lemma guided_of_one (hH : Holds Obj.image w H) (hfile : idx.file = w.file) {t : Tree 1}
    (hmem : Inner.ext s dim t ∈ H) (hroot : idx.super.root = Inner.extent s dim t)
    {table : List LeafTableEntry}
    (hload : loadRoot w.file (Inner.extent s dim t) table = .ok idx.rootChildren)
    (hspecial : ¬ (0 < idx.pca.dims ∧ idx.manifest.depth = 2)) (hids : ∀ id ∈ t.ids, id < n) :
    (∃ id, routeToLeafId eng idx v = .ok id ∧ id < n) ↔ Guided eng idx t.rootLabels v := by
  rw [routeToLeafId_eq eng v hspecial]
  cases hds : rootDistances eng idx v with
  | error k => exact iff_of_false (not_routed rfl) (not_guided hds)
  | ok ds =>
    obtain ⟨hsome, hlen, hcs⟩ := loadRoot_one hH hmem hload
    rw [ok_bind, guided_iff_leads hds]
    by_cases hi : nearest ds < idx.rootChildren.length
    · obtain ⟨k, hk, hleaf, -⟩ := hcs _ _ (List.getElem?_eq_getElem hi)
      obtain ⟨r, hr⟩ := Option.isSome_iff_exists.mp (hsome k (List.mem_of_getElem? hk))
      have hget : elemAt (Inner.node s dim t).children (nearest ds) = .ok (Tree.entry s dim k) :=
        elemAt_map _ hk
      refine iff_of_true ⟨LeafRef.id r, ?_, hids _ (mem_ids_of_kid (List.mem_of_getElem? hk) hr)⟩
        ⟨k, r, hk, hr⟩
      rw [elemAt_eq hi, ok_bind, hleaf, if_pos rfl, hfile, hroot, nodeAt_of_holds hH hmem, ok_bind,
        hget, ok_bind]
      obtain ⟨a, o⟩ := k
      obtain rfl : o = some r := hr
      rfl
    · rw [elemAt, List.getElem?_eq_none (not_lt.mp hi)]
      refine iff_of_false (not_routed rfl) ?_
      rintro ⟨k, r, hk, -⟩
      have := (List.getElem?_eq_some_iff.mp hk).1
      omega

lemma guided_of_deep (hH : Holds Obj.image w H) (hfile : idx.file = w.file) {d : ℕ} {t : Tree (d + 2)}
    (hsub : ∀ e ∈ t.exts s dim, e ∈ H) (hroot : idx.super.root = Inner.extent s dim t)
    (hkids : idx.rootChildren = (Inner.kids t).map fun k => nodeChild (Tree.entry s dim k))
    (hdepth : idx.manifest.depth = d + 2) (hspecial : ¬ (0 < idx.pca.dims ∧ idx.manifest.depth = 2))
    (hids : ∀ id ∈ t.ids, id < n) (hrooted : t.Rooted) :
    (∃ id, routeToLeafId eng idx v = .ok id ∧ id < n) ↔ Guided eng idx t.rootLabels v := by
  rw [routeToLeafId_eq eng v hspecial]
  cases hds : rootDistances eng idx v with
  | error k => exact iff_of_false (not_routed rfl) (not_guided hds)
  | ok ds =>
    rw [guided_iff_leads hds, hkids, hfile, hroot, hdepth]
    exact descend_iff eng v hH hsub hids hrooted

lemma guided_of_pca (hH : Holds Obj.image w H) (hfile : idx.file = w.file) {t : Tree 2}
    (hsub : ∀ e ∈ t.exts s dim, e ∈ H)
    (hkids : idx.rootChildren = (Inner.kids t).map fun k => nodeChild (Tree.entry s dim k))
    (hspecial : 0 < idx.pca.dims ∧ idx.manifest.depth = 2)
    (htable : idx.pca.leafBase = leafBases 0 t.clusters ∧
      (leafCentroidsOf t.clusters).length ≤ idx.pca.leafCentroids.length)
    (hids : ∀ id ∈ t.ids, id < n) (hrooted : t.Rooted) :
    (∃ id, routeToLeafId eng idx v = .ok id ∧ id < n) ↔ Guided eng idx t.rootLabels v := by
  have hdists : rootDistances eng idx v =
      rootPcaDists eng idx (projectPca idx.pca.proj idx.pca.meanProj v) := if_pos hspecial.1
  rw [routeToLeafId, if_pos hspecial]
  cases hds : rootDistances eng idx v with
  | error k =>
    rw [hdists] at hds
    rw [routeDepth2Pca, hds]
    exact iff_of_false (not_routed rfl) (not_guided (hdists.trans hds))
  | ok ds =>
    rw [guided_iff_leads hds]
    obtain rfl | hn := Nat.eq_zero_or_pos n
    · -- a tree without leaves leads nowhere
      refine iff_of_false (by simp) ?_
      rintro ⟨k, m, hk, hm⟩
      have hmem : k ∈ Inner.kids t := List.mem_of_getElem? hk
      obtain ⟨hne, hall⟩ := hrooted k hmem m hm
      obtain ⟨k', hk'⟩ := List.exists_mem_of_ne_nil _ hne
      obtain ⟨r, hr, -⟩ := hall k' hk'
      exact absurd (hids _ (mem_ids_of_sub hmem hm (mem_ids_of_kid hk' hr))) (Nat.not_lt_zero _)
    · exact depth2Pca_iff eng _ hH hfile hkids (hdists ▸ hds) htable.1 htable.2 hsub hids hn hrooted

lemma guided_of_holds (hH : Holds Obj.image w H) (hfile : idx.file = w.file) {d : ℕ}
    {t : Tree (d + 1)} (hsub : ∀ e ∈ t.exts s dim, e ∈ H)
    (hroot : idx.super.root = Inner.extent s dim t) (hdepth : idx.manifest.depth = d + 1)
    {table : List LeafTableEntry}
    (hload : loadRoot w.file (Inner.extent s dim t) table = .ok idx.rootChildren)
    (hkids : 0 < d → idx.rootChildren =
      (Inner.kids t).map fun k => nodeChild (Tree.entry s dim k))
    (htable : d = 1 → idx.pca.dims ≠ 0 → idx.pca.leafBase = leafBases 0 t.clusters ∧
      (leafCentroidsOf t.clusters).length ≤ idx.pca.leafCentroids.length)
    (hids : ∀ id ∈ t.ids, id < n) (hrooted : t.Rooted) :
    (∃ id, routeToLeafId eng idx v = .ok id ∧ id < n) ↔ Guided eng idx t.rootLabels v := by
  match d, t with
  | 0, t => exact guided_of_one hH hfile (hsub _ List.mem_cons_self) hroot hload (by omega) hids
  | 1, t =>
    by_cases hspecial : 0 < idx.pca.dims ∧ idx.manifest.depth = 2
    · exact guided_of_pca hH hfile hsub (hkids Nat.one_pos) hspecial
        (htable rfl (by omega)) hids hrooted
    · exact guided_of_deep hH hfile hsub hroot (hkids Nat.one_pos) hdepth hspecial hids hrooted
  | d + 2, t =>
    exact guided_of_deep hH hfile hsub hroot (hkids (by omega)) hdepth (by omega) hids hrooted

end

lemma centroid_entry : ∀ {d : ℕ} (k : Label × Option (Tree d)),
    (Tree.entry s dim k).centroid = k.1.centroid
  | 0, (_, none) | 0, (_, some _) | _ + 1, (_, none) | _ + 1, (_, some _) => rfl

lemma length_loadRoot (hH : Holds Obj.image w H) {d : ℕ} {t : Tree (d + 1)}
    (hmem : Inner.ext s dim t ∈ H) {table : List LeafTableEntry} {cs : List RootChild}
    (h : loadRoot w.file (Inner.extent s dim t) table = .ok cs) :
    cs.length = (Inner.kids t).length := by
  have hpage : (Inner.extent s dim t).page ≠ none := Option.some_ne_none _
  rw [loadRoot, if_neg hpage, nodeAt_of_holds hH hmem, ok_bind] at h
  exact (mapM_get h).length_eq.symm.trans (List.length_map _)

lemma openLeafBase_of_tree (hH : Holds Obj.image w H) {d : ℕ} (hd : d = 1) (t : Tree (d + 1))
    (hmem : ∀ e ∈ t.exts s dim, e ∈ H) :
    openLeafBase w.file 0 ((Inner.kids t).map fun k => nodeChild (Tree.entry s dim k)) =
      .ok (leafBases 0 t.clusters) := by
  subst hd
  exact openLeafBase_of_holds hH _ 0 fun k hk m hm => hmem _ (kid_ext_mem hk hm)

/-- **Routing is decided at the root.** -/
theorem routes_iff_guided (h : IndexOk eng idx c) (hr : Routable idx c) (v : Vec) :
    (∃ id, routeToLeafId eng idx v = .ok id ∧ id < idx.leafTable.length) ↔
      Guided eng idx c.tree.rootLabels v := by
  have hlen : idx.leafTable.length = c.leaves.length := by
    rw [h.table, Contents.table, List.length_map]
  obtain ⟨a, ha⟩ := h.committed.holds
  have hids : ∀ id ∈ c.tree.ids, id < c.leaves.length := fun id hid => h.agrees.lt_length hid
  have hload := h.loaded
  rw [h.table] at hload
  obtain ⟨-, hkids⟩ := loadRoot_committed h.committed hids hload
  rw [hlen]
  rw [h.committed.named.root] at hload
  refine guided_of_holds ha rfl (fun e he => ?_) h.committed.named.root h.agrees.depth_eq hload hkids
    hr.table hids hr.rooted
  exact List.mem_append_left _ (List.mem_append_left _ he)

/-! ### What a call does to the root -/

/-- The same entries at the root, as far as a vector that is routed can tell. -/
structure SameEntries (c c' : Contents s) : Prop where
  below : c'.below = c.below
  labels : 0 < c.below → c'.tree.rootLabels = c.tree.rootLabels
  empty : c'.tree.rootLabels = [] ↔ c.tree.rootLabels = []
  rooted : c.tree.Rooted → c'.tree.Rooted

namespace SameEntries

lemma refl (c : Contents s) : SameEntries c c := ⟨rfl, fun _ => rfl, .rfl, id⟩

lemma trans {c'' : Contents s} (h : SameEntries c c') (h' : SameEntries c' c'') :
    SameEntries c c'' where
  below := h'.below.trans h.below
  labels hb := (h'.labels (by rw [h.below]; exact hb)).trans (h.labels hb)
  empty := h'.empty.trans h.empty
  rooted hr := h'.rooted (h.rooted hr)

lemma of_shape (h : c'.shape = c.shape) : SameEntries c c' := by
  have hlabels : c'.tree.rootLabels = c.tree.rootLabels :=
    congrArg (fun t : Σ d, Tree (d + 1) => t.2.rootLabels) h
  have hrooted : c'.tree.Rooted = c.tree.Rooted :=
    congrArg (fun t : Σ d, Tree (d + 1) => t.2.Rooted) h
  exact ⟨congrArg Sigma.fst h, fun _ => hlabels, by rw [hlabels], fun hr => hrooted ▸ hr⟩

end SameEntries

lemma rootLabels_ne_nil {d : ℕ} {t : Tree (d + 1)} {x : List Summary × ℕ} (h : x ∈ t.refs) :
    t.rootLabels ≠ [] := by
  intro hnil
  obtain ⟨k, hk, -⟩ := List.mem_flatMap.mp h
  rw [Tree.rootLabels, List.map_eq_nil_iff] at hnil
  rw [hnil] at hk
  cases hk

lemma SplitOf.sameEntries {id : ℕ} {l : StoredLeaf s} (h : SplitOf eng id l c c') :
    SameEntries c c' := by
  obtain ⟨t', l₀, l₁, rfl, -, -, hgrown⟩ := h.split
  obtain ⟨path, sm, hmem, hperm⟩ := hgrown.reaches
  have hmem' := hperm.mem_iff.mpr (List.mem_append_left _ hmem)
  exact ⟨rfl, hgrown.inherits.labels,
    iff_of_false (rootLabels_ne_nil hmem') (rootLabels_ne_nil hmem), hgrown.inherits.rooted⟩

lemma Splits.sameEntries (h : Splits eng c c') : SameEntries c c' := by
  induction h with
  | refl => exact .refl _
  | tail _ hstep ih =>
    obtain ⟨id, l, -, hsplit⟩ := hstep
    exact ih.trans hsplit.sameEntries

lemma Inserted.sameEntries {pts : List (InsertPoint s)} {ids : List ℕ}
    (h : Inserted eng pts ids c c') : SameEntries c c' := by
  obtain ⟨L₁, c₂, c₃, -, hsame, hsplits, hsame', -⟩ := h.steps
  have hfirst : c₂.shape = c.shape := hsame.shape
  exact ((SameEntries.of_shape hfirst).trans hsplits.sameEntries).trans (.of_shape hsame'.shape)

/-- A call leaves the root entries and the PCA tables as they are, but for the leaf table, and what is
routable stays so; an index with PCA tables must not be closed. -/
structure Steady (idx : Index s) (c : Contents s) (idx' : Index s) (c' : Contents s) : Prop where
  entries : SameEntries c c'
  pca : ∃ bases cents, idx'.pca = { idx.pca with leafBase := bases, leafCentroids := cents }
  routable : Routable idx c → Routable idx' c'

lemma Steady.refl (idx : Index s) (c : Contents s) : Steady idx c idx c :=
  ⟨.refl c, ⟨_, _, rfl⟩, id⟩

lemma Steady.trans {idx'' : Index s} {c'' : Contents s} (h : Steady idx c idx' c')
    (h' : Steady idx' c' idx'' c'') : Steady idx c idx'' c'' := by
  obtain ⟨b₁, v₁, hp⟩ := h.pca
  obtain ⟨b₂, v₂, hp'⟩ := h'.pca
  exact ⟨h.entries.trans h'.entries, ⟨b₂, v₂, by rw [hp', hp]⟩, fun hr => h'.routable (h.routable hr)⟩

lemma Advanced.steady (h : Advanced eng idx idx' c') (hsame : SameEntries c c') :
    Steady idx c idx' c' := by
  refine ⟨hsame, h.pca, fun hr => ⟨hsame.rooted hr.rooted, fun hb hd => ?_⟩⟩
  have hproj := h.projects hb (h.dims ▸ hd)
  refine ⟨hproj.bases, ?_⟩
  rw [hproj.centroids, List.length_map]

lemma steady_of_shape (h : c'.shape = c.shape) : Steady idx c idx c' := by
  have hclusters : c'.tree.clusters = c.tree.clusters :=
    congrArg (fun t : Σ d, Tree (d + 1) => t.2.clusters) h
  refine ⟨.of_shape h, ⟨_, _, rfl⟩, fun hr => ⟨(SameEntries.of_shape h).rooted hr.rooted, ?_⟩⟩
  rw [hclusters, (SameEntries.of_shape h).below]
  exact hr.table

lemma PassResult.steady {P : StoredLeaf s → StoredLeaf s → Prop}
    (h : PassResult eng P idx c idx' c') : Steady idx c idx' c' := by
  obtain rfl | hadv := h.moved
  · exact steady_of_shape h.shape
  · exact hadv.steady (.of_shape h.shape)

/-- **What a call does to the root.** -/
lemma call_steady (h : Opened eng idx c) {op : Op s} (hcall : op.call eng card idx = .ok idx')
    (hres : op.Result eng card idx c idx' c') (hclose : PcaOff idx ∨ op ≠ .reopen) :
    Steady idx c idx' c' := by
  cases op with
  | insert pts =>
    obtain ⟨-, rfl, rfl⟩ | hins := hres
    · exact .refl _ _
    · obtain ⟨ids, -, hsteps⟩ := hins.inserted
      exact hins.advanced.steady hsteps.sameEntries
  | delete rowIds =>
    obtain ⟨rfl, rfl, -⟩ | ⟨hadv, -⟩ := DeleteResult.moved hres
    · exact .refl _ _
    · exact hadv.steady (.of_shape hres.deleted.shape)
  | vacuum cfg => exact hres.pass.steady
  | defrag cfg => exact PassResult.steady hres
  | reopen =>
    obtain hoff | hno := hclose
    · rw [Op.call, h.reopen hoff] at hcall
      cases hcall
      rw [hres.1]
      exact ⟨.refl c, ⟨_, _, rfl⟩, fun hr => ⟨hr.rooted, hr.table⟩⟩
    · exact absurd rfl hno

/-! ### A run -/

lemma rootDistances_congr (h : Opened eng idx c) (h' : Opened eng idx' c') (hsame : Steady idx c idx' c')
    (hpos : 0 < c.below) (v : Vec) : rootDistances eng idx' v = rootDistances eng idx v := by
  have hkids : ∀ {i : Index s} {x : Contents s}, Opened eng i x → 0 < x.below →
      i.rootChildren.map (·.centroid) = x.tree.rootLabels.map fun a => a.1.centroid := by
    intro i x hi hx
    have hload := hi.index.loaded
    rw [hi.index.table] at hload
    obtain ⟨-, hk⟩ := loadRoot_committed hi.index.committed
      (fun id hid => hi.index.agrees.lt_length hid) hload
    rw [hk hx, Tree.rootLabels, List.map_map, List.map_map]
    apply List.map_congr_left
    exact fun k _ => centroid_entry k
  have hcents : idx'.rootChildren.map (·.centroid) = idx.rootChildren.map (·.centroid) := by
    rw [hkids h hpos, hkids h' (hsame.entries.below ▸ hpos), hsame.entries.labels hpos]
  have hlen : idx'.rootChildren.length = idx.rootChildren.length := by
    have := congrArg List.length hcents
    simpa using this
  obtain ⟨bases, cents, hpca⟩ := hsame.pca
  have hplain : ∀ i : Index s, (i.rootChildren.map fun rc => eng.dist v rc.centroid) =
      (i.rootChildren.map (·.centroid)).map (eng.dist v) := fun i => by rw [List.map_map]; rfl
  unfold rootDistances rootPcaDists
  rw [hplain, hplain, hcents, hlen, hpca]

lemma guided_one_iff (h : Opened eng idx c) (hb : c.below = 0) (hoff : PcaOff idx) (v : Vec) :
    Guided eng idx c.tree.rootLabels v ↔ c.tree.rootLabels ≠ [] := by
  have hdims : ¬ 0 < idx.pca.dims := by rw [hoff.tables]; exact lt_irrefl 0
  have hsome := h.index.agrees.full hb
  have hlen : idx.rootChildren.length = c.tree.rootLabels.length := by
    obtain ⟨a, ha⟩ := h.index.committed.holds
    have hload := h.index.loaded
    rw [h.index.committed.named.root] at hload
    have hmem : Inner.ext s c.manifest.dim c.tree ∈ c.heap :=
      List.mem_append_left _ (List.mem_append_left _ List.mem_cons_self)
    have hkids := length_loadRoot ha hmem hload
    rw [hkids, Tree.rootLabels, List.length_map]
  rw [Guided, rootDistances, if_neg hdims]
  constructor
  · rintro ⟨ds, a, -, hlab⟩ hnil
    rw [hnil] at hlab
    cases hlab
  · intro hne
    have hi : nearest (idx.rootChildren.map fun rc => eng.dist v rc.centroid) <
        c.tree.rootLabels.length := by
      have hlen' : (idx.rootChildren.map fun rc => eng.dist v rc.centroid).length =
          c.tree.rootLabels.length := by rw [List.length_map, hlen]
      rw [← hlen']
      refine nearest_lt fun hnil => hne ?_
      rw [← List.length_eq_zero_iff, ← hlen', hnil]
      rfl
    have htrue : ∀ x ∈ c.tree.rootLabels, x = (x.1, true) := by
      intro x hx
      obtain ⟨k, hk, rfl⟩ := List.mem_map.mp hx
      rw [hsome k hk]
    exact ⟨_, _, rfl, by rw [List.getElem?_eq_getElem hi, htrue _ (List.getElem_mem hi)]⟩

lemma opened_routable {old : TreeFile s} {st : Emission s} {F : List (Flushed s)}
    (h : OpenedBuild eng b old st F idx c) (hopened : Opened eng idx c)
    (hopen : openIndex eng idx.file = .ok idx) : Routable idx c := by
  have hroot : st.rootToLeaves = idsOf F := funext h.emitted.ids
  refine ⟨(h.built.tree.rootKids hroot h.leavesOf).full, fun hb hd => ⟨?_, ?_⟩⟩
  · obtain ⟨-, pca, children, bases, -, hload, hbases, hidx⟩ :=
      openIndex_inv hopened.index.committed hopen
    obtain ⟨-, hkids⟩ := loadRoot_committed hopened.index.committed
      (fun id hid => hopened.index.agrees.lt_length hid) hload
    have hdims : 0 < pca.dims := by
      rw [hidx] at hd
      exact Nat.pos_of_ne_zero hd
    have hdepth : c.manifest.depth = 2 := by rw [hopened.index.committed.sound.depth, hb]
    rw [if_pos ⟨hdims, hdepth⟩, hkids (by omega)] at hbases
    obtain ⟨a, ha⟩ := hopened.index.committed.holds
    have htree : ∀ e ∈ c.tree.exts s c.manifest.dim, e ∈ c.heap := fun e he =>
      List.mem_append_left _ (List.mem_append_left _ he)
    have hall := openLeafBase_of_tree ha hb c.tree htree
    rw [hall] at hbases
    cases hbases
    rw [hidx]
    rfl
  · obtain ⟨bases, hpca⟩ := h.pca
    have hcents : idx.pca.leafCentroids.length = F.length := by
      rw [hpca] at hd ⊢
      unfold builtPca at hd ⊢
      cases hm : b.routingPca with
      | none => rw [hm] at hd; exact absurd rfl hd
      | some m => simp [PcaModel.tables, h.emitted.leaves]
    rw [hcents]
    exact h.built.tree.length_cents hroot (idsOf_perm h.emitted.clusters)

/-- **What is routed stays routed.** After any run on a build, a vector is routed to a leaf of the table
exactly when the opened build routed it to one. With PCA tables this is said of trees of two or three
levels and of runs that do not close the index. -/
theorem run_routes_iff {old : TreeFile s} (hb : build b old = .ok file) (heng : eng.coder = b.coder)
    (hpca : PcaShaped b) (hone : OneLeafEach b) (hopen : openIndex eng file = .ok idx)
    (hrun : MutationRun eng card idx ops idx')
    (hclose : b.routingPca = none ∨ 2 ≤ buildDepth b ∧ Op.reopen ∉ ops) (v : Vec) :
    (∃ id, routeToLeafId eng idx' v = .ok id ∧ id < idx'.leafTable.length) ↔
      ∃ id, routeToLeafId eng idx v = .ok id ∧ id < idx.leafTable.length := by
  obtain ⟨st, F, c, hbuilt, hopened⟩ := opened_of_build hb heng hpca hone hopen
  rw [← file_of_build hb hopen] at hopen
  have hoff : b.routingPca = none → PcaOff idx := fun hnone =>
    pcaOff_of_open hopened hopen (by rw [hbuilt.pcaDims, hnone]; rfl)
  have hroutable := opened_routable hbuilt hopened hopen
  obtain ⟨c', h', hsteady, hoff'⟩ := hrun.keeps (I := fun idx₁ c₁ => Steady idx c idx₁ c₁ ∧
      (b.routingPca = none → PcaOff idx₁)) hopened ⟨.refl idx c, hoff⟩ (by
    rintro idx₁ idx₂ c₁ c₂ op hmem h₁ hcall hres ⟨hst₁, hoff₁⟩
    refine ⟨hst₁.trans (call_steady h₁ hcall hres ?_), fun hnone =>
      call_pcaOff h₁ hcall hres (hoff₁ hnone)⟩
    obtain hnone | ⟨-, hno⟩ := hclose
    · exact .inl (hoff₁ hnone)
    · exact .inr fun hop => hno (hop ▸ hmem))
  rw [routes_iff_guided h'.index (hsteady.routable hroutable),
    routes_iff_guided hopened.index hroutable]
  by_cases hpos : 0 < c.below
  · have hdists := rootDistances_congr hopened h' hsteady hpos v
    rw [Guided, Guided, hdists, hsteady.entries.labels hpos]
  · have hzero : c.below = 0 := by omega
    have hnone : b.routingPca = none := by
      obtain hnone | ⟨hdeep, -⟩ := hclose
      · exact hnone
      · have hdepth : buildDepth b = c.below + 1 := by
          rw [buildDepth, sum_leavesOf (idsOf_perm hbuilt.emitted.clusters) hbuilt.leavesOf,
            hbuilt.built.depth]
        omega
    rw [guided_one_iff h' (hsteady.entries.below.trans hzero) (hoff' hnone),
      guided_one_iff hopened hzero (hoff hnone), ne_eq, ne_eq, hsteady.entries.empty]

theorem run_routes_iff_two :
    (∃ id, routeToLeafId (lineEngine plainSchema) busyEnd [0] = .ok id ∧ id < busyEnd.leafTable.length) ↔
      ∃ id, routeToLeafId (lineEngine plainSchema) openedTwo [0] = .ok id ∧
        id < openedTwo.leafTable.length :=
  run_routes_iff build_pairBuild rfl pcaShaped_pairBuild oneLeafEach_pairBuild open_pairBuild busy_run
    (.inl rfl) [0]

end SextantTree
