import SextantTree.BuildLinked
import SextantTree.RemapSpec

/-!
Opening the file of a build, and routing in it. An empty cluster is an entry without a child. At
the root of a depth-1 tree such an entry is resolved through the leaf table when the file is
opened; at the root of a deeper tree it takes part in routing like any other.
-/

namespace SextantTree

open Pages Alloc AllocInv AllocRun Heap FilterHash Outcome

variable {s : Schema} {b : BuildInput s}

/-! ### The PCA tables -/

/-- The matrices of a PCA model have the shapes training gives them. -/
structure PcaModel.Shaped (m : PcaModel) (dim kRoot kL1 : ℕ) : Prop where
  proj : ∀ r ∈ m.proj, r.length = dim
  mean : m.meanProj.length = m.proj.length
  rootWidth : ∀ r ∈ m.rootCentroids, r.length = m.proj.length
  roots : m.rootCentroids.length = kRoot
  superWidth : ∀ r ∈ m.superCentroids, r.length = m.proj.length
  supers : m.superCentroids.length = kL1

lemma length_flatten_const {w : ℕ} {rows : List Vec} (h : ∀ r ∈ rows, r.length = w) :
    rows.flatten.length = rows.length * w := by
  rw [List.length_flatten, List.map_congr_left h]
  simp

lemma rowOf_flatten {w : ℕ} {rows : List Vec} (h : ∀ r ∈ rows, r.length = w) (rest : List ℚ) {i : ℕ}
    (hi : i < rows.length) : rowOf w (rows.flatten ++ rest) i = rows[i] := by
  induction rows generalizing i with
  | nil => simp at hi
  | cons r rows ih =>
    have hr : r.length = w := h r List.mem_cons_self
    rw [List.flatten_cons, List.append_assoc]
    cases i with
    | zero => simp [rowOf, ← hr]
    | succ i =>
      have hdrop : (r ++ (rows.flatten ++ rest)).drop ((i + 1) * w) =
          (rows.flatten ++ rest).drop (i * w) := by
        rw [Nat.succ_mul, Nat.add_comm, ← hr, List.drop_append]
        simp
      rw [rowOf, hdrop]
      exact ih (fun x hx => h x (List.mem_cons_of_mem _ hx)) (by simpa using hi)

lemma map_rowOf_flatten {w n : ℕ} {rows : List Vec} (h : ∀ r ∈ rows, r.length = w)
    (rest : List ℚ) (hn : rows.length = n) :
    (List.range n).map (rowOf w (rows.flatten ++ rest)) = rows := by
  subst hn
  refine List.ext_getElem (by simp) fun i h₁ h₂ => ?_
  simp [rowOf_flatten h rest h₂]

/-- The root centroids a blob of this depth has. -/
def PcaModel.centroids (m : PcaModel) (depth : ℕ) : List Vec :=
  if 3 ≤ depth then m.superCentroids else m.rootCentroids

/-- What `open` makes of the blob of a build. -/
def PcaModel.tables (m : PcaModel) (depth : ℕ) (leaves : List LeafMeta) : PcaTables where
  dims := m.proj.length
  proj := m.proj
  meanProj := m.meanProj
  rootCentroids := m.centroids depth
  leafCentroids := leaves.map fun l => projectPca m.proj m.meanProj l.centroid
  leafBase := []

lemma length_projectPca {m : PcaModel} (h : m.meanProj.length = m.proj.length) (v : Vec) :
    (projectPca m.proj m.meanProj v).length = m.proj.length := by
  simp [projectPca, h]

lemma loadPca_blob {m : PcaModel} {depth : ℕ} {leaves : List LeafMeta} {mf : Manifest}
    (hm : m.Shaped mf.dim b.kRoot b.kL1) (hpd : mf.pcaDims = m.proj.length)
    (hn : mf.nLeaves = leaves.length)
    (hkr : (if 3 ≤ mf.depth ∧ 0 < mf.kL1 then mf.kL1 else mf.kRoot) = (m.centroids depth).length) :
    loadPca (pcaBlob m depth leaves) mf = .ok (m.tables depth leaves) := by
  have hcent : ∀ r ∈ m.centroids depth, r.length = m.proj.length := by
    unfold PcaModel.centroids
    split
    · exact hm.superWidth
    · exact hm.rootWidth
  have hleaf : ∀ r ∈ leaves.map (fun l => projectPca m.proj m.meanProj l.centroid),
      r.length = m.proj.length := by
    intro r hr
    obtain ⟨l, -, rfl⟩ := List.mem_map.mp hr
    exact length_projectPca hm.mean _
  have hblob : pcaBlob m depth leaves = m.proj.flatten ++ (m.meanProj ++ ((m.centroids depth).flatten ++
      (leaves.map fun l => projectPca m.proj m.meanProj l.centroid).flatten)) := by
    simp [pcaBlob, PcaModel.centroids]
  have hlen : (pcaBlob m depth leaves).length = m.proj.length * mf.dim + m.proj.length +
      (m.centroids depth).length * m.proj.length + leaves.length * m.proj.length := by
    rw [hblob]
    simp only [List.length_append, length_flatten_const hm.proj, length_flatten_const hcent,
      length_flatten_const hleaf, List.length_map, hm.mean]
    ring
  have hfit : (pcaBlob m depth leaves).length ≤
      pagesFor ((pcaBlob m depth leaves).length * 4) * (kPageSize / 4) := by
    simp only [pagesFor, kPageSize]
    omega
  simp only [loadPca, hpd, hkr, hn]
  rw [if_neg (by rw [← hlen]; omega)]
  generalize pagesFor ((pcaBlob m depth leaves).length * 4) * (kPageSize / 4) -
    (pcaBlob m depth leaves).length = pad
  rw [hblob]
  simp only [List.append_assoc]
  have h₁ : m.proj.length * mf.dim = m.proj.flatten.length := (length_flatten_const hm.proj).symm
  have h₂ : (m.centroids depth).length * m.proj.length = (m.centroids depth).flatten.length :=
    (length_flatten_const hcent).symm
  rw [map_rowOf_flatten hm.proj _ rfl, h₁, List.drop_left, ← hm.mean, List.take_left, List.drop_left,
    hm.mean, map_rowOf_flatten hcent _ rfl, h₂, List.drop_left, map_rowOf_flatten hleaf _ (by simp)]
  rfl

/-! ### Opening -/

/-- The PCA model the file routes by, if it has dimensions. -/
def BuildInput.routingPca (b : BuildInput s) : Option PcaModel := b.pca.filter fun m => !m.proj.isEmpty

/-- The PCA tables of a built file, before the leaf bases are counted. -/
def builtPca (b : BuildInput s) (depth : ℕ) (leaves : List LeafMeta) : PcaTables :=
  b.routingPca.elim PcaTables.off fun m => m.tables depth leaves

/-- Every PCA model of the input is well shaped. -/
def PcaShaped (b : BuildInput s) : Prop := ∀ m, b.pca = some m → m.Shaped b.dim b.kRoot b.kL1

variable {st : Emission s} {F : List (Flushed s)} {file : TreeFile s} {sb : SuperblockDisk}
  {c : Contents s}

lemma Built.leafCount (hB : Built b st F c) : c.leaves.length = F.length := by
  rw [hB.leaves, List.length_map]

lemma Built.manifestDepth (hB : Built b st F c) : c.manifest.depth = c.below + 1 := by
  rw [hB.manifest, hB.depth]
  rfl

lemma kL1_pos (hclusters : ∀ f ∈ F, f.cluster < b.kRoot) (h : finalDepth b F.length = 3) :
    0 < b.kL1 := by
  obtain ⟨h1, -⟩ | ⟨hd, hlt⟩ := finalDepth_cases b F.length
  · omega
  · obtain ⟨f, hf⟩ := List.exists_mem_of_length_pos (show 0 < F.length by omega)
    exact (Nat.zero_le _).trans_lt (b.superGroup_lt (by omega) _ (hclusters f hf))

def openPca (file : TreeFile s) (sb : SuperblockDisk) (m : Manifest) : Except ErrorKind PcaTables :=
  if 0 < m.pcaDims ∧ sb.pca.page ≠ none then
    match readPca file sb.pca with
    | some fs => loadPca fs m
    | none => .error .undefined
  else .ok PcaTables.off

/-- The codebook check of `open` passes. -/
def CodebookNamed (eng : Engine) (sb : SuperblockDisk) : Prop :=
  ¬ (eng.coder.serializeGlobal.isSome = true ∧ (sb.codebook.page = none ∨ sb.codebook.pages = 0))

instance (eng : Engine) (sb : SuperblockDisk) : Decidable (CodebookNamed eng sb) :=
  inferInstanceAs (Decidable (¬ _))

/-- The index `open` returns. -/
def openedIndex (file : TreeFile s) (sb : SuperblockDisk) (mf : Manifest)
    (table : List LeafTableEntry) (pca : PcaTables) (children : List RootChild)
    (bases : List (Option ℕ)) : Index s where
  file := file
  super := sb
  manifest := mf
  nVectorsDisk := mf.nVectors
  leafTable := table
  rootChildren := children
  pca := { pca with leafBase := bases }
  plane := decide (sb.plane.page ≠ none ∧ 0 < sb.plane.pages)

/-- The end of `open`: the root and the leaf bases. -/
def openRoot (file : TreeFile s) (sb : SuperblockDisk) (mf : Manifest) (table : List LeafTableEntry)
    (pca : PcaTables) : Except ErrorKind (Index s) := do
  let children ← loadRoot file sb.root table
  let bases ← if 0 < pca.dims ∧ mf.depth = 2 then openLeafBase file 0 children else .ok []
  .ok (openedIndex file sb mf table pca children bases)

lemma openIndex_committed {eng : Engine} (hC : Committed file sb c) : openIndex eng file =
    if CodebookNamed eng sb then do
      let pca ← openPca file sb c.manifest
      openRoot file sb c.manifest c.table pca
    else .error (.thrown "IVFTreeIndex::open: no codebook in superblock") := by
  obtain ⟨a, ha⟩ := hC.holds
  have hconfig : readConfig file sb.config = some c.manifest := by
    rw [hC.named.config]
    exact readConfig_of_holds ha hC.sound.config
  have htable : readLeafTable file sb.leafTable = some c.table := by
    rw [hC.named.table]
    exact readLeafTable_of_holds ha
  have hvalid : ¬ (sb.leafTable.page = none ∨ sb.leafTable.pages = 0) := by
    have : 0 < (Obj.leafTable (s := s) c.table).pages := pagesFor_pos (by omega)
    rw [hC.named.table]
    simp only [reduceCtorEq, false_or]
    omega
  have hcfg : sb.config.page ≠ none := by
    rw [hC.named.config]
    exact Option.some_ne_none _
  rw [openIndex, hC.current.load]
  simp only [ok_bind, if_neg hcfg, hconfig, htable, if_neg hvalid]
  by_cases hcode : CodebookNamed eng sb
  · have hno : ¬ (eng.coder.serializeGlobal.isSome = true ∧
        (sb.codebook.page = none ∨ sb.codebook.pages = 0)) := hcode
    rw [if_neg hno, if_pos hcode]
    have hroot : ∀ pca : PcaTables, (do
        let children ← loadRoot file sb.root c.table
        if 0 < pca.dims ∧ c.manifest.depth = 2 then do
          let bases ← openLeafBase file 0 children
          .ok (openedIndex file sb c.manifest c.table pca children bases)
        else .ok (openedIndex file sb c.manifest c.table pca children []) :
          Except ErrorKind (Index s)) = openRoot file sb c.manifest c.table pca := by
      intro pca
      rw [openRoot]
      congr
    simp only [← hroot]
    rw [openPca]
    by_cases hon : 0 < c.manifest.pcaDims ∧ sb.pca.page ≠ none
    · rw [if_pos hon, if_pos hon]
      cases hr : readPca file sb.pca with
      | none => rfl
      | some fs => rfl
    · rw [if_neg hon, if_neg hon]
      rfl
  · have hmiss : eng.coder.serializeGlobal.isSome = true ∧
        (sb.codebook.page = none ∨ sb.codebook.pages = 0) := not_not.mp hcode
    rw [if_pos hmiss, if_neg hcode]
    rfl

lemma codebook_there {eng : Engine} (hC : Committed file sb c) (hB : Built b st F c)
    (heng : eng.coder = b.coder) : CodebookNamed eng sb := by
  rw [CodebookNamed, heng]
  rintro ⟨hsome, hmiss⟩
  obtain ⟨g, hg⟩ := Option.isSome_iff_exists.mp hsome
  have hpos : 0 < (Obj.blob (s := s) (codebookBlob g)).pages :=
    pagesFor_pos (by simp [codebookBlob, u32le])
  have hslot := hB.codebook
  rw [hg, Option.map_some, Option.filter_some, if_pos (by simpa using hpos),
    Option.map_eq_some_iff] at hslot
  obtain ⟨⟨p, o⟩, hcb, rfl⟩ := hslot
  have hnamed := hC.named.codebook
  rw [hcb] at hnamed
  rw [hnamed.1] at hmiss
  simp only [reduceCtorEq, false_or] at hmiss
  exact absurd hmiss hnamed.2.ne'

lemma openPca_built (hC : Committed file sb c) (hB : Built b st F c) (hpca : PcaShaped b)
    (hlen : st.leaves.length = F.length) (hclusters : ∀ f ∈ F, f.cluster < b.kRoot) :
    openPca file sb c.manifest = .ok (builtPca b (finalDepth b F.length) st.leaves) := by
  rw [openPca]
  have hdims : c.manifest.pcaDims = b.pca.elim 0 fun m => m.proj.length := by
    rw [hB.manifest]
    rfl
  cases hb : b.pca with
  | none =>
    rw [hdims, hb]
    simp [builtPca, BuildInput.routingPca, hb]
  | some m =>
    by_cases hempty : m.proj = []
    · have hroute : b.routingPca = none := by
        rw [BuildInput.routingPca, hb, Option.filter_some, if_neg (by simp [hempty])]
      rw [hdims, hb]
      simp [builtPca, hroute, hempty]
    · have hshape := hpca m hb
      have hproj : 0 < m.proj.length := List.length_pos_of_ne_nil hempty
      have hpos : 0 < (Obj.pca (s := s) (pcaBlob m (finalDepth b F.length) st.leaves)).pages := by
        refine pagesFor_pos ?_
        have hmean := hshape.mean
        simp only [pcaBlob, List.length_append]
        omega
      have hslot := hB.pca
      rw [hb, Option.map_some, Option.filter_some, if_pos (by simpa using hpos),
        Option.map_eq_some_iff] at hslot
      obtain ⟨⟨p, o⟩, hpc, rfl⟩ := hslot
      have hnamed := hC.named.pca
      rw [hpc] at hnamed
      obtain ⟨a, ha⟩ := hC.holds
      have hread : readPca file sb.pca = some (pcaBlob m (finalDepth b F.length) st.leaves) := by
        rw [hnamed.1]
        exact readAs_of_holds (o := .pca (pcaBlob m (finalDepth b F.length) st.leaves)) ha
          (by simp [Contents.heap, Slot.exts, hpc]) hpos rfl
      rw [if_pos ⟨by rw [hdims, hb]; exact hproj, by rw [hnamed.1]; exact Option.some_ne_none _⟩,
        hread]
      have hroute : b.routingPca = some m := by simp [BuildInput.routingPca, hb, hempty]
      simp only [builtPca, hroute, Option.elim_some]
      refine loadPca_blob (b := b) ?_ ?_ ?_ ?_
      · rw [hB.manifest]
        exact hshape
      · rw [hdims, hb]
        rfl
      · rw [hB.manifest, hlen]
        rfl
      · rw [hB.manifest]
        change (if 3 ≤ finalDepth b F.length ∧ 0 < b.kL1 then b.kL1 else b.kRoot) =
          (if 3 ≤ finalDepth b F.length then m.superCentroids else m.rootCentroids).length
        by_cases h3 : 3 ≤ finalDepth b F.length
        · have hd := b.depth_planned
          have h3' : finalDepth b F.length = 3 := by
            obtain ⟨h1, -⟩ | ⟨h1, -⟩ := finalDepth_cases b F.length <;> omega
          rw [if_pos ⟨h3, kL1_pos hclusters h3'⟩, if_pos h3, hshape.supers]
        · rw [if_neg fun hcon => h3 hcon.1, if_neg h3, hshape.roots]

lemma openIndex_built {eng : Engine} (hC : Committed file sb c) (hB : Built b st F c)
    (heng : eng.coder = b.coder) (hpca : PcaShaped b) (hlen : st.leaves.length = F.length)
    (hclusters : ∀ f ∈ F, f.cluster < b.kRoot) :
    openIndex eng file =
      openRoot file sb c.manifest c.table (builtPca b (finalDepth b F.length) st.leaves) := by
  rw [openIndex_committed hC, if_pos (codebook_there hC hB heng),
    openPca_built hC hB hpca hlen hclusters]
  rfl

/-! ### Routing below the root -/

lemma nearest_lt {ds : List (Option ℚ)} (h : ds ≠ []) : nearest ds < ds.length := by
  -- A round keeps the index or takes the one of its element.
  have key : ∀ f : ℕ × Option ℚ → Option ℚ × ℕ → ℕ × Option ℚ,
      (∀ acc x, (f acc x).1 = acc.1 ∨ (f acc x).1 = x.2) →
      ∀ (l : List (Option ℚ × ℕ)) (acc : ℕ × Option ℚ), acc.1 < ds.length →
        (∀ x ∈ l, x.2 < ds.length) → (l.foldl f acc).1 < ds.length := by
    intro f hf l
    induction l with
    | nil => exact fun acc hacc _ => hacc
    | cons x l ih =>
      intro acc hacc hl
      have hx := hl x List.mem_cons_self
      refine ih _ ?_ fun y hy => hl y (List.mem_cons_of_mem _ hy)
      rcases hf acc x with h | h
      · exact h ▸ hacc
      · exact h ▸ hx
  refine key _ (fun acc x => ?_) _ _ (List.length_pos_of_ne_nil h) fun x hx => ?_
  · split
    · split
      · exact .inr rfl
      · exact .inl rfl
    · exact .inr rfl
    · exact .inl rfl
  · have := List.snd_lt_of_mem_zipIdx hx
    omega

lemma elemAt_eq {α : Type} {l : List α} {i : ℕ} (h : i < l.length) : elemAt l i = .ok l[i] := by
  rw [elemAt, List.getElem?_eq_getElem h]

/-- A tree without empty nodes and without entries that lead nowhere. -/
def Tree.Full : {d : ℕ} → Tree d → Prop
  | 0, _ => True
  | _ + 1, n => Inner.kids n ≠ [] ∧ ∀ k ∈ Inner.kids n, ∃ t, k.2 = some t ∧ Tree.Full t

lemma mem_ids_of_sub {d : ℕ} {n : Inner (Tree d)} {k : Label × Option (Tree d)} (hk : k ∈ n.kids)
    {t : Tree d} (ht : k.2 = some t) {id : ℕ} (hid : id ∈ t.ids) : id ∈ Tree.ids (d := d + 1) n :=
  Tree.mem_ids.mpr ⟨k, hk, by rwa [ht]⟩

lemma routeDescend_full (eng : Engine) (q : Vec) {v : TreeVol s} {H : List (Ext (Obj s))}
    (h : Holds Obj.image v H) {dim : ℕ} : ∀ {d : ℕ} (t : Tree (d + 1)), t.Full →
      (∀ e ∈ t.exts s dim, e ∈ H) →
      ∃ id ∈ t.ids, routeDescend eng v.file q (d + 1) (Inner.extent s dim t) = .ok id
  | d, (n : Inner (Tree d)), hfull, hsub => by
    have hnode := nodeAt_of_holds h (hsub _ List.mem_cons_self)
    rw [routeDescend, hnode, ok_bind]
    set ds := (n.node s dim).children.map fun c =>
      if c.childPage = none then none else eng.dist q c.centroid with hds
    have hlen : ds.length = n.kids.length := by simp [hds, Inner.node]
    have hbest : nearest ds < n.kids.length := by
      rw [← hlen]
      refine nearest_lt fun hnil => hfull.1 ?_
      rw [← List.length_eq_zero_iff, ← hlen, hnil]
      rfl
    have hget : elemAt (n.node s dim).children (nearest ds) =
        .ok (Tree.entry s dim n.kids[nearest ds]) := by
      rw [elemAt, Inner.node]
      simp only [List.getElem?_map, List.getElem?_eq_getElem hbest, Option.map_some]
    dsimp only
    rw [hget, ok_bind]
    obtain ⟨t, ht, htfull⟩ := hfull.2 _ (List.getElem_mem hbest)
    have hk : n.kids[nearest ds] ∈ n.kids := List.getElem_mem hbest
    generalize n.kids[nearest ds] = k at ht hk
    obtain ⟨a, o⟩ := k
    obtain rfl : o = some t := ht
    cases d with
    | zero =>
      refine ⟨LeafRef.id t, mem_ids_of_sub hk rfl ?_, rfl⟩
      simp [Tree.ids, Tree.refs]
    | succ d =>
      obtain ⟨id, hid, hroute⟩ := routeDescend_full eng q h t htfull fun e he =>
        hsub e (List.mem_cons_of_mem _ (List.mem_flatMap.mpr ⟨_, hk, he⟩))
      exact ⟨id, mem_ids_of_sub hk rfl hid, hroute⟩

lemma routeDescend_none (eng : Engine) (file : TreeFile s) (q : Vec) (fuel pages : ℕ) :
    ∀ id, routeDescend eng file q fuel ⟨none, pages⟩ ≠ .ok id := by
  intro id
  cases fuel with
  | zero => simp [routeDescend]
  | succ fuel =>
    rw [routeDescend, nodeAt]
    simp only [readNode, readAs, Option.bind_none]
    intro h
    cases h

/-! ### Routing at the root -/

/-- The children of the root at a depth: super-groups at depth three, else clusters. -/
def rootWidth (b : BuildInput s) (depth : ℕ) : ℕ := if depth = 3 then b.kL1 else b.kRoot

def rootCent (b : BuildInput s) (depth i : ℕ) : Vec :=
  if depth = 3 then b.superCentroid i else b.rootCentroid i

/-- The distances of a vector to the root children, in PCA space if the file has one. -/
def rootDists (eng : Engine) (b : BuildInput s) (depth : ℕ) (v : Vec) : List (Option ℚ) :=
  match b.routingPca with
  | some m => (m.centroids depth).map (eng.pcaDist (projectPca m.proj m.meanProj v))
  | none => (List.range (rootWidth b depth)).map fun i => eng.dist v (rootCent b depth i)

/-- An open index as far as routing at the root reads it. -/
structure RootOpen (b : BuildInput s) (depth : ℕ) (idx : Index s) : Prop where
  width : idx.rootChildren.length = rootWidth b depth
  centroid : ∀ i rc, idx.rootChildren[i]? = some rc → rc.centroid = rootCent b depth i
  dims : idx.pca.dims = b.routingPca.elim 0 fun m => m.proj.length
  proj : ∀ m, b.routingPca = some m → idx.pca.proj = m.proj ∧ idx.pca.meanProj = m.meanProj ∧
    idx.pca.rootCentroids = m.centroids depth

lemma routingPca_spec {m : PcaModel} (h : b.routingPca = some m) : b.pca = some m ∧ m.proj ≠ [] := by
  simpa [BuildInput.routingPca, Option.filter_eq_some_iff] using h

lemma length_centroids {m : PcaModel} {depth : ℕ} (h : m.Shaped b.dim b.kRoot b.kL1)
    (hd : depth ≤ 3) : (m.centroids depth).length = rootWidth b depth := by
  unfold PcaModel.centroids rootWidth
  by_cases h3 : depth = 3
  · rw [if_pos (by omega), if_pos h3, h.supers]
  · rw [if_neg (by omega), if_neg h3, h.roots]

lemma length_rootDists (eng : Engine) {depth : ℕ} (hpca : PcaShaped b) (hd : depth ≤ 3) (v : Vec) :
    (rootDists eng b depth v).length = rootWidth b depth := by
  unfold rootDists
  cases hm : b.routingPca with
  | none => simp
  | some m =>
    rw [List.length_map]
    exact length_centroids (hpca m (routingPca_spec hm).1) hd

namespace RootOpen

variable {idx : Index s} {depth : ℕ} (h : RootOpen b depth idx)
include h

lemma dims_pos : 0 < idx.pca.dims ↔ b.routingPca.isSome = true := by
  rw [h.dims]
  cases hm : b.routingPca with
  | none => simp
  | some m => simpa using List.length_pos_of_ne_nil (routingPca_spec hm).2

lemma pcaDists (eng : Engine) (hpca : PcaShaped b) (hd : depth ≤ 3) (hdims : 0 < idx.pca.dims)
    (v : Vec) : rootPcaDists eng idx (projectPca idx.pca.proj idx.pca.meanProj v) =
      .ok (rootDists eng b depth v) := by
  obtain ⟨m, hm⟩ := Option.isSome_iff_exists.mp (h.dims_pos.mp hdims)
  obtain ⟨h₁, h₂, h₃⟩ := h.proj m hm
  have hlen := length_centroids (hpca m (routingPca_spec hm).1) hd
  rw [rootPcaDists, h₁, h₂, h₃, h.width, ← hlen]
  rw [mapM_ok (g := fun i => eng.pcaDist (projectPca m.proj m.meanProj v) ((m.centroids depth).getD i []))]
  · rw [rootDists, hm]
    refine congrArg Except.ok (List.ext_getElem (by simp) fun i h₁ h₂ => ?_)
    simp only [List.getElem_map, List.getElem_range]
    rw [List.getD_eq_getElem _ _ (by simpa using h₂)]
  · intro i hi
    rw [List.mem_range] at hi
    rw [elemAt_eq hi, ok_bind, List.getD_eq_getElem _ _ hi]

lemma plainDists (eng : Engine) (hdims : ¬ 0 < idx.pca.dims) (v : Vec) :
    (idx.rootChildren.map fun rc => eng.dist v rc.centroid) = rootDists eng b depth v := by
  have hm : b.routingPca = none := by simpa [h.dims_pos] using hdims
  rw [rootDists, hm]
  refine List.ext_getElem (by simp [h.width]) fun i h₁ h₂ => ?_
  simp only [List.getElem_map, List.getElem_range]
  rw [h.centroid i _ (List.getElem?_eq_getElem (by simpa using h₁))]

lemma route_eq (eng : Engine) (hpca : PcaShaped b) (hd : depth ≤ 3)
    (hspecial : ¬ (0 < idx.pca.dims ∧ idx.manifest.depth = 2)) (v : Vec) :
    routeToLeafId eng idx v = (do
      let rc ← elemAt idx.rootChildren (nearest (rootDists eng b depth v))
      if rc.isLeaf then do
        let n ← nodeAt idx.file idx.super.root
        let c ← elemAt n.children (nearest (rootDists eng b depth v))
        .ok (c.childPage.getD (2 ^ 32 - 1))
      else routeDescend eng idx.file v (idx.manifest.depth - 1) ⟨rc.page, rc.pages⟩) := by
  rw [routeToLeafId, if_neg hspecial]
  by_cases hdims : 0 < idx.pca.dims
  · rw [if_pos hdims, h.pcaDists eng hpca hd hdims, ok_bind]
  · rw [if_neg hdims, h.plainDists eng hdims, ok_bind]

end RootOpen

/-! ### The root children of a build -/

/-- The root child `i` received no rows. -/
def EmptyChild (b : BuildInput s) (depth i : ℕ) : Prop :=
  if depth = 3 then ∀ c < b.kRoot, b.superGroup c = i → staged b c = [] else staged b i = []

lemma leavesOf_eq_zero {i : ℕ} : leavesOf b i = 0 ↔ staged b i = [] := by
  have hpos := b.leafCap_pos
  rw [leavesOf, Nat.div_eq_zero_iff_lt hpos, ← List.length_eq_zero_iff]
  omega

lemma rootToLeaves_isEmpty (hroot : st.rootToLeaves = idsOf F)
    (hcount : ∀ c, (ofCluster F c).length = leavesOf b c) (i : ℕ) :
    (st.rootToLeaves i).isEmpty = true ↔ staged b i = [] := by
  rw [hroot, List.isEmpty_iff, ← List.length_eq_zero_iff, length_idsOf, hcount, leavesOf_eq_zero]

/-- The root entries of a built tree: which of them lead somewhere, and that nothing below is
empty. -/
structure RootKids (b : BuildInput s) (d : ℕ) (kids : List (Label × Option (Tree d))) : Prop where
  width : kids.length = rootWidth b (d + 1)
  centroid : ∀ i k, kids[i]? = some k → k.1.centroid = rootCent b (d + 1) i
  empty : ∀ i k, kids[i]? = some k → (k.2 = none ↔ EmptyChild b (d + 1) i)
  full : ∀ k ∈ kids, ∀ t, k.2 = some t → t.Full

lemma RootKids.of_range {d n : ℕ} {f : ℕ → Label × Option (Tree d)} (hn : n = rootWidth b (d + 1))
    (hcent : ∀ i, (f i).1.centroid = rootCent b (d + 1) i)
    (hempty : ∀ i < n, (f i).2 = none ↔ EmptyChild b (d + 1) i)
    (hfull : ∀ i < n, ∀ t, (f i).2 = some t → t.Full) : RootKids b d ((List.range n).map f) := by
  have hget : ∀ i k, ((List.range n).map f)[i]? = some k → i < n ∧ f i = k := by
    intro i k hk
    obtain ⟨hi, hk⟩ := List.getElem?_eq_some_iff.mp hk
    refine ⟨by simpa using hi, ?_⟩
    simpa using hk
  refine ⟨by simpa using hn, fun i k hk => ?_, fun i k hk => ?_, fun k hk => ?_⟩
  · obtain ⟨-, rfl⟩ := hget i k hk
    exact hcent i
  · obtain ⟨hi, rfl⟩ := hget i k hk
    exact hempty i hi
  · obtain ⟨i, hi, rfl⟩ := List.mem_map.mp hk
    exact hfull i (List.mem_range.mp hi)

lemma clusterNode_full (pg : ℕ → ℕ) {c : ℕ} (h : (st.rootToLeaves c).isEmpty = false) :
    Tree.Full (d := 1) (clusterNode st pg c) := by
  refine ⟨?_, fun k hk => ?_⟩
  · simpa [clusterNode] using h
  · obtain ⟨li, -, rfl⟩ := List.mem_map.mp hk
    exact ⟨_, rfl, True.intro⟩

lemma clusterKid_full (pg : ℕ → ℕ) {c : ℕ} {t : Tree 1} (h : (clusterKid b st pg c).2 = some t) :
    t.Full := by
  unfold clusterKid at h
  cases he : (st.rootToLeaves c).isEmpty with
  | true => simp [he] at h
  | false =>
    rw [he] at h
    cases h
    exact clusterNode_full pg he

lemma groupKid_full (pg pg' : ℕ → ℕ) {g : ℕ} {t : Tree 2}
    (h : (groupKid b st pg pg' g).2 = some t) : t.Full := by
  unfold groupKid at h
  cases he : (groupMembers b st g).isEmpty with
  | true => simp [he] at h
  | false =>
    rw [he] at h
    cases h
    refine ⟨?_, fun k hk => ?_⟩
    · simpa [groupNode] using he
    · obtain ⟨c, hc, rfl⟩ := List.mem_map.mp hk
      have hne : (st.rootToLeaves c).isEmpty = false := by
        have := (List.mem_filter.mp hc).2
        simp only [Bool.and_eq_true, Bool.not_eq_true'] at this
        exact this.2
      refine ⟨clusterNode st pg c, ?_, clusterNode_full pg hne⟩
      simp [clusterKid, hne]

lemma BuiltTree.rootKids {d : ℕ} {t : Tree (d + 1)} (hT : BuiltTree b st d t)
    (hroot : st.rootToLeaves = idsOf F) (hcount : ∀ c, (ofCluster F c).length = leavesOf b c) :
    RootKids b d (Inner.kids t) := by
  have hstaged := rootToLeaves_isEmpty hroot hcount
  cases hT with
  | one p =>
    refine .of_range (by simp [rootWidth]) (fun i => ?_) (fun i _ => ?_) fun i _ t _ => True.intro
    · unfold rootLeafKid
      split <;> simp [rootCent]
    · rw [EmptyChild, if_neg (by decide), ← hstaged]
      unfold rootLeafKid
      split
      next h => simp [h]
      next h => simp [h]
  | two p pg =>
    refine .of_range (by simp [rootWidth]) (fun i => ?_) (fun i _ => ?_) fun i _ t ht =>
      clusterKid_full pg ht
    · simp [clusterKid, rootCent]
    · rw [EmptyChild, if_neg (by decide), ← hstaged]
      simp [clusterKid]
  | three p pg pg' =>
    refine .of_range (by simp [rootWidth]) (fun i => ?_) (fun i _ => ?_) fun i _ t ht =>
      groupKid_full pg pg' ht
    · simp [groupKid, rootCent]
    · rw [EmptyChild, if_pos rfl]
      have hmem : (groupKid b st pg pg' i).2 = none ↔ groupMembers b st i = [] := by
        simp [groupKid]
      rw [hmem, groupMembers, List.filter_eq_nil_iff]
      refine ⟨fun h c hc hg => ?_, fun h c hc => ?_⟩
      · by_contra hne
        refine h c (List.mem_range.mpr hc) ?_
        have := mt (hstaged c).mp hne
        simp only [Bool.not_eq_true] at this
        simp [hg, this]
      · intro hcon
        simp only [Bool.and_eq_true, beq_iff_eq, Bool.not_eq_true'] at hcon
        have := (hstaged c).mpr (h c (List.mem_range.mp hc) hcon.1)
        rw [hcon.2] at this
        cases this

/-! ### Routing in the opened file -/

/-- The chosen root entry leads to a node or a leaf. -/
def Leads {α : Type} (kids : List (Label × Option α)) (i : ℕ) : Prop :=
  ∃ k t, kids[i]? = some k ∧ k.2 = some t

section

variable {v : TreeVol s} {H : List (Ext (Obj s))} {dim : ℕ}

lemma descend_iff (eng : Engine) (q : Vec) (h : Holds Obj.image v H) {d n i : ℕ}
    {t : Inner (Tree (d + 1))} (hsub : ∀ e ∈ Tree.exts s dim (d := d + 2) t, e ∈ H)
    (hids : ∀ id ∈ Tree.ids (d := d + 2) t, id < n)
    (hfull : ∀ k ∈ t.kids, ∀ t', k.2 = some t' → Tree.Full t') :
    (∃ id, (do
      let rc ← elemAt (t.kids.map fun k => nodeChild (Tree.entry s dim k)) i
      if rc.isLeaf then do
        let n ← nodeAt v.file (Inner.extent s dim t)
        let c ← elemAt n.children i
        .ok (c.childPage.getD (2 ^ 32 - 1))
      else routeDescend eng v.file q (d + 1) ⟨rc.page, rc.pages⟩ : Except ErrorKind ℕ) = .ok id ∧
        id < n) ↔ Leads t.kids i := by
  cases hk : t.kids[i]? with
  | none =>
    have hget : elemAt (t.kids.map fun k => nodeChild (Tree.entry s dim k)) i = .error .undefined := by
      rw [elemAt, List.getElem?_map, hk]
      rfl
    rw [hget]
    refine iff_of_false (fun ⟨id, hid, _⟩ => by cases hid) fun ⟨k, t', hk', _⟩ => ?_
    rw [hk] at hk'
    cases hk'
  | some k =>
    have hget : elemAt (t.kids.map fun k => nodeChild (Tree.entry s dim k)) i =
        .ok (nodeChild (Tree.entry s dim k)) := by
      rw [elemAt, List.getElem?_map, hk]
      rfl
    have hmem : k ∈ t.kids := List.mem_of_getElem? hk
    rw [hget, ok_bind]
    obtain ⟨a, _ | t'⟩ := k
    · refine iff_of_false (fun ⟨id, hid, _⟩ => routeDescend_none eng v.file q _ _ id hid) ?_
      rintro ⟨k, t', hk', ht'⟩
      rw [hk] at hk'
      cases hk'
      cases ht'
    · obtain ⟨id, hid, hroute⟩ := routeDescend_full eng q h t' (hfull _ hmem t' rfl) fun e he =>
        hsub e (List.mem_cons_of_mem _ (List.mem_flatMap.mpr ⟨_, hmem, he⟩))
      exact iff_of_true ⟨id, hroute, hids id (mem_ids_of_sub hmem rfl hid)⟩ ⟨_, t', hk, rfl⟩

lemma leafBases_get : ∀ (ks : List (Label × Option (Tree 1))) (g : ℕ) {i : ℕ} {a : Label} {n : Tree 1},
    ks[i]? = some (a, some n) → ∃ g', (leafBases g ks)[i]? = some (some g') ∧
      g' + (Inner.kids n).length ≤ g + (leafCentroidsOf ks).length
  | [], _, i, _, _, h => by simp at h
  | (a', none) :: ks, g, i, a, n, h => by
    cases i with
    | zero => simp at h
    | succ i =>
      obtain ⟨g', hg, hle⟩ := leafBases_get ks g (by simpa using h)
      exact ⟨g', by simpa [leafBases] using hg, by simpa [leafCentroidsOf] using hle⟩
  | (a', some n') :: ks, g, i, a, n, h => by
    cases i with
    | zero =>
      simp only [List.getElem?_cons_zero, Option.some.injEq, Prod.mk.injEq] at h
      obtain ⟨rfl, rfl⟩ := h
      refine ⟨g, rfl, ?_⟩
      simp [leafCentroidsOf]
    | succ i =>
      obtain ⟨g', hg, hle⟩ := leafBases_get ks (g + (Inner.kids n').length) (by simpa using h)
      refine ⟨g', by simpa [leafBases] using hg, ?_⟩
      simp only [leafCentroidsOf, List.flatMap_cons, List.length_append, Option.elim_some,
        List.length_map] at hle ⊢
      omega

lemma elemAt_map {α β : Type} (f : α → β) {l : List α} {i : ℕ} {a : α} (h : l[i]? = some a) :
    elemAt (l.map f) i = .ok (f a) := by
  rw [elemAt, List.getElem?_map, h]
  rfl

lemma depth2Pca_iff (eng : Engine) (q : Vec) (h : Holds Obj.image v H) {n : ℕ} {idx : Index s}
    {t : Tree 2} {ds : List (Option ℚ)} (hfile : idx.file = v.file)
    (hchildren : idx.rootChildren = (Inner.kids t).map fun k => nodeChild (Tree.entry s dim k))
    (hds : rootPcaDists eng idx q = .ok ds)
    (hbase : idx.pca.leafBase = leafBases 0 (Inner.kids t))
    (hcents : (leafCentroidsOf (Inner.kids t)).length ≤ idx.pca.leafCentroids.length)
    (hsub : ∀ e ∈ Tree.exts s dim t, e ∈ H) (hids : ∀ id ∈ t.ids, id < n) (hn : 0 < n)
    (hfull : ∀ k ∈ Inner.kids t, ∀ t', k.2 = some t' → Tree.Full t') :
    (∃ id, routeDepth2Pca eng idx q = .ok id ∧ id < n) ↔ Leads (Inner.kids t) (nearest ds) := by
  rw [routeDepth2Pca, hds, ok_bind, hchildren, hfile]
  dsimp only
  generalize nearest ds = i
  cases hk : (Inner.kids t)[i]? with
  | none =>
    rw [elemAt, List.getElem?_map, hk]
    refine iff_of_false (fun ⟨id, hid, _⟩ => by cases hid) fun ⟨k, t', hk', _⟩ => ?_
    rw [hk] at hk'
    cases hk'
  | some k =>
    have hmem : k ∈ Inner.kids t := List.mem_of_getElem? hk
    rw [elemAt_map _ hk, ok_bind]
    obtain ⟨a, _ | m⟩ := k
    · refine iff_of_false (fun ⟨id, hid, _⟩ => ?_) ?_
      · simp only [nodeChild, Tree.entry, nodeAt, readNode, readAs, Option.bind_none] at hid
        cases hid
      · rintro ⟨k, t', hk', ht'⟩
        rw [hk] at hk'
        cases hk'
        cases ht'
    · refine iff_of_true ?_ ⟨_, m, hk, rfl⟩
      have hnode : nodeAt v.file ⟨(nodeChild (Tree.entry s dim (a, some m))).page,
          (nodeChild (Tree.entry s dim (a, some m))).pages⟩ = .ok (Inner.node s dim m) :=
        nodeAt_of_holds h (hsub _ (kid_ext_mem hmem rfl))
      obtain ⟨g, hg, hle⟩ := leafBases_get _ 0 hk
      have hleaf : (nodeChild (Tree.entry s dim (a, some m))).isLeaf = false := rfl
      rw [hleaf, if_neg (by decide), hnode, ok_bind, hbase, hg]
      simp only [Option.join_some]
      rw [ok_bind]
      obtain ⟨hne, hkids⟩ := hfull _ hmem m rfl
      obtain ⟨ds', hds', hlen⟩ : ∃ ds', ((Inner.node s dim m).children.zipIdx.mapM fun x =>
          if x.1.isLeaf = false ∨ x.1.childPage = none then .ok none
          else do
            let cent ← elemAt idx.pca.leafCentroids (g + x.2)
            .ok (eng.pcaDist q cent) : Except ErrorKind (List (Option ℚ))) = .ok ds' ∧
          ds'.length = (Inner.kids m).length := by
        refine ⟨_, mapM_ok (g := fun x => if x.1.isLeaf = false ∨ x.1.childPage = none then none
          else eng.pcaDist q (idx.pca.leafCentroids.getD (g + x.2) [])) fun x hx => ?_, ?_⟩
        · have hlt : g + x.2 < idx.pca.leafCentroids.length := by
            have := List.snd_lt_of_mem_zipIdx hx
            simp only [Inner.node, List.length_map] at this
            omega
          split
          · rfl
          · rw [elemAt_eq hlt, ok_bind, List.getD_eq_getElem _ _ hlt]
        · simp [Inner.node]
      rw [hds', ok_bind]
      split
      · exact ⟨0, rfl, hn⟩
      · have hbest : nearest ds' < (Inner.kids m).length := by
          rw [← hlen]
          refine nearest_lt fun hnil => hne ?_
          rw [← List.length_eq_zero_iff, ← hlen, hnil]
          rfl
        obtain ⟨r, hr, -⟩ := hkids _ (List.getElem_mem hbest)
        have hmem' : (Inner.kids m)[nearest ds'] ∈ Inner.kids m := List.getElem_mem hbest
        have hget : elemAt (Inner.node s dim m).children (nearest ds') =
            .ok (Tree.entry s dim (Inner.kids m)[nearest ds']) :=
          elemAt_map _ (List.getElem?_eq_getElem hbest)
        rw [hget, ok_bind]
        generalize (Inner.kids m)[nearest ds'] = k at hr hmem'
        obtain ⟨a', o⟩ := k
        obtain rfl : o = some r := hr
        exact ⟨LeafRef.id r, rfl, hids _ (mem_ids_of_sub hmem rfl (mem_ids_of_kid hmem' rfl))⟩

end

/-! ### Which builds open and route -/

def buildDepth (b : BuildInput s) : ℕ := finalDepth b ((List.range b.kRoot).map (leavesOf b)).sum

/-- No read of a child leads into an empty one: at depth 1 every cluster has rows, and below a
deeper root every vector has a nearest root child with rows. -/
def Followable (eng : Engine) (b : BuildInput s) : Prop :=
  0 < b.kRoot ∧
    if buildDepth b = 1 then ∀ c < b.kRoot, staged b c ≠ []
    else ∀ v, ¬ EmptyChild b (buildDepth b) (nearest (rootDists eng b (buildDepth b) v))

/-- The file opens, and every vector is routed to a leaf of the table. -/
def OpensAndRoutes (eng : Engine) (file : TreeFile s) : Prop :=
  ∃ idx, openIndex eng file = .ok idx ∧
    ∀ v, ∃ id, routeToLeafId eng idx v = .ok id ∧ id < idx.leafTable.length

lemma openRoot_eq_ok {sb : SuperblockDisk} {mf : Manifest} {table : List LeafTableEntry}
    {pca : PcaTables} {children : List RootChild} (hload : loadRoot file sb.root table = .ok children)
    {bases : List (Option ℕ)}
    (hbases : (if 0 < pca.dims ∧ mf.depth = 2 then openLeafBase file 0 children else .ok []) =
      .ok bases) :
    openRoot file sb mf table pca = .ok (openedIndex file sb mf table pca children bases) := by
  rw [openRoot, hload, ok_bind]
  by_cases hspecial : 0 < pca.dims ∧ mf.depth = 2
  · rw [if_pos hspecial] at hbases
    simp only [if_pos hspecial, hbases, ok_bind]
  · rw [if_neg hspecial] at hbases
    cases hbases
    simp only [if_neg hspecial, ok_bind]

lemma mapM_get {ε α β : Type} {f : α → Except ε β} {l : List α} {bs : List β}
    (h : l.mapM f = .ok bs) : List.Forall₂ (fun a b => f a = .ok b) l bs := by
  induction l generalizing bs with
  | nil =>
    cases h
    exact .nil
  | cons a l ih =>
    rw [List.mapM_cons] at h
    obtain ⟨b, hb, h⟩ := bind_eq_ok.mp h
    obtain ⟨bs', hbs, h⟩ := bind_eq_ok.mp h
    cases h
    exact .cons hb (ih hbs)

lemma rootChild_leaf_spec {dim : ℕ} {table : List LeafTableEntry} {k : Label × Option (Tree 0)}
    {rc : RootChild} (h : rootChild table (Tree.entry s dim k) = .ok rc) :
    k.2.isSome = true ∧ rc.isLeaf = true ∧ rc.centroid = k.1.centroid := by
  obtain ⟨a, _ | r⟩ := k
  · simp [rootChild, Tree.entry] at h
  · simp only [rootChild, Tree.entry, if_true] at h
    split at h
    · cases h
      exact ⟨rfl, rfl, rfl⟩
    · cases h

lemma loadRoot_one {v : TreeVol s} {H : List (Ext (Obj s))} {dim : ℕ} {t : Inner (Tree 0)}
    (h : Holds Obj.image v H) (hmem : Inner.ext s dim t ∈ H) {table : List LeafTableEntry}
    {cs : List RootChild} (hload : loadRoot v.file (Inner.extent s dim t) table = .ok cs) :
    (∀ k ∈ t.kids, k.2.isSome = true) ∧ cs.length = t.kids.length ∧
      ∀ (i : ℕ) (rc : RootChild), cs[i]? = some rc → ∃ k, t.kids[i]? = some k ∧ rc.isLeaf = true ∧
        rc.centroid = k.1.centroid := by
  have hpage : (Inner.extent s dim t).page ≠ none := Option.some_ne_none _
  rw [loadRoot, if_neg hpage, nodeAt_of_holds h hmem, ok_bind] at hload
  have hall := mapM_get hload
  rw [Inner.node, List.forall₂_map_left_iff] at hall
  have hspec := hall.imp fun k rc hrc => rootChild_leaf_spec hrc
  refine ⟨fun k hk => ?_, hspec.length_eq.symm, fun i rc hrc => ?_⟩
  · obtain ⟨i, hi, rfl⟩ := List.mem_iff_getElem.mp hk
    exact (hspec.get hi (by rw [← hspec.length_eq]; exact hi)).1
  · obtain ⟨hi, rfl⟩ := List.getElem?_eq_some_iff.mp hrc
    have hi' : i < t.kids.length := by rw [hspec.length_eq]; exact hi
    exact ⟨_, List.getElem?_eq_getElem hi', (hspec.get hi' hi).2⟩

/-- What `open` reads of a built file once the tables are there: the root `t` of a tree of depth
`d + 1` over the leaves of `table`. -/
structure RootFile (b : BuildInput s) (v : TreeVol s) (sb : SuperblockDisk) (mf : Manifest)
    (table : List LeafTableEntry) (leaves : List LeafMeta) {d : ℕ} (t : Tree (d + 1)) : Prop where
  holds : ∃ H, Holds Obj.image v H ∧ ∀ e ∈ t.exts s mf.dim, e ∈ H
  root : sb.root = Inner.extent s mf.dim t
  depth : mf.depth = d + 1
  small : d + 1 ≤ 3
  kids : RootKids b d (Inner.kids t)
  ids : ∀ id ∈ t.ids, id < table.length
  leaves : leaves.length = table.length
  cents : (leafCentroidsOf t.clusters).length ≤ table.length
  deep : 0 < d → 0 < table.length

/-- The end of `open` succeeds and every vector is routed. -/
def RoutesFrom (eng : Engine) (file : TreeFile s) (sb : SuperblockDisk) (mf : Manifest)
    (table : List LeafTableEntry) (pca : PcaTables) : Prop :=
  ∃ idx, openRoot file sb mf table pca = .ok idx ∧
    ∀ q, ∃ id, routeToLeafId eng idx q = .ok id ∧ id < idx.leafTable.length

namespace RootFile

variable {eng : Engine} {v : TreeVol s} {mf : Manifest} {table : List LeafTableEntry}
  {leaves : List LeafMeta}

lemma rootOpen {depth : ℕ} (leaves : List LeafMeta) {children : List RootChild}
    (bases : List (Option ℕ)) (hwidth : children.length = rootWidth b depth)
    (hcent : ∀ (i : ℕ) (rc : RootChild), children[i]? = some rc → rc.centroid = rootCent b depth i) :
    RootOpen b depth
      (openedIndex file sb mf table (builtPca b depth leaves) children bases) := by
  refine ⟨hwidth, hcent, ?_, fun m hm => ?_⟩
  · unfold openedIndex builtPca
    cases b.routingPca <;> rfl
  · simp [openedIndex, builtPca, hm, PcaModel.tables]

lemma route_one (eng : Engine) {t : Tree 1} (hR : RootFile b v sb mf table leaves t)
    (hpca : PcaShaped b) {cs : List RootChild} (hcs : loadRoot v.file sb.root table = .ok cs) :
    ∃ idx, openRoot v.file sb mf table (builtPca b 1 leaves) = .ok idx ∧ idx.leafTable = table ∧
      ∀ q, (∃ id, routeToLeafId eng idx q = .ok id ∧ id < table.length) ↔ 0 < b.kRoot := by
  obtain ⟨H, hH, hsub⟩ := hR.holds
  have hmem : Inner.ext s mf.dim t ∈ H := hsub _ List.mem_cons_self
  have hwidth : (Inner.kids t).length = b.kRoot := hR.kids.width
  obtain ⟨hsome, hlen, hcs'⟩ := loadRoot_one hH hmem (hR.root ▸ hcs)
  have hdepth : ¬ mf.depth = 2 := by
    have := hR.depth
    omega
  refine ⟨_, openRoot_eq_ok hcs (if_neg fun hcon => hdepth hcon.2), rfl, fun q => ?_⟩
  have hopen : RootOpen b 1 (openedIndex v.file sb mf table (builtPca b 1 leaves) cs []) := by
    refine rootOpen leaves [] (hlen.trans hwidth) fun i rc hrc => ?_
    obtain ⟨k, hk, -, hcent⟩ := hcs' i rc hrc
    rw [hcent]
    exact hR.kids.centroid i k hk
  rw [hopen.route_eq eng hpca (by omega) fun hcon => hdepth hcon.2]
  have hnlen : (rootDists eng b 1 q).length = rootWidth b 1 :=
    length_rootDists eng hpca (by omega) q
  have hone : rootWidth b 1 = b.kRoot := rfl
  dsimp only [openedIndex]
  constructor
  · rintro ⟨id, hid, -⟩
    by_contra hzero
    have hnil : cs = [] := List.length_eq_zero_iff.mp (by omega)
    rw [hnil] at hid
    cases hid
  · intro hpos
    have hbest : nearest (rootDists eng b 1 q) < (Inner.kids t).length := by
      rw [hwidth, ← hone, ← hnlen]
      refine nearest_lt fun hnil => ?_
      rw [hnil] at hnlen
      simp only [List.length_nil] at hnlen
      omega
    have hbest' : nearest (rootDists eng b 1 q) < cs.length := hlen ▸ hbest
    generalize nearest (rootDists eng b 1 q) = i at hbest hbest'
    obtain ⟨k, hk, hleaf, -⟩ := hcs' i _ (List.getElem?_eq_getElem hbest')
    obtain ⟨r, hr⟩ := Option.isSome_iff_exists.mp (hsome k (List.mem_of_getElem? hk))
    have hnode := nodeAt_of_holds hH hmem
    rw [← hR.root] at hnode
    have hget : elemAt (Inner.node s mf.dim t).children i = .ok (Tree.entry s mf.dim k) :=
      elemAt_map _ hk
    rw [elemAt_eq hbest', ok_bind, hleaf, if_pos rfl, hnode, ok_bind, hget, ok_bind]
    refine ⟨LeafRef.id r, ?_, hR.ids _ (mem_ids_of_kid (List.mem_of_getElem? hk) hr)⟩
    obtain ⟨a, o⟩ := k
    obtain rfl : o = some r := hr
    rfl

lemma routes_one {t : Tree 1} (hR : RootFile b v sb mf table leaves t) (hpca : PcaShaped b) :
    RoutesFrom eng v.file sb mf table (builtPca b 1 leaves) ↔
      0 < b.kRoot ∧ ∀ k ∈ Inner.kids t, k.2.isSome = true := by
  obtain ⟨H, hH, hsub⟩ := hR.holds
  have hmem : Inner.ext s mf.dim t ∈ H := hsub _ List.mem_cons_self
  constructor
  · rintro ⟨idx, hidx, hroute⟩
    have hidx' := hidx
    rw [openRoot] at hidx
    obtain ⟨cs, hcs, -⟩ := bind_eq_ok.mp hidx
    obtain ⟨idx', hidx'', htable, hiff⟩ := hR.route_one eng hpca hcs
    rw [hidx'] at hidx''
    cases hidx''
    rw [htable] at hroute
    rw [hR.root] at hcs
    exact ⟨(hiff []).mp (hroute []), (loadRoot_one hH hmem hcs).1⟩
  · rintro ⟨hpos, hsome⟩
    obtain ⟨cs, hcs, -⟩ := loadRoot_of_holds hH hmem table (fun _ => hsome) hR.ids
    rw [← hR.root] at hcs
    obtain ⟨idx, hidx, htable, hiff⟩ := hR.route_one eng hpca hcs
    exact ⟨idx, hidx, fun q => htable ▸ (hiff q).mpr hpos⟩

lemma routes_deep {d : ℕ} {t : Tree (d + 2)} (hR : RootFile b v sb mf table leaves t)
    (hpca : PcaShaped b) :
    RoutesFrom eng v.file sb mf table (builtPca b (d + 2) leaves) ↔
      ∀ q, Leads (Inner.kids t) (nearest (rootDists eng b (d + 2) q)) := by
  obtain ⟨H, hH, hsub⟩ := hR.holds
  have hmem : Inner.ext s mf.dim t ∈ H := hsub _ List.mem_cons_self
  have hdepth := hR.depth
  have hsmall := hR.small
  obtain ⟨cs, hcs, hcs'⟩ := loadRoot_of_holds hH hmem table (fun h => by omega) hR.ids
  rw [← hR.root] at hcs
  obtain rfl := hcs' (by omega)
  set cs := (Inner.kids t).map fun k => nodeChild (Tree.entry s mf.dim k) with hcsdef
  obtain ⟨bases, hbases, hbases'⟩ : ∃ bases, (if 0 < (builtPca b (d + 2) leaves).dims ∧ mf.depth = 2
      then openLeafBase v.file 0 cs else .ok []) = .ok bases ∧
      (0 < (builtPca b (d + 2) leaves).dims → mf.depth = 2 → bases = leafBases 0 t.clusters) := by
    by_cases hspecial : 0 < (builtPca b (d + 2) leaves).dims ∧ mf.depth = 2
    · obtain rfl : d = 0 := by omega
      rw [if_pos hspecial]
      exact ⟨_, openLeafBase_of_holds hH _ 0 fun k hk n hn => hsub _ (kid_ext_mem hk hn),
        fun _ _ => rfl⟩
    · rw [if_neg hspecial]
      exact ⟨[], rfl, fun h₁ h₂ => absurd ⟨h₁, h₂⟩ hspecial⟩
  have hidx : openRoot v.file sb mf table (builtPca b (d + 2) leaves) =
      .ok (openedIndex v.file sb mf table (builtPca b (d + 2) leaves) cs bases) :=
    openRoot_eq_ok hcs hbases
  have hopen : RootOpen b (d + 2)
      (openedIndex v.file sb mf table (builtPca b (d + 2) leaves) cs bases) :=
    rootOpen leaves bases (by simp [hcsdef, hR.kids.width])
    fun i rc hrc => by
      rw [hcsdef, List.getElem?_map, Option.map_eq_some_iff] at hrc
      obtain ⟨k, hk, rfl⟩ := hrc
      rw [← hR.kids.centroid i k hk]
      obtain ⟨a, _ | n⟩ := k <;> rfl
  set idx := openedIndex v.file sb mf table (builtPca b (d + 2) leaves) cs bases with hidxdef
  have hroute : ∀ q, (∃ id, routeToLeafId eng idx q = .ok id ∧ id < table.length) ↔
      Leads (Inner.kids t) (nearest (rootDists eng b (d + 2) q)) := by
    intro q
    by_cases hspecial : 0 < idx.pca.dims ∧ idx.manifest.depth = 2
    · have hmf : mf.depth = 2 := hspecial.2
      obtain rfl : d = 0 := by omega
      have hdists := hopen.pcaDists eng hpca (by omega) hspecial.1 q
      rw [routeToLeafId, if_pos hspecial]
      obtain ⟨m, hm⟩ := Option.isSome_iff_exists.mp (hopen.dims_pos.mp hspecial.1)
      refine depth2Pca_iff eng _ hH rfl rfl hdists (hbases' hspecial.1 hspecial.2) ?_ hsub hR.ids
        (hR.deep (by omega)) hR.kids.full
      have hcents : (builtPca b (0 + 2) leaves).leafCentroids.length = table.length := by
        simp [builtPca, hm, PcaModel.tables, hR.leaves]
      exact hR.cents.trans hcents.ge
    · rw [hopen.route_eq eng hpca (by omega) hspecial]
      rw [hidxdef]
      dsimp only [openedIndex]
      rw [hdepth, hR.root]
      exact descend_iff eng q hH hsub hR.ids hR.kids.full
  constructor
  · rintro ⟨idx', hidx', hall⟩ q
    rw [hidx] at hidx'
    cases hidx'
    exact (hroute q).mp (hall q)
  · exact fun hleads => ⟨_, hidx, fun q => (hroute q).mpr (hleads q)⟩

lemma leads_iff {d : ℕ} {t : Tree (d + 1)} (hR : RootFile b v sb mf table leaves t) {i : ℕ}
    (hi : i < rootWidth b (d + 1)) : Leads (Inner.kids t) i ↔ ¬ EmptyChild b (d + 1) i := by
  rw [← hR.kids.width] at hi
  have hk : (Inner.kids t)[i]? = some (Inner.kids t)[i] := List.getElem?_eq_getElem hi
  rw [← hR.kids.empty i _ hk, Leads]
  constructor
  · rintro ⟨k, t', hk', ht'⟩ hnone
    rw [hk] at hk'
    cases hk'
    rw [hnone] at ht'
    cases ht'
  · intro hne
    obtain ⟨t', ht'⟩ := Option.ne_none_iff_exists'.mp hne
    exact ⟨_, t', hk, ht'⟩

lemma routes_iff {d : ℕ} {t : Tree (d + 1)} (hR : RootFile b v sb mf table leaves t)
    (hpca : PcaShaped b) (hwidth : 0 < d → 0 < b.kRoot ∧ 0 < rootWidth b (d + 1)) :
    RoutesFrom eng v.file sb mf table (builtPca b (d + 1) leaves) ↔
      0 < b.kRoot ∧
        if d + 1 = 1 then ∀ i < b.kRoot, staged b i ≠ []
        else ∀ q, ¬ EmptyChild b (d + 1) (nearest (rootDists eng b (d + 1) q)) := by
  cases d with
  | zero =>
    rw [hR.routes_one hpca, if_pos rfl]
    refine and_congr_right fun _ => ⟨fun h i hi => ?_, fun h k hk => ?_⟩
    · obtain ⟨t', ht'⟩ := Option.isSome_iff_exists.mp
        (h _ (List.getElem_mem (by rw [hR.kids.width]; exact hi)))
      exact (hR.leads_iff hi).mp ⟨_, t', List.getElem?_eq_getElem _, ht'⟩
    · obtain ⟨i, hi⟩ := List.mem_iff_getElem?.mp hk
      have hlt : i < b.kRoot := by
        have := hR.kids.width
        rw [← show rootWidth b 1 = b.kRoot from rfl, ← this]
        exact (List.getElem?_eq_some_iff.mp hi).1
      rw [Option.isSome_iff_ne_none, ne_eq, hR.kids.empty i k hi]
      exact h i hlt
  | succ d =>
    obtain ⟨hroot, hpos⟩ := hwidth (Nat.succ_pos d)
    rw [hR.routes_deep hpca, if_neg (by omega), and_iff_right hroot]
    refine forall_congr' fun q => hR.leads_iff ?_
    have hlen : (rootDists eng b (d + 1 + 1) q).length = rootWidth b (d + 1 + 1) :=
      length_rootDists eng hpca hR.small q
    rw [← hlen]
    refine nearest_lt fun hnil => ?_
    rw [hnil, List.length_nil] at hlen
    omega

end RootFile

lemma clusterCentroids_length (pg : ℕ → ℕ) (n : ℕ) :
    (leafCentroidsOf ((List.range n).map (clusterKid b st pg))).length =
      ((List.range n).flatMap st.rootToLeaves).length := by
  rw [leafCentroidsOf, List.flatMap_map, List.length_flatMap, List.length_flatMap]
  refine congrArg List.sum (List.map_congr_left fun i _ => ?_)
  unfold clusterKid
  cases he : (st.rootToLeaves i).isEmpty with
  | true => simp [List.isEmpty_iff.mp he]
  | false =>
    change (((st.rootToLeaves i).map (leafKid st)).map fun k => k.1.centroid).length = _
    simp

lemma BuiltTree.length_cents {d : ℕ} {t : Tree (d + 1)} (hT : BuiltTree b st d t)
    (hroot : st.rootToLeaves = idsOf F)
    (hperm : ((List.range b.kRoot).flatMap (idsOf F)).Perm (List.range F.length)) :
    (leafCentroidsOf t.clusters).length ≤ F.length := by
  have hlen := hperm.length_eq
  rw [List.length_range] at hlen
  cases hT with
  | one p => exact Nat.zero_le _
  | two p pg => exact ((clusterCentroids_length pg b.kRoot).trans (by rw [hroot, hlen])).le
  | three p pg pg' => exact Nat.zero_le _

/-- **Every built file opens and routes every vector** exactly when no empty child is followed. -/
theorem build_opens_and_routes_iff (eng : Engine) (b : BuildInput s) (old file : TreeFile s)
    (h : build b old = .ok file) (heng : eng.coder = b.coder) (hpca : PcaShaped b) :
    OpensAndRoutes eng file ↔ Followable eng b := by
  obtain ⟨st, F, sb, c, hE, hrows, hcount, hB, hC⟩ := build_spec h
  have hperm := idsOf_perm hE.clusters
  have hroot : st.rootToLeaves = idsOf F := funext hE.ids
  have hlen : st.leaves.length = F.length := by rw [hE.leaves, List.length_map]
  have htable : c.table.length = F.length := by simp [Contents.table, hB.leaves]
  have hdepth : buildDepth b = c.below + 1 := by
    rw [buildDepth, sum_leavesOf hperm hcount, hB.depth]
  have hcases := finalDepth_cases b F.length
  have hplanned := b.depth_planned
  obtain ⟨a, ha⟩ := hC.holds
  have hbelow := hB.depth
  have hR : RootFile b ⟨file, a⟩ sb c.manifest c.table st.leaves c.tree :=
    { holds := ⟨c.heap, ha, fun e he => List.mem_append_left _ (List.mem_append_left _ he)⟩
      root := hC.named.root
      depth := hC.sound.depth
      small := by omega
      kids := hB.tree.rootKids hroot hcount
      ids := fun id hid => by
        obtain ⟨i, hi⟩ := hB.tree.ids_mem hid
        rw [hroot] at hi
        rw [htable]
        exact lt_of_mem_idsOf hi
      leaves := hlen.trans htable.symm
      cents := htable ▸ hB.tree.length_cents hroot hperm
      deep := fun hd => by omega }
  have hwidth : 0 < c.below → 0 < b.kRoot ∧ 0 < rootWidth b (c.below + 1) := by
    intro hd
    obtain ⟨f, hf⟩ := List.exists_mem_of_length_pos (show 0 < F.length by omega)
    have hpos : 0 < b.kRoot := (Nat.zero_le _).trans_lt (hE.clusters f hf)
    refine ⟨hpos, ?_⟩
    unfold rootWidth
    split
    next h3 => exact kL1_pos hE.clusters (hbelow ▸ h3)
    next => exact hpos
  have hopen : OpensAndRoutes eng file ↔
      RoutesFrom eng file sb c.manifest c.table (builtPca b (c.below + 1) st.leaves) := by
    rw [OpensAndRoutes, openIndex_built hC hB heng hpca hlen hE.clusters, ← hB.depth, RoutesFrom]
  rw [hopen, Followable, hdepth]
  exact hR.routes_iff hpca hwidth

lemma lineEngine_tomlBytes_pos : Manifest → 0 < 600 := fun _ => by decide

def lineEngine (s : Schema) : Engine where
  coder := lineCoder s.summarySize
  dist v c := some ((v.headD 0 - c.headD 0) ^ 2)
  pcaDist v c := some ((v.headD 0 - c.headD 0) ^ 2)
  tomlBytes _ := 600
  tomlBytes_pos := lineEngine_tomlBytes_pos
  mapOrder ks := ks
  mapOrder_perm _ := .refl _

/-- One row in each of two clusters. -/
theorem build_opens_and_routes_line :
    OpensAndRoutes (lineEngine plainSchema)
      (builtFile (lineBuild plainSchema 2 0 [plainRow 7 0, plainRow 8 1])) := by
  refine (build_opens_and_routes_iff (lineEngine plainSchema)
    (lineBuild plainSchema 2 0 [plainRow 7 0, plainRow 8 1]) (emptyFile _) _ ?_ rfl ?_).mpr ⟨?_, ?_⟩
  · exact build_eq_builtFile (by decide +kernel)
  · intro m hm
    cases hm
  · decide
  · rw [if_pos (by decide +kernel)]
    decide +kernel

/-- One row and two clusters: the entry of the empty cluster is looked up in the leaf table. -/
theorem build_with_empty_cluster_not_opened :
    ∃ file, build (lineBuild plainSchema 2 0 [plainRow 7 0]) (emptyFile _) = .ok file ∧
      openIndex (lineEngine plainSchema) file = .error .undefined ∧
      ¬ OpensAndRoutes (lineEngine plainSchema) file := by
  have hopen : (openIndex (lineEngine plainSchema)
      (builtFile (lineBuild plainSchema 2 0 [plainRow 7 0]))).map (fun _ => ()) = .error .undefined := by
    decide +kernel
  have herr : openIndex (lineEngine plainSchema)
      (builtFile (lineBuild plainSchema 2 0 [plainRow 7 0])) = .error .undefined := by
    cases h : openIndex (lineEngine plainSchema)
        (builtFile (lineBuild plainSchema 2 0 [plainRow 7 0])) with
    | ok idx =>
      rw [h] at hopen
      cases hopen
    | error e =>
      rw [h] at hopen
      exact congrArg _ (Except.error.inj hopen)
  refine ⟨_, build_eq_builtFile (by decide +kernel), herr, ?_⟩
  rintro ⟨idx, hidx, -⟩
  rw [herr] at hidx
  cases hidx

end SextantTree
