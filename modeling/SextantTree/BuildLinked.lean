import SextantTree.BuildSpec

/-!
Which leaves of a build the tree reaches. A tree with nodes below the root reaches every leaf
once. The late switch to depth 1 is taken on the number of leaves alone and keeps the first
leaf of each cluster, so it is harmless exactly when no cluster has a second one.
-/

namespace SextantTree

open Pages Alloc Heap FilterHash

variable {s : Schema} {b : BuildInput s} {st : Emission s} {F : List (Flushed s)}

/-! ### The leaves a built tree reaches -/

lemma ids_rootLeafKid (c : ℕ) :
    (rootLeafKid b st c).2.elim [] Tree.ids = (st.rootToLeaves c).take 1 := by
  unfold rootLeafKid
  split
  next h => rw [h]; rfl
  next h => rw [h]; rfl

lemma ids_clusterKid (pg : ℕ → ℕ) (c : ℕ) :
    (clusterKid b st pg c).2.elim [] Tree.ids = st.rootToLeaves c := by
  unfold clusterKid
  split
  next h => exact (List.isEmpty_iff.mp h).symm
  · have hleaf : ∀ li, (leafKid st li).2.elim [] Tree.ids = [li] := fun _ => rfl
    calc Tree.ids (d := 1) (clusterNode st pg c)
        = (st.rootToLeaves c).flatMap fun li => (leafKid st li).2.elim [] Tree.ids := by
          rw [Tree.ids_succ, clusterNode, List.flatMap_map]
      _ = st.rootToLeaves c := by simp [hleaf]

lemma ids_groupKid (pg pg' : ℕ → ℕ) (g : ℕ) :
    (groupKid b st pg pg' g).2.elim [] Tree.ids =
      (groupMembers b st g).flatMap st.rootToLeaves := by
  unfold groupKid
  split
  next h => rw [List.isEmpty_iff.mp h]; rfl
  · calc Tree.ids (d := 2) (groupNode b st pg pg' g)
        = (groupMembers b st g).flatMap fun c => (clusterKid b st pg c).2.elim [] Tree.ids := by
          rw [Tree.ids_succ, groupNode, List.flatMap_map]
      _ = (groupMembers b st g).flatMap st.rootToLeaves := by simp only [ids_clusterKid]

lemma ids_one (p : ℕ) :
    Tree.ids (d := 1) (⟨p, (List.range b.kRoot).map (rootLeafKid b st)⟩ : Inner (Tree 0)) =
      (List.range b.kRoot).flatMap fun c => (st.rootToLeaves c).take 1 := by
  rw [Tree.ids_succ, List.flatMap_map]
  simp only [ids_rootLeafKid]

lemma ids_deep {d : ℕ} {t : Tree (d + 1)} (h : BuiltTree b st d t) (hd : d ≠ 0)
    (hg : d = 2 → ∀ c < b.kRoot, b.superGroup c < b.kL1) :
    t.ids.Perm ((List.range b.kRoot).flatMap st.rootToLeaves) := by
  cases h with
  | one p => exact absurd rfl hd
  | two p pg =>
    rw [Tree.ids_succ, List.flatMap_map]
    simp only [ids_clusterKid]
    exact .refl _
  | three p pg pg' =>
    rw [Tree.ids_succ, List.flatMap_map]
    simp only [ids_groupKid]
    rw [← List.flatMap_assoc]
    refine .trans ((groupMembers_perm (hg rfl)).flatMap_right _) ?_
    -- a cluster without a node has no leaves either
    have hdrop : ∀ l : List ℕ, (l.filter fun c => !(st.rootToLeaves c).isEmpty).flatMap
        st.rootToLeaves = l.flatMap st.rootToLeaves := by
      intro l
      induction l with
      | nil => rfl
      | cons c l ih =>
        rw [List.filter_cons, List.flatMap_cons]
        split
        · rw [List.flatMap_cons, ih]
        next hc =>
          have : st.rootToLeaves c = [] := by simpa using hc
          rw [ih, this, List.nil_append]
    rw [hdrop]

lemma BuiltTree.ids_mem {d : ℕ} {t : Tree (d + 1)} (h : BuiltTree b st d t) {id : ℕ}
    (hid : id ∈ t.ids) : ∃ c, id ∈ st.rootToLeaves c := by
  cases h with
  | one p =>
    rw [ids_one, List.mem_flatMap] at hid
    obtain ⟨c, -, hc⟩ := hid
    exact ⟨c, List.mem_of_mem_take hc⟩
  | two p pg =>
    rw [Tree.ids_succ, List.flatMap_map, List.mem_flatMap] at hid
    obtain ⟨c, -, hc⟩ := hid
    rw [ids_clusterKid] at hc
    exact ⟨c, hc⟩
  | three p pg pg' =>
    rw [Tree.ids_succ, List.flatMap_map, List.mem_flatMap] at hid
    obtain ⟨g, -, hg⟩ := hid
    rw [ids_groupKid, List.mem_flatMap] at hg
    obtain ⟨c, -, hc⟩ := hg
    exact ⟨c, hc⟩

lemma lt_of_mem_idsOf {c id : ℕ} (h : id ∈ idsOf F c) : id < F.length := by
  simp only [idsOf, List.mem_map, List.mem_filter] at h
  obtain ⟨x, ⟨hx, -⟩, rfl⟩ := h
  have := List.snd_lt_of_mem_zipIdx hx
  omega

lemma count_take_one_iff {n k : ℕ} {f : ℕ → List ℕ}
    (h : ((List.range k).flatMap f).Perm (List.range n)) :
    (∀ id < n, ((List.range k).flatMap fun c => (f c).take 1).count id = 1) ↔
      ∀ c < k, (f c).length ≤ 1 := by
  constructor
  · intro hcount c hc
    have hle : (List.range n).Subperm ((List.range k).flatMap fun c => (f c).take 1) := by
      rw [List.subperm_ext_iff]
      intro id hid
      rw [hcount id (List.mem_range.mp hid)]
      exact List.nodup_iff_count_le_one.mp List.nodup_range id
    have hlen := hle.length_le
    rw [← h.length_eq] at hlen
    simp only [List.length_flatMap, List.length_take] at hlen
    by_contra hlong
    have hlt : ((List.range k).map fun c => min 1 (f c).length).sum <
        ((List.range k).map fun c => (f c).length).sum :=
      List.sum_lt_sum _ _ (fun i _ => Nat.min_le_right _ _)
        ⟨c, List.mem_range.mpr hc, by omega⟩
    omega
  · intro hone id hid
    have hsame : ((List.range k).flatMap fun c => (f c).take 1) = (List.range k).flatMap f :=
      List.flatMap_congr fun c hc => List.take_of_length_le (hone c (List.mem_range.mp hc))
    rw [hsame, h.count_eq]
    exact List.count_eq_one_of_mem List.nodup_range (List.mem_range.mpr hid)

/-! ### Rows -/

lemma rowIds_stored (f : Flushed s) :
    (f.stored b).leaf.rows.map LeafRow.rowId = f.rows.map BuildRow.rowId := by
  have hlen : (b.coder.flushLeaf (f.rows.map (·.vector))).2.length = f.rows.length := by
    rw [b.coder.length_flushLeaf, List.length_map]
  simp only [Flushed.stored, flushedLeaf]
  generalize (b.coder.flushLeaf (f.rows.map (·.vector))).2 = codes at hlen ⊢
  induction codes generalizing f with
  | nil =>
    have : f.rows = [] := List.length_eq_zero_iff.mp hlen.symm
    simp [this]
  | cons x xs ih =>
    obtain ⟨r, rs, hr⟩ : ∃ r rs, f.rows = r :: rs :=
      List.exists_cons_of_length_pos (by rw [← hlen]; simp)
    have := ih { f with rows := rs } (by simpa [hr] using hlen)
    simpa [hr] using this

lemma exists_stored_iff (hrows : ∀ c, (ofCluster F c).flatMap Flushed.rows = staged b c)
    (id : RowId) :
    (∃ f ∈ F, id ∈ (f.stored b).leaf.rows.map LeafRow.rowId) ↔
      ∃ r ∈ b.corpus, r.rowId = id ∧ b.targets r.vector ≠ [] := by
  have hstaged : ∀ c r, r ∈ staged b c ↔ c < b.kRoot ∧ r ∈ b.corpus ∧ b.isTarget r.vector c = true := by
    intro c r
    unfold staged
    split <;> simp_all
  constructor
  · rintro ⟨f, hf, hid⟩
    rw [rowIds_stored, List.mem_map] at hid
    obtain ⟨r, hr, rfl⟩ := hid
    have hmem : r ∈ staged b f.cluster := by
      rw [← hrows]
      exact List.mem_flatMap.mpr ⟨f, by simp [ofCluster, hf], hr⟩
    obtain ⟨hc, hcorp, ht⟩ := (hstaged _ _).mp hmem
    refine ⟨r, hcorp, rfl, List.ne_nil_of_mem (a := f.cluster) ?_⟩
    simp [BuildInput.targets, hc, ht]
  · rintro ⟨r, hr, rfl, hne⟩
    obtain ⟨c, hc⟩ := List.exists_mem_of_ne_nil _ hne
    simp only [BuildInput.targets, List.mem_filter, List.mem_range] at hc
    have hmem : r ∈ staged b c := (hstaged c r).mpr ⟨hc.1, hr, hc.2⟩
    rw [← hrows, List.mem_flatMap] at hmem
    obtain ⟨f, hf, hrf⟩ := hmem
    refine ⟨f, List.mem_of_mem_filter hf, ?_⟩
    rw [rowIds_stored]
    exact List.mem_map_of_mem hrf

/-! ### The whole file -/

/-- Every entry of the leaf table is behind exactly one leaf entry below the root, and every
input row id is in a leaf behind such an entry. -/
def LosesNoRow (b : BuildInput s) (file : TreeFile s) : Prop :=
  ∃ table refs leaves, fileLeafTable file = some table ∧ fileRefs file = some refs ∧
    reachableLeaves file = some leaves ∧
    (∀ id < table.length, (refs.map Prod.snd).count id = 1) ∧
    ∀ r ∈ b.corpus, ∃ l ∈ leaves, r.rowId ∈ l.rows.map LeafRow.rowId

/-- The switch to depth 1 drops no leaf: it is not taken, or no cluster fills a second leaf. -/
def OneLeafEach (b : BuildInput s) : Prop :=
  b.kRoot < ((List.range b.kRoot).map (leavesOf b)).sum ∨
    ∀ c < b.kRoot, (staged b c).length ≤ b.leafCap

/-- Every row id has a row with a distance that is a number, so a target cluster. -/
def EveryIdStaged (b : BuildInput s) : Prop :=
  ∀ r ∈ b.corpus, ∃ r' ∈ b.corpus, r'.rowId = r.rowId ∧ b.targets r'.vector ≠ []

lemma leavesOf_le_one_iff (c : ℕ) : leavesOf b c ≤ 1 ↔ (staged b c).length ≤ b.leafCap := by
  have hpos := b.leafCap_pos
  unfold leavesOf
  rw [← Nat.lt_succ_iff, Nat.div_lt_iff_lt_mul hpos]
  omega

lemma sum_leavesOf (hperm : ((List.range b.kRoot).flatMap (idsOf F)).Perm (List.range F.length))
    (hcount : ∀ c, (ofCluster F c).length = leavesOf b c) :
    ((List.range b.kRoot).map (leavesOf b)).sum = F.length := by
  have hlen := hperm.length_eq
  rw [List.length_flatMap, List.length_range] at hlen
  rw [← hlen]
  exact congrArg List.sum (List.map_congr_left fun c _ => by rw [length_idsOf, hcount])

lemma finalDepth_cases (b : BuildInput s) (n : ℕ) :
    finalDepth b n = 1 ∧ n ≤ b.kRoot ∨ finalDepth b n = b.depth ∧ b.kRoot < n := by
  unfold finalDepth
  split
  · exact .inl ⟨rfl, ‹_›⟩
  · exact .inr ⟨rfl, by omega⟩

lemma finalDepth_eq_one_iff {n : ℕ} : finalDepth b n = 1 ↔ n ≤ b.kRoot := by
  have := b.depth_planned
  unfold finalDepth
  split <;> omega

lemma BuiltTree.linked_iff {d : ℕ} {t : Tree (d + 1)} (hT : BuiltTree b st d t)
    (hd : d + 1 = finalDepth b F.length) (hroot : st.rootToLeaves = idsOf F)
    (hperm : ((List.range b.kRoot).flatMap (idsOf F)).Perm (List.range F.length))
    (hcount : ∀ c, (ofCluster F c).length = leavesOf b c) :
    (∀ id < F.length, t.ids.count id = 1) ↔ OneLeafEach b := by
  have hsum := sum_leavesOf hperm hcount
  by_cases h0 : d = 0
  · subst h0
    have hle : F.length ≤ b.kRoot := finalDepth_eq_one_iff.mp hd.symm
    cases hT with
    | one p =>
      rw [ids_one, hroot, count_take_one_iff hperm, OneLeafEach, hsum]
      simp only [Nat.not_lt.mpr hle, false_or, length_idsOf, hcount, leavesOf_le_one_iff]
  · have hlt : b.kRoot < F.length := by
      by_contra hle
      have := finalDepth_eq_one_iff.mpr (Nat.not_lt.mp hle)
      omega
    have hids : t.ids.Perm (List.range F.length) := by
      refine .trans (ids_deep hT h0 fun h2 => b.superGroup_lt ?_) (hroot ▸ hperm)
      rw [finalDepth, if_neg (by omega)] at hd
      omega
    refine iff_of_true (fun id hid => ?_) (.inl (by rw [hsum]; exact hlt))
    rw [hids.count_eq]
    exact List.count_eq_one_of_mem List.nodup_range (List.mem_range.mpr hid)

lemma Committed.reachableLeaves_eq {file : TreeFile s} {sb : SuperblockDisk} {c : Contents s}
    (h : Committed file sb c) (hids : ∀ id ∈ c.tree.ids, id < c.leaves.length) :
    ∃ leaves, reachableLeaves file = some leaves ∧
      ∀ l, l ∈ leaves ↔ ∃ id ∈ c.tree.ids, ∃ x, c.leaves[id]? = some x ∧ x.leaf = l := by
  have hread : ∀ refs : List (List Summary × ℕ), (∀ y ∈ refs, y.2 < c.leaves.length) →
      ∃ leaves, refs.mapM (fun y => leafAt file y.2) = some leaves ∧
        ∀ l, l ∈ leaves ↔ ∃ y ∈ refs, ∃ x, c.leaves[y.2]? = some x ∧ x.leaf = l := by
    intro refs hlt
    induction refs with
    | nil => exact ⟨[], rfl, by simp⟩
    | cons y refs ih =>
      obtain ⟨leaves, hl, hmem⟩ := ih fun z hz => hlt z (List.mem_cons_of_mem _ hz)
      have hy := hlt y List.mem_cons_self
      have hget : c.leaves[y.2]? = some c.leaves[y.2] := List.getElem?_eq_getElem hy
      refine ⟨c.leaves[y.2].leaf :: leaves, ?_, fun l => ?_⟩
      · rw [List.mapM_cons, h.leafAt_eq hget, hl]
        rfl
      · simp only [List.mem_cons, exists_eq_or_imp, hmem, hget, Option.some.injEq, exists_eq_left']
        tauto
  obtain ⟨leaves, hl, hmem⟩ := hread c.tree.refs fun y hy =>
    hids y.2 (List.mem_map_of_mem hy)
  refine ⟨leaves, ?_, fun l => ?_⟩
  · simp [reachableLeaves, h.fileRefs_eq, hl]
  · rw [hmem]
    constructor
    · rintro ⟨y, hy, hx⟩
      exact ⟨y.2, List.mem_map_of_mem hy, hx⟩
    · rintro ⟨id, hid, hx⟩
      obtain ⟨y, hy, rfl⟩ := List.mem_map.mp hid
      exact ⟨y, hy, hx⟩

/-- **A build loses no row** exactly when every row id is staged and the switch to depth 1
drops no leaf. -/
theorem build_loses_no_row_iff (b : BuildInput s) (old file : TreeFile s)
    (h : build b old = .ok file) :
    LosesNoRow b file ↔ EveryIdStaged b ∧ OneLeafEach b := by
  obtain ⟨st, F, sb, c, hE, hrows, hcount, hB, hC⟩ := build_spec h
  have hperm := idsOf_perm hE.clusters
  have hroot : st.rootToLeaves = idsOf F := funext hE.ids
  have htable : c.table.length = F.length := by simp [Contents.table, hB.leaves]
  have hlinked := hB.tree.linked_iff hB.depth hroot hperm hcount
  have hvalid : ∀ id ∈ c.tree.ids, id < c.leaves.length := by
    intro id hid
    obtain ⟨i, hi⟩ := hB.tree.ids_mem hid
    rw [hroot] at hi
    rw [hB.leaves, List.length_map]
    exact lt_of_mem_idsOf hi
  have hstored : ∀ {i : ℕ} {x : StoredLeaf s}, c.leaves[i]? = some x ↔
      ∃ f, F[i]? = some f ∧ f.stored b = x := by
    intro i x
    rw [hB.leaves, List.getElem?_map, Option.map_eq_some_iff]
  obtain ⟨leaves, hleaves, hmem⟩ := hC.reachableLeaves_eq hvalid
  constructor
  · rintro ⟨table, refs, leaves', ht, hr, hl, hone, hall⟩
    rw [hC.fileLeafTable_eq] at ht
    rw [hC.fileRefs_eq] at hr
    rw [hleaves] at hl
    cases ht
    cases hr
    cases hl
    refine ⟨fun r hr => ?_, hlinked.mp (by rwa [htable] at hone)⟩
    obtain ⟨l, hl, hrow⟩ := hall r hr
    obtain ⟨i, -, x, hx, rfl⟩ := (hmem l).mp hl
    obtain ⟨f, hf, rfl⟩ := hstored.mp hx
    exact (exists_stored_iff hrows r.rowId).mp ⟨f, List.mem_of_getElem? hf, hrow⟩
  · rintro ⟨hids, hone⟩
    have hlink := hlinked.mpr hone
    refine ⟨c.table, c.tree.refs, leaves, hC.fileLeafTable_eq, hC.fileRefs_eq, hleaves,
      by rwa [htable], fun r hr => ?_⟩
    obtain ⟨f, hf, hrow⟩ := (exists_stored_iff hrows r.rowId).mpr (hids r hr)
    obtain ⟨i, hi⟩ := List.mem_iff_getElem?.mp hf
    have hlt : i < F.length := (List.getElem?_eq_some_iff.mp hi).1
    have hreach : i ∈ c.tree.ids := List.count_pos_iff.mp (by rw [hlink i hlt]; exact Nat.one_pos)
    exact ⟨_, (hmem _).mpr ⟨i, hreach, _, hstored.mpr ⟨f, hi, rfl⟩, rfl⟩, hrow⟩

/-! ### Points on a line -/

/-- A 4-bit product quantizer with one subspace whose codebook is `0, …, 15`. -/
def lineCoder (summarySize : ℕ) : LeafCoder where
  family := .globalPq
  familyName := "pq"
  extentBytes n := (112 + summarySize + 7) / 8 * 8 + (n + 31) / 32 * 16 + n * 8
  extentBytes_pos n := by omega
  extentBytes_mono m n h := by
    have : (m + 31) / 32 ≤ (n + 31) / 32 := Nat.div_le_div_right (by omega)
    show _ + _ ≤ _ + _
    omega
  flushLeaf vs := ([], vs.map fun v => [UInt8.ofNat (min 15 ⌊v.headD 0 + 1 / 2⌋₊)])
  length_flushLeaf := by simp
  appendEncode _ v := [UInt8.ofNat (min 15 ⌊v.headD 0 + 1 / 2⌋₊)]
  splitAssign _ codes _ i := decide ((codes.headD []).headD 0 < (codes.getD i []).headD 0)
  splitCentroid _ codes _ second :=
    [((codes.filter fun c => (decide ((codes.headD []).headD 0 < c.headD 0)) == second).headD
      []).headD 0 |>.toNat]
  encodeGroup st cs := (st, cs)
  length_encodeGroup := by simp
  encodeGroup_global := by simp
  serializeGlobal := some [0]

/-- One-dimensional rows routed to the clusters at `0, …, kRoot - 1`, without closure. -/
def lineBuild (s : Schema) (kRoot cap : ℕ) (rows : List (BuildRow s)) : BuildInput s where
  coder := lineCoder s.summarySize
  dim := 1
  leafCap := cap + 1
  kRoot := kRoot
  kL1 := 0
  depth := 2
  dist v c := some ((c : ℚ) * c - 2 * (v.headD 0 * c))
  eps _ := 0
  superGroup _ := 0
  rootCentroid c := [(c : ℚ)]
  superCentroid _ := []
  leafCentroid vs := [(vs.map (·.headD 0)).sum / vs.length]
  pca := none
  plane := none
  cardinality := []
  tomlBytes _ := 600
  bitmapPages := 1
  chunks := [rows]
  leafCap_pos := Nat.succ_pos _
  bitmapPages_pos := Nat.one_pos
  depth_planned := .inl rfl
  superGroup_lt h := by cases h
  tomlBytes_pos _ := by decide

/-- A schema without columns and without payload. -/
def plainSchema : Schema := { columns := [] }

def plainRow (id : RowId) (v : ℚ) : BuildRow plainSchema := ⟨id, [v], ⟨[], conforms_nil⟩, []⟩

def emptyFile (s : Schema) : TreeFile s := ⟨fun _ => .zero, 0, []⟩

/-- The file of a build, for builds that return. -/
def builtFile (b : BuildInput s) : TreeFile s :=
  match build b (emptyFile s) with
  | .ok file => file
  | .error f => f.file

lemma build_eq_builtFile {b : BuildInput s} (h : (build b (emptyFile s)).isOk = true) :
    build b (emptyFile s) = .ok (builtFile b) := by
  unfold builtFile
  split
  next heq => rw [heq]
  next heq => simp [heq, Except.isOk, Except.toBool] at h

/-- Four rows, three of them in the first of two clusters: four leaves of one row, two nodes. -/
theorem build_loses_no_row_line :
    LosesNoRow (lineBuild plainSchema 2 0 [plainRow 7 0, plainRow 8 1, plainRow 9 0, plainRow 10 0])
      (builtFile (lineBuild plainSchema 2 0
        [plainRow 7 0, plainRow 8 1, plainRow 9 0, plainRow 10 0])) := by
  refine (build_loses_no_row_iff _ (emptyFile _) _ ?_).mpr ⟨?_, .inl ?_⟩
  · exact build_eq_builtFile (by decide +kernel)
  · unfold EveryIdStaged
    decide +kernel
  · decide +kernel

/-- Two rows in the first of two clusters, one row a leaf: the second leaf is lost. -/
theorem build_loses_second_leaf :
    ∃ file, build (lineBuild plainSchema 2 0 [plainRow 7 0, plainRow 8 0]) (emptyFile _) = .ok file ∧
      ¬ LosesNoRow (lineBuild plainSchema 2 0 [plainRow 7 0, plainRow 8 0]) file := by
  refine ⟨builtFile (lineBuild plainSchema 2 0 [plainRow 7 0, plainRow 8 0]),
    build_eq_builtFile (by decide +kernel), ?_⟩
  rintro ⟨table, refs, leaves, ht, hr, -, hone, -⟩
  have hrefs : (fileRefs (builtFile (lineBuild plainSchema 2 0 [plainRow 7 0, plainRow 8 0]))).map
      (·.map Prod.snd) = some [0] := by decide +kernel
  have htab : (fileLeafTable (builtFile (lineBuild plainSchema 2 0 [plainRow 7 0, plainRow 8 0]))).map
      List.length = some 2 := by decide +kernel
  rw [hr] at hrefs
  rw [ht] at htab
  simp only [Option.map_some, Option.some.injEq] at hrefs htab
  have := hone 1 (by omega)
  rw [hrefs] at this
  simp at this

end SextantTree
