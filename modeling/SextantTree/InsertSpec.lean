import SextantTree.SplitRun

/-!
`insert_batch` as a whole: the points of each leaf appended, a commit, the splits, another
commit. What it does to the contents is said in two relations, one for the appended points and
one for the splits.
-/

namespace SextantTree

open Pages Alloc AllocInv AllocRun Heap FilterHash Outcome

variable {s : Schema} {eng : Engine} {idx : Index s} {c : Contents s}
  {pts : List (InsertPoint s)} {ids : List ℕ}

/-! ### The keys of the batch -/

lemma nodup_eraseDups (l : List ℕ) : l.eraseDups.Nodup := by
  induction hn : l.length using Nat.strong_induction_on generalizing l with
  | _ n ih =>
    cases l with
    | nil => exact List.nodup_nil
    | cons a l =>
      rw [List.eraseDups_cons, List.nodup_cons]
      refine ⟨?_, ih _ ?_ _ rfl⟩
      · rw [List.mem_eraseDups, List.mem_filter]
        simp
      · rw [← hn, List.length_cons]
        exact Nat.lt_succ_of_le (List.length_filter_le _ _)

/-- The leaves an insert touches, in the order of its map. -/
def insertKeys (eng : Engine) (ids : List ℕ) : List ℕ := eng.mapOrder ids.eraseDups

lemma nodup_insertKeys (eng : Engine) (ids : List ℕ) : (insertKeys eng ids).Nodup :=
  (eng.mapOrder_perm _).nodup_iff.mpr (nodup_eraseDups ids)

lemma mem_insertKeys {i : ℕ} : i ∈ insertKeys eng ids ↔ i ∈ ids := by
  rw [insertKeys, (eng.mapOrder_perm _).mem_iff, List.mem_eraseDups]

/-! ### Rows of the points -/

/-- Every point has a value for every column, where there are columns. -/
def SizesMatch (pts : List (InsertPoint s)) : Prop :=
  s.columns.isEmpty ∨ ∀ p ∈ pts, p.filterValues.length = s.columns.length

lemma InsertPoint.exists_row {p : InsertPoint s}
    (h : s.columns.isEmpty ∨ p.filterValues.length = s.columns.length) : ∃ r, p.row = some r := by
  unfold InsertPoint.row
  by_cases hc : s.columns.isEmpty
  · have hnil : List.Forall₂ FilterColumn.Admits s.columns [] := by
      rw [List.isEmpty_iff.mp hc]
      exact .nil
    simp only [hc, if_true, hnil]
    exact ⟨_, rfl⟩
  · rcases h with h | h
    · exact absurd h hc
    · simp only [hc, Bool.false_eq_true, if_false, p.typed h]
      exact ⟨_, rfl⟩

lemma exists_rows {ps : List (InsertPoint s)} (h : SizesMatch ps) :
    ∃ rs, ps.mapM InsertPoint.row = some rs := by
  induction ps with
  | nil => exact ⟨[], rfl⟩
  | cons p ps ih =>
    obtain ⟨r, hr⟩ := p.exists_row (h.imp_right fun h => h p List.mem_cons_self)
    obtain ⟨rs, hrs⟩ := ih (h.imp_right fun h q hq => h q (List.mem_cons_of_mem _ hq))
    refine ⟨r :: rs, ?_⟩
    rw [List.mapM_cons, hr, hrs]
    rfl

lemma mem_of_mem_pointsFor {p : InsertPoint s} {i : ℕ} (h : p ∈ pointsFor pts ids i) : p ∈ pts := by
  obtain ⟨x, hx, rfl⟩ := List.mem_map.mp h
  exact (List.of_mem_zip (List.mem_of_mem_filter hx)).1

/-! ### What an insert needs -/

def routes (eng : Engine) (idx : Index s) (pts : List (InsertPoint s)) : Except ErrorKind (List ℕ) :=
  pts.mapM fun p => routeToLeafId eng idx p.vector

/-- The payloads of a leaf have fewer than `2 ^ 32` bytes together. -/
def PayloadSmall (file : TreeFile s) (l : Leaf s) : Prop :=
  ∀ b, readPayload file l.payload = some b → b.length < 2 ^ 32 + 8 * l.count

/-- The inserts that do what they should: routing stays inside its tables, the filter columns of
each leaf fit the buffer provided for them, a leaf of one row is not oversized, and on an index
with payloads no leaf becomes oversized and no payload extent passes 32 bits. -/
structure InsertOk (eng : Engine) (idx : Index s) (pts : List (InsertPoint s)) : Prop where
  capacity : splitThreshold idx.manifest.leafCapacity ≠ 0
  routed : ∀ p ∈ pts, (routeToLeafId eng idx p.vector) ≠ .error .undefined
  filters : ∀ ids, routes eng idx pts = .ok ids → ∀ id ∈ ids, ∀ l,
    readLeaf idx.file idx.leafTable id = .ok l → ∀ rs,
    (pointsFor pts ids id).mapM InsertPoint.row = some rs → FiltersFit eng l rs
  payloads : s.hasPayload = true → ∀ id l, readLeaf idx.file idx.leafTable id = .ok l →
    PayloadSmall idx.file l ∧ ∀ ids, routes eng idx pts = .ok ids →
      l.count + (pointsFor pts ids id).length ≤ splitThreshold idx.manifest.leafCapacity

/-! ### Routing ends -/

lemma nodeAt_meets (file : TreeFile s) (e : Extent) :
    Meets (· ≠ ErrorKind.diverged) (nodeAt file e) fun _ => True := by
  unfold nodeAt
  split <;> simp

lemma elemAt_meets {α : Type} (l : List α) (i : ℕ) :
    Meets (· ≠ ErrorKind.diverged) (elemAt l i) fun _ => True := by
  unfold elemAt
  split <;> simp

lemma rootPcaDists_meets (eng : Engine) (idx : Index s) (q : Vec) :
    Meets (· ≠ ErrorKind.diverged) (rootPcaDists eng idx q) fun _ => True := by
  refine (Meets.mapM (Q := fun _ _ => True) fun c _ => ?_).mono fun _ _ => trivial
  exact (elemAt_meets _ _).bind fun _ _ => trivial

lemma routeDescend_meets (eng : Engine) (file : TreeFile s) (q : Vec) :
    ∀ (fuel : ℕ) (e : Extent),
      Meets (· ≠ ErrorKind.diverged) (routeDescend eng file q fuel e) fun _ => True
  | 0, _ => by simp [routeDescend]
  | fuel + 1, e => by
    rw [routeDescend]
    refine (nodeAt_meets file e).bind fun n _ => (elemAt_meets _ _).bind fun c _ => ?_
    split
    · trivial
    · exact routeDescend_meets eng file q fuel _

lemma routeDepth2Pca_meets (eng : Engine) (idx : Index s) (q : Vec) :
    Meets (· ≠ ErrorKind.diverged) (routeDepth2Pca eng idx q) fun _ => True := by
  unfold routeDepth2Pca
  refine (rootPcaDists_meets eng idx _).bind fun ds _ => (elemAt_meets _ _).bind fun rc _ => ?_
  split
  · trivial
  · refine (nodeAt_meets _ _).bind fun n _ => ?_
    dsimp only
    split
    · refine Meets.bind (Q := fun _ => True) ?_ fun base _ => ?_
      · trivial
      · refine Meets.bind (Q := fun _ => True) ?_ fun ds _ => ?_
        · refine (Meets.mapM (Q := fun _ _ => True) fun x _ => ?_).mono fun _ _ => trivial
          split
          · trivial
          · exact (elemAt_meets _ _).bind fun _ _ => trivial
        · split
          · trivial
          · exact (elemAt_meets _ _).bind fun _ _ => trivial
    · exact ErrorKind.noConfusion

lemma routeToLeafId_meets (eng : Engine) (idx : Index s) (v : Vec) :
    Meets (· ≠ ErrorKind.diverged) (routeToLeafId eng idx v) fun _ => True := by
  unfold routeToLeafId
  split
  · exact routeDepth2Pca_meets eng idx _
  · dsimp only
    split
    · refine (rootPcaDists_meets eng idx _).bind fun ds _ => (elemAt_meets _ _).bind fun rc _ => ?_
      split
      · exact (nodeAt_meets _ _).bind fun _ _ => (elemAt_meets _ _).bind fun _ _ => trivial
      · exact routeDescend_meets eng _ _ _ _
    · refine (elemAt_meets _ _).bind fun rc _ => ?_
      split
      · exact (nodeAt_meets _ _).bind fun _ _ => (elemAt_meets _ _).bind fun _ _ => trivial
      · exact routeDescend_meets eng _ _ _ _

lemma routes_meets (h : ∀ p ∈ pts, routeToLeafId eng idx p.vector ≠ .error .undefined) :
    Meets ErrorKind.Defined (routes eng idx pts) fun _ => True := by
  refine (Meets.mapM (Q := fun _ _ => True) fun p hp => ?_).mono fun _ _ => trivial
  cases hr : routeToLeafId eng idx p.vector with
  | ok id => trivial
  | error k =>
    refine ⟨fun hk => h p hp (by rw [hr, hk]), (routeToLeafId_meets eng idx p.vector).failure hr⟩

/-! ### The insert -/

/-- The points routed to a leaf are appended to it. -/
def AppendedAt (eng : Engine) (pts : List (InsertPoint s)) (ids : List ℕ) (id : ℕ)
    (l l' : StoredLeaf s) : Prop :=
  ∃ rs page payPage, (pointsFor pts ids id).mapM InsertPoint.row = some rs ∧
    l' = l.appended eng (pointsFor pts ids id) rs page payPage

/-- The tree of the contents, of whatever depth. -/
def Contents.shape (c : Contents s) : Σ d, Tree (d + 1) := ⟨c.below, c.tree⟩

/-- The same leaves below the same tree, and the same blobs of the build. -/
structure SameShape (c c' : Contents s) : Prop where
  leaves : c'.leaves = c.leaves
  shape : c'.shape = c.shape
  codebook : c'.codebook = c.codebook
  pca : c'.pca = c.pca
  plane : c'.plane = c.plane

lemma SameShape.refl (c : Contents s) : SameShape c c := ⟨rfl, rfl, rfl, rfl, rfl⟩

lemma Recommitted.sameShape {c' : Contents s} (h : Recommitted idx c c') : SameShape c c' := by
  obtain ⟨tp, cp, cb, hsame⟩ := h.same
  rw [hsame]
  exact ⟨rfl, rfl, rfl, rfl, rfl⟩

/-- What an insert does to the contents. -/
structure Inserted (eng : Engine) (pts : List (InsertPoint s)) (ids : List ℕ) (c c' : Contents s) :
    Prop where
  steps : ∃ L₁ c₂ c₃, Touched (insertKeys eng ids) (AppendedAt eng pts ids) c.leaves L₁ ∧
    SameShape { c with leaves := L₁ } c₂ ∧ Splits eng c₂ c₃ ∧ SameShape c₃ c' ∧
    (s.hasPayload = true → c₃ = c₂)

lemma payloadBytes_lt (h : IndexOk eng idx c) {l : StoredLeaf s} (hl : l ∈ c.leaves)
    (hp : s.hasPayload = true) (hsmall : PayloadSmall idx.file l.leaf) :
    payloadBytes l.payloads < 2 ^ 32 := by
  obtain ⟨a, ha⟩ := h.committed.holds
  have hok := h.committed.sound.leaf l hl
  have hread := readPayload_of_holds ha (Contents.leaf_exts_mem hl) hok hp
  have := hsmall _ hread
  rw [length_payloadImage, (hok.paid hp).1] at this
  omega

lemma appendPass_spec (h : IndexOk eng idx c) (hok : InsertOk eng idx pts) (hsizes : SizesMatch pts)
    (hids : routes eng idx pts = .ok ids) {w : Work s} (hs : Session eng idx w c) :
    Meets Failure.Defined ((insertKeys eng ids).foldlM
      (fun w leafId => appendToLeaf eng w leafId (pointsFor pts ids leafId)) w) fun w' =>
      ∃ L', Session eng idx w' { c with leaves := L' } ∧
        Touched (insertKeys eng ids) (AppendedAt eng pts ids) c.leaves L' := by
  refine hs.foldKeys (nodup_insertKeys eng ids) ?_ ?_
  · intro id hid l hl w₁ L H hst hLl
    obtain ⟨rs, hrs⟩ : ∃ rs, (pointsFor pts ids id).mapM InsertPoint.row = some rs :=
      exists_rows (hsizes.imp_right fun hall p hp => hall p (mem_of_mem_pointsFor hp))
    have hread := h.readLeaf hl
    have hfit := hok.filters ids hids id (mem_insertKeys.mp hid) l.leaf hread rs hrs
    obtain ⟨w', page, payPage, heq, hst', hframe⟩ := appendToLeaf_spec hst hLl hrs hfit fun hp =>
      payloadBytes_lt h (List.mem_of_getElem? hl) hp (hok.payloads hp id l.leaf hread).1
    exact ⟨w', _, hst', hframe, fits_appendedLeaf (length_of_mapM_row hrs) hfit, heq, rs, page,
      payPage, hrs, rfl⟩
  · intro id w₁ what hmiss
    simp only [appendToLeaf, hmiss, bind, Except.bind, Work.fail]

lemma pointsFor_eq_nil {id : ℕ} (h : id ∉ ids) : pointsFor pts ids id = [] := by
  rw [pointsFor, List.map_eq_nil_iff, List.filter_eq_nil_iff]
  intro x hx hid
  have : x.2 = id := by simpa using hid
  exact h (this ▸ (List.of_mem_zip hx).2)

lemma count_of_touched {L' : List (StoredLeaf s)}
    (h : Touched (insertKeys eng ids) (AppendedAt eng pts ids) c.leaves L') {l' : StoredLeaf s}
    (hl' : l' ∈ L') : ∃ id l, c.leaves[id]? = some l ∧
      l'.leaf.count = l.leaf.count + (pointsFor pts ids id).length := by
  obtain ⟨id, hid⟩ := List.mem_iff_getElem?.mp hl'
  have hlt : id < c.leaves.length := h.length ▸ (List.getElem?_eq_some_iff.mp hid).1
  obtain ⟨x, hx, hin, hout⟩ := h.leaf id _ (List.getElem?_eq_getElem hlt)
  rw [hid] at hx
  cases hx
  refine ⟨id, c.leaves[id], List.getElem?_eq_getElem hlt, ?_⟩
  by_cases hk : id ∈ insertKeys eng ids
  · obtain ⟨rs, page, payPage, hrs, rfl⟩ := hin hk
    rw [Leaf.count, StoredLeaf.rows_appended, List.length_append,
      length_insertedRows (length_of_mapM_row hrs), Leaf.count]
  · rw [hout hk, pointsFor_eq_nil (mem_insertKeys.not.mp hk)]
    rfl

lemma splitFuel_enough {w : Work s} {H : List (Ext (Obj s))} (h : Stored w c.leaves H) :
    splitSteps (c.leaves.length + excess c.leaves) (excess c.leaves) 0 false ≤ splitFuel w := by
  have hlen : w.leafTable.length = c.leaves.length := by rw [h.table, List.length_map]
  have hsteps : ∀ T M : ℕ, splitSteps T M 0 false = (M + 1) * (T + 1) := by
    intro T M
    simp only [splitSteps, Bool.false_eq_true, if_false, Nat.sub_zero]
    ring
  rw [splitFuel, splitBudget_eq h, hlen, hsteps]
  exact Nat.mul_le_mul (by omega) (by omega)

lemma splitPass_spec (hthr : 0 < splitThreshold idx.manifest.leafCapacity)
    (h : IndexOk eng idx c) {a : PageAllocator} (hs : Session eng idx (Work.of idx a) c)
    (hpay : s.hasPayload = true →
      ∀ l ∈ c.leaves, l.leaf.count ≤ splitThreshold idx.manifest.leafCapacity) :
    Meets Failure.Defined (do
      let (any, w) ← splitLoop eng idx (splitFuel (Work.of idx a)) 0 false false (Work.of idx a)
      if any then do
        let (idx, _) ← commitMutable eng idx w
        .ok idx
      else .ok idx) fun idx' =>
      ∃ c₃ c', Splits eng c c₃ ∧ SameShape c₃ c' ∧ (s.hasPayload = true → c₃ = c) ∧
        (∀ l ∈ c'.leaves, l.leaf.count ≤ splitThreshold idx.manifest.leafCapacity) ∧
        idx'.manifest.nVectors = idx.manifest.nVectors ∧
        (idx' = idx ∧ c' = c ∨ Advanced eng idx idx' c') := by
  obtain ⟨H, hst⟩ := hs.exists_stored
  obtain ⟨any, w', c₃, heq, hs₃, hsp, hsmall, hany⟩ := splitLoop_spec hthr _ 0 false false _ c hs hpay
    (Nat.zero_le _) (fun _ i hi => absurd hi (Nat.not_lt_zero i)) (splitFuel_enough hst)
  rw [heq]
  simp only [bind, Except.bind]
  rcases hany with ⟨rfl, rfl, rfl⟩ | ⟨rfl, hnp⟩
  · exact ⟨c₃, c₃, hsp, .refl c₃, fun _ => rfl, hsmall, rfl, .inl ⟨rfl, rfl⟩⟩
  · refine Meets.bind (commitMutable_spec hs₃) ?_
    rintro r ⟨c', hafter, -⟩
    have hshape := hafter.contents.sameShape
    exact ⟨c₃, c', hsp, hshape, fun hp => absurd hp (by simp [hnp]), hshape.leaves ▸ hsmall,
      hafter.count, .inr hafter.advanced⟩

/-- What an insert returns. -/
structure InsertResult (eng : Engine) (pts : List (InsertPoint s)) (idx : Index s) (c : Contents s)
    (idx' : Index s) (c' : Contents s) : Prop where
  advanced : Advanced eng idx idx' c'
  count : idx'.manifest.nVectors = (idx.manifest.nVectors + pts.length) % 2 ^ 64
  inserted : ∃ ids, routes eng idx pts = .ok ids ∧ Inserted eng pts ids c c'
  /-- No leaf is oversized any more. -/
  small : ∀ l ∈ c'.leaves, l.leaf.count ≤ splitThreshold idx.manifest.leafCapacity

/-- **Insert.** An admissible batch is inserted, or an exception is thrown. -/
theorem insertBatch_spec (h : IndexOk eng idx c) (hok : InsertOk eng idx pts) :
    Meets Failure.Defined (insertBatch eng idx pts) fun idx' =>
      pts = [] ∧ idx' = idx ∨ ∃ c', InsertResult eng pts idx c idx' c' := by
  unfold insertBatch
  by_cases hempty : pts.isEmpty
  · rw [if_pos hempty]
    exact .inl ⟨List.isEmpty_iff.mp hempty, rfl⟩
  rw [if_neg hempty]
  by_cases hplane : idx.plane
  · rw [if_pos hplane]
    exact ⟨by simp, by simp⟩
  rw [if_neg hplane]
  split
  · exact ⟨by simp, by simp⟩
  next hfind =>
    have hsizes : SizesMatch pts := by
      by_cases hc : s.columns.isEmpty
      · exact .inl hc
      · rw [if_neg hc, List.find?_eq_none] at hfind
        exact .inr fun p hp => by simpa using hfind p hp
    have hroutes := routes_meets hok.routed
    unfold routes at hroutes
    split
    next k hk => exact hroutes.failure hk
    next ids hids =>
      obtain ⟨a, hload, hs⟩ := h.session
      simp only [hload, bind, Except.bind]
      refine Meets.bind (appendPass_spec h hok hsizes hids hs) ?_
      rintro w₁ ⟨L₁, hs₁, htouched⟩
      refine Meets.bind (commitMutable_spec (hs₁.withCount _)) ?_
      rintro ⟨idx₂, a₂⟩ ⟨c₂, hafter, hs₂⟩
      have hsame := hafter.contents.sameShape
      have hcap : idx₂.manifest.leafCapacity = idx.manifest.leafCapacity :=
        hafter.advanced.leafCapacity
      have hadv : Advanced eng idx idx₂ c₂ := hafter.advanced.of_withCount
      have hpay : s.hasPayload = true →
          ∀ l ∈ c₂.leaves, l.leaf.count ≤ splitThreshold idx₂.manifest.leafCapacity := by
        intro hp l hl
        rw [hsame.leaves] at hl
        obtain ⟨id, l₀, hl₀, hcount⟩ := count_of_touched htouched hl
        rw [hcount, hcap]
        exact (hok.payloads hp id l₀.leaf (h.readLeaf hl₀)).2 ids hids
      refine (splitPass_spec (hcap ▸ Nat.pos_of_ne_zero hok.capacity) hafter.advanced.index hs₂
        hpay).mono ?_
      rintro idx' ⟨c₃, c', hsp, hshape, hpaid, hsmall, hcount, hres⟩
      refine .inr ⟨c', ?_, hcount.trans hafter.count, ⟨ids, hids, L₁, c₂, c₃, htouched, hsame, hsp,
        hshape, hpaid⟩, hcap ▸ hsmall⟩
      rcases hres with ⟨rfl, rfl⟩ | hadv'
      · exact hadv
      · exact hadv.trans hadv'

end SextantTree
