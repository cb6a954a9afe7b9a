import SextantTree.SplitSpec

/-!
`split_leaf_` in a session, and the loop that splits until no leaf is oversized. A leaf of two
rows or more is split into two that are not empty, so every split uses up one row in excess of
one, and the loop ends.
-/

namespace SextantTree

open Pages Alloc AllocInv AllocRun Heap FilterHash Outcome

variable {s : Schema} {eng : Engine} {idx : Index s} {w : Work s} {c : Contents s} {id : ℕ}
  {l : StoredLeaf s}

/-! ### One split -/

lemma splitLeaves_of_stored {L : List (StoredLeaf s)} {H : List (Ext (Obj s))} (h : Stored w L H)
    (hl : L[id]? = some l) (hp : s.hasPayload = false) {g₀ g₁ : Leaf s} (hpos₀ : 0 < g₀.extentPages)
    (hpos₁ : 0 < g₁.extentPages) (hpay₀ : g₀.payload = l.leaf.payload)
    (hpay₁ : g₁.payload = l.leaf.payload) :
    ∃ (l₀ l₁ : StoredLeaf s) (v₀ v₁ : TreeVol s), l₀.leaf = g₀ ∧ l₁.leaf = g₁ ∧
      writeObj w.vol (.leaf g₀) = (l₀.extent, v₀) ∧ writeObj v₀ (.leaf g₁) = (l₁.extent, v₁) ∧
      Stored { w with
        vol := freeAt v₁ l.extent
        leafTable := w.leafTable.set id l₀.extent ++ [l₁.extent] } (L.set id l₀ ++ [l₁]) H ∧
      Kept w.vol (freeAt v₁ l.extent) := by
  have hlok := h.ok l (List.mem_of_getElem? hl)
  have hno : ∀ x : StoredLeaf s, x.exts = [x.leafExt] := fun x => by
    rw [StoredLeaf.exts, payExts_of_not_hasPayload hp]
  obtain ⟨p₀, v₀, hw₀, h₀, hk₀⟩ := writeObj_of_holds (o := Obj.leaf g₀) (h.focus hl) hpos₀
  obtain ⟨p₁, v₁, hw₁, h₁, hk₁⟩ := writeObj_of_holds (o := Obj.leaf g₁) h₀ hpos₁
  rw [hno] at h₁
  obtain ⟨h₂, hk₂⟩ := (h₁.pull [_, _]).free
  have hok : ∀ (p : ℕ) (g : Leaf s), 0 < g.extentPages → g.payload = l.leaf.payload →
      (⟨p, g, 0, []⟩ : StoredLeaf s).Ok := by
    intro p g hpos hpay
    refine ⟨hpos, ?_, fun hp' => by rw [hp] at hp'; cases hp'⟩
    rw [payExtent_of_not_hasPayload hp]
    exact hpay.trans (hlok.payload.trans (payExtent_of_not_hasPayload hp l))
  refine ⟨⟨p₀, g₀, 0, []⟩, ⟨p₁, g₁, 0, []⟩, v₀, v₁, rfl, rfl, hw₀, hw₁, ⟨?_, ?_, ?_⟩,
    (hk₀.trans hk₁).trans hk₂⟩
  · have hset : ((L.set id ⟨p₀, g₀, 0, []⟩).flatMap StoredLeaf.exts).Perm _ :=
      flatMap_set_perm _ hl
    rw [hno] at hset
    refine h₂.perm ?_
    rw [List.flatMap_append, List.flatMap_singleton, hno]
    refine List.Perm.symm (((hset.append_right _).append_right H).trans ?_)
    simp only [List.nil_append, List.cons_append, List.append_assoc]
    exact (List.perm_middle.cons _).trans (.swap _ _ _)
  · simp only [List.map_append, List.map_set, h.table]
    rfl
  · intro x hx
    rcases List.mem_append.mp hx with hx | hx
    · rcases List.mem_or_eq_of_mem_set hx with hx | rfl
      · exact h.ok x hx
      · exact hok p₀ g₀ hpos₀ hpay₀
    · rw [List.mem_singleton.mp hx]
      exact hok p₁ g₁ hpos₁ hpay₁

/-- One split: the leaf gives way to two, the second one at the end of the table. -/
structure SplitOf (eng : Engine) (id : ℕ) (l : StoredLeaf s) (c c' : Contents s) : Prop where
  leaf : c.leaves[id]? = some l
  split : ∃ (t' : Tree (c.below + 1)) (l₀ l₁ : StoredLeaf s),
    c' = { c with tree := t', leaves := c.leaves.set id l₀ ++ [l₁] } ∧
      l₀.leaf = groupLeaf eng l.leaf (splitGroups eng l.leaf id).1 ∧
      l₁.leaf = groupLeaf eng l.leaf (splitGroups eng l.leaf id).2 ∧
      Grown s c.manifest.dim c.tree t' id c.leaves.length

lemma Agrees.split (h : Agrees eng idx c) {t' : Tree (c.below + 1)} {l₀ l₁ : StoredLeaf s}
    (hgrown : Grown s c.manifest.dim c.tree t' id c.leaves.length) (hfits₀ : l₀.leaf.Fits eng)
    (hfits₁ : l₁.leaf.Fits eng) :
    Agrees eng idx { c with tree := t', leaves := c.leaves.set id l₀ ++ [l₁] } where
  manifest := h.manifest
  disk := h.disk
  depth := h.depth
  below := h.below
  linked := by
    obtain ⟨path, sm, -, hperm⟩ := hgrown.reaches
    have hids : t'.ids.Perm (c.tree.ids ++ [c.leaves.length]) := by
      have := hperm.map Prod.snd
      rwa [List.map_append, List.map_singleton] at this
    simp only [List.length_append, List.length_set, List.length_singleton, List.range_succ]
    exact hids.trans (h.linked.append_right _)
  full hb := hgrown.full hb (h.full hb)
  children hb := by
    have := congrArg (List.map nodeChild) (hgrown.children hb)
    simp only [List.map_map] at this
    exact (h.children hb).trans this.symm
  fits x hx := by
    rcases List.mem_append.mp hx with hx | hx
    · rcases List.mem_or_eq_of_mem_set hx with hx | rfl
      · exact h.fits x hx
      · exact hfits₀
    · rw [List.mem_singleton.mp hx]
      exact hfits₁

/-- **One split.** -/
theorem splitLeaf_spec (h : Session eng idx w c) (hp : s.hasPayload = false)
    (hl : c.leaves[id]? = some l) :
    ∃ w' c', splitLeaf eng idx w id = .ok w' ∧ Session eng idx w' c' ∧ SplitOf eng id l c c' := by
  obtain ⟨es, hes, hst⟩ := h.stored
  obtain ⟨l₀, l₁, v₀, v₁, hg₀, hg₁, hw₀, hw₁, hst₁, hk₁⟩ := splitLeaves_of_stored hst hl hp
    (groupLeaf_pages_pos eng l.leaf (splitGroups eng l.leaf id).1)
    (groupLeaf_pages_pos eng l.leaf (splitGroups eng l.leaf id).2) rfl rfl
  have hmem : id ∈ c.tree.ids :=
    h.agrees.linked.mem_iff.mpr (List.mem_range.mpr (List.getElem?_eq_some_iff.mp hl).1)
  have hlen : w.leafTable.length = c.leaves.length := by rw [hst.table, List.length_map]
  have hfront := hst₁.holds
  rw [← List.append_assoc] at hfront
  have hfront := hfront.perm (List.perm_append_comm.append_right _)
  rw [List.append_assoc] at hfront
  obtain ⟨t', w', hadd, hgrown, hon⟩ := addChildToParent_of_holds h.agrees.dim h.agrees.depth_eq
    h.agrees.below hfront h.root hmem h.agrees.children c.leaves.length l₁.extent.pages
    (eng.coder.splitCentroid l.leaf.state (l.leaf.rows.map (·.code)) id false)
    (eng.coder.splitCentroid l.leaf.state (l.leaf.rows.map (·.code)) id true)
  refine ⟨w', { c with tree := t', leaves := c.leaves.set id l₀ ++ [l₁] }, ?_, ?_, hl, t', l₀, l₁, rfl,
    hg₀, hg₁, hgrown⟩
  · simp only [splitLeaf, hst.leaf hl, bind, Except.bind, hw₀, hw₁, hst.valid hl, hlen]
    exact hadd
  · refine h.of_kept (hk₁.trans hon.kept) ?_ ⟨es, hes, ?_, hon.table.trans hst₁.table, hst₁.ok⟩
      hon.root ⟨h.blobs.depth, h.blobs.config, h.blobs.codebook, h.blobs.pca, h.blobs.cardinality,
        h.blobs.plane⟩ h.configPos
    · exact h.agrees.split hgrown (hg₀ ▸ fits_groupLeaf eng _ _) (hg₁ ▸ fits_groupLeaf eng _ _)
    · have hback := hon.holds
      rw [← List.append_assoc] at hback ⊢
      exact hback.perm (List.perm_append_comm.append_right _)

/-! ### The loop -/

/-- Any number of splits, each of a leaf of two rows or more. -/
def Splits (eng : Engine) : Contents s → Contents s → Prop :=
  Relation.ReflTransGen fun c c' => ∃ id l, 2 ≤ l.leaf.count ∧ SplitOf eng id l c c'

def excess (L : List (StoredLeaf s)) : ℕ := (L.map fun l => l.leaf.count - 1).sum

lemma count_split (eng : Engine) (l : Leaf s) (id : ℕ) :
    (groupLeaf eng l (splitGroups eng l id).1).count + (groupLeaf eng l (splitGroups eng l id).2).count =
      l.count := by
  rw [count_groupLeaf, count_groupLeaf, ← List.length_append]
  exact (splitGroups_perm eng l id).length_eq

lemma SplitOf.excess {c' : Contents s} (h : SplitOf eng id l c c') (hcount : 2 ≤ l.leaf.count) :
    SextantTree.excess c'.leaves + 1 = SextantTree.excess c.leaves ∧
      c'.leaves.length = c.leaves.length + 1 := by
  obtain ⟨t', l₀, l₁, rfl, h₀, h₁, -⟩ := h.split
  obtain ⟨hi, hli⟩ := List.getElem?_eq_some_iff.mp h.leaf
  have hsum := count_split eng l.leaf id
  obtain ⟨hpos₀, hpos₁⟩ := splitGroups_pos eng id hcount
  rw [← count_groupLeaf eng, ← h₀] at hpos₀
  rw [← count_groupLeaf eng, ← h₁] at hpos₁
  rw [← h₀, ← h₁] at hsum
  refine ⟨?_, by simp⟩
  have hold : SextantTree.excess c.leaves =
      (l.leaf.count - 1) + SextantTree.excess (c.leaves.eraseIdx id) := by
    have := ((List.getElem_cons_eraseIdx_perm hi).map fun x => x.leaf.count - 1).sum_eq
    rw [hli, List.map_cons, List.sum_cons] at this
    exact this.symm
  have hnew : SextantTree.excess (c.leaves.set id l₀) =
      (l₀.leaf.count - 1) + SextantTree.excess (c.leaves.eraseIdx id) := by
    have hi' : id < (c.leaves.set id l₀).length := by simpa using hi
    have := ((List.getElem_cons_eraseIdx_perm hi').map fun x => x.leaf.count - 1).sum_eq
    rw [List.getElem_set_self, List.eraseIdx_set_eq, List.map_cons, List.sum_cons] at this
    exact this.symm
  have happ : SextantTree.excess (c.leaves.set id l₀ ++ [l₁]) =
      SextantTree.excess (c.leaves.set id l₀) + (l₁.leaf.count - 1) := by
    simp [SextantTree.excess]
  simp only [happ, hnew, hold]
  omega

lemma splitBudget_eq {H : List (Ext (Obj s))} (h : Stored w c.leaves H) :
    splitBudget w = SextantTree.excess c.leaves := by
  rw [splitBudget, h.table, List.map_map, SextantTree.excess]
  congr 1
  refine List.map_congr_left fun l hl => ?_
  obtain ⟨i, hi⟩ := List.mem_iff_getElem?.mp hl
  rw [Function.comp_apply, h.leafExtent hi]
  rfl

/-- A bound on the steps left: the rest of this pass, one more if this one has split, and one
for each row in excess. The number of leaves and of rows in excess together, `T`, never
changes. -/
def splitSteps (T M lid : ℕ) (did : Bool) : ℕ :=
  (T + 1 - lid) + (if did then T + 1 else 0) + M * (T + 1)

lemma splitSteps_skip {T lid : ℕ} (M : ℕ) (did : Bool) (h : lid ≤ T) :
    splitSteps T M (lid + 1) did + 1 = splitSteps T M lid did := by
  simp only [splitSteps]
  omega

lemma splitSteps_split {T lid : ℕ} (M : ℕ) (did : Bool) (h : lid ≤ T) :
    splitSteps T M (lid + 1) true + 1 ≤ splitSteps T (M + 1) lid did := by
  simp only [splitSteps, if_true, Nat.succ_mul]
  omega

lemma splitSteps_again {T lid : ℕ} (M : ℕ) (h : lid ≤ T) :
    splitSteps T M 0 false + 1 ≤ splitSteps T M lid true := by
  simp only [splitSteps, if_true, Bool.false_eq_true, if_false]
  omega

/-- **The split loop ends**, with leaves split until none is oversized and nothing else changed, if
a leaf of one row is not oversized. Leaves with payloads must not be oversized at all. -/
theorem splitLoop_spec (hthr : 0 < splitThreshold idx.manifest.leafCapacity) :
    ∀ (fuel lid : ℕ) (did any : Bool) (w : Work s) (c : Contents s), Session eng idx w c →
      (s.hasPayload = true →
        ∀ l ∈ c.leaves, l.leaf.count ≤ splitThreshold idx.manifest.leafCapacity) →
      lid ≤ c.leaves.length →
      (did = false → ∀ i < lid, ∀ l, c.leaves[i]? = some l →
        l.leaf.count ≤ splitThreshold idx.manifest.leafCapacity) →
      splitSteps (c.leaves.length + excess c.leaves) (excess c.leaves) lid did ≤ fuel →
      ∃ any' w' c', splitLoop eng idx fuel lid did any w = .ok (any', w') ∧
        Session eng idx w' c' ∧ Splits eng c c' ∧
        (∀ l ∈ c'.leaves, l.leaf.count ≤ splitThreshold idx.manifest.leafCapacity) ∧
        (any' = any ∧ w' = w ∧ c' = c ∨ any' = true ∧ s.hasPayload = false)
  | 0, lid, did, any, w, c, _, _, hlid, _, hfuel => by
    simp only [splitSteps] at hfuel
    omega
  | fuel + 1, lid, did, any, w, c, h, hpay, hlid, hdone, hfuel => by
    obtain ⟨H, hst⟩ := h.exists_stored
    cases hl : c.leaves[lid]? with
    | none =>
      have hnone : w.leafTable[lid]? = none := by rw [hst.table, List.getElem?_map, hl]; rfl
      cases did with
      | false =>
        refine ⟨any, w, c, ?_, h, .refl, fun l hl => ?_, .inl ⟨rfl, rfl, rfl⟩⟩
        · simp [splitLoop, hnone]
        · -- the whole pass has found no oversized leaf
          obtain ⟨i, hi⟩ := List.mem_iff_getElem?.mp hl
          have hlt := (List.getElem?_eq_some_iff.mp hi).1
          exact hdone rfl i (hlt.trans_le (List.getElem?_eq_none_iff.mp ‹_›)) l hi
      | true =>
        have hroom : lid ≤ c.leaves.length + excess c.leaves := by omega
        have := splitSteps_again (excess c.leaves) hroom
        obtain ⟨any', w', c', heq, hres⟩ := splitLoop_spec hthr fuel 0 false any w c h hpay
          (Nat.zero_le _) (fun _ i hi => absurd hi (Nat.not_lt_zero i)) (by omega)
        exact ⟨any', w', c', by simpa [splitLoop, hnone] using heq, hres⟩
    | some l =>
      have hlt := (List.getElem?_eq_some_iff.mp hl).1
      have hroom : lid ≤ c.leaves.length + excess c.leaves := by omega
      have hread : splitLoop eng idx (fuel + 1) lid did any w =
          if splitThreshold idx.manifest.leafCapacity < l.leaf.count then do
            let w' ← splitLeaf eng idx w lid
            splitLoop eng idx fuel (lid + 1) true true w'
          else splitLoop eng idx fuel (lid + 1) did any w := by
        rw [splitLoop, hst.entry hl]
        simp only [StoredLeaf.extent, reduceCtorEq, if_false]
        have := hst.leafExtent hl
        rw [StoredLeaf.extent] at this
        rw [this]
      by_cases hbig : splitThreshold idx.manifest.leafCapacity < l.leaf.count
      · -- the leaf is split, so it has no payload and at least two rows
        have hnp : s.hasPayload = false := by
          by_contra hp
          have := hpay (by simpa using hp) l (List.mem_of_getElem? hl)
          omega
        obtain ⟨w₁, c₁, hsplit, hsess, hof⟩ := splitLeaf_spec h hnp hl
        obtain ⟨hex, hlen⟩ := hof.excess (by omega)
        have hsteps := splitSteps_split (excess c₁.leaves) did hroom
        have hT : c₁.leaves.length + excess c₁.leaves = c.leaves.length + excess c.leaves := by omega
        obtain ⟨any', w', c', heq, hs', hsp, hsmall, hany⟩ := splitLoop_spec hthr fuel (lid + 1) true
          true w₁ c₁ hsess (fun hp => by rw [hnp] at hp; cases hp) (by omega)
          (fun hfalse => by cases hfalse) (by rw [hT]; rw [hex] at hsteps; omega)
        refine ⟨any', w', c', ?_, hs', .head ⟨lid, l, by omega, hof⟩ hsp, hsmall, .inr ?_⟩
        · rw [hread, if_pos hbig, hsplit]
          exact heq
        · rcases hany with ⟨rfl, -, -⟩ | ⟨rfl, -⟩ <;> exact ⟨rfl, hnp⟩
      · have hsteps := splitSteps_skip (excess c.leaves) did hroom
        have hdone' : did = false → ∀ i < lid + 1, ∀ l, c.leaves[i]? = some l →
            l.leaf.count ≤ splitThreshold idx.manifest.leafCapacity := by
          intro hd i hi x hx
          obtain hi | rfl := Nat.lt_succ_iff_lt_or_eq.mp hi
          · exact hdone hd i hi x hx
          · rw [hl] at hx
            cases hx
            omega
        obtain ⟨any', w', c', heq, hres⟩ := splitLoop_spec hthr fuel (lid + 1) did any w c h hpay
          hlt hdone' (by omega)
        exact ⟨any', w', c', by rw [hread, if_neg hbig]; exact heq, hres⟩

end SextantTree
