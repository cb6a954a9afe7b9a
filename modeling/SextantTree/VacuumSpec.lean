import SextantTree.BatchedPass

/-!
`vacuum` and `defrag` as a whole. Both go over the leaves in batches; `vacuum` may then rebuild the
cardinality table from the rows and swap its blob.
-/

namespace SextantTree

open Pages Alloc AllocInv AllocRun Heap FilterHash Outcome

variable {s : Schema} {eng : Engine} {idx : Index s} {w : Work s} {c : Contents s}

/-! ### The cardinality blob -/

lemma Slot.Names.freeAt {x : Slot s} {e : Extent} (hx : x.Names e) {v : TreeVol s}
    {A B : List (Ext (Obj s))} (h : Holds Obj.image v (A ++ (x.exts ++ B))) : ∃ v',
    (if 0 < e.pages then SextantTree.freeAt v e else v) = v' ∧ Holds Obj.image v' (A ++ B) ∧
      Kept v v' := by
  match x, hx with
  | none, hx =>
    have he : e.pages = 0 := hx
    refine ⟨v, by rw [if_neg (by omega)], ?_, .refl v⟩
    exact h
  | some (p, o), ⟨he, hpos⟩ =>
    have hold : Holds Obj.image v (⟨p, o.pages, some o⟩ :: (A ++ B)) := h.pull A
    obtain ⟨h', hk⟩ := hold.free
    refine ⟨freeExtent v p o.pages, ?_, h', hk⟩
    rw [he, if_pos hpos]
    rfl

lemma Session.swapCardinality (h : Session eng idx w c) (o : Option (Obj s)) :
    ∃ (x : Slot s) (v : TreeVol s),
      (if 0 < idx.super.cardinality.pages then freeAt (writeOpt w.vol o).2 idx.super.cardinality
        else (writeOpt w.vol o).2) = v ∧
      x.map Prod.snd = o.filter (fun y => decide (0 < y.pages)) ∧
      Session eng { idx with super := { idx.super with cardinality := (writeOpt w.vol o).1 } }
        { w with vol := v } { c with cardinality := x } := by
  obtain ⟨es, hes, hst⟩ := h.stored
  have hfront : Holds Obj.image w.vol ((c.leaves.flatMap StoredLeaf.exts ++
      (c.tree.exts s c.manifest.dim ++
        (⟨c.tablePage, (Obj.leafTable (s := s) es).pages, some (.leafTable es)⟩ ::
          c.configExt :: (Slot.exts c.codebook ++ Slot.exts c.pca)))) ++
      (Slot.exts c.cardinality ++ Slot.exts c.plane)) := by
    simpa [Contents.others] using hst.holds
  obtain ⟨x, v₁, hv₁, hnames, hobj, h₁, hk₁⟩ := writeOpt_of_holds hfront o
  rw [← List.append_assoc] at h₁
  obtain ⟨v₂, hv₂, h₂, hk₂⟩ := h.blobs.cardinality.freeAt h₁
  refine ⟨x, v₂, by rw [hv₁]; exact hv₂, hobj, ?_⟩
  have hagrees : Agrees eng { idx with
      super := { idx.super with cardinality := (writeOpt w.vol o).1 } } { c with cardinality := x } :=
    ⟨h.agrees.manifest, h.agrees.disk, h.agrees.depth, h.agrees.below, h.agrees.linked, h.agrees.full,
      h.agrees.children, h.agrees.fits⟩
  have hkept : Kept w.vol v₂ := hk₁.trans hk₂
  -- the new blob stands in front of the heap, and belongs where the old one was
  have hmoved : ∀ F B : List (Ext (Obj s)), ((x.exts ++ F) ++ B).Perm (F ++ (x.exts ++ B)) := by
    intro F B
    rw [← List.append_assoc]
    exact List.perm_append_comm.append_right B
  exact
    { agrees := hagrees
      stored := ⟨es, hes, by simpa [Contents.others, Contents.configExt] using h₂.perm (hmoved _ _),
        hst.table, hst.ok⟩
      root := h.root
      current := by
        obtain ⟨sb, hsb, hseq⟩ := h.current
        refine ⟨sb, hsb.congr fun p hp => hkept.pages p ?_, hseq⟩
        rw [PageAllocator.firstFree, h.bitmapPage]
        omega
      bitmapPage := hkept.bitmapPage.trans h.bitmapPage
      superPage := h.superPage
      bitmapPages := h.bitmapPages.trans hkept.bitmapPages.symm
      region := hkept.bitmapPages ▸ h.region
      blobs := ⟨h.blobs.depth, h.blobs.config, h.blobs.codebook, h.blobs.pca, hnames, h.blobs.plane⟩
      configPos := h.configPos }

def Contents.filters (c : Contents s) : List (FilterRow s) :=
  c.leaves.flatMap fun l => l.leaf.rows.map (·.filter)

lemma readFilters_of_stored {H : List (Ext (Obj s))} {L : List (StoredLeaf s)} (h : Stored w L H) :
    ((List.range w.leafTable.length).mapM fun lid =>
      if (w.leafTable.getD lid Extent.invalid).page = none then .ok [] else do
        let l ← w.leaf lid
        .ok (l.rows.map (·.filter)) : Except (Failure s) (List (List (FilterRow s)))) =
      .ok (L.map fun l => l.leaf.rows.map (·.filter)) := by
  rw [h.table, List.length_map]
  have hread : ∀ lid ∈ List.range L.length,
      (if ((L.map StoredLeaf.extent).getD lid Extent.invalid).page = none then .ok [] else do
        let l ← w.leaf lid
        .ok (l.rows.map (·.filter)) : Except (Failure s) (List (FilterRow s))) =
      .ok ((L[lid]?).elim [] fun l => l.leaf.rows.map (·.filter)) := by
    intro lid hlid
    have hl := List.getElem?_eq_getElem (List.mem_range.mp hlid)
    have hvalid := h.valid hl
    rw [h.table] at hvalid
    rw [hvalid, h.leaf hl, hl]
    rfl
  rw [mapM_ok hread]
  congr 1
  apply List.ext_getElem
  · simp
  · intro i hi hi'
    have : i < L.length := by simpa using hi
    simp [this]

/-- The cardinality blob after a vacuum that rebuilds it: the table of all rows, or no blob for an
empty image. -/
def cardinalityBlob (card : List (FilterRow s) → Bytes) (c : Contents s) : Option (Obj s) :=
  if (card c.filters).isEmpty then none else some (.blob (card c.filters))

lemma filter_cardinalityBlob (card : List (FilterRow s) → Bytes) (c : Contents s) :
    (cardinalityBlob card c).filter (fun y => decide (0 < y.pages)) = cardinalityBlob card c := by
  unfold cardinalityBlob
  split_ifs with h
  · rfl
  · have hpos : 0 < (card c.filters).length := by
      rw [List.isEmpty_iff] at h
      exact List.length_pos_of_ne_nil h
    simp [Option.filter, Obj.pages, pagesFor_pos hpos]

lemma Advanced.of_withCardinality {idx' : Index s} {c' : Contents s} {e : Extent}
    (h : Advanced eng { idx with super := { idx.super with cardinality := e } } idx' c') :
    Advanced eng idx idx' c' :=
  ⟨h.index, h.fixed, h.plane, h.pca, h.projects, h.off⟩

lemma rebuildCardinality_spec (card : List (FilterRow s) → Bytes) (h : Session eng idx w c) :
    Meets Failure.Defined (rebuildCardinality eng card idx w) fun r =>
      ∃ c', Advanced eng idx r.1 c' ∧ r.1.manifest.nVectors = idx.manifest.nVectors ∧
        SameShape c c' ∧ c'.cardinality.map Prod.snd = cardinalityBlob card c := by
  obtain ⟨H, hst⟩ := h.exists_stored
  unfold rebuildCardinality
  rw [readFilters_of_stored hst, ok_bind]
  dsimp only
  have hrows : (c.leaves.map fun l => l.leaf.rows.map (·.filter)).flatten = c.filters := rfl
  rw [hrows]
  change Meets _ (commitBatch eng { idx with super := { idx.super with
    cardinality := (writeOpt w.vol (cardinalityBlob card c)).1 } } { w with
      vol := if 0 < idx.super.cardinality.pages then
        freeAt (writeOpt w.vol (cardinalityBlob card c)).2 idx.super.cardinality
      else (writeOpt w.vol (cardinalityBlob card c)).2 }) _
  obtain ⟨x, v, hv, hx, hs⟩ := h.swapCardinality (cardinalityBlob card c)
  rw [hv]
  unfold commitBatch
  refine Meets.bind (commitMutable_spec hs) ?_
  rintro ⟨idx₂, a⟩ ⟨c₂, hafter, -⟩
  have hsame := hafter.contents.sameShape
  refine ⟨c₂, hafter.advanced.of_withCardinality, hafter.count,
    ⟨hsame.leaves, hsame.shape, hsame.codebook, hsame.pca, hsame.plane⟩, ?_⟩
  obtain ⟨tp, cp, cb, hc₂⟩ := hafter.contents.same
  rw [hc₂]
  exact hx.trans (filter_cardinalityBlob card c)

/-! ### Vacuum -/

lemma filters_repairedLeaf (l : Leaf s) :
    (if l.summaryDirty then repairedLeaf l else l).rows = l.rows := by
  split_ifs
  · exact rows_repairedLeaf l
  · rfl

lemma Vacuumed.rows {l l' : StoredLeaf s} (h : Vacuumed l l') : l'.leaf.rows = l.leaf.rows := by
  rw [h.1, filters_repairedLeaf]

lemma map_of_forall₂ {α β : Type*} {f g : α → β} {R : α → α → Prop} {L L' : List α}
    (h : List.Forall₂ R L L') (hf : ∀ a b, R a b → f b = g a) : L'.map f = L.map g := by
  induction h with
  | nil => rfl
  | cons hab _ ih => rw [List.map_cons, List.map_cons, hf _ _ hab, ih]

structure VacuumResult (eng : Engine) (card : List (FilterRow s) → Bytes) (cfg : VacuumConfig)
    (idx : Index s) (c : Contents s) (idx' : Index s) (c' : Contents s) : Prop where
  pass : PassResult eng Vacuumed idx c idx' c'
  cardinality : cfg.rebuildCardinality = true → s.columns ≠ [] →
    c'.cardinality.map Prod.snd = cardinalityBlob card c

/-- **Vacuum.** The dirty leaves get fresh summaries, the rows stay, the cardinality blob is that of
the rows; or an exception is thrown. -/
theorem vacuum_spec (h : IndexOk eng idx c) (card : List (FilterRow s) → Bytes) (cfg : VacuumConfig) :
    Meets Failure.Defined (vacuum eng card cfg idx) fun idx' =>
      ∃ c', VacuumResult eng card cfg idx c idx' c' := by
  unfold vacuum
  by_cases hplane : idx.plane
  · rw [if_pos hplane]
    exact ⟨by simp, by simp⟩
  rw [if_neg hplane]
  obtain ⟨a, hload, hs⟩ := h.session
  rw [hload, ok_bind]
  refine Meets.bind (h.pass (repairLeaf_stepSpec eng) _ hs) ?_
  rintro ⟨idx₁, w₁⟩ ⟨c₁, hend⟩
  have hres := hend.result
  by_cases hcard : cfg.rebuildCardinality ∧ ¬ s.columns.isEmpty
  · simp only [if_pos hcard]
    refine Meets.bind (rebuildCardinality_spec card hend.session) ?_
    rintro ⟨idx₂, w₂⟩ ⟨c₂, hadv, hcount, hsame, hblob⟩
    have hfilters : c₁.filters = c.filters :=
      congrArg List.flatten (map_of_forall₂ hres.leaves fun l l' hl => by rw [hl.rows])
    refine ⟨c₂, ⟨hadv.index, .inr (hend.since.advanced hadv), hcount.trans hres.count,
      hsame.leaves ▸ hres.leaves, hsame.shape.trans hres.shape, hsame.codebook.trans hres.codebook,
      hsame.pca.trans hres.pca, hsame.plane.trans hres.plane⟩, fun _ _ => ?_⟩
    rw [hblob]
    simp only [cardinalityBlob, hfilters]
  · simp only [if_neg hcard]
    refine ⟨c₁, hres, fun h₁ h₂ => absurd ⟨h₁, ?_⟩ hcard⟩
    simpa using h₂

/-! ### Defrag -/

/-- **Defrag**, the file not shrunk: the leaves may lie elsewhere, and hold what they held. -/
theorem defrag_spec (h : IndexOk eng idx c) (cfg : DefragConfig) (hkeep : cfg.shrinkFile = false) :
    Meets Failure.Defined (defrag eng cfg idx) fun idx' =>
      ∃ c', PassResult eng Relocated idx c idx' c' := by
  unfold defrag
  by_cases hplane : idx.plane
  · rw [if_pos hplane]
    exact ⟨by simp, by simp⟩
  rw [if_neg hplane]
  obtain ⟨a, hload, hs⟩ := h.session
  rw [hload, ok_bind]
  refine Meets.bind (h.pass (relocateLeaf_stepSpec eng) _ hs) ?_
  rintro ⟨idx₁, w₁⟩ ⟨c₁, hend⟩
  simp only [hkeep, Bool.false_eq_true, if_false]
  exact ⟨c₁, hend.result⟩

end SextantTree
