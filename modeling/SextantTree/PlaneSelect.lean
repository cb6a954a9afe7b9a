import SextantTree.BatchSearch

/-!
What routing by the plane selects for each query of a batch.

The leaves whose centroids are far from the query are masked out of the sweep and keep the score
minus infinity, and the selection walks all leaves by descending score until the pages it has
taken fill the budget. The mask and the selection have budgets of their own, so the walk goes on
into masked leaves where the leaves it lets through are too few for the selection.
-/

namespace SextantTree

open List

/-! ### Walks up to a budget -/

section Budget

variable {β : Type} (weight : β → ℕ) (enough : ℕ → Bool)

lemma takeBudget_initial (c : ℕ) (l : List β) : takeBudget weight enough c l <+: l := by
  induction l generalizing c with
  | nil => exact prefix_rfl
  | cons b l ih =>
    rw [takeBudget]
    split
    case isTrue => exact ⟨l, rfl⟩
    case isFalse => exact prefix_cons_inj b |>.mpr (ih _)

lemma enough_or_takeBudget_eq (c : ℕ) (l : List β) :
    enough (c + ((takeBudget weight enough c l).map weight).sum) = true ∨
      takeBudget weight enough c l = l := by
  induction l generalizing c with
  | nil => exact .inr rfl
  | cons b l ih =>
    rw [takeBudget]
    split
    case isTrue h => exact .inl (by simpa using h)
    case isFalse =>
      rcases ih (c + weight b) with h | h
      · exact .inl (by simpa [add_assoc] using h)
      · exact .inr (by rw [h])

variable {weight enough}

lemma takeBudget_append_of_enough {c : ℕ} {l r : List β} (hl : l ≠ [])
    (h : enough (c + (l.map weight).sum) = true) :
    takeBudget weight enough c (l ++ r) = takeBudget weight enough c l := by
  induction l generalizing c with
  | nil => exact absurd rfl hl
  | cons b l ih =>
    rw [cons_append, takeBudget, takeBudget]
    split
    case isTrue => rfl
    case isFalse hb =>
      have hne : l ≠ [] := by
        rintro rfl
        exact hb (by simpa using h)
      rw [ih hne (by simpa [add_assoc] using h)]

lemma takeBudget_append_of_not_enough (hmono : ∀ a b, a ≤ b → enough a = true → enough b = true)
    {c : ℕ} {l r : List β} (h : enough (c + (l.map weight).sum) = false) :
    takeBudget weight enough c (l ++ r) =
      l ++ takeBudget weight enough (c + (l.map weight).sum) r := by
  induction l generalizing c with
  | nil => simp
  | cons b l ih =>
    have hsum : c + ((b :: l).map weight).sum = c + weight b + (l.map weight).sum := by
      rw [map_cons, sum_cons, add_assoc]
    rw [hsum] at h ⊢
    have hb : ¬ enough (c + weight b) = true := fun hb =>
      Bool.false_ne_true (h.symm.trans (hmono _ _ (Nat.le_add_right _ _) hb))
    rw [cons_append, takeBudget, if_neg hb, ih h, cons_append]

lemma takeBudget_ne_nil {c : ℕ} {l : List β} (hl : l ≠ []) : takeBudget weight enough c l ≠ [] := by
  cases l with
  | nil => exact absurd rfl hl
  | cons b l =>
    rw [takeBudget]
    split <;> exact cons_ne_nil _ _

end Budget

lemma filter_append_filter_not {β : Type} {p : β → Bool} {l : List β}
    (h : l.Pairwise fun a b => p b = true → p a = true) :
    l.filter p ++ l.filter (fun b => !p b) = l := by
  induction h with
  | nil => rfl
  | @cons b l hb _ ih =>
    cases hp : p b with
    | true => rw [filter_cons_of_pos hp, filter_cons_of_neg (by simp [hp]), cons_append, ih]
    | false =>
      have hnone : l.filter p = [] := filter_eq_nil_iff.mpr fun a ha hpa =>
        Bool.false_ne_true (hp.symm.trans (hb a ha hpa))
      rw [hnone, nil_append] at ih
      rw [filter_cons_of_neg (by simp [hp]), hnone, nil_append, filter_cons_of_pos (by simp [hp]),
        ih]

/-! ### The stages of `plane_route_batch_` -/

section

variable {s : Schema} (eng : SearchEngine s) (idx : Index s) (cfg : SearchConfig)

def validLeaves : List (ℕ × LeafCandidate) := tableLeaves idx (range idx.leafTable.length)

def planeTotal : ℕ := ((validLeaves idx).map fun x => x.2.pages).sum

def PlanePrunes : Prop :=
  0 < cfg.planePrePrune ∧ 0 < idx.pca.dims ∧ idx.manifest.depth = 2 ∧ cfg.nProbe ≠ kProbeAll ∧
    idx.pca.leafCentroids.length = idx.leafTable.length

instance : Decidable (PlanePrunes idx cfg) := by
  unfold PlanePrunes
  infer_instance

/-- The centroid mask of a query rejects leaf `l`. -/
def Rejected (q : Vec) (l : ℕ) : Prop :=
  PlanePrunes idx cfg ∧ l ∉ planeSurvivors idx cfg.planePrePrune (planeTotal idx) q

instance (q : Vec) (l : ℕ) : Decidable (Rejected idx cfg q l) := by
  unfold Rejected
  infer_instance

/-- The column of a query in the score grid. -/
def planeScores (q : Vec) : List (WithBot ℚ) :=
  (range idx.leafTable.length).map fun l =>
    if (idx.leafTable[l]?).all (·.page.isNone) then ↑(0 : ℚ)
    else if Rejected idx cfg q l then ⊥
    else ↑(eng.planeScore q l)

def planeFraction (frac : ℚ) : ℚ :=
  if cfg.nProbe = kProbeAll then 1
  else if 0 < frac then frac
  else if 0 < cfg.probeFraction then cfg.probeFraction
  else if 0 < eng.defaults.probeFraction then eng.defaults.probeFraction
  else 1 / 2

/-- So many pages are the fraction of all pages, to the nearest page. -/
def PlaneReached (frac : ℚ) (pages : ℕ) : Prop :=
  planeFraction eng cfg frac * planeTotal idx - 1 / 2 ≤ pages

instance (frac : ℚ) (pages : ℕ) : Decidable (PlaneReached eng idx cfg frac pages) := by
  unfold PlaneReached
  infer_instance

/-- The leaves selected for a query, with their ids. -/
def planeChosen (frac : ℚ) (q : Vec) : List (ℕ × LeafCandidate) :=
  takeBudget (fun x => x.2.pages) (fun cum => decide (PlaneReached eng idx cfg frac cum)) 0
    (tableLeaves idx (eng.sortDesc (planeScores eng idx cfg q)))

lemma planeRoute_eq (frac : ℚ) (q : Vec) :
    planeRoute eng idx cfg frac q = (planeChosen eng idx cfg frac q).map (·.2) := rfl

/-- What the plane is to select for a query of a batch. -/
structure PlaneSelects (b : BatchQuery) : Prop where
  unrejected : ∀ x ∈ planeChosen eng idx cfg b.probeFraction b.query, ¬ Rejected idx cfg b.query x.1
  distinct : ((planeChosen eng idx cfg b.probeFraction b.query).map (·.1)).Nodup
  descending : (planeChosen eng idx cfg b.probeFraction b.query).Pairwise fun x y =>
    (planeScores eng idx cfg b.query).getD y.1 ⊥ ≤ (planeScores eng idx cfg b.query).getD x.1 ⊥
  filled : PlaneReached eng idx cfg b.probeFraction
      ((planeChosen eng idx cfg b.probeFraction b.query).map fun x => x.2.pages).sum ∨
    ∀ x ∈ validLeaves idx, ¬ Rejected idx cfg b.query x.1 →
      x ∈ planeChosen eng idx cfg b.probeFraction b.query
  exhaustive : cfg.nProbe = kProbeAll → ∀ x ∈ validLeaves idx,
    x ∈ planeChosen eng idx cfg b.probeFraction b.query

/-- The leaves that a query's mask lets through fill its budget, or the mask rejects no leaf. -/
def MaskFills (b : BatchQuery) : Prop :=
  PlaneReached eng idx cfg b.probeFraction
      (((validLeaves idx).filter fun x => ¬ Rejected idx cfg b.query x.1).map fun x => x.2.pages).sum ∨
    ∀ x ∈ validLeaves idx, ¬ Rejected idx cfg b.query x.1

variable {eng idx cfg}

lemma PlaneReached.mono {frac : ℚ} {m n : ℕ} (h : PlaneReached eng idx cfg frac m) (hmn : m ≤ n) :
    PlaneReached eng idx cfg frac n :=
  le_trans h (Nat.cast_le.mpr hmn)

lemma tableLeaves_cons (l : ℕ) (ls : List ℕ) :
    tableLeaves idx (l :: ls) = tableLeaves idx [l] ++ tableLeaves idx ls := by
  rw [tableLeaves, tableLeaves, tableLeaves, ← filterMap_append, singleton_append]

variable (idx) in
lemma map_fst_tableLeaves_sublist (ls : List ℕ) : ((tableLeaves idx ls).map (·.1)).Sublist ls := by
  induction ls with
  | nil => exact .slnil
  | cons l ls ih =>
    rw [tableLeaves_cons, map_append]
    have hone : ((tableLeaves idx [l]).map (·.1)).Sublist [l] := by
      rw [tableLeaves, filterMap_cons]
      cases h : (idx.leafTable[l]?).bind fun e =>
          e.page.map fun p => (l, (⟨p, e.pages⟩ : LeafCandidate)) with
      | none => exact nil_sublist _
      | some x =>
        obtain ⟨e, -, hx⟩ := Option.bind_eq_some_iff.mp h
        obtain ⟨p, -, rfl⟩ := Option.map_eq_some_iff.mp hx
        exact Sublist.refl _
    exact hone.append ih

variable (eng idx cfg) in
lemma sorted_perm (q : Vec) :
    (tableLeaves idx (eng.sortDesc (planeScores eng idx cfg q))).Perm (validLeaves idx) := by
  have h := eng.sortDesc_perm (planeScores eng idx cfg q)
  rw [planeScores, length_map, length_range, ← planeScores] at h
  exact h.filterMap _

lemma score_eq_bot_iff {q : Vec} {x : ℕ × LeafCandidate} (h : x ∈ validLeaves idx) :
    (planeScores eng idx cfg q).getD x.1 ⊥ = ⊥ ↔ Rejected idx cfg q x.1 := by
  obtain ⟨l, hl, hx⟩ := mem_filterMap.mp h
  obtain ⟨e, he, hx⟩ := Option.bind_eq_some_iff.mp hx
  obtain ⟨p, hp, rfl⟩ := Option.map_eq_some_iff.mp hx
  have hlt : l < idx.leafTable.length := mem_range.mp hl
  have hget : (planeScores eng idx cfg q).getD l ⊥ =
      if Rejected idx cfg q l then ⊥ else ↑(eng.planeScore q l) := by
    rw [planeScores, getD_eq_getElem _ _ (by simpa using hlt), getElem_map, getElem_range, he]
    simp [hp]
  rw [hget]
  split
  case isTrue hr => exact iff_of_true rfl hr
  case isFalse hr => exact iff_of_false WithBot.coe_ne_bot hr

lemma sorted_descending (q : Vec) :
    (tableLeaves idx (eng.sortDesc (planeScores eng idx cfg q))).Pairwise fun x y =>
      (planeScores eng idx cfg q).getD y.1 ⊥ ≤ (planeScores eng idx cfg q).getD x.1 ⊥ := by
  have h := (eng.sortDesc_sorted (planeScores eng idx cfg q)).sublist
    (map_fst_tableLeaves_sublist idx _)
  exact pairwise_map.mp h

lemma sorted_split (q : Vec) :
    (tableLeaves idx (eng.sortDesc (planeScores eng idx cfg q))).filter
          (fun x => ¬ Rejected idx cfg q x.1) ++
        (tableLeaves idx (eng.sortDesc (planeScores eng idx cfg q))).filter
          (fun x => !decide (¬ Rejected idx cfg q x.1)) =
      tableLeaves idx (eng.sortDesc (planeScores eng idx cfg q)) := by
  refine filter_append_filter_not ((sorted_descending q).imp_of_mem fun {x y} hx hy hle hyr => ?_)
  have hx' := (sorted_perm eng idx cfg q).subset hx
  have hy' := (sorted_perm eng idx cfg q).subset hy
  rw [decide_eq_true_iff, ← score_eq_bot_iff hy'] at hyr
  rw [decide_eq_true_iff, ← score_eq_bot_iff hx']
  intro hbot
  exact hyr (le_bot_iff.mp (hle.trans hbot.le))

lemma sum_unrejected (q : Vec) :
    (((tableLeaves idx (eng.sortDesc (planeScores eng idx cfg q))).filter
        (fun x => ¬ Rejected idx cfg q x.1)).map fun x => x.2.pages).sum =
      (((validLeaves idx).filter fun x => ¬ Rejected idx cfg q x.1).map fun x => x.2.pages).sum :=
  ((((sorted_perm eng idx cfg q).filter _).map _).sum_eq)

variable {b : BatchQuery}

/-- The leaves of the table, those with the nearest centroids first. -/
def planeOrder (idx : Index s) (q : Vec) : List (ℕ × LeafCandidate) :=
  tableLeaves idx ((sortPairs ((range idx.leafTable.length).map fun l =>
    (sqDist (projectPca idx.pca.proj idx.pca.meanProj q) (idx.pca.leafCentroids.getD l []), l))).map
      (·.2))

lemma planeOrder_perm (q : Vec) : (planeOrder idx q).Perm (validLeaves idx) := by
  refine Perm.filterMap _ ?_
  have h := (perm_insertionSort (fun a b : ℚ × ℕ => toLex a ≤ toLex b)
    ((range idx.leafTable.length).map fun l =>
      (sqDist (projectPca idx.pca.proj idx.pca.meanProj q) (idx.pca.leafCentroids.getD l []), l))).map
        (·.2)
  rw [map_map] at h
  exact h.trans (by simp [Function.comp_def])

lemma not_rejected_of_mem {q : Vec} {x : ℕ × LeafCandidate}
    (h : x ∈ takeBudget (fun x => x.2.pages)
      (fun cum => decide (cfg.planePrePrune * planeTotal idx ≤ cum)) 0 (planeOrder idx q)) :
    ¬ Rejected idx cfg q x.1 := fun hr =>
  hr.2 (mem_map_of_mem h)

lemma exists_unrejected {q : Vec} (h : validLeaves idx ≠ []) :
    ∃ x ∈ validLeaves idx, ¬ Rejected idx cfg q x.1 := by
  have hne : planeOrder idx q ≠ [] := fun h0 => h (nil_perm.mp (h0 ▸ planeOrder_perm q))
  have hwalk : takeBudget (fun x => x.2.pages)
      (fun cum => decide (cfg.planePrePrune * planeTotal idx ≤ cum)) 0 (planeOrder idx q) ≠ [] :=
    takeBudget_ne_nil hne
  obtain ⟨x, hx⟩ := exists_mem_of_ne_nil _ hwalk
  exact ⟨x, (planeOrder_perm q).subset ((takeBudget_initial _ _ _ _).subset hx),
    not_rejected_of_mem hx⟩

lemma MaskFills.of_le (h : planeFraction eng cfg b.probeFraction ≤ cfg.planePrePrune) :
    MaskFills eng idx cfg b := by
  set walk := takeBudget (fun x : ℕ × LeafCandidate => x.2.pages)
    (fun cum => decide (cfg.planePrePrune * planeTotal idx ≤ cum)) 0 (planeOrder idx b.query) with hwalk
  have hunrej : ∀ x ∈ walk, ¬ Rejected idx cfg b.query x.1 := fun x hx => not_rejected_of_mem hx
  rcases enough_or_takeBudget_eq (fun x : ℕ × LeafCandidate => x.2.pages)
      (fun cum => decide (cfg.planePrePrune * planeTotal idx ≤ cum)) 0 (planeOrder idx b.query) with
    henough | hall
  · refine .inl ?_
    have hsub : walk.Sublist ((planeOrder idx b.query).filter fun x => ¬ Rejected idx cfg b.query x.1) := by
      have hpre : walk <+: planeOrder idx b.query := takeBudget_initial _ _ _ _
      have h := hpre.sublist.filter fun x => ¬ Rejected idx cfg b.query x.1
      rwa [filter_eq_self.mpr fun x hx => decide_eq_true (hunrej x hx)] at h
    have hsum : (walk.map fun x => x.2.pages).sum ≤
        (((validLeaves idx).filter fun x => ¬ Rejected idx cfg b.query x.1).map fun x => x.2.pages).sum :=
      calc (walk.map fun x => x.2.pages).sum
          ≤ (((planeOrder idx b.query).filter fun x : ℕ × LeafCandidate =>
              ¬ Rejected idx cfg b.query x.1).map fun x => x.2.pages).sum :=
            (hsub.map _).sum_le_sum fun _ _ => Nat.zero_le _
        _ = _ := (((planeOrder_perm b.query).filter _).map _).sum_eq
    refine PlaneReached.mono ?_ hsum
    rw [decide_eq_true_iff, zero_add, ← hwalk] at henough
    have hle : planeFraction eng cfg b.probeFraction * planeTotal idx ≤
        cfg.planePrePrune * planeTotal idx :=
      mul_le_mul_of_nonneg_right h (Nat.cast_nonneg _)
    show _ - (1 / 2 : ℚ) ≤ _
    linarith
  · refine .inr fun x hx => hunrej x ?_
    rw [hwalk, hall]
    exact (planeOrder_perm b.query).symm.subset hx

/-! ### The selection -/

lemma eq_of_prefix_of_sum {l l' : List (ℕ × LeafCandidate)} (hpre : l <+: l')
    (hpos : ∀ x ∈ l', 0 < x.2.pages)
    (hsum : (l'.map fun x => x.2.pages).sum ≤ (l.map fun x => x.2.pages).sum) : l = l' := by
  obtain ⟨r, rfl⟩ := hpre
  cases r with
  | nil => exact (append_nil l).symm
  | cons x r =>
    have hx := hpos x (mem_append_right l mem_cons_self)
    rw [map_append, sum_append, map_cons, sum_cons] at hsum
    omega

lemma MaskFills.unrejected (h : MaskFills eng idx cfg b) :
    ∀ x ∈ planeChosen eng idx cfg b.probeFraction b.query, ¬ Rejected idx cfg b.query x.1 := by
  intro x hx
  have hvalid : x ∈ validLeaves idx := (sorted_perm eng idx cfg b.query).subset
    ((takeBudget_initial _ _ _ _).subset hx)
  rcases h with hfills | hnone
  · rw [planeChosen, ← sorted_split, takeBudget_append_of_enough ?_
      (by rwa [zero_add, sum_unrejected, decide_eq_true_iff])] at hx
    · exact of_decide_eq_true (mem_filter.mp ((takeBudget_initial _ _ _ _).subset hx)).2
    · obtain ⟨y, hy, hyr⟩ := exists_unrejected (q := b.query) (ne_nil_of_mem hvalid)
      exact ne_nil_of_mem (mem_filter.mpr ⟨(sorted_perm eng idx cfg b.query).symm.subset hy,
        decide_eq_true hyr⟩)
  · exact hnone x hvalid

lemma exists_rejected (h : ¬ MaskFills eng idx cfg b) :
    ∃ x ∈ planeChosen eng idx cfg b.probeFraction b.query, Rejected idx cfg b.query x.1 := by
  rw [MaskFills, not_or] at h
  obtain ⟨hfills, hnone⟩ := h
  push Not at hnone
  obtain ⟨y, hy, hyr⟩ := hnone
  set rest := (tableLeaves idx (eng.sortDesc (planeScores eng idx cfg b.query))).filter
    (fun x => !decide (¬ Rejected idx cfg b.query x.1)) with hrest
  have hmem : y ∈ rest := mem_filter.mpr
    ⟨(sorted_perm eng idx cfg b.query).symm.subset hy, by simpa using hyr⟩
  have hne : takeBudget (fun x : ℕ × LeafCandidate => x.2.pages)
      (fun cum => decide (PlaneReached eng idx cfg b.probeFraction cum))
      (0 + (((tableLeaves idx (eng.sortDesc (planeScores eng idx cfg b.query))).filter
        fun x => ¬ Rejected idx cfg b.query x.1).map fun x => x.2.pages).sum) rest ≠ [] :=
    takeBudget_ne_nil (ne_nil_of_mem hmem)
  obtain ⟨x, hx⟩ := exists_mem_of_ne_nil _ hne
  refine ⟨x, ?_, by simpa using (mem_filter.mp ((takeBudget_initial _ _ _ _).subset hx)).2⟩
  rw [planeChosen, ← sorted_split, takeBudget_append_of_not_enough]
  · exact mem_append_right _ hx
  · intro m n hmn hm
    exact decide_eq_true ((of_decide_eq_true hm : PlaneReached eng idx cfg _ m).mono hmn)
  · rwa [zero_add, sum_unrejected, decide_eq_false_iff_not]

/-- For each query of a batch the plane selects the best leaves that the query's mask lets through
until they fill its budget, if and only if the mask lets through enough to fill it or rejects
nothing. -/
theorem planeSelects_iff_maskFills (hpos : ∀ e ∈ idx.leafTable, e.page ≠ none → 0 < e.pages)
    (bs : List BatchQuery) :
    (∀ b ∈ bs, PlaneSelects eng idx cfg b) ↔ ∀ b ∈ bs, MaskFills eng idx cfg b := by
  refine forall₂_congr fun b _ => ⟨fun h => ?_, fun h => ?_⟩
  · by_contra hfills
    obtain ⟨x, hx, hr⟩ := exists_rejected hfills
    exact h.unrejected x hx hr
  · have hpre : planeChosen eng idx cfg b.probeFraction b.query <+:
        tableLeaves idx (eng.sortDesc (planeScores eng idx cfg b.query)) := takeBudget_initial _ _ _ _
    have hperm := sorted_perm eng idx cfg b.query
    have hend := enough_or_takeBudget_eq (fun x : ℕ × LeafCandidate => x.2.pages)
      (fun cum => decide (PlaneReached eng idx cfg b.probeFraction cum)) 0
      (tableLeaves idx (eng.sortDesc (planeScores eng idx cfg b.query)))
    rw [zero_add, decide_eq_true_iff] at hend
    constructor
    case unrejected => exact h.unrejected
    case distinct =>
      have hnodup := (eng.sortDesc_perm (planeScores eng idx cfg b.query)).nodup_iff.mpr nodup_range
      exact hnodup.sublist ((hpre.sublist.map _).trans (map_fst_tableLeaves_sublist idx _))
    case descending => exact (sorted_descending b.query).sublist hpre.sublist
    case filled =>
      refine hend.imp id fun hall x hx _ => ?_
      rw [planeChosen, hall]
      exact hperm.symm.subset hx
    case exhaustive =>
      intro hprobe x hx
      have hvalid : ∀ y ∈ tableLeaves idx (eng.sortDesc (planeScores eng idx cfg b.query)),
          0 < y.2.pages := by
        intro y hy
        obtain ⟨l, -, hy⟩ := mem_filterMap.mp hy
        obtain ⟨e, he, hy⟩ := Option.bind_eq_some_iff.mp hy
        obtain ⟨p, hp, rfl⟩ := Option.map_eq_some_iff.mp hy
        exact hpos e (mem_of_getElem? he) (by simp [hp])
      have hall : planeChosen eng idx cfg b.probeFraction b.query =
          tableLeaves idx (eng.sortDesc (planeScores eng idx cfg b.query)) := by
        rcases hend with hreached | hall
        · refine eq_of_prefix_of_sum hpre hvalid ?_
          have htotal : ((tableLeaves idx (eng.sortDesc (planeScores eng idx cfg b.query))).map
              fun x => x.2.pages).sum = planeTotal idx := (hperm.map _).sum_eq
          rw [PlaneReached, planeFraction, if_pos hprobe, one_mul] at hreached
          rw [htotal]
          have hlt : (planeTotal idx : ℚ) <
              ((planeChosen eng idx cfg b.probeFraction b.query).map fun x => x.2.pages).sum + 1 := by
            rw [planeChosen]
            linarith
          exact Nat.lt_succ_iff.mp (by exact_mod_cast hlt)
        · exact hall
      rw [hall]
      exact hperm.symm.subset hx

end

section Examples

/-- A root child whose node is on page `p`. -/
def innerChild (p : ℕ) : RootChild := ⟨some p, 1, false, []⟩

def leafNode (ids : List ℕ) : Node := ⟨ids.map fun l => ⟨some l, 1, true, [], .zero⟩, 1⟩

/-- Four leaves of one page below two nodes, with their centroids on a line, and a plane. -/
def lineIndex : Index bareSchema where
  file :=
    { pages := fun p =>
        if p = 3 then .part (.node ⟨[⟨some 8, 1, false, [], .zero⟩, ⟨some 9, 1, false, [], .zero⟩], 1⟩) 0
        else if p = 8 then .part (.node (leafNode [0, 1])) 0
        else if p = 9 then .part (.node (leafNode [2, 3])) 0
        else if 4 ≤ p ∧ p < 8 then .part (.leaf (plainLeaf [bareRow p])) 0 else .zero
      numPages := 10
      log := [] }
  super := ⟨0, ⟨some 3, 1⟩, 2, 4, 10, none, 0, 2, 1, .invalid, .invalid, .invalid, .invalid, .invalid,
    .invalid⟩
  manifest := ⟨1, 2, 2, 2, 8, 4, 4, 1⟩
  nVectorsDisk := 4
  leafTable := [⟨some 4, 1⟩, ⟨some 5, 1⟩, ⟨some 6, 1⟩, ⟨some 7, 1⟩]
  rootChildren := [innerChild 8, innerChild 9]
  pca := ⟨1, [[1]], [0], [[1 / 2], [5 / 2]], [[0], [1], [2], [3]], [some 0, some 2]⟩
  plane := true

def lineIndexEngine : SearchEngine bareSchema := tableEngine bareSchema none (· + 1) fun _ => 0

/-- A mask of half of the pages and half of the pages to probe. -/
theorem planeSelects_half :
    PlaneSelects lineIndexEngine lineIndex { planePrePrune := 1 / 2 } ⟨[0], [], 1 / 2⟩ :=
  (planeSelects_iff_maskFills (by decide) [⟨[0], [], 1 / 2⟩]).mpr
    (fun b hb => by
      obtain rfl := mem_singleton.mp hb
      exact MaskFills.of_le (by decide +kernel)) _ (mem_singleton_self _)

/-- With the default settings, a quarter for the mask and half to probe, the mask lets one leaf
through and two are selected. -/
theorem rejected_selected : ¬ ∀ b ∈ [(⟨[0], [], 1 / 2⟩ : BatchQuery)],
    PlaneSelects lineIndexEngine lineIndex {} b := by
  intro h
  have hchosen : ((1, ⟨5, 1⟩) : ℕ × LeafCandidate) ∈ planeChosen lineIndexEngine lineIndex {} (1 / 2) [0] := by
    decide +kernel
  exact (h _ (mem_singleton_self _)).unrejected _ hchosen (by decide +kernel)

end Examples

end SextantTree
