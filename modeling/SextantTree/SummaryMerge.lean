import SextantTree.SummarySound

/-!
Merging summaries up the tree. Ranges are joined exactly; filters are or-ed bit by bit under
the larger of the two bit counts, which is a join only where the counts agree or the
smaller filter's values happen to be set at the larger count too.
-/

namespace SextantTree

open FilterHash

section Sections

variable {α : Type}

lemma lookup_eq_entryOf {l : List (ℕ × α)} (hnd : (l.map Prod.fst).Nodup) (c : ℕ) :
    l.lookup c = entryOf l c := by
  cases h : l.lookup c with
  | none =>
    rw [List.lookup_eq_none_iff] at h
    symm
    apply entryOf_eq_none
    intro e he heq
    simpa [heq] using h e he
  | some a =>
    obtain ⟨l₁, l₂, rfl, -⟩ := List.lookup_eq_some_iff.mp h
    exact (entryOf_eq_some hnd (by simp)).symm

lemma keys_mergeSection (join : α → α → α) (dst src : List (ℕ × α)) :
    (mergeSection join dst src).map Prod.fst = dst.map Prod.fst := by
  simp [mergeSection, Function.comp_def]

lemma entryOf_mergeSection {join : α → α → α} {dst src : List (ℕ × α)} {c : ℕ}
    (hnd : (src.map Prod.fst).Nodup) :
    entryOf (mergeSection join dst src) c =
      (entryOf dst c).map fun d => (entryOf src c).elim d (join d) := by
  induction dst using List.reverseRecOn with
  | nil => rfl
  | append_singleton dst e ih =>
    have hstep : mergeSection join (dst ++ [e]) src = mergeSection join dst src ++
        [(e.1, (src.lookup e.1).elim e.2 (join e.2))] := by simp [mergeSection]
    rw [hstep, entryOf_concat, entryOf_concat, ih]
    split
    next hc => rw [← hc, lookup_eq_entryOf hnd, Option.map_some]
    · rfl

lemma entryOf_isSome_iff {l : List (ℕ × α)} {c : ℕ} :
    (entryOf l c).isSome = true ↔ c ∈ l.map Prod.fst := by
  induction l using List.reverseRecOn with
  | nil => simp [entryOf]
  | append_singleton l e ih =>
    rw [entryOf_concat]
    split
    next hc => simp [← hc]
    next hc =>
      have : ¬ c = e.1 := fun h => hc h.symm
      simp [ih, this]

end Sections

/-! ## Shape -/

/-- A summary with one entry for each column of the schema that has one. -/
structure Shaped (s : Schema) (sum : Summary) : Prop where
  numeric : sum.numeric.map Prod.fst = (s.sectionOf (·.isNumeric) id).map Prod.fst
  strings : sum.strings.map Prod.fst = (s.sectionOf (· == .string) id).map Prod.fst
  sets : sum.sets.map Prod.fst = (s.sectionOf (· == .set) id).map Prod.fst

namespace Shaped

variable {s : Schema} {a b : Summary}

lemma write (buf : Summary) (rows : List (FilterRow s)) :
    Shaped s (writeFilterSummary buf rows) := by
  constructor <;> simp only [writeFilterSummary] <;> exact keys_sectionOf _ _ _

lemma empty (s : Schema) : Shaped s (initEmptySummary s) := by
  constructor <;> simp only [initEmptySummary] <;> exact keys_sectionOf _ _ _

lemma merge (ha : Shaped s a) : Shaped s (mergeFilterSummary a b) where
  numeric := (keys_mergeSection _ _ _).trans ha.numeric
  strings := (keys_mergeSection _ _ _).trans ha.strings
  sets := (keys_mergeSection _ _ _).trans ha.sets

lemma nodup_numeric (hs : s.Addressable) (h : Shaped s a) : (a.numeric.map Prod.fst).Nodup := by
  rw [h.numeric]
  exact nodup_sectionOf _ hs _

lemma nodup_strings (hs : s.Addressable) (h : Shaped s a) : (a.strings.map Prod.fst).Nodup := by
  rw [h.strings]
  exact nodup_sectionOf _ hs _

lemma nodup_sets (hs : s.Addressable) (h : Shaped s a) : (a.sets.map Prod.fst).Nodup := by
  rw [h.sets]
  exact nodup_sectionOf _ hs _

end Shaped

lemma entryOf_pair {α : Type} {l₁ l₂ : List (ℕ × α)} (h : l₁.map Prod.fst = l₂.map Prod.fst)
    (c : ℕ) : (entryOf l₁ c = none ∧ entryOf l₂ c = none) ∨
      ∃ x y, entryOf l₁ c = some x ∧ entryOf l₂ c = some y := by
  have hiff : (entryOf l₁ c).isSome = true ↔ (entryOf l₂ c).isSome = true := by
    rw [entryOf_isSome_iff, entryOf_isSome_iff, h]
  cases h₁ : entryOf l₁ c <;> cases h₂ : entryOf l₂ c <;> simp [h₁, h₂] at hiff ⊢

/-- The summaries that exist: written for a leaf, initialised, or merged from such. -/
inductive Written (s : Schema) : Summary → Prop
  | write (rows : List (FilterRow s)) : Written s (writeFilterSummary .zero rows)
  | empty : Written s (initEmptySummary s)
  | merge {a b : Summary} : Written s a → Written s b → Written s (mergeFilterSummary a b)

lemma Written.shaped {s : Schema} {a : Summary} (h : Written s a) : Shaped s a := by
  induction h with
  | write rows => exact Shaped.write _ rows
  | empty => exact Shaped.empty s
  | merge _ _ ha _ => exact ha.merge

/-! ## Merging filters -/

/-- The filter of a column, the one without bits where there is none. -/
def bloomOf (l : List (ℕ × Bloom)) (c : ℕ) : Bloom := (entryOf l c).getD ⟨0, 0⟩

/-- Neither filter loses a string when the two are or-ed under the larger bit count. -/
def Joinable (a b : Bloom) : Prop :=
  ∀ q : Bytes, Bloom.Widens bloomProbes a b (filterHash q) ∧
    Bloom.Widens bloomProbes b a (filterHash q)

lemma joinable_of_size_eq {a b : Bloom} (h : a.size = b.size) : Joinable a b :=
  fun _ => ⟨fun hlt => absurd hlt (by omega), fun hlt => absurd hlt (by omega)⟩

/-- For every string and set column, the two filters can be or-ed. -/
def Compatible (s : Schema) (a b : Summary) : Prop :=
  ∀ c col, s.columns[c]? = some col →
    (col.type = .string → Joinable (bloomOf a.strings c) (bloomOf b.strings c)) ∧
    (col.type = .set → Joinable (bloomOf a.sets c) (bloomOf b.sets c))

lemma bloomOf_merge {A B : List (ℕ × Bloom)} (h : A.map Prod.fst = B.map Prod.fst)
    (hnd : (B.map Prod.fst).Nodup) (c : ℕ) :
    bloomOf (mergeSection Bloom.union A B) c = (bloomOf A c).union (bloomOf B c) := by
  unfold bloomOf
  rw [entryOf_mergeSection hnd]
  rcases entryOf_pair h c with ⟨h₁, h₂⟩ | ⟨x, y, h₁, h₂⟩
  · simp [h₁, h₂, Bloom.union]
  · simp [h₁, h₂]

lemma stringMayMatch_mono {a b : Bloom} {p : Predicate}
    (h : ∀ q, bloomCheck a (filterHash q) = true → bloomCheck b (filterHash q) = true)
    (ha : stringMayMatch a p = true) : stringMayMatch b p = true := by
  unfold stringMayMatch anyMayMatch at *
  cases hop : p.op <;> simp only [hop, Bool.or_eq_true, List.any_eq_true] at ha ⊢
  case eq => exact h _ ha
  case inList =>
    rcases ha with ⟨q, hq, hb⟩ | hempty
    · exact Or.inl ⟨q, hq, h q hb⟩
    · exact Or.inr hempty

lemma setMayMatch_mono {a b : Bloom} {p : Predicate}
    (h : ∀ q, bloomCheck a (filterHash q) = true → bloomCheck b (filterHash q) = true)
    (ha : setMayMatch a p = true) : setMayMatch b p = true := by
  unfold setMayMatch anyMayMatch at *
  cases hop : p.op <;>
    simp only [hop, Bool.or_eq_true, List.any_eq_true, List.all_eq_true] at ha ⊢
  case contains => exact h _ ha
  case containsAny =>
    rcases ha with ⟨q, hq, hb⟩ | hempty
    · exact Or.inl ⟨q, hq, h q hb⟩
    · exact Or.inr hempty
  case containsAll => exact fun q hq => h q (ha q hq)

/-! ## Merging ranges -/

/-- `r` lies inside `r'`. -/
def NumRange.Within (r r' : NumRange) : Prop := r'.min ≤ r.min ∧ r.max ≤ r'.max

lemma NumRange.within_merge_left (d s : NumRange) : d.Within (d.merge s) :=
  ⟨min_le_left _ _, le_max_left _ _⟩

lemma NumRange.within_merge_right (d s : NumRange) : s.Within (d.merge s) :=
  ⟨min_le_right _ _, le_max_right _ _⟩

lemma rangeMayMatch_mono {r r' : NumRange} {p : Predicate} (h : r.Within r')
    (hr : rangeMayMatch r p = true) : rangeMayMatch r' p = true := by
  obtain ⟨hmin, hmax⟩ := h
  unfold rangeMayMatch at *
  cases hop : p.op <;> simp only [hop, Bool.not_eq_true', Bool.or_eq_false_iff,
    decide_eq_false_iff_not, not_lt, not_le, ge_iff_le, gt_iff_lt] at hr ⊢
  case eq => exact ⟨hmin.trans hr.1, hr.2.trans hmax⟩
  case lt => exact hmin.trans_lt hr
  case le => exact hmin.trans hr
  case gt => exact hr.trans_le hmax
  case ge => exact hr.trans hmax
  case between => exact ⟨hr.1.trans hmax, hmin.trans hr.2⟩

section Merge

variable {s : Schema} {a b : Summary} (π : Platform)

lemma numeric_merge (hs : s.Addressable) (ha : Shaped s a) (hb : Shaped s b) (c : ℕ) :
    (entryOf a.numeric c = none ∧ entryOf b.numeric c = none ∧
      entryOf (mergeFilterSummary a b).numeric c = none) ∨
    ∃ x y m, entryOf a.numeric c = some x ∧ entryOf b.numeric c = some y ∧
      entryOf (mergeFilterSummary a b).numeric c = some m ∧ x.Within m ∧ y.Within m := by
  simp only [mergeFilterSummary]
  rw [entryOf_mergeSection (hb.nodup_numeric hs)]
  rcases entryOf_pair (ha.numeric.trans hb.numeric.symm) c with ⟨h₁, h₂⟩ | ⟨x, y, h₁, h₂⟩
  · left
    simp [h₁, h₂]
  · right
    exact ⟨x, y, x.merge y, h₁, h₂, by simp [h₁, h₂], x.within_merge_left y,
      x.within_merge_right y⟩

lemma overlaps_merge (hs : s.Addressable) (ha : Shaped s a) (hb : Shaped s b) {c : ℕ} {lo hi : ℚ}
    (h : overlaps a c lo hi = true ∨ overlaps b c lo hi = true) :
    overlaps (mergeFilterSummary a b) c lo hi = true := by
  unfold overlaps at *
  rcases numeric_merge hs ha hb c with ⟨-, -, h₃⟩ | ⟨x, y, m, h₁, h₂, h₃, hx, hy⟩
  · simp [h₃]
  · simp only [h₁, h₂, h₃, Option.elim_some, Bool.not_eq_true', Bool.or_eq_false_iff,
      decide_eq_false_iff_not, not_lt, gt_iff_lt] at h ⊢
    rcases h with h | h
    · exact ⟨h.1.trans hx.2, hx.1.trans h.2⟩
    · exact ⟨h.1.trans hy.2, hy.1.trans h.2⟩

lemma bloomOf_strings_merge (hs : s.Addressable) (ha : Shaped s a) (hb : Shaped s b) (c : ℕ) :
    bloomOf (mergeFilterSummary a b).strings c =
      (bloomOf a.strings c).union (bloomOf b.strings c) :=
  bloomOf_merge (ha.strings.trans hb.strings.symm) (hb.nodup_strings hs) c

lemma bloomOf_sets_merge (hs : s.Addressable) (ha : Shaped s a) (hb : Shaped s b) (c : ℕ) :
    bloomOf (mergeFilterSummary a b).sets c = (bloomOf a.sets c).union (bloomOf b.sets c) :=
  bloomOf_merge (ha.sets.trans hb.sets.symm) (hb.nodup_sets hs) c

lemma columnMayMatch_merge (hs : s.Addressable) (ha : Shaped s a) (hb : Shaped s b) (hcomp : Compatible s a b)
    {c : ℕ} {col : FilterColumn} {p : Predicate} (hcol : s.columns[c]? = some col)
    (h : columnMayMatch a c p col.type = true ∨ columnMayMatch b c p col.type = true) :
    columnMayMatch (mergeFilterSummary a b) c p col.type = true := by
  obtain ⟨hstr, hset⟩ := hcomp c col hcol
  have hnum : ((entryOf a.numeric c).elim true fun rg => rangeMayMatch rg p) = true ∨
      ((entryOf b.numeric c).elim true fun rg => rangeMayMatch rg p) = true →
      ((entryOf (mergeFilterSummary a b).numeric c).elim true fun rg => rangeMayMatch rg p) =
        true := by
    intro h
    rcases numeric_merge hs ha hb c with ⟨-, -, h₃⟩ | ⟨x, y, m, h₁, h₂, h₃, hx, hy⟩
    · simp [h₃]
    · simp only [h₁, h₂, h₃, Option.elim_some] at h ⊢
      rcases h with h | h
      · exact rangeMayMatch_mono hx h
      · exact rangeMayMatch_mono hy h
  unfold columnMayMatch at *
  cases hty : col.type <;> simp only [hty] at h ⊢
  case int32 => exact hnum h
  case int64 => exact hnum h
  case float => exact hnum h
  case string =>
    have hj := hstr hty
    change stringMayMatch (bloomOf a.strings c) p = true ∨
      stringMayMatch (bloomOf b.strings c) p = true at h
    change stringMayMatch (bloomOf (mergeFilterSummary a b).strings c) p = true
    rw [bloomOf_strings_merge hs ha hb]
    rcases h with h | h
    · exact stringMayMatch_mono
        (fun q hq => (Bloom.union_upper_iff bloomProbes).mpr (hj q) (Or.inl hq)) h
    · exact stringMayMatch_mono
        (fun q hq => (Bloom.union_upper_iff bloomProbes).mpr (hj q) (Or.inr hq)) h
  case set =>
    have hj := hset hty
    change setMayMatch (bloomOf a.sets c) p = true ∨ setMayMatch (bloomOf b.sets c) p = true at h
    change setMayMatch (bloomOf (mergeFilterSummary a b).sets c) p = true
    rw [bloomOf_sets_merge hs ha hb]
    rcases h with h | h
    · exact setMayMatch_mono
        (fun q hq => (Bloom.union_upper_iff bloomProbes).mpr (hj q) (Or.inl hq)) h
    · exact setMayMatch_mono
        (fun q hq => (Bloom.union_upper_iff bloomProbes).mpr (hj q) (Or.inr hq)) h

lemma predMayMatch_merge (hs : s.Addressable) (ha : Shaped s a) (hb : Shaped s b) (hcomp : Compatible s a b)
    {r : Resolved} (h : predMayMatch π s a r = true ∨ predMayMatch π s b r = true) :
    predMayMatch π s (mergeFilterSummary a b) r = true := by
  unfold predMayMatch at *
  split at h <;> rename_i hnull
  · simp [hnull]
  rw [if_neg hnull]
  split at h <;> rename_i hgeo
  · rw [if_pos hgeo]
    simp only [Bool.and_eq_true] at h ⊢
    constructor
    · exact overlaps_merge hs ha hb (h.imp And.left And.left)
    · cases hlng : r.lng with
      | none => rfl
      | some lng =>
        simp only [hlng, Option.elim_some, Bool.or_eq_true] at h ⊢
        rcases h with ⟨-, h | h⟩ | ⟨-, h | h⟩
        · exact Or.inl h
        · exact Or.inr (overlaps_merge hs ha hb (Or.inl h))
        · exact Or.inl h
        · exact Or.inr (overlaps_merge hs ha hb (Or.inr h))
  · rw [if_neg hgeo]
    cases hcol : s.columns[r.col]? with
    | none => rfl
    | some col =>
      simp only [hcol, Option.elim_some] at h ⊢
      exact columnMayMatch_merge hs ha hb hcomp hcol h

/-- The predicate that asks a filter for one string. -/
def askString (c : ℕ) (q : Bytes) : Resolved := ⟨{ column := "", op := .eq, strValue := q }, c, none⟩

def askSet (c : ℕ) (q : Bytes) : Resolved :=
  ⟨{ column := "", op := .contains, strValue := q }, c, none⟩

lemma summaryMayMatch_askString {c : ℕ} {col : FilterColumn} (hcol : s.columns[c]? = some col)
    (hty : col.type = .string) (sum : Summary) (q : Bytes) :
    summaryMayMatch π s sum [askString c q] = bloomCheck (bloomOf sum.strings c) (filterHash q) := by
  have hne : s.columns ≠ [] := by
    intro h
    simp [h] at hcol
  rw [Bool.eq_iff_iff, summaryMayMatch_iff π hne]
  simp [predMayMatch, askString, PredicateOp.isGeo, hcol, columnMayMatch, hty, stringMayMatch,
    bloomOf]

lemma summaryMayMatch_askSet {c : ℕ} {col : FilterColumn} (hcol : s.columns[c]? = some col)
    (hty : col.type = .set) (sum : Summary) (q : Bytes) :
    summaryMayMatch π s sum [askSet c q] = bloomCheck (bloomOf sum.sets c) (filterHash q) := by
  have hne : s.columns ≠ [] := by
    intro h
    simp [h] at hcol
  rw [Bool.eq_iff_iff, summaryMayMatch_iff π hne]
  simp [predMayMatch, askSet, PredicateOp.isGeo, hcol, columnMayMatch, hty, setMayMatch, bloomOf]

/-- **When a merge is an upper bound of its two inputs.** Where one byte tells the columns apart,
every predicate list either side may match is one the merge may match, exactly when in every
string and set column the two filters have one bit count or the smaller one's strings are set at
the larger count. -/
theorem merge_upper_bound_iff (hs : s.Addressable) (ha : Written s a) (hb : Written s b) :
    (∀ rs : List Resolved,
        summaryMayMatch π s a rs = true ∨ summaryMayMatch π s b rs = true →
          summaryMayMatch π s (mergeFilterSummary a b) rs = true) ↔ Compatible s a b := by
  constructor
  · intro h c col hcol
    constructor
    · intro hty q
      have := h [askString c q]
      rw [summaryMayMatch_askString π hcol hty, summaryMayMatch_askString π hcol hty,
        summaryMayMatch_askString π hcol hty, bloomOf_strings_merge hs ha.shaped hb.shaped] at this
      exact (Bloom.union_upper_iff bloomProbes).mp this
    · intro hty q
      have := h [askSet c q]
      rw [summaryMayMatch_askSet π hcol hty, summaryMayMatch_askSet π hcol hty,
        summaryMayMatch_askSet π hcol hty, bloomOf_sets_merge hs ha.shaped hb.shaped] at this
      exact (Bloom.union_upper_iff bloomProbes).mp this
  · intro hcomp rs h
    by_cases hne : s.columns = []
    · simp [summaryMayMatch, Schema.summarySize, hne]
    · rw [summaryMayMatch_iff π hne, summaryMayMatch_iff π hne] at h
      rw [summaryMayMatch_iff π hne]
      intro r hr
      exact predMayMatch_merge π hs ha.shaped hb.shaped hcomp (h.imp (· r hr) (· r hr))

end Merge

section Examples

def tagSchema : Schema := { columns := [{ name := "tag", type := .string }] }

def tagRow (q : Bytes) : FilterRow tagSchema := ⟨[some (.string q)], .cons rfl .nil⟩

def tagSummary (tags : List Bytes) : Summary := writeFilterSummary .zero (tags.map tagRow)

/-- Two leaves with one tag each: both filters have 16 bits, and the tag of the first is
found in the merge. -/
theorem merge_upper_bound_single :
    summaryMayMatch saturating tagSchema (tagSummary [[97]]) [askString 0 [97]] = true ∧
      summaryMayMatch saturating tagSchema (mergeFilterSummary (tagSummary [[97]])
        (tagSummary [[98]])) [askString 0 [97]] = true := by
  have hmay : summaryMayMatch saturating tagSchema (tagSummary [[97]]) [askString 0 [97]] = true := by
    decide +kernel
  refine ⟨hmay, (merge_upper_bound_iff saturating (by decide) (.write _) (.write _)).mpr ?_ _
    (Or.inl hmay)⟩
  intro c col hcol
  match c with
  | 0 =>
    cases hcol
    exact ⟨fun _ => joinable_of_size_eq (by decide +kernel), fun h => by cases h⟩
  | c + 1 => cases hcol

/-- One tag against two: 16 bits are read as 24, and the tag of the first leaf is lost. -/
theorem merge_loses_tag :
    Written tagSchema (tagSummary [[97]]) ∧ Written tagSchema (tagSummary [[98], [99]]) ∧
      summaryMayMatch saturating tagSchema (tagSummary [[97]]) [askString 0 [97]] = true ∧
      summaryMayMatch saturating tagSchema (mergeFilterSummary (tagSummary [[97]])
        (tagSummary [[98], [99]])) [askString 0 [97]] = false :=
  ⟨.write _, .write _, by decide +kernel, by decide +kernel⟩

end Examples

end SextantTree
