import SextantTree.CardinalityMass

/-!
Tables that are fed and folded together in any grouping, and what a column of the last one says:
without overflow how often each value was added, up to the top of the counters, and always how many
numbers there were, if none were lost.
-/

namespace SextantTree.Cardinality

open SatCounter FilterHash

variable {A : CardinalityPlatform} {s : Schema} {spec : Option CardinalitySpec}
  {col dst src : ColumnCardinality} {t u : CardinalityTable}

/-- A table by how it came about. -/
inductive Fold
  | init (nVectors : UInt64) (cap : ℕ)
  | addString (b : Fold) (c : ℕ) (val : Bytes)
  | addSet (b : Fold) (c : ℕ) (set : CardinalityTable.SetColumn) (row : ℕ)
  | addNumeric (b : Fold) (c : ℕ) (v : UInt64)
  | merge (dst src : Fold)

namespace Fold

/-- The table, for one schema and one configuration. -/
def eval (A : CardinalityPlatform) (s : Schema) (spec : Option CardinalitySpec) :
    Fold → Except String CardinalityTable
  | init n cap => CardinalityTable.init s n cap spec
  | addString b c val => (b.eval A s spec).map fun t => t.addString c val
  | addSet b c set row => (b.eval A s spec).map fun t => t.addSet c set row
  | addNumeric b c v => (b.eval A s spec).map fun t => t.addNumeric A c v
  | merge dst src =>
    match dst.eval A s spec, src.eval A s spec with
    | .ok t, .ok u => .ok (t.mergeFrom A u)
    | .error e, _ => .error e
    | _, .error e => .error e

def cap : Fold → ℕ
  | init _ cap => cap
  | addString b _ _ | addSet b _ _ _ | addNumeric b _ _ => b.cap
  | merge dst _ => dst.cap

/-- The hashes that were added to a column of the schema. -/
def hashes (c : ℕ) : Fold → List UInt32
  | init _ _ => []
  | addString b c' val => if c' = c then b.hashes c ++ [filterHash val] else b.hashes c
  | addSet b c' set row =>
    if c' = c then b.hashes c ++ (set.row row).map filterHash else b.hashes c
  | addNumeric b _ _ => b.hashes c
  | merge dst src => dst.hashes c ++ src.hashes c

/-- The numbers that were added to a column of the schema. -/
def numbers (c : ℕ) : Fold → List UInt64
  | init _ _ => []
  | addString b _ _ | addSet b _ _ _ => b.numbers c
  | addNumeric b c' v => if c' = c then b.numbers c ++ [v] else b.numbers c
  | merge dst src => dst.numbers c ++ src.numbers c

/-- The tables that went into it, itself among them. -/
def parts : Fold → List Fold
  | init n cap => [init n cap]
  | addString b c val => addString b c val :: b.parts
  | addSet b c set row => addSet b c set row :: b.parts
  | addNumeric b c v => addNumeric b c v :: b.parts
  | merge dst src => merge dst src :: (dst.parts ++ src.parts)

/-- All that was added, in one table after what is there. -/
def serialOn (acc : Fold) : Fold → Fold
  | init _ _ => acc
  | addString b c val => addString (acc.serialOn b) c val
  | addSet b c set row => addSet (acc.serialOn b) c set row
  | addNumeric b c v => addNumeric (acc.serialOn b) c v
  | merge dst src => (acc.serialOn dst).serialOn src

def serial (cap : ℕ) (b : Fold) : Fold := (init 0 cap).serialOn b

/-- One column of the table, from what it is at first. -/
def column (A : CardinalityPlatform) (c : ℕ) (col₀ : ColumnCardinality) :
    Fold → ColumnCardinality
  | init _ _ => col₀
  | addString b c' val =>
    if c' = c then addHashes b.cap [filterHash val] (b.column A c col₀) else b.column A c col₀
  | addSet b c' set row =>
    if c' = c then addHashes b.cap ((set.row row).map filterHash) (b.column A c col₀)
    else b.column A c col₀
  | addNumeric b c' v =>
    if c' = c then addNumericColumn A b.cap v (b.column A c col₀) else b.column A c col₀
  | merge dst src =>
    evaluateColumn A (mergeColumn A dst.cap (dst.column A c col₀) (src.column A c col₀))

end Fold

/-! Columns of a table. -/

namespace CardinalityTable

lemma places_lt (cols : List FilterColumn) (n : ℕ) :
    ∀ c ci : ℕ, (places cols n)[c]?.join = some ci → n ≤ ci := by
  induction cols generalizing n with
  | nil => simp [places]
  | cons col cols ih =>
    intro c ci h
    simp only [places] at h
    split_ifs at h <;> cases c with
    | zero => simp at h; try omega
    | succ c =>
      have := ih _ c ci (by simpa using h)
      omega

lemma places_inj (cols : List FilterColumn) (n : ℕ) :
    ∀ c d ci : ℕ, (places cols n)[c]?.join = some ci → (places cols n)[d]?.join = some ci →
      c = d := by
  induction cols generalizing n with
  | nil => simp [places]
  | cons col cols ih =>
    intro c d ci hc hd
    simp only [places] at hc hd
    split_ifs at hc hd
    · cases c with
      | zero =>
        cases d with
        | zero => rfl
        | succ d =>
          have := places_lt cols (n + 1) d ci (by simpa using hd)
          simp at hc
          omega
      | succ c =>
        cases d with
        | zero =>
          have := places_lt cols (n + 1) c ci (by simpa using hc)
          simp at hd
          omega
        | succ d => exact congrArg _ (ih (n + 1) c d ci (by simpa using hc) (by simpa using hd))
    · cases c with
      | zero => simp at hc
      | succ c =>
        cases d with
        | zero => simp at hd
        | succ d => exact congrArg _ (ih n c d ci (by simpa using hc) (by simpa using hd))

def LaidOut (s : Schema) (t : CardinalityTable) : Prop := t.colToIdx = places s.columns 0

@[simp] lemma place_modify (t : CardinalityTable) (c d : ℕ)
    (f : ColumnCardinality → ColumnCardinality) : (t.modify c f).place d = t.place d := by
  unfold modify
  split <;> rfl

@[simp] lemma cap_modify (t : CardinalityTable) (c : ℕ)
    (f : ColumnCardinality → ColumnCardinality) : (t.modify c f).cap = t.cap := by
  unfold modify
  split <;> rfl

lemma LaidOut.modify (h : LaidOut s t) (c : ℕ) (f : ColumnCardinality → ColumnCardinality) :
    LaidOut s (t.modify c f) := by
  unfold CardinalityTable.modify
  split
  · exact h
  · exact h

lemma column_modify (h : LaidOut s t) (c d : ℕ) (f : ColumnCardinality → ColumnCardinality) :
    (t.modify c f).column d = if c = d then (t.column d).map f else t.column d := by
  unfold column
  rw [place_modify]
  cases hd : t.place d with
  | none => simp
  | some di =>
    simp only [Option.bind_some]
    unfold CardinalityTable.modify
    split
    · rename_i ci hci
      by_cases hcd : c = d
      · subst hcd
        rw [hd] at hci
        obtain rfl := Option.some.inj hci
        simp
      · have hne : ci ≠ di := by
          rintro rfl
          unfold place at hci hd
          rw [h] at hci hd
          exact hcd (places_inj _ _ _ _ _ hci hd)
        simp [hcd, hne]
    · rename_i hnone
      have hcd : c ≠ d := by
        rintro rfl
        rw [hd] at hnone
        cases hnone
      simp [hcd]

lemma column_mergeFrom (ht : LaidOut s t) (hu : LaidOut s u) (c : ℕ)
    (hsome : (t.column c).isSome = (u.column c).isSome) :
    (t.mergeFrom A u).column c = (t.column c).bind fun dst => (u.column c).map fun src =>
      evaluateColumn A (mergeColumn A t.cap dst src) := by
  have hplace : u.place c = t.place c := by
    unfold place
    rw [ht, hu]
  unfold column at hsome ⊢
  rw [hplace] at hsome ⊢
  have hp : (t.mergeFrom A u).place c = t.place c := rfl
  rw [hp]
  cases hc : t.place c with
  | none => simp
  | some ci =>
    rw [hc] at hsome
    simp only [Option.bind_some] at hsome ⊢
    simp only [mergeFrom, evaluateAuto, List.getElem?_map, List.getElem?_zipIdx]
    cases hd : t.columns[ci]? with
    | none => simp
    | some d =>
      cases he : u.columns[ci]? with
      | none => simp [hd, he] at hsome
      | some e => simp [he]

/-! New tables. -/

def Fresh (col : ColumnCardinality) : Prop :=
  ∃ isNumeric mode, col = { isNumeric := isNumeric, mode := mode }

/-- Two tables with the same columns in the same places. -/
def SameColumns (t u : CardinalityTable) : Prop :=
  t.columns = u.columns ∧ t.colToIdx = u.colToIdx

lemma SameColumns.modify (h : SameColumns t u) (c : ℕ)
    (f : ColumnCardinality → ColumnCardinality) : SameColumns (t.modify c f) (u.modify c f) := by
  have hplace : u.place c = t.place c := by simp [place, h.2]
  unfold CardinalityTable.modify
  rw [hplace]
  split
  · exact ⟨congrArg (List.modify · _ f) h.1, h.2⟩
  · exact h

lemma setModes_same (names : List (String × CardinalityMode)) (h : SameColumns t u)
    {r : CardinalityTable} (hr : setModes s names t = .ok r) :
    ∃ r', setModes s names u = .ok r' ∧ SameColumns r r' := by
  induction names generalizing t u with
  | nil =>
    obtain rfl := Except.ok.inj hr
    exact ⟨u, rfl, h⟩
  | cons e names ih =>
    obtain ⟨name, mode⟩ := e
    unfold setModes at hr ⊢
    split at hr
    · exact ih (h.modify _ _) hr
    · cases hr

lemma setModes_spec (names : List (String × CardinalityMode)) (hl : LaidOut s t)
    (hf : ∀ c col, t.column c = some col → Fresh col) {r : CardinalityTable}
    (hr : setModes s names t = .ok r) :
    LaidOut s r ∧ r.cap = t.cap ∧ ∀ c col, r.column c = some col → Fresh col := by
  induction names generalizing t with
  | nil =>
    obtain rfl := Except.ok.inj hr
    exact ⟨hl, rfl, hf⟩
  | cons e names ih =>
    obtain ⟨name, mode⟩ := e
    unfold setModes at hr
    split at hr
    · rename_i c hc
      obtain ⟨hlr, hcap, hfr⟩ := ih (hl.modify c _) (by
        intro d col hd
        rw [column_modify hl] at hd
        split_ifs at hd
        · obtain ⟨col', hcol', rfl⟩ := Option.map_eq_some_iff.1 hd
          obtain ⟨n, m, rfl⟩ := hf d col' hcol'
          exact ⟨n, mode, rfl⟩
        · exact hf d col hd) hr
      exact ⟨hlr, hcap.trans (cap_modify _ _ _), hfr⟩
    · cases hr

lemma fresh_layout (n : UInt64) (cap : ℕ) (mode : CardinalityMode) {c : ℕ}
    (h : (layout s n cap mode).column c = some col) : Fresh col := by
  obtain ⟨ci, -, hci⟩ := Option.bind_eq_some_iff.1 h
  have hmem := List.mem_of_getElem? hci
  obtain ⟨fc, -, rfl⟩ := List.mem_map.1 hmem
  exact ⟨fc.type.isNumeric, mode, rfl⟩

lemma init_spec {n : UInt64} {cap : ℕ} (h : init s n cap spec = .ok t) :
    LaidOut s t ∧ t.cap = cap ∧ (∀ c col, t.column c = some col → Fresh col) ∧
      ∀ n' cap', ∃ u, init s n' cap' spec = .ok u ∧ SameColumns t u := by
  unfold init at h ⊢
  cases spec with
  | none =>
    obtain rfl := Except.ok.inj h
    exact ⟨rfl, rfl, fun c col => fresh_layout _ _ _, fun n' cap' => ⟨_, rfl, rfl, rfl⟩⟩
  | some spec =>
    obtain ⟨hl, hcap, hf⟩ := setModes_spec spec.perColumn (t := layout s n cap spec.defaultMode)
      rfl (fun c col => fresh_layout _ _ _) h
    refine ⟨hl, hcap, hf, fun n' cap' => ?_⟩
    exact setModes_same spec.perColumn (t := layout s n cap spec.defaultMode)
      (u := layout s n' cap' spec.defaultMode) ⟨rfl, rfl⟩ h

def startColumn (s : Schema) (spec : Option CardinalitySpec) (c : ℕ) :
    Option ColumnCardinality :=
  match init s 0 0 spec with
  | .ok t => t.column c
  | .error _ => none

lemma column_init {n : UInt64} {cap : ℕ} (h : init s n cap spec = .ok t) (c : ℕ) :
    t.column c = startColumn s spec c := by
  obtain ⟨-, -, -, hsame⟩ := init_spec h
  obtain ⟨u, hu, hcols, hidx⟩ := hsame 0 0
  simp [startColumn, hu, column, place, hcols, hidx]

lemma fresh_startColumn (c : ℕ) (h : startColumn s spec c = some col) : Fresh col := by
  unfold startColumn at h
  split at h
  · rename_i t ht
    exact (init_spec ht).2.2.1 c col h
  · cases h

end CardinalityTable

open CardinalityTable

namespace Fold

lemma eval_parts {b p : Fold} (h : b.eval A s spec = .ok t) (hp : p ∈ b.parts) :
    ∃ u, p.eval A s spec = .ok u := by
  induction b generalizing t with
  | init n cap =>
    obtain rfl := List.mem_singleton.1 hp
    exact ⟨t, h⟩
  | addString b c val ih | addSet b c set row ih | addNumeric b c v ih =>
    rcases List.mem_cons.1 hp with rfl | hp
    · exact ⟨t, h⟩
    · simp only [eval] at h
      cases hb : b.eval A s spec with
      | ok u => exact ih hb hp
      | error e =>
        rw [hb] at h
        cases h
  | merge dst src ihd ihs =>
    rcases List.mem_cons.1 hp with rfl | hp
    · exact ⟨t, h⟩
    · simp only [eval] at h
      split at h
      · rename_i u v hu hv
        rcases List.mem_append.1 hp with hp | hp
        · exact ihd hu hp
        · exact ihs hv hp
      · cases h
      · cases h

lemma eval_column {b : Fold} (h : b.eval A s spec = .ok t) :
    LaidOut s t ∧ t.cap = b.cap ∧
      ∀ c, t.column c = (startColumn s spec c).map fun col₀ => b.column A c col₀ := by
  induction b generalizing t with
  | init n cap =>
    obtain ⟨hl, hcap, -, -⟩ := init_spec h
    exact ⟨hl, hcap, fun c => by simp [column, column_init h c]⟩
  | addString b c' val ih | addSet b c' set row ih | addNumeric b c' v ih =>
    simp only [eval] at h
    cases hb : b.eval A s spec with
    | ok u =>
      rw [hb] at h
      obtain rfl := Except.ok.inj h
      obtain ⟨hl, hcap, hcol⟩ := ih hb
      refine ⟨hl.modify c' _, (cap_modify _ _ _).trans hcap, fun c => ?_⟩
      simp only [CardinalityTable.addString, CardinalityTable.addSet,
        CardinalityTable.addNumeric, column_modify hl, hcol, column, ← hcap]
      split_ifs <;> simp [Function.comp_def]
    | error e =>
      rw [hb] at h
      cases h
  | merge dst src ihd ihs =>
    simp only [eval] at h
    split at h
    · rename_i u v hu hv
      obtain rfl := Except.ok.inj h
      obtain ⟨hlu, hcapu, hcolu⟩ := ihd hu
      obtain ⟨hlv, -, hcolv⟩ := ihs hv
      refine ⟨hlu, hcapu, fun c => ?_⟩
      rw [column_mergeFrom hlu hlv c (by simp [hcolu, hcolv]), hcolu, hcolv, hcapu]
      cases startColumn s spec c <;> simp [column]
    · cases h
    · cases h

end Fold

end SextantTree.Cardinality
