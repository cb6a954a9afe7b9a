import SextantTree.ViewScanSpec

/-!
Four rows at a time against one row at a time. The two differ only in the Int32 branch of the
batch: it reads past the NULL flags, truncates the comparand where the scalar code rounds it, and
in its vector variant has no lane result for the null tests.
-/

namespace SextantTree.ColumnBytes

open FilterHash ByteMem

variable (π : Target)

/-! ### Masks -/

lemma testBit_mask4 (pass : ℕ → Bool) {j : ℕ} (hj : j < 4) : (mask4 pass).testBit j = pass j := by
  have hmask : mask4 pass = (if pass 0 then 1 else 0) + (if pass 1 then 2 else 0) +
      (if pass 2 then 4 else 0) + (if pass 3 then 8 else 0) := by
    unfold mask4
    simp only [List.range_succ, List.range_zero, List.nil_append, List.cons_append, List.foldl_cons,
      List.foldl_nil]
    cases pass 0 <;> cases pass 1 <;> cases pass 2 <;> cases pass 3 <;> rfl
  rw [hmask]
  interval_cases j
  all_goals cases pass 0 <;> cases pass 1 <;> cases pass 2 <;> cases pass 3 <;> rfl

lemma testBit_batch4Loop (neon : Bool) (m : Mem) (cols : List ColumnView) (start j : ℕ) (mask : ℕ)
    (preds : List Resolved) :
    (batch4Loop π neon m cols start mask preds).testBit j =
      (mask.testBit j && preds.all fun r => (batch4Resolved π neon m cols start r).testBit j) := by
  induction preds generalizing mask with
  | nil => simp [batch4Loop]
  | cons r rest ih =>
    rw [batch4Loop]
    split_ifs with hzero
    · subst hzero
      simp
    · rw [ih, Nat.testBit_and, List.all_cons, Bool.and_assoc]

/-! ### The Int32 branch -/

section Int32

variable (neon : Bool) (m : Mem) (cols : List ColumnView) (i : ℕ) (r : Resolved)

/-- The integer that the batch reads for row `i`. -/
def batchVal (v : ColumnView) (i : ℕ) : ℤ := signedLe (peek m (v.fixedBase + 4 * i) 4)

/-- The batch passes a row of an Int32 column that is NULL or that the rounded comparand rejects. -/
def FalseAccept : Prop :=
  let v := cols.getD r.col {}
  let p := r.pred
  v.type = .int32 ∧
    compare4 p.op (batchVal m v i) (toInt32 π p.value) (toInt32 π p.value2) = some true ∧
    (v.isNull m i = true ∨ compare4 p.op (batchVal m v i) (roundToInt32 π.toPlatform p.value)
      (roundToInt32 π.toPlatform p.value2) = some false)

/-- The batch rejects a row of an Int32 column that is not NULL and that the rounded comparand
passes, or, in the vector variant, that passes a null test. -/
def FalseReject : Prop :=
  let v := cols.getD r.col {}
  let p := r.pred
  v.type = .int32 ∧
    ((v.isNull m i = false ∧ compare4 p.op (batchVal m v i) (roundToInt32 π.toPlatform p.value)
        (roundToInt32 π.toPlatform p.value2) = some true ∧
      compare4 p.op (batchVal m v i) (toInt32 π p.value) (toInt32 π p.value2) = some false) ∨
    (neon = true ∧ ((p.op = .isNull ∧ v.isNull m i = true) ∨
      (p.op = .isNotNull ∧ v.isNull m i = false))))

lemma typedCompare_of_compare4 {p : Predicate} {cast : ℚ → ℤ} {val : ℤ} {b : Bool}
    (h : compare4 p.op val (cast p.value) (cast p.value2) = some b) :
    typedCompare π intDomain cast p val = b := by
  unfold compare4 at h
  unfold typedCompare intDomain
  cases hop : p.op with
  | eq | lt | le | gt | ge | between =>
    rw [hop] at h
    simpa using h
  | _ =>
    rw [hop] at h
    cases h

lemma isSome_compare4 (op : PredicateOp) (a b c a' b' c' : ℤ) :
    (compare4 op a b c).isSome = (compare4 op a' b' c').isSome := by
  cases op with
  | _ => rfl

lemma not_compared {op : PredicateOp} (happ : predicateAppliesTo op .int32 = true)
    (hgeo : op.isGeo = false) {a b c : ℤ} (h : compare4 op a b c = none) :
    op = .notEq ∨ op = .inList ∨ op = .notInList ∨ op = .isNull ∨ op = .isNotNull := by
  cases op with
  | notEq | inList | notInList | isNull | isNotNull => simp
  | eq | lt | le | gt | ge | between => cases h
  | geoRadius | geoBox => cases hgeo
  | _ => cases happ

/-- How the two evaluations of one predicate differ, as two bits. -/
structure Differs (batch scalar : Bool) (accept reject : Prop) : Prop where
  accept : accept ↔ batch = true ∧ scalar = false
  reject : reject ↔ batch = false ∧ scalar = true

lemma Differs.batch_false {batch scalar : Bool} {accept reject : Prop}
    (h : Differs batch scalar accept reject) :
    batch = false ↔ reject ∨ (scalar = false ∧ ¬ accept) := by
  rw [h.accept, h.reject]
  cases batch <;> cases scalar <;> simp

lemma all_eq_all_iff {α : Type} {l : List α} {batch scalar : α → Bool} {accept reject : α → Prop}
    (h : ∀ a ∈ l, Differs (batch a) (scalar a) (accept a) (reject a)) :
    (l.all batch = l.all scalar) ↔
      ((∃ a ∈ l, accept a) → ∃ a ∈ l, reject a ∨ (scalar a = false ∧ ¬ accept a)) ∧
        ((∃ a ∈ l, reject a) → ∃ a ∈ l, scalar a = false) := by
  have hbatch : l.all batch = false ↔ ∃ a ∈ l, reject a ∨ (scalar a = false ∧ ¬ accept a) := by
    rw [List.all_eq_false]
    refine exists_congr fun a => and_congr_right fun ha => ?_
    rw [Bool.not_eq_true, (h a ha).batch_false]
  have hscalar : l.all scalar = false ↔ ∃ a ∈ l, scalar a = false := by
    rw [List.all_eq_false]
    simp only [Bool.not_eq_true]
  rw [← hbatch, ← hscalar]
  constructor
  · intro heq
    refine ⟨?_, ?_⟩
    · rintro ⟨a, ha, hacc⟩
      rw [heq, hscalar]
      exact ⟨a, ha, ((h a ha).accept.mp hacc).2⟩
    · rintro ⟨a, ha, hrej⟩
      rw [← heq, hbatch]
      exact ⟨a, ha, .inl hrej⟩
  · rintro ⟨hacc, hrej⟩
    cases hb : l.all batch with
    | false =>
      symm
      obtain ⟨a, ha, hr | ⟨hs, -⟩⟩ := hbatch.mp hb
      · exact hrej ⟨a, ha, hr⟩
      · exact hscalar.mpr ⟨a, ha, hs⟩
    | true =>
      by_contra hne
      obtain ⟨a, ha, hs⟩ := hscalar.mp (Bool.eq_false_iff.mpr fun h' => hne h'.symm)
      have hba := List.all_eq_true.mp hb a ha
      rw [hb] at hacc
      cases hacc ⟨a, ha, (h a ha).accept.mpr ⟨hba, hs⟩⟩

lemma Differs.of_eq {batch scalar : Bool} {accept reject : Prop} (h : batch = scalar)
    (ha : ¬ accept) (hr : ¬ reject) : Differs batch scalar accept reject := by
  subst h
  refine ⟨iff_of_false ha ?_, iff_of_false hr ?_⟩
  · rintro ⟨h, h'⟩
    exact Bool.noConfusion (h.symm.trans h')
  · rintro ⟨h, h'⟩
    exact Bool.noConfusion (h.symm.trans h')

variable {cols r}

lemma evalPredicate_of_compare4 {v : ColumnView} {p : Predicate} {b : Bool}
    (htype : v.type = .int32) (hwidth : v.fixedWidth = 4)
    (h : compare4 p.op (batchVal m v i) (roundToInt32 π.toPlatform p.value)
      (roundToInt32 π.toPlatform p.value2) = some b) :
    evalPredicate π m v i p = (!v.isNull m i && b) := by
  have hn : p.op ≠ .isNull := fun hop => by rw [hop] at h; cases h
  have hnn : p.op ≠ .isNotNull := fun hop => by rw [hop] at h; cases h
  have hraw : v.raw m i = .fixed (peek m (v.fixedBase + 4 * i) 4) := by
    unfold ColumnView.raw
    rw [htype, hwidth, Nat.mul_comm]
  unfold evalPredicate
  cases v.isNull m i with
  | true => simpa using hn
  | false =>
    rw [if_neg (by decide), if_neg (by simpa using hn), if_neg (by simpa using hnn), htype, hraw]
    exact typedCompare_of_compare4 π h

lemma testBit_batch4_int32 {v : ColumnView} {p : Predicate} {start j : ℕ} (hj : j < 4)
    (htype : v.type = .int32) :
    (evalPredicateBatch4 π neon m v start p).testBit j =
      if neon ∧ (p.op = .notEq ∨ p.op = .inList ∨ p.op = .notInList) then
        evalPredicate π m v (start + j) p
      else (compare4 p.op (batchVal m v (start + j)) (toInt32 π p.value) (toInt32 π p.value2)).getD
        (!neon && evalPredicate π m v (start + j) p) := by
  unfold evalPredicateBatch4
  rw [if_neg (not_not.mpr htype)]
  cases neon with
  | false =>
    rw [if_neg (by simp), if_neg (by simp)]
    exact testBit_mask4 _ hj
  | true =>
    rw [if_pos rfl]
    by_cases hop : p.op = .notEq ∨ p.op = .inList ∨ p.op = .notInList
    · rw [if_pos hop, if_pos ⟨rfl, hop⟩]
      exact testBit_mask4 _ hj
    · rw [if_neg hop, if_neg fun h => hop h.2]
      exact testBit_mask4 _ hj

lemma differs_int32 {start j : ℕ} (hj : j < 4) (htype : (cols.getD r.col {}).type = .int32)
    (hwidth : (cols.getD r.col {}).fixedWidth = 4)
    (happ : predicateAppliesTo r.pred.op .int32 = true) (hgeo : r.pred.op.isGeo = false) :
    Differs ((evalPredicateBatch4 π neon m (cols.getD r.col {}) start r.pred).testBit j)
      (evalPredicate π m (cols.getD r.col {}) (start + j) r.pred)
      (FalseAccept π m cols (start + j) r) (FalseReject π neon m cols (start + j) r) := by
  rw [testBit_batch4_int32 π neon m hj htype]
  unfold FalseAccept FalseReject
  generalize cols.getD r.col {} = v at htype hwidth ⊢
  generalize r.pred = p at happ hgeo ⊢
  dsimp only
  have hsome := isSome_compare4 p.op (batchVal m v (start + j)) (toInt32 π p.value)
    (toInt32 π p.value2) (batchVal m v (start + j)) (roundToInt32 π.toPlatform p.value)
    (roundToInt32 π.toPlatform p.value2)
  cases hb : compare4 p.op (batchVal m v (start + j)) (toInt32 π p.value) (toInt32 π p.value2) with
  | some b =>
    rw [hb] at hsome
    obtain ⟨b', hb'⟩ := Option.isSome_iff_exists.mp hsome.symm
    have hne : ¬ (neon = true ∧ (p.op = .notEq ∨ p.op = .inList ∨ p.op = .notInList)) := by
      rintro ⟨-, hop | hop | hop⟩
      all_goals rw [hop] at hb; cases hb
    have hnull : ¬ (neon = true ∧ ((p.op = .isNull ∧ v.isNull m (start + j) = true) ∨
        (p.op = .isNotNull ∧ v.isNull m (start + j) = false))) := by
      rintro ⟨-, ⟨hop, -⟩ | ⟨hop, -⟩⟩
      all_goals rw [hop] at hb; cases hb
    rw [if_neg hne, evalPredicate_of_compare4 π m (start + j) htype hwidth hb', hb',
      or_iff_left hnull]
    generalize v.isNull m (start + j) = null
    constructor
    · cases b <;> cases b' <;> cases null <;> simp [htype]
    · cases b <;> cases b' <;> cases null <;> simp [htype]
  | none =>
    rw [hb] at hsome
    have hb' := Option.isNone_iff_eq_none.mp (by rw [← Option.not_isSome, ← hsome]; rfl)
    rw [hb', Option.getD_none]
    by_cases hfall : p.op = .notEq ∨ p.op = .inList ∨ p.op = .notInList
    · refine .of_eq ?_ ?_ ?_
      · cases neon with
        | false => simp
        | true => rw [if_pos ⟨rfl, hfall⟩]
      · rintro ⟨-, h, -⟩
        cases h
      · rintro ⟨-, ⟨-, h, -⟩ | ⟨-, ⟨h, -⟩ | ⟨h, -⟩⟩⟩
        · cases h
        · rw [h] at hfall
          simp at hfall
        · rw [h] at hfall
          simp at hfall
    · have hop : p.op = .isNull ∨ p.op = .isNotNull := by
        have := not_compared happ hgeo hb
        tauto
      rw [if_neg fun h => hfall h.2]
      unfold evalPredicate
      generalize v.isNull m (start + j) = null
      -- The scalar answer is the flag or its negation; the vector variant rejects every row.
      rcases hop with hop | hop
      · rw [hop]
        cases neon <;> cases null <;> exact ⟨by simp, by simp [htype]⟩
      · rw [hop]
        cases neon <;> cases null <;> exact ⟨by simp, by simp [htype]⟩

end Int32

/-! ### Lists of predicates -/

section Lists

variable {s : Schema} {m : Mem} {count : ℕ} (neon : Bool)

lemma view_of_fits {r : Resolved} {col : FilterColumn} (hcol : s.columns[r.col]? = some col) :
    ((parseFilterColumns m count s).1.getD r.col {}).type = col.type ∧
      (col.type ≠ .string → col.type ≠ .set →
        ((parseFilterColumns m count s).1.getD r.col {}).fixedWidth = col.type.width) := by
  obtain ⟨hlt, -⟩ := List.getElem?_eq_some_iff.mp hcol
  have hlen : ∀ (cols : List FilterColumn) p, (parseColumns m count cols p).1.length = cols.length := by
    intro cols
    induction cols with
    | nil => exact fun p => rfl
    | cons c cols ih => exact fun p => congrArg Nat.succ (ih _)
  have hv : (parseFilterColumns m count s).1[r.col]? =
      some ((parseFilterColumns m count s).1.getD r.col {}) := by
    rw [List.getD_eq_getElem?_getD, List.getElem?_eq_getElem (by
      rw [parseFilterColumns, hlen]
      exact hlt)]
    rfl
  obtain ⟨col', q, hcol', hparse⟩ := exists_parseColumn hv
  cases hcol.symm.trans hcol'
  rw [hparse]
  exact type_parseColumn m count col q

lemma differs_resolved {r : Resolved} (hfit : r.Fits s) {start j : ℕ} (hj : j < 4) :
    Differs ((batch4Resolved π neon m (parseFilterColumns m count s).1 start r).testBit j)
      (evalResolved π m (parseFilterColumns m count s).1 (start + j) r)
      (r.pred.op.isGeo = false ∧ FalseAccept π m (parseFilterColumns m count s).1 (start + j) r)
      (r.pred.op.isGeo = false ∧
        FalseReject π neon m (parseFilterColumns m count s).1 (start + j) r) := by
  obtain ⟨col, hcol, happ⟩ := hfit
  obtain ⟨htype, hwidth⟩ := @view_of_fits s m count _ _ hcol
  unfold batch4Resolved evalResolved
  cases hgeo : r.pred.op.isGeo with
  | true =>
    refine .of_eq ?_ (by simp) (by simp)
    rw [if_pos rfl, if_pos rfl]
    split
    · exact Nat.zero_testBit j
    · exact testBit_mask4 _ hj
  | false =>
    rw [if_neg (by decide), if_neg (by decide)]
    by_cases hint : col.type = .int32
    · rw [hint] at htype hwidth happ
      obtain ⟨ha, hr⟩ := differs_int32 π neon m hj htype (hwidth (by decide) (by decide)) happ hgeo
      exact ⟨by rw [← ha]; simp, by rw [← hr]; simp⟩
    · rw [← htype] at hint
      refine .of_eq ?_ (fun h => hint h.2.1) (fun h => hint h.2.1)
      unfold evalPredicateBatch4
      rw [if_pos hint]
      exact testBit_mask4 _ hj

/-- Rows that the batch decides differently under one predicate are decided by another one. -/
def Outvoted (cols : List ColumnView) (i : ℕ) (preds : List Resolved) : Prop :=
  let accept (r : Resolved) : Prop := r.pred.op.isGeo = false ∧ FalseAccept π m cols i r
  let reject (r : Resolved) : Prop := r.pred.op.isGeo = false ∧ FalseReject π neon m cols i r
  ((∃ r ∈ preds, accept r) →
      ∃ r ∈ preds, reject r ∨ (evalResolved π m cols i r = false ∧ ¬ accept r)) ∧
    ((∃ r ∈ preds, reject r) → ∃ r ∈ preds, evalResolved π m cols i r = false)

/-- **Four rows at a time are evaluated as one by one** where no predicate is decided differently,
or where another predicate rejects the row on the side that passed it. -/
theorem evalAllPredicatesBatch4_iff (m : Mem) (count : ℕ) (s : Schema) (preds : List Resolved)
    (hfit : ∀ r ∈ preds, r.Fits s) (start j : ℕ) (hj : j < 4) :
    ((evalAllPredicatesBatch4 π neon m (parseFilterColumns m count s).1 start preds).testBit j =
        evalAllPredicates π m (parseFilterColumns m count s).1 (start + j) preds) ↔
      Outvoted π neon (m := m) (parseFilterColumns m count s).1 (start + j) preds := by
  have hdiff (r : Resolved) (hr : r ∈ preds) :=
    @differs_resolved π s m count neon r (hfit r hr) start j hj
  have hones : (0xF : ℕ).testBit j = true := by
    interval_cases j
    all_goals rfl
  unfold evalAllPredicatesBatch4 evalAllPredicates Outvoted
  rw [testBit_batch4Loop, hones, Bool.true_and]
  generalize (parseFilterColumns m count s).1 = cols at hdiff ⊢
  exact all_eq_all_iff hdiff

/-- The nullable column of the examples below. -/
def nullableSchema : Schema := ⟨[⟨"n", .int32, true⟩], false⟩

/-- Four rows: 1, 2, NULL stored as 0, and 3. -/
def nullableColumn : List ColumnData :=
  [{ type := .int32, nullMask := [0, 0, 1, 0],
     fixedData := [1, 0, 0, 0, 2, 0, 0, 0, 0, 0, 0, 0, 3, 0, 0, 0] }]

def nullableMem : Mem := (writeFilterColumns (fun _ => 0) 4 nullableSchema nullableColumn).1

/-- The batch passes the NULL row under `n < 2`, row 1 fails `n <= 1.5` although `1.5` rounds to
`2`, and the vector variant finds no row that is not NULL. -/
theorem batch4_differs :
    ((evalAllPredicatesBatch4 saturatingTarget false nullableMem
        (parseFilterColumns nullableMem 4 nullableSchema).1 0
        [⟨{ column := "n", op := .lt, value := 2 }, 0, none⟩]).testBit 2 ≠
      evalAllPredicates saturatingTarget nullableMem
        (parseFilterColumns nullableMem 4 nullableSchema).1 2
        [⟨{ column := "n", op := .lt, value := 2 }, 0, none⟩]) ∧
    ((evalAllPredicatesBatch4 saturatingTarget false nullableMem
        (parseFilterColumns nullableMem 4 nullableSchema).1 0
        [⟨{ column := "n", op := .le, value := 3 / 2 }, 0, none⟩]).testBit 1 ≠
      evalAllPredicates saturatingTarget nullableMem
        (parseFilterColumns nullableMem 4 nullableSchema).1 1
        [⟨{ column := "n", op := .le, value := 3 / 2 }, 0, none⟩]) ∧
    (evalAllPredicatesBatch4 saturatingTarget true nullableMem
        (parseFilterColumns nullableMem 4 nullableSchema).1 0
        [⟨{ column := "n", op := .isNotNull }, 0, none⟩]).testBit 0 ≠
      evalAllPredicates saturatingTarget nullableMem
        (parseFilterColumns nullableMem 4 nullableSchema).1 0
        [⟨{ column := "n", op := .isNotNull }, 0, none⟩] := by
  refine ⟨?_, ?_, ?_⟩
  · decide +kernel
  · decide +kernel
  · decide +kernel

/-- The first row under `n < 2`. -/
theorem evalAllPredicatesBatch4_first :
    (evalAllPredicatesBatch4 saturatingTarget true nullableMem
        (parseFilterColumns nullableMem 4 nullableSchema).1 0
        [⟨{ column := "n", op := .lt, value := 2 }, 0, none⟩]).testBit 0 =
      evalAllPredicates saturatingTarget nullableMem
        (parseFilterColumns nullableMem 4 nullableSchema).1 0
        [⟨{ column := "n", op := .lt, value := 2 }, 0, none⟩] := by
  refine (evalAllPredicatesBatch4_iff saturatingTarget true nullableMem 4 nullableSchema
    [⟨{ column := "n", op := .lt, value := 2 }, 0, none⟩] ?_ 0 0 (by decide)).mpr ?_
  · intro r hr
    rw [List.mem_singleton] at hr
    subst hr
    exact ⟨_, rfl, rfl⟩
  · refine ⟨?_, ?_⟩
    · rintro ⟨r, hr, -, -, -, h⟩
      rw [List.mem_singleton] at hr
      subst hr
      refine absurd h ?_
      decide +kernel
    · rintro ⟨r, hr, -, -, h⟩
      rw [List.mem_singleton] at hr
      subst hr
      refine absurd h ?_
      decide +kernel

end Lists

end SextantTree.ColumnBytes
