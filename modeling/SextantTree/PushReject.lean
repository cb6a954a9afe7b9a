import Mathlib.Algebra.BigOperators.Group.List.Basic
import SextantTree.PushStage

/-!
What a rejected push leaves behind. The row loop appends as it checks: a row that fails has its
vector staged, and the rows before it are complete. The builder is as before only when the call is
refused before the loop.
-/

namespace SextantTree.PushStage

open FilterHash ByteMem

/-! The rows that are staged, counted so that no append and no spill can take any away. -/

namespace PushStager

/-- The rows in memory and the bytes of the spill file. -/
def weight (st : PushStager) : ℕ :=
  (st.spill.getD []).length + (st.memoryChunks.map fun c => c.rowIds.length).sum
    + st.current.rowIds.length

@[simp] lemma weight_appendVector (st : PushStager) (v : List UInt32) (id : UInt64) :
    (st.appendVector v id).weight = st.weight + 1 := by
  simp [weight, appendVector]
  omega

@[simp] lemma weight_appendValue (st : PushStager) (c : ℕ) (type : ColumnType) (v : Value) :
    (st.appendValue c type v).weight = st.weight :=
  rfl

@[simp] lemma weight_appendPayload (st : PushStager) (b : Bytes) :
    (st.appendPayload b).weight = st.weight :=
  rfl

lemma length_rowIds_le_write (c : StagedChunk) (s : Schema) :
    c.rowIds.length ≤ (c.write s).length := by
  have hids : (u64s c.rowIds).length = c.rowIds.length * 8 := by
    induction c.rowIds with
    | nil => rfl
    | cons x l ih =>
      simp only [u64s, List.flatMap_cons, List.length_append, length_leBytes, List.length_cons] at *
      omega
  simp only [StagedChunk.write, List.length_append]
  omega

lemma weight_le_maybeSpill (st : PushStager) : st.weight ≤ st.maybeSpill.weight := by
  unfold maybeSpill
  split_ifs
  · exact le_rfl
  · have hfile : (st.memoryChunks.map fun c => c.rowIds.length).sum
        ≤ (st.memoryChunks.flatMap fun c => c.write st.schema).length := by
      induction st.memoryChunks with
      | nil => simp
      | cons c cs ih =>
        have := length_rowIds_le_write c st.schema
        simp only [List.map_cons, List.sum_cons, List.flatMap_cons, List.length_append]
        omega
    simp only [weight, Option.getD_some, List.length_append, List.map_nil, List.sum_nil]
    omega

lemma weight_le_endRow (st : PushStager) : st.weight ≤ st.endRow.weight := by
  unfold endRow
  dsimp only
  split_ifs
  · refine le_trans ?_ (weight_le_maybeSpill _)
    simp [weight, closeRow, StagedChunk.empty]
    omega
  · exact le_rfl

end PushStager

namespace PushCall

/-- The checks of row `r`. -/
def RowOk (call : PushCall) (st : PushStager) (r : ℕ) : Prop :=
  (∀ x ∈ st.schema.columns.zipIdx, ∃ v, call.value x.1 x.2 r = .ok v) ∧
    (st.hasPayload = true → ∃ p, call.payload r = .ok p)

end PushCall

namespace PushBuilder

variable {b : PushBuilder} {call : PushCall} {r : ℕ} {st : PushStager}

/-- A row leaves the schema and the kind of payload as they are. -/
structure SameShape (st st' : PushStager) : Prop where
  schema : st'.schema = st.schema
  hasPayload : st'.hasPayload = st.hasPayload

lemma SameShape.trans {st₁ st₂ st₃ : PushStager} (h : SameShape st₁ st₂) (h' : SameShape st₂ st₃) :
    SameShape st₁ st₃ :=
  ⟨h'.schema.trans h.schema, h'.hasPayload.trans h.hasPayload⟩

lemma sameShape_endRow (st : PushStager) : SameShape st st.endRow := by
  unfold PushStager.endRow PushStager.maybeSpill
  dsimp only
  split_ifs <;> exact ⟨rfl, rfl⟩

lemma pushValues_spec (call : PushCall) (r : ℕ) (cols : List (FilterColumn × ℕ))
    (st : PushStager) :
    SameShape st (pushValues call r cols st).1 ∧ (pushValues call r cols st).1.weight = st.weight ∧
      ((pushValues call r cols st).2 = none ↔
        ∀ x ∈ cols, ∃ v, call.value x.1 x.2 r = .ok v) := by
  induction cols generalizing st with
  | nil => exact ⟨⟨rfl, rfl⟩, rfl, by simp [pushValues]⟩
  | cons x cols ih =>
    obtain ⟨col, c⟩ := x
    simp only [pushValues]
    cases hv : call.value col c r with
    | ok v =>
      obtain ⟨hshape, hweight, hnone⟩ := ih (st.appendValue c col.type v)
      have happend : SameShape st (st.appendValue c col.type v) := ⟨rfl, rfl⟩
      refine ⟨happend.trans hshape, hweight, hnone.trans ?_⟩
      simp [hv]
    | error e => exact ⟨⟨rfl, rfl⟩, rfl, by simp [hv]⟩

lemma pushRow_spec (b : PushBuilder) (call : PushCall) (r : ℕ) (st : PushStager) :
    SameShape st (b.pushRow call r st).1 ∧ st.weight < (b.pushRow call r st).1.weight ∧
      ((b.pushRow call r st).2 = none ↔ call.RowOk st r) := by
  set st₁ := st.appendVector (call.vector st.dim r) (UInt64.ofNat (b.rows + r)) with hst₁
  obtain ⟨hshape, hweight, hnone⟩ := pushValues_spec call r st₁.schema.columns.zipIdx st₁
  have hlt : st.weight < (pushValues call r st₁.schema.columns.zipIdx st₁).1.weight := by
    rw [hweight, hst₁, PushStager.weight_appendVector]
    omega
  have happend : SameShape st st₁ := ⟨rfl, rfl⟩
  have hsame := happend.trans hshape
  simp only [pushRow, ← hst₁]
  cases hvals : pushValues call r st₁.schema.columns.zipIdx st₁ with
  | mk st₂ err =>
    rw [hvals] at hlt hsame hnone
    cases err with
    | some e =>
      refine ⟨hsame, hlt, ?_⟩
      simp only [reduceCtorEq, false_iff] at hnone ⊢
      exact fun hok => hnone hok.1
    | none =>
      have hcols : ∀ x ∈ st.schema.columns.zipIdx, ∃ v, call.value x.1 x.2 r = .ok v := hnone.1 rfl
      have hp : st₂.hasPayload = st.hasPayload := hsame.hasPayload
      dsimp only at hsame hlt ⊢
      by_cases hpay : st₂.hasPayload = true
      · rw [if_pos hpay]
        cases hpl : call.payload r with
        | ok p =>
          have hpayload : SameShape st₂ (st₂.appendPayload p) := ⟨rfl, rfl⟩
          refine ⟨hsame.trans (hpayload.trans (sameShape_endRow _)), ?_, ?_⟩
          · refine lt_of_lt_of_le ?_ (PushStager.weight_le_endRow _)
            rw [PushStager.weight_appendPayload]
            exact hlt
          · exact ⟨fun _ => ⟨hcols, fun _ => ⟨p, hpl⟩⟩, fun _ => rfl⟩
        | error e => exact ⟨hsame, hlt, by simp [PushCall.RowOk, hpl, ← hp, hpay]⟩
      · rw [if_neg hpay]
        refine ⟨hsame.trans (sameShape_endRow _), ?_, ?_⟩
        · exact lt_of_lt_of_le hlt (PushStager.weight_le_endRow _)
        · exact ⟨fun _ => ⟨hcols, fun h => absurd (hp.trans h) hpay⟩, fun _ => rfl⟩

lemma SameShape.rowOk {st' : PushStager} (h : SameShape st st') :
    call.RowOk st' r ↔ call.RowOk st r := by
  simp only [PushCall.RowOk, h.schema, h.hasPayload]

/-- The row loop: it ends without an error exactly when all rows pass, and an error comes after an
append. -/
lemma pushRows_spec (b : PushBuilder) (call : PushCall) (rs : List ℕ) (st : PushStager) :
    ((b.pushRows call rs st).2 = none ↔ ∀ r ∈ rs, call.RowOk st r) ∧
      ((b.pushRows call rs st).2 ≠ none → st.weight < (b.pushRows call rs st).1.weight) := by
  induction rs generalizing st with
  | nil => simp [pushRows]
  | cons r rs ih =>
    obtain ⟨hshape, hlt, hnone⟩ := pushRow_spec b call r st
    simp only [pushRows]
    cases hrow : b.pushRow call r st with
    | mk st₁ err =>
      rw [hrow] at hshape hlt hnone
      cases err with
      | some e =>
        simp only [reduceCtorEq, false_iff] at hnone
        refine ⟨?_, fun _ => hlt⟩
        simp [hnone]
      | none =>
        obtain ⟨ihnone, ihlt⟩ := ih st₁
        have hok : call.RowOk st r := hnone.1 rfl
        refine ⟨?_, fun hne => lt_trans hlt (ihlt hne)⟩
        rw [ihnone]
        simp [hok, hshape.rowOk]

end PushBuilder

/-- A push that is rejected leaves the builder as it was exactly when it is refused before its first
row; for any other, a row that fails a check has been staged in part. -/
theorem push_keeps_builder_iff (b : PushBuilder) (call : PushCall) :
    ((b.push call).2 ≠ none → (b.push call).1 = b) ↔
      ((b.refused call).isSome = true ∨ ∀ r < call.nRows, call.RowOk b.stager r) := by
  obtain ⟨hnone, hlt⟩ := b.pushRows_spec call (List.range call.nRows) b.stager
  simp only [PushBuilder.push]
  cases hrefused : b.refused call with
  | some e => simp
  | none =>
    simp only [List.mem_range] at hnone
    cases hrows : b.pushRows call (List.range call.nRows) b.stager with
    | mk st err =>
      rw [hrows] at hnone hlt
      cases err with
      | none => simpa using hnone.1 rfl
      | some e =>
        have hchanged : ({ b with stager := st } : PushBuilder) ≠ b := by
          intro h
          have hst : st = b.stager := congrArg PushBuilder.stager h
          have := hlt (by simp)
          rw [hst] at this
          exact lt_irrefl _ this
        have hbad : ¬ ∀ r < call.nRows, call.RowOk b.stager r := fun h => by
          simpa using hnone.2 h
        simp [hchanged, hbad]

/-- A builder for vectors of one dimension and one column of integers. -/
def intBuilder : PushBuilder where
  stager := .new 1 { columns := [{ name := "x", type := .int32 }] } false 0

/-- Two rows, of which the second has a NULL that the column does not allow. -/
def badCall : PushCall where
  vectors := some fun i => UInt32.ofNat (10 + i)
  nRows := 2
  filterValues := some fun _ => some (.int32 fun r => UInt32.ofNat (100 + r))
  filterNulls := some fun _ => some fun r => if r = 1 then 1 else 0

def goodCall : PushCall where
  vectors := some fun _ => 20
  nRows := 1
  filterValues := some fun _ => some (.int32 fun _ => 200)

/-- The rejected push stages a row and the vector of the next. The push after it gives its row an id
that is taken, and its value is the second of three rows. -/
theorem rejected_push_stages_rows :
    (intBuilder.push badCall).2 = some .nullNotAllowed ∧
      ¬ ((intBuilder.push badCall).2 ≠ none → (intBuilder.push badCall).1 = intBuilder) ∧
      ((intBuilder.push badCall).1.push goodCall).2 = none ∧
      ((intBuilder.push badCall).1.push goodCall).1.stager.current.rowIds = [0, 1, 0] ∧
      ((intBuilder.push badCall).1.push goodCall).1.stager.current.cols.map Column.fixed
        = [leBytes 4 100 ++ leBytes 4 200] := by
  refine ⟨by decide +kernel, ?_, by decide +kernel, by decide +kernel, by decide +kernel⟩
  intro h
  have hsame := h (by decide +kernel)
  have hids := congrArg (fun b => b.stager.current.rowIds) hsame
  revert hids
  decide +kernel

end SextantTree.PushStage
