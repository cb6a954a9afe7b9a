import Mathlib.Algebra.BigOperators.Group.List.Basic
import Mathlib.Tactic.NormNum
import SextantTree.PushReject

/-!
A push build replays what was pushed. A chunk is a function of its rows (`chunkOf`); appending a
row, spilling and reading back all keep it that function, and what a pass delivers decodes to the
rows.
-/

namespace SextantTree.PushStage

open FilterHash ByteMem Reader

/-! ### Concatenated pieces -/

section Pieces

variable {α β : Type}

/-- Where the pieces start in their concatenation. -/
def starts (l : List (List α)) : List UInt32 :=
  (List.range l.length).map fun i => UInt32.ofNat (l.take i).flatten.length

@[simp] lemma length_starts (l : List (List α)) : (starts l).length = l.length := by simp [starts]

lemma starts_concat (l : List (List α)) (a : List α) :
    starts (l ++ [a]) = starts l ++ [UInt32.ofNat l.flatten.length] := by
  simp only [starts, List.length_append, List.length_singleton, List.range_succ, List.map_append,
    List.map_cons, List.map_nil]
  congr 1
  · refine List.map_congr_left fun i hi => ?_
    rw [List.take_append_of_le_length (List.mem_range.1 hi).le]
  · simp

lemma take_drop_flatten (l : List (List α)) {i : ℕ} (hi : i < l.length) :
    (l.flatten.drop (l.take i).flatten.length).take l[i].length = l[i] := by
  have hsplit : l.flatten = (l.take i).flatten ++ (l[i] ++ (l.drop (i + 1)).flatten) := by
    calc l.flatten = (l.take i ++ l.drop i).flatten := by rw [List.take_append_drop]
      _ = (l.take i).flatten ++ (l[i] ++ (l.drop (i + 1)).flatten) := by
        rw [List.drop_eq_getElem_cons hi, List.flatten_append, List.flatten_cons]
  rw [hsplit, List.drop_left, List.take_left]

lemma length_flatMap_le {f : α → List β} {l : List α} {k : ℕ} (h : ∀ a ∈ l, (f a).length ≤ k) :
    (l.flatMap f).length ≤ l.length * k := by
  induction l with
  | nil => simp
  | cons a l ih =>
    have ha := h a List.mem_cons_self
    have hl := ih fun x hx => h x (List.mem_cons_of_mem a hx)
    simp only [List.flatMap_cons, List.length_append, List.length_cons, Nat.add_mul, Nat.one_mul]
    omega

end Pieces

/-! ### A column and its values -/

namespace Value

def flag : Value → UInt8
  | null => 1
  | _ => 0

/-- What the value adds to the bytes of a fixed-width column. -/
def fixedPart (t : ColumnType) : Value → Bytes
  | fixed b => b
  | null => List.replicate t.width 0
  | _ => []

def strPart (t : ColumnType) : Value → List Bytes
  | str b => [b]
  | null => if t = .string then [[]] else []
  | _ => []

def setPart (t : ColumnType) : Value → List (List Bytes)
  | set elems => [elems]
  | null => if t = .set then [[]] else []
  | _ => []

def Fits (col : FilterColumn) : Value → Prop
  | null => col.nullable = true
  | fixed b => col.type ≠ .string ∧ col.type ≠ .set ∧ b.length = col.type.width
  | str b => col.type = .string ∧ b.length ≤ 65535
  | set elems => col.type = .set ∧ elems.length ≤ 255 ∧ ∀ b ∈ elems, b.length ≤ 65535

end Value

def Column.of (col : FilterColumn) (vs : List Value) : Column :=
  let strs := vs.flatMap (Value.strPart col.type)
  let sets := vs.flatMap (Value.setPart col.type)
  { fixed := vs.flatMap (Value.fixedPart col.type)
    strOffsets := starts strs
    strLengths := strs.map fun b => UInt16.ofNat b.length
    strData := strs.flatten
    setCounts := sets.map fun es => UInt8.ofNat es.length
    setOffsets := starts sets
    setElemLengths := sets.flatten.map fun b => UInt16.ofNat b.length
    setElemData := sets.flatten.flatten
    nulls := if col.nullable then vs.map Value.flag else [] }

/-- What `end_row` does to a column. -/
def Column.close (c : Column) (col : FilterColumn) (n : ℕ) : Column :=
  if col.nullable then { c with nulls := resize c.nulls n } else c

lemma resize_self {l : Bytes} {n : ℕ} (h : l.length = n) : resize l n = l := by
  subst h
  simp [resize]

lemma resize_succ {l : Bytes} {n : ℕ} (h : l.length = n) : resize l (n + 1) = l ++ [0] := by
  subst h
  simp [resize]

lemma Column.close_append_of {col : FilterColumn} (vs : List Value) {v : Value} (hv : v.Fits col) :
    ((Column.of col vs).append col.type vs.length v).close col (vs.length + 1)
      = Column.of col (vs ++ [v]) := by
  have hnulls : (vs.map Value.flag).length = vs.length := by simp
  cases v with
  | null =>
    have hn : col.nullable = true := hv
    have hlen : (vs.map Value.flag ++ [1]).length = vs.length + 1 := by simp
    cases htype : col.type <;>
      simp [Column.close, Column.append, Column.of, hn, htype, Value.fixedPart, Value.strPart,
        Value.setPart, Value.flag, starts_concat, resize_self hlen, resize_self hnulls,
        ColumnType.width, -List.map_flatten, -List.length_flatten]
  | fixed b =>
    simp only [Column.close, Column.append, Column.of]
    split_ifs with hn <;>
      simp [Value.fixedPart, Value.strPart, Value.setPart, Value.flag, resize_succ hnulls]
  | str b =>
    simp only [Column.close, Column.append, Column.of]
    split_ifs with hn <;>
      simp [Value.fixedPart, Value.strPart, Value.setPart, Value.flag, resize_succ hnulls,
        starts_concat]
  | set es =>
    simp only [Column.close, Column.append, Column.of]
    split_ifs with hn <;>
      simp [Value.fixedPart, Value.strPart, Value.setPart, Value.flag, resize_succ hnulls,
        starts_concat, -List.map_flatten, -List.length_flatten]

/-! ### A chunk and its rows -/

structure Row where
  vector : List UInt32
  id : UInt64
  values : List Value
deriving DecidableEq

def chunkOf (s : Schema) (rows : List (Row × Bytes)) : StagedChunk where
  count := rows.length
  vectors := rows.flatMap fun x => x.1.vector
  rowIds := rows.map fun x => x.1.id
  cols := s.columns.zipIdx.map fun y => Column.of y.1 (rows.map fun x => x.1.values.getD y.2 .null)
  payloadData := rows.flatMap Prod.snd
  payloadOffsets := (List.range (rows.length + 1)).map fun i =>
    UInt32.ofNat ((rows.take i).flatMap Prod.snd).length

/-- The row has a value for each column that the column takes. -/
structure RowFits (dim : ℕ) (s : Schema) (x : Row × Bytes) : Prop where
  vector : x.1.vector.length = dim
  values : x.1.values.length = s.columns.length
  fits : ∀ y ∈ s.columns.zipIdx, (x.1.values.getD y.2 .null).Fits y.1
  payload : x.2.length < 2 ^ 32

lemma chunkOf_nil (s : Schema) : chunkOf s [] = .empty s := by
  have hcols : (s.columns.zipIdx.map fun y => Column.of y.1 [])
      = List.replicate s.columns.length {} := by
    rw [List.eq_replicate_iff]
    refine ⟨by simp, ?_⟩
    intro c hc
    obtain ⟨y, -, rfl⟩ := List.mem_map.1 hc
    simp [Column.of, starts]
  simp [chunkOf, StagedChunk.empty, hcols]

lemma modify_append_cons {α : Type} (f : α → α) (l : List α) (a : α) (r : List α) :
    (l ++ a :: r).modify l.length f = l ++ f a :: r := by
  induction l with
  | nil => simp
  | cons b l ih => simpa using ih

lemma pushValues_eq {call : PushCall} {r : ℕ} (f : FilterColumn → ℕ → Value)
    (cols : List FilterColumn) (k : ℕ) (done todo : List Column) (st : PushStager)
    (hst : st.current.cols = done ++ todo) (hk : done.length = k)
    (hlen : todo.length = cols.length)
    (hval : ∀ x ∈ cols.zipIdx k, call.value x.1 x.2 r = .ok (f x.1 x.2)) :
    PushBuilder.pushValues call r (cols.zipIdx k) st
      = ({ st with
            current :=
              { st.current with
                cols := done ++ (cols.zipIdx k).zipWith (fun x d =>
                  d.append x.1.type (st.current.rowIds.length - 1) (f x.1 x.2)) todo } }, none) := by
  induction cols generalizing k done todo st with
  | nil =>
    obtain rfl : todo = [] := by simpa using hlen
    simp [PushBuilder.pushValues, ← hst]
  | cons col cols ih =>
    obtain ⟨d, todo, rfl⟩ : ∃ d t, todo = d :: t := by
      cases todo with
      | nil => simp at hlen
      | cons d t => exact ⟨d, t, rfl⟩
    rw [List.zipIdx_cons]
    simp only [PushBuilder.pushValues]
    rw [hval (col, k) (by simp [List.zipIdx_cons])]
    dsimp only
    set d' := d.append col.type (st.current.rowIds.length - 1) (f col k) with hd'
    have hcols : (st.appendValue k col.type (f col k)).current.cols = (done ++ [d']) ++ todo := by
      simp only [PushStager.appendValue, hst]
      subst hk
      simp [modify_append_cons, hd']
    rw [ih (k + 1) (done ++ [d']) todo _ hcols (by simp [hk]) (by simpa using hlen)
      (fun x hx => hval x (by rw [List.zipIdx_cons]; exact List.mem_cons_of_mem _ hx))]
    simp [PushStager.appendValue, hd']

lemma zipWith_zipIdx_map {α β γ δ : Type} (l : List α) (k : ℕ) (g : α × ℕ → β)
    (f : α × ℕ → β → γ) (h : α → γ → δ) :
    List.zipWith h l (List.zipWith f (l.zipIdx k) ((l.zipIdx k).map g))
      = (l.zipIdx k).map fun y => h y.1 (f y (g y)) := by
  induction l generalizing k with
  | nil => rfl
  | cons a l ih => simp [List.zipIdx_cons, ih]

lemma closeRow_eq {call : PushCall} {r : ℕ} {st : PushStager} {rows : List (Row × Bytes)}
    {x : Row × Bytes} (hcur : st.current = chunkOf st.schema rows)
    (hx : RowFits st.dim st.schema x)
    (hval : ∀ y ∈ st.schema.columns.zipIdx, call.value y.1 y.2 r = .ok (x.1.values.getD y.2 .null)) :
    let st₁ := st.appendVector x.1.vector x.1.id
    ∃ st₂, PushBuilder.pushValues call r st₁.schema.columns.zipIdx st₁ = (st₂, none) ∧
      st₂ = { st with current := st₂.current } ∧
      (st₂.appendPayload x.2).closeRow = chunkOf st.schema (rows ++ [x]) := by
  intro st₁
  have hcols : st₁.current.cols = [] ++ (chunkOf st.schema rows).cols := by
    simp [st₁, PushStager.appendVector, hcur]
  refine ⟨_, pushValues_eq (fun _ j => x.1.values.getD j .null) st.schema.columns 0 []
    (chunkOf st.schema rows).cols st₁ hcols rfl (by simp [chunkOf]) hval, rfl, ?_⟩
  have hids : st₁.current.rowIds.length = rows.length + 1 := by
    simp [st₁, PushStager.appendVector, hcur, chunkOf]
  have hclose : st.schema.columns.zipWith (fun col c =>
      if col.nullable then { c with nulls := resize c.nulls (rows.length + 1) } else c)
      ((st.schema.columns.zipIdx).zipWith (fun y d =>
        d.append y.1.type (rows.length + 1 - 1) (x.1.values.getD y.2 .null))
        (chunkOf st.schema rows).cols)
      = (chunkOf st.schema (rows ++ [x])).cols := by
    refine (zipWith_zipIdx_map _ _ _ _ (fun col c => Column.close c col (rows.length + 1))).trans ?_
    refine List.map_congr_left fun y hy => ?_
    have := Column.close_append_of (rows.map fun z => z.1.values.getD y.2 .null) (hx.fits y hy)
    simpa using this
  have hoffsets : (chunkOf st.schema rows).payloadOffsets
      ++ [UInt32.ofNat ((rows.flatMap Prod.snd).length + x.2.length)]
      = (chunkOf st.schema (rows ++ [x])).payloadOffsets := by
    simp only [chunkOf, List.length_append, List.length_singleton]
    rw [List.range_succ (n := rows.length + 1), List.map_append]
    congr 1
    · refine List.map_congr_left fun i hi => ?_
      rw [List.take_append_of_le_length (by have := List.mem_range.1 hi; omega)]
    · simp [List.take_of_length_le]
  refine StagedChunk.ext ?_ ?_ ?_ ?_ ?_ ?_
  · simpa [chunkOf, PushStager.closeRow, PushStager.appendPayload] using hids
  · simp [PushStager.closeRow, PushStager.appendPayload, st₁, PushStager.appendVector, hcur, chunkOf]
  · simp [PushStager.closeRow, PushStager.appendPayload, st₁, PushStager.appendVector, hcur, chunkOf]
  · rw [← hclose]
    simp only [PushStager.closeRow, PushStager.appendPayload, hids, List.nil_append]
    rfl
  · simp [PushStager.closeRow, PushStager.appendPayload, st₁, PushStager.appendVector, hcur, chunkOf]
  · rw [← hoffsets]
    simp [PushStager.closeRow, PushStager.appendPayload, st₁, PushStager.appendVector, hcur, chunkOf]

/-! ### What the header says is pushed -/

/-- The set of row `r`: the run between its offsets, and empty without offsets. -/
def SetValues.pushed (sv : SetValues) (r : ℕ) : List Bytes :=
  match sv.offsets with
  | some offsets => sv.elems (offsets r).toNat ((offsets (r + 1)).toNat - (offsets r).toNat)
  | none => []

/-- The value of row `r` in column `c`: NULL where it is flagged, the type's default without
values. -/
def PushCall.pushed (call : PushCall) (col : FilterColumn) (c r : ℕ) : Value :=
  if call.isNull c r then .null
  else
    match col.type, call.values c with
    | .int32, some (.int32 v) => .fixed (leBytes 4 (v r).toNat)
    | .int64, some (.int64 v) => .fixed (leBytes 8 (v r).toNat)
    | .float, some (.float v) => .fixed (leBytes 4 (v r).toNat)
    | .bool, some (.bool v) => .fixed [if v r ≠ 0 then 1 else 0]
    | .string, some (.str (some data) (some lengths)) => .str (bytesAt (data r) (lengths r).toNat)
    | .set, some (.set sv) => .set (sv.pushed r)
    | .string, _ => .str []
    | .set, _ => .set []
    | t, _ => .fixed (List.replicate t.width 0)

/-- The offsets of row `r` go up; without offsets, the counts of the rows before it add to nothing.
-/
def SetValues.Plain (sv : SetValues) (r : ℕ) : Prop :=
  match sv.offsets with
  | some offsets => offsets r ≤ offsets (r + 1)
  | none => (sv.run r).2 = 0

/-- Every set that the call gives is given in that way. -/
def PushCall.Plain (call : PushCall) (s : Schema) : Prop :=
  ∀ y ∈ s.columns.zipIdx, ∀ r < call.nRows, y.1.type = .set → call.isNull y.2 r = false →
    ∀ sv, call.values y.2 = some (.set sv) → sv.Plain r

lemma SetValues.value_eq_pushed {sv : SetValues} {r : ℕ} (hplain : sv.Plain r) {es : List Bytes}
    (h : sv.value r = .ok es) :
    es = sv.pushed r ∧ es.length ≤ 255 ∧ ∀ b ∈ es, b.length ≤ 65535 := by
  have hrun : ((sv.run r).2 - (sv.run r).1).toNat = (sv.run r).2.toNat - (sv.run r).1.toNat ∧
      sv.elems (sv.run r).1.toNat ((sv.run r).2.toNat - (sv.run r).1.toNat) = sv.pushed r := by
    unfold Plain at hplain
    unfold pushed
    cases ho : sv.offsets with
    | some offsets =>
      rw [ho] at hplain
      simp only [run, ho]
      exact ⟨UInt32.toNat_sub_of_le _ _ hplain, trivial⟩
    | none =>
      rw [ho] at hplain
      have hzero : (sv.run r).1 = 0 := by
        simp only [run, ho]
        cases sv.counts <;> rfl
      simp [hzero, hplain, elems]
  unfold value at h
  dsimp only at h
  split_ifs at h with hcount hlarge hne hmissing hlong
  · obtain rfl := Except.ok.inj h
    have hle : ((sv.run r).2 - (sv.run r).1).toNat ≤ 255 := by
      simpa [UInt32.lt_iff_toNat_lt] using hlarge
    rw [hrun.1] at hle ⊢
    refine ⟨hrun.2, by simpa [elems] using hle, ?_⟩
    intro b hb
    obtain ⟨i, hi, rfl⟩ := List.mem_map.1 hb
    simp only [List.any_eq_true, List.mem_range, not_exists, not_and, Bool.not_eq_true,
      decide_eq_false_iff_not, not_lt] at hlong
    simpa [bytesAt] using hlong i (List.mem_range.1 hi)
  · obtain rfl := Except.ok.inj h
    have hzero : (sv.run r).2.toNat - (sv.run r).1.toNat = 0 := by
      rw [← hrun.1]
      simp_all
    refine ⟨?_, by simp, by simp⟩
    rw [← hrun.2, hzero]
    rfl

lemma PushCall.value_eq_pushed {call : PushCall} {col : FilterColumn} {c r : ℕ} {v : Value}
    (hplain : col.type = .set → call.isNull c r = false → ∀ sv, call.values c = some (.set sv) →
      sv.Plain r)
    (h : call.value col c r = .ok v) : v = call.pushed col c r ∧ v.Fits col := by
  unfold value at h
  unfold pushed
  split_ifs at h ⊢ with hnull hn
  · obtain rfl := Except.ok.inj h
    exact ⟨rfl, hn⟩
  · have hnull' : call.isNull c r = false := by simpa using hnull
    have hwidth : ∀ w n, (leBytes w n).length = w := length_leBytes
    cases htype : col.type with
    | string =>
      rcases hvals : call.values c with _ | (v' | v' | v' | v' | ⟨_ | data, _ | lengths⟩ | sv) <;>
        simp only [htype, hvals] at h ⊢ <;> try (cases h; simp [Value.Fits, htype])
      split_ifs at h with hlong
      cases h
      have : (lengths r).toNat ≤ 65535 := by simpa [UInt32.lt_iff_toNat_lt] using hlong
      simpa [Value.Fits, htype, bytesAt] using this
    | set =>
      rcases hvals : call.values c with _ | (v' | v' | v' | v' | ⟨data, lengths⟩ | sv) <;>
        simp only [htype, hvals] at h ⊢ <;> try (cases h; simp [Value.Fits, htype])
      cases hsv : sv.value r with
      | error e => simp [hsv] at h
      | ok es =>
        rw [hsv] at h
        cases h
        obtain ⟨rfl, hlen, hall⟩ := SetValues.value_eq_pushed (hplain htype hnull' sv hvals) hsv
        exact ⟨rfl, htype, hlen, hall⟩
    | int32 | int64 | float | bool =>
      rcases hvals : call.values c with _ | (v' | v' | v' | v' | ⟨data, lengths⟩ | sv) <;>
        simp only [htype, hvals] at h ⊢ <;> cases h <;>
        simp [Value.Fits, htype, ColumnType.width, hwidth] <;> rfl

/-! ### Staging -/

/-- The rows of a call, numbered from `first` on. -/
def PushCall.row (call : PushCall) (dim : ℕ) (s : Schema) (first r : ℕ) : Row where
  vector := call.vector dim r
  id := UInt64.ofNat (first + r)
  values := s.columns.zipIdx.map fun y => call.pushed y.1 y.2 r

/-- The sealed chunks: which rows are in the spill file and which in memory. -/
structure Sealed (spilled memory : List (List (Row × Bytes))) (st : PushStager) : Prop where
  memoryChunks : st.memoryChunks = memory.map (chunkOf st.schema)
  spill : st.spill.getD [] = spilled.flatMap fun g => (chunkOf st.schema g).write st.schema
  created : spilled ≠ [] → st.spill.isSome
  spilledChunks : st.spilledChunks = spilled.length
  small : ∀ g ∈ spilled ++ memory, g.length ≤ kChunkRows
  fits : ∀ g ∈ spilled ++ memory, ∀ x ∈ g, RowFits st.dim st.schema x

/-- All staged rows, with `rest` in the current chunk. -/
structure Staged (spilled memory : List (List (Row × Bytes))) (rest : List (Row × Bytes))
    (st : PushStager) : Prop where
  chunks : Sealed spilled memory st
  current : st.current = chunkOf st.schema rest
  short : rest.length < kChunkRows
  fits : ∀ x ∈ rest, RowFits st.dim st.schema x

lemma Sealed.maybeSpill {spilled memory : List (List (Row × Bytes))} {st : PushStager}
    (h : Sealed spilled memory st) :
    ∃ spilled' memory', Sealed spilled' memory' st.maybeSpill ∧
      spilled' ++ memory' = spilled ++ memory := by
  unfold PushStager.maybeSpill
  split_ifs with hfit
  · exact ⟨spilled, memory, h, rfl⟩
  · refine ⟨spilled ++ memory, [], ⟨rfl, ?_, fun _ => rfl, ?_, ?_, ?_⟩, by simp⟩
    · simp only [Option.getD_some, h.spill, h.memoryChunks, List.flatMap_append, List.flatMap_map]
    · simp [h.spilledChunks, h.memoryChunks]
    · simpa using h.small
    · simpa using h.fits

structure SameKind (st st' : PushStager) : Prop where
  dim : st'.dim = st.dim
  schema : st'.schema = st.schema
  hasPayload : st'.hasPayload = st.hasPayload

lemma SameKind.trans {st₁ st₂ st₃ : PushStager} (h : SameKind st₁ st₂) (h' : SameKind st₂ st₃) :
    SameKind st₁ st₃ :=
  ⟨h'.dim.trans h.dim, h'.schema.trans h.schema, h'.hasPayload.trans h.hasPayload⟩

lemma sameKind_maybeSpill (st : PushStager) : SameKind st st.maybeSpill := by
  unfold PushStager.maybeSpill
  split_ifs <;> exact ⟨rfl, rfl, rfl⟩

lemma Staged.endRow {spilled memory : List (List (Row × Bytes))} {rest : List (Row × Bytes)}
    {st st' : PushStager} {x : Row × Bytes} (h : Staged spilled memory rest st)
    (hx : RowFits st.dim st.schema x) (hst : st' = { st with
      current := st'.current, payloadBytes := st'.payloadBytes })
    (hclose : st'.closeRow = chunkOf st.schema (rest ++ [x])) :
    ∃ spilled' memory' rest', Staged spilled' memory' rest' st'.endRow ∧
      SameKind st st'.endRow ∧
      (spilled' ++ memory').flatten ++ rest' = (spilled ++ memory).flatten ++ rest ++ [x] := by
  have hcount : st'.closeRow.count = rest.length + 1 := by simp [hclose, chunkOf]
  have hfits : ∀ y ∈ rest ++ [x], RowFits st.dim st.schema y := by
    intro y hy
    rcases List.mem_append.1 hy with hy | hy
    · exact h.fits y hy
    · rw [List.mem_singleton.1 hy]
      exact hx
  have hschema : st'.schema = st.schema := by rw [hst]
  unfold PushStager.endRow
  dsimp only
  split_ifs with hfull
  · set st₁ : PushStager :=
      { st' with
        rows := st'.rows + 1
        memoryChunks := st'.memoryChunks ++ [st'.closeRow]
        current := .empty st'.schema } with hst₁
    have hkind : SameKind st st₁ := by
      rw [hst₁, hst]
      exact ⟨rfl, rfl, rfl⟩
    have hsealed : Sealed spilled (memory ++ [rest ++ [x]]) st₁ := by
      have hmem : st'.memoryChunks = st.memoryChunks := by rw [hst]
      have hspill : st'.spill = st.spill := by rw [hst]
      have hnum : st'.spilledChunks = st.spilledChunks := by rw [hst]
      refine ⟨?_, ?_, ?_, hnum.trans h.chunks.spilledChunks, ?_, ?_⟩
      · simp [hst₁, hmem, h.chunks.memoryChunks, hclose, hschema]
      · simp only [hst₁, hspill, hschema]
        exact h.chunks.spill
      · simp only [hst₁, hspill]
        exact h.chunks.created
      · intro g hg
        rw [← List.append_assoc] at hg
        rcases List.mem_append.1 hg with hg | hg
        · exact h.chunks.small g hg
        · have := h.short
          rw [List.mem_singleton.1 hg]
          simp only [List.length_append, List.length_singleton]
          omega
      · intro g hg y hy
        rw [hkind.dim, hkind.schema]
        rw [← List.append_assoc] at hg
        rcases List.mem_append.1 hg with hg | hg
        · exact h.chunks.fits g hg y hy
        · exact hfits y (List.mem_singleton.1 hg ▸ hy)
    obtain ⟨spilled', memory', hs', horder⟩ := hsealed.maybeSpill
    have hcur : st₁.maybeSpill.current = chunkOf st₁.maybeSpill.schema [] := by
      rw [chunkOf_nil, (sameKind_maybeSpill st₁).schema]
      unfold PushStager.maybeSpill
      split_ifs <;> rfl
    refine ⟨spilled', memory', [], ⟨hs', hcur, by decide, by simp⟩,
      hkind.trans (sameKind_maybeSpill st₁), ?_⟩
    rw [horder]
    simp
  · have hkind : SameKind st { st' with rows := st'.rows + 1, current := st'.closeRow } := by
      rw [hst]
      exact ⟨rfl, rfl, rfl⟩
    refine ⟨spilled, memory, rest ++ [x], ⟨?_, ?_, ?_, ?_⟩, hkind, by simp⟩
    · rw [hst]
      exact ⟨h.chunks.memoryChunks, h.chunks.spill, h.chunks.created, h.chunks.spilledChunks,
        h.chunks.small, h.chunks.fits⟩
    · rw [← hschema] at hclose
      exact hclose
    · rw [hcount] at hfull
      simp only [List.length_append, List.length_singleton]
      omega
    · rw [hkind.dim, hkind.schema]
      exact hfits

def PushCall.payloadOf (call : PushCall) (hasPayload : Bool) (r : ℕ) : Bytes :=
  if hasPayload then (call.payload r).toOption.getD [] else []

lemma PushCall.length_payloadOf {call : PushCall} (hasPayload : Bool) (r : ℕ) :
    (call.payloadOf hasPayload r).length < 2 ^ 32 := by
  unfold payloadOf payload
  dsimp only
  split_ifs <;> simp [Except.toOption, bytesAt]
  omega

lemma PushCall.getD_row {call : PushCall} {s : Schema} {y : FilterColumn × ℕ} (dim first r : ℕ)
    (hy : y ∈ s.columns.zipIdx) :
    (call.row dim s first r).values.getD y.2 .null = call.pushed y.1 y.2 r := by
  obtain ⟨hlt, hget⟩ := List.mem_zipIdx' hy
  simp [row, List.getD_eq_getElem?_getD, hlt, ← hget]

/-- Row `r` of the call passes its checks and is the row `x`. -/
structure PushCall.Gives (call : PushCall) (dim : ℕ) (s : Schema) (hasPayload : Bool) (first r : ℕ)
    (x : Row × Bytes) : Prop where
  vector : x.1.vector = call.vector dim r
  id : x.1.id = UInt64.ofNat (first + r)
  values : x.1.values.length = s.columns.length
  value : ∀ y ∈ s.columns.zipIdx, call.value y.1 y.2 r = .ok (x.1.values.getD y.2 .null)
  fits : ∀ y ∈ s.columns.zipIdx, (x.1.values.getD y.2 .null).Fits y.1
  payload : x.2 = call.payloadOf hasPayload r
  accepted : hasPayload = true → ∃ p, call.payload r = .ok p

lemma Staged.pushRow {spilled memory : List (List (Row × Bytes))} {rest : List (Row × Bytes)}
    {st : PushStager} (b : PushBuilder) {call : PushCall} {r : ℕ} {x : Row × Bytes}
    (h : Staged spilled memory rest st)
    (hx : call.Gives st.dim st.schema st.hasPayload b.rows r x) :
    ∃ spilled' memory' rest', Staged spilled' memory' rest' (b.pushRow call r st).1 ∧
      SameKind st (b.pushRow call r st).1 ∧
      (spilled' ++ memory').flatten ++ rest' = (spilled ++ memory).flatten ++ rest ++ [x] := by
  have hfits : RowFits st.dim st.schema x :=
    ⟨by simp [hx.vector, PushCall.vector], hx.values, hx.fits, by
      rw [hx.payload]
      exact PushCall.length_payloadOf _ _⟩
  obtain ⟨st₂, hpush, hst₂, hclose⟩ := closeRow_eq h.current hfits hx.value
  have hhas : st₂.hasPayload = st.hasPayload := by rw [hst₂]
  have hdone : (b.pushRow call r st).1 = (st₂.appendPayload x.2).endRow := by
    rw [hx.vector, hx.id] at hpush
    simp only [PushBuilder.pushRow]
    rw [hpush]
    dsimp only
    by_cases hp : st.hasPayload = true
    · rw [hhas, if_pos hp]
      obtain ⟨p, hp'⟩ := hx.accepted hp
      simp [hp', hx.payload, PushCall.payloadOf, hp, Except.toOption]
    · rw [hhas, if_neg hp]
      simp [hx.payload, PushCall.payloadOf, hp, PushStager.appendPayload]
  rw [hdone]
  refine h.endRow hfits ?_ hclose
  have hbytes : st₂.payloadBytes = st.payloadBytes := by rw [hst₂]
  conv_lhs => rw [hst₂]
  simp [PushStager.appendPayload, hbytes]

lemma Staged.pushRows {spilled memory : List (List (Row × Bytes))} {rest : List (Row × Bytes)}
    {st : PushStager} (b : PushBuilder) {call : PushCall} {f : ℕ → Row × Bytes} (rs : List ℕ)
    (h : Staged spilled memory rest st) (hnone : (b.pushRows call rs st).2 = none)
    (hf : ∀ r ∈ rs, call.Gives st.dim st.schema st.hasPayload b.rows r (f r)) :
    ∃ spilled' memory' rest', Staged spilled' memory' rest' (b.pushRows call rs st).1 ∧
      SameKind st (b.pushRows call rs st).1 ∧
      (spilled' ++ memory').flatten ++ rest' = (spilled ++ memory).flatten ++ rest ++ rs.map f := by
  induction rs generalizing spilled memory rest st with
  | nil => exact ⟨spilled, memory, rest, h, ⟨rfl, rfl, rfl⟩, by simp⟩
  | cons r rs ih =>
    simp only [PushBuilder.pushRows] at hnone ⊢
    cases hr : b.pushRow call r st with
    | mk st₁ err =>
      rw [hr] at hnone
      cases err with
      | some e => simp at hnone
      | none =>
        obtain ⟨sp₁, mem₁, rest₁, h₁, hkind₁, horder₁⟩ := h.pushRow b (hf r List.mem_cons_self)
        rw [hr] at h₁ hkind₁
        dsimp only at h₁ hkind₁ hnone ⊢
        obtain ⟨sp₂, mem₂, rest₂, h₂, hkind₂, horder₂⟩ := ih h₁ hnone fun r' hr' => by
          rw [hkind₁.dim, hkind₁.schema, hkind₁.hasPayload]
          exact hf r' (List.mem_cons_of_mem r hr')
        refine ⟨sp₂, mem₂, rest₂, h₂, hkind₁.trans hkind₂, ?_⟩
        rw [horder₂, horder₁]
        simp

lemma PushCall.gives_row {call : PushCall} {st : PushStager} {r : ℕ} (first : ℕ)
    (hok : call.RowOk st r) (hplain : call.Plain st.schema) (hr : r < call.nRows) :
    call.Gives st.dim st.schema st.hasPayload first r
      (call.row st.dim st.schema first r, call.payloadOf st.hasPayload r) := by
  have hvals : ∀ y ∈ st.schema.columns.zipIdx,
      call.value y.1 y.2 r = .ok ((call.row st.dim st.schema first r).values.getD y.2 .null) ∧
        ((call.row st.dim st.schema first r).values.getD y.2 .null).Fits y.1 := by
    intro y hy
    obtain ⟨v, hv⟩ := hok.1 y hy
    obtain ⟨rfl, hfits⟩ := PushCall.value_eq_pushed
      (fun hset hnull sv hsv => hplain y hy r hr hset hnull sv hsv) hv
    rw [PushCall.getD_row st.dim first r hy]
    exact ⟨hv, hfits⟩
  exact ⟨rfl, rfl, by simp [PushCall.row], fun y hy => (hvals y hy).1, fun y hy => (hvals y hy).2,
    rfl, hok.2⟩

/-- A build in progress: the rows pushed so far, by calls that satisfy `P`, and the builder. -/
inductive Pushed (P : PushCall → Prop) (dim : ℕ) (s : Schema) (hasPayload : Bool) (budget : ℕ) :
    List Row → PushBuilder → Prop
  | start : Pushed P dim s hasPayload budget [] { stager := .new dim s hasPayload budget }
  | push {rows : List Row} {b : PushBuilder} (call : PushCall)
      (h : Pushed P dim s hasPayload budget rows b) (hcall : P call)
      (ok : (b.push call).2 = none) :
      Pushed P dim s hasPayload budget
        (rows ++ (List.range call.nRows).map (call.row dim s rows.length)) (b.push call).1

lemma Pushed.staged {dim : ℕ} {s : Schema} {hasPayload : Bool} {budget : ℕ} {rows : List Row}
    {b : PushBuilder} (h : Pushed (PushCall.Plain · s) dim s hasPayload budget rows b) :
    b.rows = rows.length ∧ b.stager.dim = dim ∧ b.stager.schema = s ∧
      b.stager.hasPayload = hasPayload ∧
      ∃ spilled memory rest, Staged spilled memory rest b.stager ∧
        ((spilled ++ memory).flatten ++ rest).map Prod.fst = rows := by
  induction h with
  | start =>
    refine ⟨rfl, rfl, rfl, rfl, [], [], [], ⟨⟨rfl, rfl, by simp, rfl, by simp, by simp⟩, ?_,
      by decide, by simp⟩, rfl⟩
    exact (chunkOf_nil s).symm
  | @push rows b call _ hplain ok ih =>
    obtain ⟨hrows, hdim, hschema, hhas, spilled, memory, rest, hst, horder⟩ := ih
    unfold PushBuilder.push at ok ⊢
    cases hrefused : b.refused call with
    | some e => simp [hrefused] at ok
    | none =>
      rw [hrefused] at ok
      dsimp only at ok ⊢
      cases hgo : b.pushRows call (List.range call.nRows) b.stager with
      | mk st err =>
        rw [hgo] at ok
        cases err with
        | some e => simp at ok
        | none =>
          have hok := (PushBuilder.pushRows_spec b call _ b.stager).1.1 (by rw [hgo])
          obtain ⟨sp, mem, rest', hst', hkind, horder'⟩ :=
            hst.pushRows b (List.range call.nRows) (by rw [hgo])
              fun r hr => PushCall.gives_row b.rows (hok r hr) (hschema ▸ hplain)
                (List.mem_range.1 hr)
          rw [hgo] at hst' hkind
          refine ⟨by simp [hrows], hkind.dim.trans hdim, hkind.schema.trans hschema,
            hkind.hasPayload.trans hhas, sp, mem, rest', hst', ?_⟩
          rw [horder', List.map_append, horder, hdim, hschema, hrows]
          simp

lemma Staged.buildSource {spilled memory : List (List (Row × Bytes))} {rest : List (Row × Bytes)}
    {st : PushStager} (h : Staged spilled memory rest st) :
    ∃ spilled' memory', Sealed spilled' memory' st.buildSource ∧ SameKind st st.buildSource ∧
      (spilled' ++ memory').flatten = (spilled ++ memory).flatten ++ rest := by
  have hcount : st.current.count = rest.length := by simp [h.current, chunkOf]
  unfold PushStager.buildSource
  split_ifs with hpos
  · have hsealed : Sealed spilled (memory ++ [rest])
        { st with memoryChunks := st.memoryChunks ++ [st.current], current := {} } := by
      refine ⟨by simp [h.chunks.memoryChunks, h.current], h.chunks.spill, h.chunks.created,
        h.chunks.spilledChunks, ?_, ?_⟩
      · intro g hg
        rw [← List.append_assoc] at hg
        rcases List.mem_append.1 hg with hg | hg
        · exact h.chunks.small g hg
        · rw [List.mem_singleton.1 hg]
          exact h.short.le
      · intro g hg x hx
        rw [← List.append_assoc] at hg
        rcases List.mem_append.1 hg with hg | hg
        · exact h.chunks.fits g hg x hx
        · exact h.fits x (List.mem_singleton.1 hg ▸ hx)
    obtain ⟨spilled', memory', hs', horder⟩ := hsealed.maybeSpill
    have hkind : SameKind st
        { st with memoryChunks := st.memoryChunks ++ [st.current], current := {} } :=
      ⟨rfl, rfl, rfl⟩
    refine ⟨spilled', memory', hs', hkind.trans (sameKind_maybeSpill _), ?_⟩
    rw [horder]
    simp
  · obtain ⟨spilled', memory', hs', horder⟩ := h.chunks.maybeSpill
    obtain rfl : rest = [] := List.eq_nil_of_length_eq_zero (by omega)
    exact ⟨spilled', memory', hs', sameKind_maybeSpill st, by simp [horder]⟩

end SextantTree.PushStage
