import SextantTree.PushSpec

/-!
The passes over a push build. The spill file gives back the chunks that were written to it, with or
without their columns, and a delivered chunk decodes to the rows it was made of.
-/

namespace SextantTree.PushStage

open FilterHash ByteMem Reader

/-! ### The spill file gives back its chunks -/

lemma reads_u16s (e : Fault) (l : List UInt16) : Reads (many (readU16 e) l.length) (u16s l) l := by
  refine reads_many l fun x _ => ?_
  have := (reads_word e (w := 2) x.toNat_lt).bind_pure (f := UInt16.ofNat)
  rwa [UInt16.ofNat_toNat] at this

lemma reads_u32s (e : Fault) (l : List UInt32) : Reads (many (readU32 e) l.length) (u32s l) l := by
  refine reads_many l fun x _ => ?_
  have := (reads_word e (w := 4) x.toNat_lt).bind_pure (f := UInt32.ofNat)
  rwa [UInt32.ofNat_toNat] at this

lemma reads_u64s (e : Fault) (l : List UInt64) : Reads (many (readU64 e) l.length) (u64s l) l := by
  refine reads_many l fun x _ => ?_
  have := (reads_word e (w := 8) x.toNat_lt).bind_pure (f := UInt64.ofNat)
  rwa [UInt64.ofNat_toNat] at this

lemma reads_word64 (e : Fault) {n : ℕ} (h : n < 2 ^ 64) :
    Reads (word e 8) (leBytes 8 n) n :=
  reads_word e (by simpa using h)

lemma reads_sized (e : Fault) {b : Bytes} (h : b.length < 2 ^ 64) :
    Reads (readSized e) (sized b) b :=
  (reads_word64 e h).bind (reads_take e rfl)

@[simp] lemma length_u16s (l : List UInt16) : (u16s l).length = l.length * 2 :=
  (length_flatMap_const fun _ _ => length_leBytes _ _).trans (Nat.mul_comm _ _)

@[simp] lemma length_u32s (l : List UInt32) : (u32s l).length = l.length * 4 :=
  (length_flatMap_const fun _ _ => length_leBytes _ _).trans (Nat.mul_comm _ _)

structure Column.Bounded (c : Column) : Prop where
  fixed : c.fixed.length < 2 ^ 64
  strData : c.strData.length < 2 ^ 64
  strOffsets : c.strOffsets.length < 2 ^ 64
  strLengths : c.strLengths.length = c.strOffsets.length
  setElemData : c.setElemData.length < 2 ^ 64
  setElemLengths : c.setElemLengths.length < 2 ^ 64
  setCounts : c.setCounts.length < 2 ^ 64
  setOffsets : c.setOffsets.length < 2 ^ 64
  nulls : c.nulls.length < 2 ^ 64

lemma Column.reads_blob {c : Column} (h : c.Bounded) : Reads Column.read c.blob c := by
  simp only [Column.blob, Column.read, List.append_assoc]
  refine (reads_sized _ h.fixed).bind ?_
  refine (reads_sized _ h.strData).bind ?_
  refine (reads_word64 _ h.strOffsets).bind ?_
  refine (reads_u32s _ c.strOffsets).bind ?_
  rw [← h.strLengths]
  refine (reads_u16s _ c.strLengths).bind ?_
  refine (reads_sized _ h.setElemData).bind ?_
  refine (reads_word64 _ h.setElemLengths).bind ?_
  refine (reads_u16s _ c.setElemLengths).bind ?_
  refine (reads_sized _ h.setCounts).bind ?_
  refine (reads_word64 _ h.setOffsets).bind ?_
  refine (reads_u32s _ c.setOffsets).bind ?_
  exact (reads_sized _ h.nulls).bind_pure

def StagedChunk.seen (c : StagedChunk) (vectorOnly : Bool) : StagedChunk :=
  if vectorOnly then { c with cols := [], payloadData := [], payloadOffsets := [] } else c

/-- A chunk whose arrays have the sizes that the file takes from its count. -/
structure StagedChunk.Regular (dim : ℕ) (s : Schema) (c : StagedChunk) : Prop where
  count : c.count < 2 ^ 32
  vectors : c.vectors.length = c.count * dim
  rowIds : c.rowIds.length = c.count
  cols : c.cols.length = s.columns.length
  bounded : ∀ d ∈ c.cols, d.Bounded
  blob : (c.cols.flatMap Column.blob).length < 2 ^ 64
  payloadData : c.payloadData.length < 2 ^ 64
  payloadOffsets : c.payloadOffsets.length = c.count + 1

lemma reads_cols {dim : ℕ} {s : Schema} {c : StagedChunk} (h : c.Regular dim s)
    (vectorOnly : Bool) :
    Reads (readCols s vectorOnly)
      (if s.columns.isEmpty then [] else sized (c.cols.flatMap Column.blob))
      (c.seen vectorOnly).cols := by
  unfold readCols sized
  split_ifs with hempty hvec
  · have hnil : c.cols = [] := by
      have := h.cols
      simp_all
    have : (c.seen vectorOnly).cols = [] := by
      unfold StagedChunk.seen
      split_ifs <;> simp [hnil]
    rw [this]
    exact reads_pure []
  · refine (reads_word64 _ h.blob).bind ?_
    simp only [hvec, StagedChunk.seen, if_true]
    have := Reads.bind (f := fun _ => (pure [] : Reader Fault (List Column)))
      (reads_skip (ε := Fault) (b := c.cols.flatMap Column.blob) rfl) (reads_pure [])
    rwa [List.append_nil] at this
  · refine (reads_word64 _ h.blob).bind ?_
    simp only [hvec, StagedChunk.seen, Bool.false_eq_true, if_false]
    have hmany := reads_many c.cols fun d hd => Column.reads_blob (h.bounded d hd)
    rw [h.cols] at hmany
    have := (reads_take Fault.truncated (b := c.cols.flatMap Column.blob) rfl).bind
      (f := fun blob => within (many Column.read s.columns.length) blob) (reads_within hmany)
    rwa [List.append_nil] at this

lemma reads_payload {dim : ℕ} {s : Schema} {c : StagedChunk} (h : c.Regular dim s)
    (vectorOnly : Bool) :
    Reads (readPayload c.count vectorOnly)
      (leBytes 8 c.payloadData.length ++ u32s c.payloadOffsets ++ c.payloadData)
      ((c.seen vectorOnly).payloadData, (c.seen vectorOnly).payloadOffsets) := by
  unfold readPayload
  rw [List.append_assoc]
  refine (reads_word64 _ h.payloadData).bind ?_
  cases vectorOnly with
  | true =>
    simp only [if_true, StagedChunk.seen]
    have hlen : (u32s c.payloadOffsets ++ c.payloadData).length
        = c.payloadData.length + (c.count + 1) * 4 := by
      simp [h.payloadOffsets]
      omega
    exact (reads_skip (ε := Fault) hlen).bind_pure (f := fun _ => ([], []))
  | false =>
    simp only [Bool.false_eq_true, if_false, StagedChunk.seen]
    rw [← h.payloadOffsets]
    refine (reads_u32s _ c.payloadOffsets).bind ?_
    exact (reads_take _ rfl).bind_pure

lemma StagedChunk.reads_write {dim : ℕ} {s : Schema} {c : StagedChunk} (h : c.Regular dim s)
    (vectorOnly : Bool) : Reads (StagedChunk.read dim s vectorOnly) (c.write s)
      (c.seen vectorOnly) := by
  have hfields : c.seen vectorOnly =
      { count := c.count, vectors := c.vectors, rowIds := c.rowIds,
        cols := (c.seen vectorOnly).cols, payloadData := (c.seen vectorOnly).payloadData,
        payloadOffsets := (c.seen vectorOnly).payloadOffsets } := by
    unfold seen
    split_ifs <;> rfl
  rw [hfields]
  unfold StagedChunk.read StagedChunk.write
  rw [List.append_assoc, List.append_assoc, List.append_assoc]
  have hcount : c.count < 256 ^ 4 := by simpa using h.count
  refine (reads_word _ hcount).bind ?_
  rw [← h.vectors]
  refine (reads_u32s _ c.vectors).bind ?_
  have hids := reads_u64s Fault.truncated c.rowIds
  rw [h.rowIds] at hids
  refine hids.bind ?_
  refine (reads_cols h vectorOnly).bind ?_
  exact (reads_payload h vectorOnly).bind_pure

/-! ### Sizes -/

lemma length_strs_le {col : FilterColumn} {vs : List Value} (hfit : ∀ v ∈ vs, v.Fits col) :
    (vs.flatMap (Value.strPart col.type)).length ≤ vs.length * 1 ∧
      ∀ b ∈ vs.flatMap (Value.strPart col.type), b.length ≤ 65535 := by
  constructor
  · refine length_flatMap_le fun v _ => ?_
    cases v <;> simp [Value.strPart]
    split_ifs <;> simp
  · intro b hb
    obtain ⟨v, hv, hb⟩ := List.mem_flatMap.1 hb
    have := hfit v hv
    cases v with
    | str b' =>
      obtain rfl : b = b' := by simpa [Value.strPart] using hb
      exact this.2
    | null =>
      simp only [Value.strPart] at hb
      split_ifs at hb
      · obtain rfl : b = [] := by simpa using hb
        simp
      · simp at hb
    | fixed _ => simp [Value.strPart] at hb
    | set _ => simp [Value.strPart] at hb

lemma length_sets_le {col : FilterColumn} {vs : List Value} (hfit : ∀ v ∈ vs, v.Fits col) :
    (vs.flatMap (Value.setPart col.type)).length ≤ vs.length * 1 ∧
      ∀ es ∈ vs.flatMap (Value.setPart col.type), es.length ≤ 255 ∧ ∀ b ∈ es, b.length ≤ 65535 := by
  constructor
  · refine length_flatMap_le fun v _ => ?_
    cases v <;> simp [Value.setPart]
    split_ifs <;> simp
  · intro es hes
    obtain ⟨v, hv, hes⟩ := List.mem_flatMap.1 hes
    have := hfit v hv
    cases v with
    | set es' =>
      obtain rfl : es = es' := by simpa [Value.setPart] using hes
      exact this.2
    | null =>
      simp only [Value.setPart] at hes
      split_ifs at hes
      · obtain rfl : es = [] := by simpa using hes
        simp
      · simp at hes
    | fixed _ => simp [Value.setPart] at hes
    | str _ => simp [Value.setPart] at hes

lemma Column.bounded_of {col : FilterColumn} {vs : List Value} (hfit : ∀ v ∈ vs, v.Fits col)
    (hlen : vs.length ≤ kChunkRows) :
    (Column.of col vs).Bounded ∧ (Column.of col vs).blob.length ≤ 2 ^ 41 := by
  obtain ⟨hstrs, hstr⟩ := length_strs_le hfit
  obtain ⟨hsets, hset⟩ := length_sets_le hfit
  set strs := vs.flatMap (Value.strPart col.type) with hS
  set sets := vs.flatMap (Value.setPart col.type) with hT
  have hfixed : (vs.flatMap (Value.fixedPart col.type)).length ≤ vs.length * 8 := by
    refine length_flatMap_le fun v hv => ?_
    have := hfit v hv
    cases v with
    | fixed b =>
      have hb : b.length = col.type.width := this.2.2
      simp only [Value.fixedPart, hb]
      cases col.type <;> simp [ColumnType.width]
    | null =>
      simp only [Value.fixedPart, List.length_replicate]
      cases col.type <;> simp [ColumnType.width]
    | str _ => simp [Value.fixedPart]
    | set _ => simp [Value.fixedPart]
  have hdata : strs.flatten.length ≤ strs.length * 65535 := by
    rw [← List.flatMap_id']
    exact length_flatMap_le hstr
  have helems : sets.flatten.length ≤ sets.length * 255 := by
    rw [← List.flatMap_id']
    exact length_flatMap_le fun es hes => (hset es hes).1
  have helem : sets.flatten.flatten.length ≤ sets.flatten.length * 65535 := by
    rw [← List.flatMap_id' (L := sets.flatten)]
    refine length_flatMap_le fun b hb => ?_
    obtain ⟨es, hes, hb⟩ := List.mem_flatten.1 hb
    exact (hset es hes).2 b hb
  have hnulls : (Column.of col vs).nulls.length ≤ vs.length := by
    simp only [Column.of]
    split_ifs <;> simp
  have hk : kChunkRows = 32768 := rfl
  refine ⟨⟨?_, ?_, ?_, ?_, ?_, ?_, ?_, ?_, by omega⟩, ?_⟩
  · change (vs.flatMap (Value.fixedPart col.type)).length < _
    omega
  · change strs.flatten.length < _
    omega
  · change (starts strs).length < _
    rw [length_starts]
    omega
  · change (strs.map _).length = (starts strs).length
    simp
  · change sets.flatten.flatten.length < _
    omega
  · change (sets.flatten.map _).length < _
    rw [List.length_map]
    omega
  · change (sets.map _).length < _
    rw [List.length_map]
    omega
  · change (starts sets).length < _
    rw [length_starts]
    omega
  · simp only [Column.blob, sized, List.length_append, length_leBytes, length_u16s, length_u32s]
    change 8 + (vs.flatMap (Value.fixedPart col.type)).length + (8 + strs.flatten.length)
      + (8 + ((starts strs).length * 4 + (strs.map _).length * 2))
      + (8 + sets.flatten.flatten.length) + (8 + (sets.flatten.map _).length * 2)
      + (8 + (sets.map _).length) + (8 + (starts sets).length * 4)
      + (8 + (Column.of col vs).nulls.length) ≤ _
    simp only [length_starts, List.length_map]
    omega

lemma regular_chunkOf {dim : ℕ} {s : Schema} {rows : List (Row × Bytes)}
    (hcols : s.columns.length < 2 ^ 23) (hfit : ∀ x ∈ rows, RowFits dim s x)
    (hlen : rows.length ≤ kChunkRows) : (chunkOf s rows).Regular dim s := by
  have hk : kChunkRows = 32768 := rfl
  have hcol : ∀ d ∈ (chunkOf s rows).cols, d.Bounded ∧ d.blob.length ≤ 2 ^ 41 := by
    intro d hd
    obtain ⟨y, hy, rfl⟩ := List.mem_map.1 hd
    refine Column.bounded_of ?_ (by simpa using hlen)
    intro v hv
    obtain ⟨x, hx, rfl⟩ := List.mem_map.1 hv
    exact (hfit x hx).fits y hy
  refine ⟨?_, ?_, by simp [chunkOf], by simp [chunkOf], fun d hd => (hcol d hd).1, ?_, ?_,
    by simp [chunkOf]⟩
  · change rows.length < _
    omega
  · exact (length_flatMap_const fun x hx => (hfit x hx).vector).trans (Nat.mul_comm _ _)
  · have := length_flatMap_le fun d hd => (hcol d hd).2
    have hchunk : (chunkOf s rows).cols.length = s.columns.length := by simp [chunkOf]
    omega
  · have : (rows.flatMap Prod.snd).length ≤ rows.length * 2 ^ 32 :=
      length_flatMap_le fun x hx => (hfit x hx).payload.le
    change (rows.flatMap Prod.snd).length < _
    omega

/-! ### A delivered chunk decodes to its rows -/

/-- The value of row `i` behind a view. -/
def View.value (t : ColumnType) (i : ℕ) : View → Value
  | .fixed data => .fixed ((data.drop (i * t.width)).take t.width)
  | .str offsets lengths data _ =>
    .str ((data.drop (offsets.getD i 0).toNat).take (lengths.getD i 0).toNat)
  | .set counts offsets elemLengths elemData _ _ =>
    .set ((List.range (counts.getD i 0).toNat).map fun k =>
      let j := (offsets.getD i 0).toNat + k
      (elemData.drop ((elemLengths.take j).map UInt16.toNat).sum).take
        (elemLengths.getD j 0).toNat)

/-- The value of row `i` in column `j`: NULL when it is flagged. -/
def Chunk.value (c : Chunk) (col : FilterColumn) (j i : ℕ) : Value :=
  let flags := ((c.filterNulls.getD []).getD j none).getD []
  if flags.getD i 0 ≠ 0 then .null
  else
    match (c.filterColumns.getD [])[j]? with
    | some v => v.value col.type i
    | none => .null

def Chunk.rows (c : Chunk) (dim : ℕ) (s : Schema) : List Row :=
  (List.range c.count).map fun i =>
    { vector := (c.vectors.drop (i * dim)).take dim
      id := c.rowIds.getD i 0
      values := s.columns.zipIdx.map fun y => c.value y.1 y.2 i }

section Decode

variable {col : FilterColumn} {vs : List Value} {i : ℕ}

lemma flatMap_eq_map {α β : Type} {f : α → List β} {g : α → β} {l : List α}
    (h : ∀ a ∈ l, f a = [g a]) : l.flatMap f = l.map g := by
  induction l with
  | nil => rfl
  | cons a l ih =>
    rw [List.flatMap_cons, h a List.mem_cons_self, ih fun x hx => h x (List.mem_cons_of_mem a hx)]
    rfl

lemma toNat_starts {α : Type} {l : List (List α)} {k : ℕ} (hi : i < l.length)
    (hk : ∀ a ∈ l, a.length ≤ k) (hlen : l.length * k < 2 ^ 32) :
    ((starts l).getD i 0).toNat = (l.take i).flatten.length := by
  have hle : (l.take i).flatten.length ≤ (l.take i).length * k := by
    rw [← List.flatMap_id']
    exact length_flatMap_le fun a ha => hk a (List.mem_of_mem_take ha)
  have hmul : (l.take i).length * k ≤ l.length * k :=
    Nat.mul_le_mul_right k (List.length_take_le' i l)
  simp only [starts, List.getD_eq_getElem?_getD, List.getElem?_map, List.getElem?_range hi]
  exact UInt32.toNat_ofNat_of_lt' (by change _ < 2 ^ 32; omega)

lemma value_fixed (hfit : ∀ v ∈ vs, v.Fits col) (hi : i < vs.length)
    (hs : col.type ≠ .string) (ht : col.type ≠ .set) (hnull : vs[i] ≠ .null) :
    ((Column.of col vs).view col.type).value col.type i = vs[i] := by
  have hlen : ∀ v ∈ vs, (Value.fixedPart col.type v).length = col.type.width := by
    intro v hv
    have := hfit v hv
    cases v with
    | fixed b => exact this.2.2
    | null => simp [Value.fixedPart]
    | str b => exact absurd this.1 hs
    | set es => exact absurd this.1 ht
  have hview : (Column.of col vs).view col.type = .fixed (vs.flatMap (Value.fixedPart col.type)) := by
    unfold Column.view
    split <;> simp_all [Column.of]
  set parts := vs.map (Value.fixedPart col.type) with hparts
  have hstart : (parts.take i).flatten.length = i * col.type.width := by
    rw [hparts, ← List.map_take, ← List.flatMap_def, length_flatMap_const (w := col.type.width)]
    · rw [List.length_take, Nat.mul_comm, Nat.min_eq_left (by omega)]
    · exact fun v hv => hlen v (List.mem_of_mem_take hv)
  have hi' : i < parts.length := by simpa [hparts] using hi
  have hpart : parts[i] = Value.fixedPart col.type vs[i] := by simp [hparts]
  have hpiece := take_drop_flatten parts hi'
  rw [hstart, hpart, hlen _ (List.getElem_mem hi)] at hpiece
  rw [hview, View.value, List.flatMap_def, ← hparts, hpiece]
  have := hfit vs[i] (List.getElem_mem hi)
  cases hv : vs[i] with
  | fixed b => rfl
  | null => exact absurd hv hnull
  | str b =>
    rw [hv] at this
    exact absurd this.1 hs
  | set es =>
    rw [hv] at this
    exact absurd this.1 ht

lemma value_str (hfit : ∀ v ∈ vs, v.Fits col) (hlen : vs.length ≤ kChunkRows) (hi : i < vs.length)
    (hs : col.type = .string) (hnull : vs[i] ≠ .null) :
    ((Column.of col vs).view col.type).value col.type i = vs[i] := by
  obtain ⟨-, hshort⟩ := length_strs_le hfit
  have hk : kChunkRows = 32768 := rfl
  set g : Value → Bytes := fun v => match v with | .str b => b | _ => [] with hg
  have hstrs : vs.flatMap (Value.strPart col.type) = vs.map g := by
    refine flatMap_eq_map fun v hv => ?_
    have := hfit v hv
    cases v with
    | str b => rfl
    | null => simp [Value.strPart, hs, hg]
    | fixed b => exact absurd hs this.1
    | set es => exact absurd (hs.symm.trans this.1) (by decide)
  rw [hstrs] at hshort
  have hi' : i < (vs.map g).length := by simpa using hi
  have hstart := toNat_starts hi' hshort (by rw [List.length_map]; omega)
  have hpiece := take_drop_flatten (vs.map g) hi'
  have hget : (vs.map g)[i] = g vs[i] := by simp
  have hlength : ((((vs.map g).map fun b => UInt16.ofNat b.length)).getD i 0).toNat
      = (g vs[i]).length := by
    simp only [List.getD_eq_getElem?_getD, List.getElem?_map, List.getElem?_eq_getElem hi,
      Option.map_some, Option.getD_some]
    refine UInt16.toNat_ofNat_of_lt' ?_
    have := hshort (g vs[i]) (List.mem_map_of_mem (List.getElem_mem hi))
    change _ < 2 ^ 16
    omega
  have hview : (Column.of col vs).view col.type = .str (starts (vs.map g))
      ((vs.map g).map fun b => UInt16.ofNat b.length) (vs.map g).flatten
      (UInt32.ofNat (vs.map g).flatten.length) := by
    rw [hs]
    simp only [Column.view, Column.of]
    rw [hstrs]
  rw [hview, View.value, hstart, hlength, ← hget, hpiece, hget]
  have := hfit vs[i] (List.getElem_mem hi)
  cases hv : vs[i] with
  | str b => rfl
  | null => exact absurd hv hnull
  | fixed b =>
    rw [hv] at this
    exact absurd hs this.1
  | set es =>
    rw [hv] at this
    exact absurd (hs.symm.trans this.1) (by decide)

lemma element_at {elems : List Bytes} (hshort : ∀ b ∈ elems, b.length ≤ 65535) {j : ℕ}
    (hj : j < elems.length) :
    (elems.flatten.drop (((elems.map fun b => UInt16.ofNat b.length).take j).map
        UInt16.toNat).sum).take ((elems.map fun b => UInt16.ofNat b.length).getD j 0).toNat
      = elems[j] := by
  have hlen : ∀ b ∈ elems, (UInt16.ofNat b.length).toNat = b.length := by
    intro b hb
    refine UInt16.toNat_ofNat_of_lt' ?_
    have := hshort b hb
    change _ < 2 ^ 16
    omega
  have hstart : (((elems.map fun b => UInt16.ofNat b.length).take j).map UInt16.toNat).sum
      = (elems.take j).flatten.length := by
    rw [List.length_flatten, ← List.map_take, List.map_map]
    exact congrArg _ (List.map_congr_left fun b hb => hlen b (List.mem_of_mem_take hb))
  have hget : ((elems.map fun b => UInt16.ofNat b.length).getD j 0).toNat = elems[j].length := by
    simp only [List.getD_eq_getElem?_getD, List.getElem?_map, List.getElem?_eq_getElem hj,
      Option.map_some, Option.getD_some]
    exact hlen _ (List.getElem_mem hj)
  rw [hstart, hget]
  exact take_drop_flatten elems hj

lemma value_set (hfit : ∀ v ∈ vs, v.Fits col) (hlen : vs.length ≤ kChunkRows) (hi : i < vs.length)
    (hs : col.type = .set) (hnull : vs[i] ≠ .null) :
    ((Column.of col vs).view col.type).value col.type i = vs[i] := by
  obtain ⟨-, hsmall⟩ := length_sets_le hfit
  have hk : kChunkRows = 32768 := rfl
  set g : Value → List Bytes := fun v => match v with | .set es => es | _ => [] with hg
  have hsets : vs.flatMap (Value.setPart col.type) = vs.map g := by
    refine flatMap_eq_map fun v hv => ?_
    have := hfit v hv
    cases v with
    | set es => rfl
    | null => simp [Value.setPart, hs, hg]
    | fixed b => exact absurd hs this.2.1
    | str es => exact absurd (hs.symm.trans this.1) (by decide)
  rw [hsets] at hsmall
  have hi' : i < (vs.map g).length := by simpa using hi
  have hstart := toNat_starts hi' (fun es hes => (hsmall es hes).1) (by rw [List.length_map]; omega)
  have hpiece := take_drop_flatten (vs.map g) hi'
  have hget : (vs.map g)[i] = g vs[i] := by simp
  have hmem : g vs[i] ∈ vs.map g := List.mem_map_of_mem (List.getElem_mem hi)
  have hcount : ((((vs.map g).map fun es => UInt8.ofNat es.length)).getD i 0).toNat
      = (g vs[i]).length := by
    simp only [List.getD_eq_getElem?_getD, List.getElem?_map, List.getElem?_eq_getElem hi,
      Option.map_some, Option.getD_some]
    refine UInt8.toNat_ofNat_of_lt' ?_
    have := (hsmall _ hmem).1
    change _ < 2 ^ 8
    omega
  set elems := (vs.map g).flatten with helems
  have hshort : ∀ b ∈ elems, b.length ≤ 65535 := by
    intro b hb
    obtain ⟨es, hes, hb⟩ := List.mem_flatten.1 hb
    exact (hsmall es hes).2 b hb
  have hview : (Column.of col vs).view col.type = .set ((vs.map g).map fun es => UInt8.ofNat es.length)
      (starts (vs.map g)) (elems.map fun b => UInt16.ofNat b.length) elems.flatten
      (UInt32.ofNat (elems.map fun b => UInt16.ofNat b.length).length)
      (UInt32.ofNat elems.flatten.length) := by
    rw [hs]
    simp only [Column.view, Column.of]
    rw [hsets]
  -- the elements of the row stand one after the other in those of the column
  have hrow : (List.range (g vs[i]).length).map (fun k =>
      (elems.flatten.drop ((((elems.map fun b => UInt16.ofNat b.length).take
        (((vs.map g).take i).flatten.length + k)).map UInt16.toNat).sum)).take
        ((elems.map fun b => UInt16.ofNat b.length).getD
          (((vs.map g).take i).flatten.length + k) 0).toNat) = g vs[i] := by
    rw [hget] at hpiece
    refine List.ext_getElem (by simp) fun k hk₁ hk₂ => ?_
    have hat : elems[((vs.map g).take i).flatten.length + k]? = some (g vs[i])[k] := by
      rw [← List.getElem?_eq_getElem hk₂, ← List.getElem?_drop]
      conv_rhs => rw [← hpiece]
      rw [List.getElem?_take_of_lt hk₂]
    obtain ⟨hj, hat⟩ := List.getElem?_eq_some_iff.1 hat
    rw [List.getElem_map, List.getElem_range, element_at hshort hj, hat]
  rw [hview, View.value, hstart, hcount]
  simp only [hrow]
  have := hfit vs[i] (List.getElem_mem hi)
  cases hv : vs[i] with
  | set es => rfl
  | null => exact absurd hv hnull
  | fixed b =>
    rw [hv] at this
    exact absurd hs this.2.1
  | str es =>
    rw [hv] at this
    exact absurd (hs.symm.trans this.1) (by decide)

lemma value_view (hfit : ∀ v ∈ vs, v.Fits col) (hlen : vs.length ≤ kChunkRows) (hi : i < vs.length)
    (hnull : vs[i] ≠ .null) : ((Column.of col vs).view col.type).value col.type i = vs[i] := by
  by_cases hs : col.type = .string
  · exact value_str hfit hlen hi hs hnull
  · by_cases ht : col.type = .set
    · exact value_set hfit hlen hi ht hnull
    · exact value_fixed hfit hi hs ht hnull

lemma getD_flags (hfit : ∀ v ∈ vs, v.Fits col) (hi : i < vs.length) :
    (((Column.of col vs).flags vs.length col).getD []).getD i 0 = vs[i].flag := by
  unfold Column.flags
  by_cases hn : col.nullable = true
  · have hnulls : (Column.of col vs).nulls = vs.map Value.flag := by simp [Column.of, hn]
    simp [hn, hnulls, List.getD_eq_getElem?_getD, hi]
  · have hvalue := hfit vs[i] (List.getElem_mem hi)
    have : vs[i] ≠ .null := by
      intro hnull
      rw [hnull] at hvalue
      exact hn hvalue
    cases hv : vs[i] with
    | null => exact absurd hv this
    | fixed _ => simp [hn, Value.flag]
    | str _ => simp [hn, Value.flag]
    | set _ => simp [hn, Value.flag]

end Decode

lemma zipWith_map_zipIdx {α β γ : Type} (l : List α) (k : ℕ) (g : α × ℕ → β) (h : α → β → γ) :
    List.zipWith h l ((l.zipIdx k).map g) = (l.zipIdx k).map fun y => h y.1 (g y) := by
  induction l generalizing k with
  | nil => rfl
  | cons a l ih => simp [List.zipIdx_cons, ih]

lemma getElem?_map_zipIdx {α β : Type} {l : List α} {y : α × ℕ} (hy : y ∈ l.zipIdx)
    (f : α × ℕ → β) : (l.zipIdx.map f)[y.2]? = some (f y) := by
  obtain ⟨hlt, hget⟩ := List.mem_zipIdx' hy
  simp [hlt, ← hget]

section Deliver

variable {dim : ℕ} {s : Schema} {rows : List (Row × Bytes)} {hasPayload : Bool}

lemma value_deliver (hfit : ∀ x ∈ rows, RowFits dim s x) (hlen : rows.length ≤ kChunkRows)
    {y : FilterColumn × ℕ} (hy : y ∈ s.columns.zipIdx) {i : ℕ} (hi : i < rows.length) :
    ((chunkOf s rows).deliver s hasPayload).value y.1 y.2 i = rows[i].1.values.getD y.2 .null := by
  set vs := rows.map fun x => x.1.values.getD y.2 .null with hvs
  have hvfit : ∀ v ∈ vs, v.Fits y.1 := by
    intro v hv
    obtain ⟨x, hx, rfl⟩ := List.mem_map.1 hv
    exact (hfit x hx).fits y hy
  have hvlen : vs.length = rows.length := by simp [hvs]
  have hi' : i < vs.length := by omega
  have hget : vs[i] = rows[i].1.values.getD y.2 .null := by simp [hvs]
  have hne : s.columns.isEmpty = false := by
    obtain ⟨hlt, -⟩ := List.mem_zipIdx' hy
    cases hc : s.columns with
    | nil => simp [hc] at hlt
    | cons _ _ => rfl
  have hcols : ((chunkOf s rows).cols.length == s.columns.length) = true := by simp [chunkOf]
  -- the view and the flags of the column
  have hview : (((chunkOf s rows).deliver s hasPayload).filterColumns.getD [])[y.2]?
      = some ((Column.of y.1 vs).view y.1.type) := by
    simp only [StagedChunk.deliver, hne, hcols, Bool.not_false, Bool.and_self, if_true,
      Option.getD_some]
    simp only [chunkOf, zipWith_map_zipIdx]
    exact getElem?_map_zipIdx hy _
  have hflags : (s.columns.zipWith (fun col d => d.flags (chunkOf s rows).count col)
      (chunkOf s rows).cols)[y.2]? = some ((Column.of y.1 vs).flags vs.length y.1) := by
    simp only [chunkOf, zipWith_map_zipIdx, hvlen]
    exact getElem?_map_zipIdx hy _
  have hflag : ((((((chunkOf s rows).deliver s hasPayload).filterNulls.getD []).getD y.2
      none).getD []).getD i 0) = vs[i].flag := by
    rw [← getD_flags hvfit hi']
    simp only [StagedChunk.deliver, hne, hcols, Bool.not_false, Bool.and_self, Bool.true_and]
    split_ifs with hany
    · simp only [Option.getD_some, List.getD_eq_getElem?_getD, hflags]
    · -- no column has flags
      have hnone : (Column.of y.1 vs).flags vs.length y.1 = none := by
        simp only [List.any_eq_true, not_exists, not_and, Bool.not_eq_true,
          Option.isSome_eq_false_iff, Option.isNone_iff_eq_none] at hany
        exact hany _ (List.mem_of_getElem? hflags)
      simp [hnone]
  unfold Chunk.value
  dsimp only
  rw [hflag, hview, ← hget]
  by_cases hnull : vs[i] = .null
  · rw [hnull]
    rfl
  · have hzero : vs[i].flag = 0 := by
      cases hv : vs[i] with
      | null => exact absurd hv hnull
      | fixed _ => rfl
      | str _ => rfl
      | set _ => rfl
    rw [hzero, if_neg (by simp)]
    exact value_view hvfit (by omega) hi' hnull

lemma vector_chunkOf (hfit : ∀ x ∈ rows, RowFits dim s x) {i : ℕ} (hi : i < rows.length) :
    ((chunkOf s rows).vectors.drop (i * dim)).take dim = rows[i].1.vector ∧
      (chunkOf s rows).rowIds.getD i 0 = rows[i].1.id := by
  have hi' : i < (rows.map fun x => x.1.vector).length := by simpa using hi
  have hpiece := take_drop_flatten (rows.map fun x => x.1.vector) hi'
  have hstart : ((rows.map fun x => x.1.vector).take i).flatten.length = i * dim := by
    rw [← List.map_take, ← List.flatMap_def, length_flatMap_const (w := dim)]
    · rw [List.length_take, Nat.mul_comm, Nat.min_eq_left (by omega)]
    · exact fun x hx => (hfit x (List.mem_of_mem_take hx)).vector
  have hget : (rows.map fun x => x.1.vector)[i] = rows[i].1.vector := by simp
  rw [hstart, hget, (hfit _ (List.getElem_mem hi)).vector] at hpiece
  refine ⟨?_, by simp [chunkOf, List.getD_eq_getElem?_getD, hi]⟩
  simpa only [chunkOf, List.flatMap_def] using hpiece

lemma rows_deliver (hfit : ∀ x ∈ rows, RowFits dim s x) (hlen : rows.length ≤ kChunkRows) :
    ((chunkOf s rows).deliver s hasPayload).rows dim s = rows.map Prod.fst := by
  refine List.ext_getElem (by simp [Chunk.rows, StagedChunk.deliver, chunkOf]) fun i hi₁ hi₂ => ?_
  have hi : i < rows.length := by simpa using hi₂
  obtain ⟨hvec, hid⟩ := vector_chunkOf hfit hi
  have hvals : (s.columns.zipIdx.map fun y =>
      ((chunkOf s rows).deliver s hasPayload).value y.1 y.2 i) = rows[i].1.values := by
    have hlenv := (hfit _ (List.getElem_mem hi)).values
    refine List.ext_getElem (by simp [hlenv]) fun j hj₁ hj₂ => ?_
    have hj : j < s.columns.length := by omega
    have hy : (s.columns[j], j) ∈ s.columns.zipIdx := by
      rw [List.mem_zipIdx_iff_getElem?]
      exact List.getElem?_eq_getElem hj
    rw [List.getElem_map, List.getElem_zipIdx]
    simp only [Nat.zero_add]
    rw [value_deliver hfit hlen hy hi, List.getD_eq_getElem?_getD, List.getElem?_eq_getElem hj₂]
    rfl
  simp only [Chunk.rows, List.getElem_map, List.getElem_range, hvals]
  change Row.mk (((chunkOf s rows).vectors.drop (i * dim)).take dim)
    ((chunkOf s rows).rowIds.getD i 0) rows[i].1.values = _
  rw [hvec, hid]

def Chunk.vectorRows (c : Chunk) (dim : ℕ) : List (List UInt32 × UInt64) :=
  (List.range c.count).map fun i => ((c.vectors.drop (i * dim)).take dim, c.rowIds.getD i 0)

lemma vectorRows_deliver (hfit : ∀ x ∈ rows, RowFits dim s x) (vectorOnly : Bool) :
    (((chunkOf s rows).seen vectorOnly).deliver s hasPayload).vectorRows dim
      = rows.map fun x => (x.1.vector, x.1.id) := by
  have hseen : (((chunkOf s rows).seen vectorOnly).deliver s hasPayload).vectorRows dim
      = ((chunkOf s rows).deliver s hasPayload).vectorRows dim := by
    unfold StagedChunk.seen
    split_ifs <;> rfl
  rw [hseen]
  refine List.ext_getElem (by simp [Chunk.vectorRows, StagedChunk.deliver, chunkOf])
    fun i hi₁ hi₂ => ?_
  have hi : i < rows.length := by simpa using hi₂
  obtain ⟨hvec, hid⟩ := vector_chunkOf hfit hi
  simp only [Chunk.vectorRows, List.getElem_map, List.getElem_range]
  exact Prod.ext hvec hid

end Deliver

/-! ### A pass -/

lemma drain_eq {spilled memory : List (List (Row × Bytes))} {st : PushStager}
    (hs : Sealed spilled memory st) (hcols : st.schema.columns.length < 2 ^ 23)
    (todo : List (List (Row × Bytes)))
    (htodo : ∀ g ∈ todo, g ∈ spilled) (m fuel : ℕ) (src : Source) (hst : src.stager = st)
    (hremaining : src.remainingSpill = todo.length) (hm : src.memIdx = m)
    (hstream : todo ≠ [] →
      src.stream = todo.flatMap fun g => (chunkOf st.schema g).write st.schema)
    (hfuel : todo.length + (memory.length - m) < fuel) :
    ∃ src', src.drain fuel
        = .ok (some (todo.map (fun g =>
              ((chunkOf st.schema g).seen src.vectorOnly).deliver st.schema st.hasPayload)
            ++ (memory.drop m).map fun g =>
              (chunkOf st.schema g).deliver st.schema st.hasPayload), src') ∧
      src'.stager = st := by
  induction fuel generalizing todo m src with
  | zero => omega
  | succ fuel ih =>
    cases todo with
    | cons g todo =>
      have hg : g ∈ spilled := htodo g List.mem_cons_self
      have hread := StagedChunk.reads_write (regular_chunkOf hcols
        (hs.fits g (List.mem_append_left _ hg)) (hs.small g (List.mem_append_left _ hg)))
        src.vectorOnly (todo.flatMap fun g => (chunkOf st.schema g).write st.schema)
      have hstart := hstream (by simp)
      rw [List.flatMap_cons] at hstart
      rw [← hstart] at hread
      have hnext : src.next
          = .ok (some (((chunkOf st.schema g).seen src.vectorOnly).deliver st.schema st.hasPayload),
            { src with
              remainingSpill := src.remainingSpill - 1
              stream := todo.flatMap fun g => (chunkOf st.schema g).write st.schema }) := by
        simp [Source.next, Source.nextStaged, hremaining, hst, hread]
      obtain ⟨src', hdrain, hst'⟩ := ih todo (fun x hx => htodo x (List.mem_cons_of_mem g hx)) m
        { src with
          remainingSpill := src.remainingSpill - 1
          stream := todo.flatMap fun g => (chunkOf st.schema g).write st.schema }
        hst (by simp [hremaining]) hm (fun _ => rfl)
        (by simp only [List.length_cons] at hfuel; omega)
      refine ⟨src', ?_, hst'⟩
      simp only [Source.drain, hnext, hdrain]
      rfl
    | nil =>
      have hzero : ¬ 0 < src.remainingSpill := by simp [hremaining]
      rcases Nat.lt_or_ge m memory.length with hlt | hge
      · have hmem : src.stager.memoryChunks[src.memIdx]? = some (chunkOf st.schema memory[m]) := by
          rw [hst, hs.memoryChunks, hm]
          simp [hlt]
        have hnext : src.next
            = .ok (some ((chunkOf st.schema memory[m]).deliver st.schema st.hasPayload),
              { src with memIdx := src.memIdx + 1 }) := by
          simp only [Source.next, Source.nextStaged, if_neg hzero, hmem]
          rw [hst]
        obtain ⟨src', hdrain, hst'⟩ := ih [] (by simp) (m + 1)
          { src with memIdx := src.memIdx + 1 } hst hremaining (by simp [hm]) (by simp)
          (by simp only [List.length_nil] at hfuel ⊢; omega)
        refine ⟨src', ?_, hst'⟩
        simp only [Source.drain, hnext, hdrain]
        rw [List.drop_eq_getElem_cons hlt]
        simp only [List.map_nil, List.nil_append, List.map_cons]
      · have hnone : src.stager.memoryChunks[src.memIdx]? = none := by
          rw [hst, hs.memoryChunks, hm]
          simp [hge]
        refine ⟨src, ?_, hst⟩
        simp [Source.drain, Source.next, Source.nextStaged, hzero, hnone, List.drop_of_length_le hge]

lemma Pushed.ids {P : PushCall → Prop} {dim : ℕ} {s : Schema} {hasPayload : Bool} {budget : ℕ}
    {rows : List Row} {b : PushBuilder} (h : Pushed P dim s hasPayload budget rows b) :
    rows.map Row.id = (List.range rows.length).map UInt64.ofNat := by
  induction h with
  | start => rfl
  | push call _ _ _ ih =>
    rw [List.map_append, ih, List.length_append, List.length_map, List.length_range,
      List.range_add, List.map_append, List.map_map, List.map_map]
    rfl

/-- A pass over sealed chunks delivers their rows; a pass for the vectors delivers their vectors and
ids. -/
lemma Sealed.delivers {spilled memory : List (List (Row × Bytes))} {st : PushStager}
    (hs : Sealed spilled memory st) (hcols : st.schema.columns.length < 2 ^ 23) (src : Source)
    (hsrc : src.stager = st) {fuel : ℕ}
    (hfuel : spilled.length + memory.length < fuel) :
    ∃ chunks src', src.reset.drain fuel = .ok (some chunks, src') ∧ src'.stager = st ∧
      (src.vectorOnly = false →
        chunks.flatMap (fun c => c.rows st.dim st.schema)
          = (spilled ++ memory).flatten.map Prod.fst) ∧
      chunks.flatMap (fun c => c.vectorRows st.dim)
        = (spilled ++ memory).flatten.map fun x => (x.1.vector, x.1.id) := by
  have hreset : src.reset.stager = st := hsrc
  obtain ⟨src', hdrain, hst'⟩ := drain_eq hs hcols spilled (fun _ hg => hg) 0 fuel src.reset hreset
    (by simp [Source.reset, hsrc, hs.spilledChunks]) rfl
    (by
      intro hne
      have hspill := hs.spill
      obtain ⟨file, hfile⟩ := Option.isSome_iff_exists.1 (hs.created hne)
      simpa [Source.reset, hsrc, hfile] using hspill)
    (by omega)
  refine ⟨_, src', hdrain, hst', ?_, ?_⟩
  · intro hvec
    have hvec' : src.reset.vectorOnly = false := hvec
    rw [hvec']
    simp only [StagedChunk.seen, Bool.false_eq_true, if_false, List.drop_zero, ← List.map_append,
      List.flatMap_map, List.map_flatten]
    rw [List.flatMap_def]
    refine congrArg _ (List.map_congr_left fun g hg => ?_)
    exact rows_deliver (hs.fits g hg) (hs.small g hg)
  · have hspilled : ∀ g ∈ spilled,
        (((chunkOf st.schema g).seen src.reset.vectorOnly).deliver st.schema st.hasPayload).vectorRows
          st.dim = g.map fun x => (x.1.vector, x.1.id) :=
      fun g hg => vectorRows_deliver (hs.fits g (List.mem_append_left _ hg)) _
    have hmemory : ∀ g ∈ memory,
        ((chunkOf st.schema g).deliver st.schema st.hasPayload).vectorRows st.dim
          = g.map fun x => (x.1.vector, x.1.id) :=
      fun g hg => vectorRows_deliver (hs.fits g (List.mem_append_right _ hg)) false
    rw [List.flatMap_append, List.flatMap_map, List.flatMap_map, List.drop_zero,
      List.flatMap_congr hspilled, List.flatMap_congr hmemory, ← List.flatMap_append,
      List.map_flatten, List.flatMap_def]

/-- Every pass delivers the rows that were pushed, in their order and numbered from zero; a pass for
the vectors delivers their vectors and ids. A chunk of so many columns has a 64-bit size. -/
theorem pass_delivers_rows {dim : ℕ} {s : Schema} {hasPayload : Bool} {budget : ℕ}
    {rows : List Row} {b : PushBuilder}
    (hcols : s.columns.length < 2 ^ 23)
    (h : Pushed (PushCall.Plain · s) dim s hasPayload budget rows b) :
    rows.map Row.id = (List.range rows.length).map UInt64.ofNat ∧
      ∀ src : Source, src.stager = b.stager.buildSource →
        ∃ n, ∀ fuel, n ≤ fuel → ∃ chunks src', src.reset.drain fuel = .ok (some chunks, src') ∧
          src'.stager = b.stager.buildSource ∧
          (src.vectorOnly = false → chunks.flatMap (fun c => c.rows dim s) = rows) ∧
          chunks.flatMap (fun c => c.vectorRows dim) = rows.map fun x => (x.vector, x.id) := by
  obtain ⟨-, hdim, hschema, -, spilled, memory, rest, hst, horder⟩ := h.staged
  obtain ⟨spilled, memory, hs, hkind, hall⟩ := hst.buildSource
  rw [← hall] at horder
  refine ⟨h.ids, fun src hsrc => ⟨spilled.length + memory.length + 1, fun fuel hfuel => ?_⟩⟩
  obtain ⟨chunks, src', hdrain, hst', hrows, hvectors⟩ := hs.delivers
    (by rw [hkind.schema, hschema]; exact hcols) src hsrc (Nat.lt_of_succ_le hfuel)
  rw [hkind.dim, hkind.schema, hdim, hschema, horder] at hrows
  rw [hkind.dim, hdim] at hvectors
  refine ⟨chunks, src', hdrain, hst', hrows, hvectors.trans ?_⟩
  rw [← horder, List.map_map]
  rfl

/-- One nullable column of strings, and a budget that is spilled at once. -/
def tagSchema : Schema := { columns := [{ name := "tag", type := .string, nullable := true }] }

def tagCall : PushCall where
  vectors := some fun i => UInt32.ofNat (10 + i)
  nRows := 2
  filterValues := some fun _ => some (.str (some fun _ i => UInt8.ofNat (65 + i)) (some fun _ => 3))
  filterNulls := some fun _ => some fun r => if r = 1 then 1 else 0

def tagBuilder : PushBuilder :=
  (({ stager := .new 1 tagSchema false 1 } : PushBuilder).push tagCall).1

theorem pass_delivers_spilled_rows :
    tagBuilder.stager.buildSource.spilledChunks = 1 ∧
      ∃ n, ∀ fuel, n ≤ fuel → ∃ chunks src',
        ({ stager := tagBuilder.stager.buildSource } : Source).reset.drain fuel
          = .ok (some chunks, src') ∧
        chunks.flatMap (fun c => c.rows 1 tagSchema)
          = [⟨[10], 0, [.str [65, 66, 67]]⟩, ⟨[11], 1, [.null]⟩] := by
  have h : Pushed (PushCall.Plain · tagSchema) 1 tagSchema false 1
      ([] ++ (List.range tagCall.nRows).map (tagCall.row 1 tagSchema 0)) tagBuilder :=
    .push tagCall .start (by simp [PushCall.Plain, tagSchema]) (by decide +kernel)
  have hrows : [] ++ (List.range tagCall.nRows).map (tagCall.row 1 tagSchema 0)
      = [⟨[10], 0, [.str [65, 66, 67]]⟩, ⟨[11], 1, [.null]⟩] := by
    decide +kernel
  rw [hrows] at h
  obtain ⟨n, hn⟩ := (pass_delivers_rows (by decide) h).2 { stager := tagBuilder.stager.buildSource } rfl
  refine ⟨by decide +kernel, n, fun fuel hfuel => ?_⟩
  obtain ⟨chunks, src', hdrain, -, hall, -⟩ := hn fuel hfuel
  exact ⟨chunks, src', hdrain, hall rfl⟩

def setSchema : Schema := { columns := [{ name := "tags", type := .set, nullable := true }] }

/-- Two rows given by counts alone, the first of them NULL. -/
def countsCall : PushCall where
  vectors := some fun i => UInt32.ofNat (10 + i)
  nRows := 2
  filterValues := some fun _ => some (.set
    { counts := some fun _ => 1
      elemData := some fun j _ => UInt8.ofNat (65 + j)
      elemLengths := some fun _ => 1 })
  filterNulls := some fun _ => some fun r => if r = 0 then 1 else 0

def countsBuilder : PushBuilder :=
  (({ stager := .new 1 setSchema false 0 } : PushBuilder).push countsCall).1

/-- Without offsets the rows are empty sets, but the second row is delivered with the element of the
first. -/
theorem counts_alone_shift_elements :
    ∃ rows, Pushed (fun _ => True) 1 setSchema false 0 rows countsBuilder ∧
      rows = [⟨[10], 0, [.null]⟩, ⟨[11], 1, [.set []]⟩] ∧
      ∃ chunks src', ({ stager := countsBuilder.stager.buildSource } : Source).reset.drain 2
          = .ok (some chunks, src') ∧
        chunks.flatMap (fun c => c.rows 1 setSchema)
          = [⟨[10], 0, [.null]⟩, ⟨[11], 1, [.set [[65]]]⟩] := by
  refine ⟨_, .push countsCall .start trivial (by decide +kernel), by decide +kernel, _, _, rfl, ?_⟩
  decide +kernel

end SextantTree.PushStage
