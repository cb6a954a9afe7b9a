import SextantTree.StagedRecord
import SextantTree.ColumnRoundTrip

/-!
Staged records through the stage and back: what the parser and the filter walk read of a record,
and when a row comes back as it was.
-/

namespace SextantTree.Staged

open ByteMem FilterHash ColumnBytes Reader

variable {α β : Type}

/-! ### Reads inside the record -/

/-- No byte string makes the reader read behind its end. -/
def Inside (r : Reader Fault α) : Prop := ∀ b, r b ≠ .error .outside

lemma inside_pure (a : α) : Inside (pure a : Reader Fault α) := nofun

lemma inside_reject (err : String) : Inside (reject err : Reader Fault α) := nofun

lemma Inside.bind {r : Reader Fault α} {f : α → Reader Fault β} (hr : Inside r)
    (hf : ∀ a, Inside (f a)) : Inside (r >>= f) := by
  intro b h
  cases hx : r b with
  | ok x =>
    rw [bind_of_ok hx] at h
    exact hf x.1 x.2 h
  | error e =>
    rw [bind_of_error hx] at h
    cases h
    exact hr b hx

lemma need_ok {err : String} {n : ℕ} {b : Bytes} (h : n ≤ b.length) : need err n b = .ok ((), b) :=
  if_neg (by omega)

lemma need_error {err : String} {n : ℕ} {b : Bytes} (h : b.length < n) :
    need err n b = .error (.rejected err) :=
  if_pos h

lemma take_ok {n : ℕ} {b : Bytes} (h : n ≤ b.length) :
    Reader.take Fault.outside n b = .ok (b.take n, b.drop n) :=
  if_pos h

lemma word_ok {w : ℕ} {b : Bytes} (h : w ≤ b.length) :
    Reader.word Fault.outside w b = .ok (leNat (b.take w), b.drop w) := by
  rw [Reader.word, bind_of_ok (take_ok h)]
  rfl

lemma inside_checked (err : String) (n : ℕ) : Inside (checked err n) := by
  intro b h
  by_cases hn : n ≤ b.length
  · rw [checked, bind_of_ok (need_ok hn), take_ok hn] at h
    cases h
  · rw [checked, bind_of_error (need_error (by omega))] at h
    cases h

lemma inside_checkedWord (err : String) (w : ℕ) : Inside (checkedWord err w) := by
  intro b h
  by_cases hn : w ≤ b.length
  · rw [checkedWord, bind_of_ok (need_ok hn), word_ok hn] at h
    cases h
  · rw [checkedWord, bind_of_error (need_error (by omega))] at h
    cases h

lemma inside_atEnd (err : String) : Inside (atEnd err) := by
  intro b h
  rw [atEnd] at h
  split at h <;> cases h

lemma inside_optional (on : Bool) {r : Reader Fault α} (hr : Inside r) :
    Inside (optional on r) := by
  rw [optional]
  split
  · exact hr.bind fun a => inside_pure _
  · exact inside_pure _

lemma inside_lengthSection : Inside lengthSection :=
  (inside_checkedWord _ _).bind fun _ => inside_checked _ _

lemma inside_fp16Section : Inside fp16Section := by
  refine (inside_checkedWord _ _).bind fun n => ?_
  split
  · exact inside_reject _
  · exact inside_checked _ _

/-- **The parser stays inside the record.** -/
lemma inside_stagedParse : Inside stagedParse := by
  intro b
  unfold stagedParse
  by_cases hlen : 10 ≤ b.length
  · -- The check of the header covers its two words.
    rw [bind_of_ok (need_ok hlen), bind_of_ok (word_ok (by omega)),
      bind_of_ok (word_ok (by rw [List.length_drop]; omega))]
    refine Inside.bind (inside_optional _ inside_lengthSection) (fun _ => ?_) _
    refine (inside_optional _ inside_fp16Section).bind fun _ => ?_
    refine (inside_optional _ (inside_checkedWord _ _)).bind fun _ => ?_
    refine (inside_optional _ inside_lengthSection).bind fun _ => ?_
    refine (inside_optional _ (show Inside restOf from nofun)).bind fun _ => ?_
    exact (inside_atEnd _).bind fun _ => inside_pure _
  · rw [bind_of_error (need_error (by omega))]
    exact nofun

lemma inside_appendElems (n : ℕ) (d : ColumnData) : Inside (appendElems n d) := by
  induction n generalizing d with
  | zero => exact inside_pure d
  | succ n ih =>
    exact (inside_checkedWord _ _).bind fun _ => (inside_checked _ _).bind fun _ => ih _

lemma inside_appendValue (d : ColumnData) : Inside (appendValue d) := by
  unfold appendValue
  split
  · exact (inside_checkedWord _ _).bind fun _ => (inside_checked _ _).bind fun _ => inside_pure _
  · exact (inside_checkedWord _ _).bind fun _ => inside_appendElems _ _
  · exact (inside_checked _ _).bind fun _ => inside_pure _

lemma inside_appendCell (col : FilterColumn) (d : ColumnData) : Inside (appendCell col d) := by
  unfold appendCell
  split
  · refine (inside_checkedWord _ _).bind fun flag => ?_
    split
    · exact inside_pure _
    · exact inside_appendValue _
  · exact inside_appendValue _

lemma inside_appendCells (xs : List (FilterColumn × ColumnData)) : Inside (appendCells xs) := by
  induction xs with
  | nil => exact inside_pure _
  | cons x xs ih => exact (inside_appendCell _ _).bind fun _ => ih.bind fun _ => inside_pure _

/-- **The filter walk stays inside its section.** -/
lemma inside_stagedAppendFilterRow (s : Schema) (dst : List ColumnData) :
    Inside (stagedAppendFilterRow s dst) := by
  unfold stagedAppendFilterRow
  split
  · exact inside_reject _
  · exact (inside_appendCells _).bind fun _ => (inside_atEnd _).bind fun _ => inside_pure _

/-! ### The sections of a record -/

lemma reads_checked (err : String) {n : ℕ} {b : Bytes} (h : b.length = n) :
    Reads (checked err n) b b := by
  intro rest
  rw [checked, bind_of_ok (need_ok (by rw [List.length_append]; omega))]
  exact reads_take _ h rest

lemma reads_checkedWord (err : String) {w n : ℕ} (h : n < 256 ^ w) :
    Reads (checkedWord err w) (leBytes w n) n := by
  intro rest
  rw [checkedWord, bind_of_ok (need_ok (by rw [List.length_append, length_leBytes]; omega))]
  exact reads_word _ h rest

lemma reads_lengthSection {b : Bytes} (h : b.length < 2 ^ 32) : Reads lengthSection (sized b) b :=
  (reads_checkedWord _ (by norm_num; omega)).bind (reads_checked _ rfl)

lemma reads_fp16Section {b : Bytes} (h : b.length < 2 ^ 32) (heven : b.length % 2 = 0) :
    Reads fp16Section (sized b) b := by
  refine (reads_checkedWord _ (by norm_num; omega)).bind ?_
  rw [if_neg (by omega)]
  exact reads_checked _ rfl

lemma reads_optional_none (r : Reader Fault α) : Reads (optional false r) [] none :=
  reads_pure none

lemma reads_optional_some {r : Reader Fault α} {b : Bytes} {a : α} (h : Reads r b a) :
    Reads (optional true r) b (some a) :=
  h.bind_pure

lemma length_fp16_bytes (v : List UInt16) : (VectorPart.fp16 v).bytes.length = 2 * v.length := by
  simp [VectorPart.bytes, Nat.mul_comm]

def Row.parsed (s : Schema) (row : Row) : StagedRow where
  rowId := row.rowId.toNat
  flags := flags s row
  code :=
    match row.vector with
    | .code b => some b
    | .fp16 _ => none
  fp16Vec :=
    match row.vector with
    | .code _ => none
    | .fp16 _ => some row.vector.bytes
  ipBias := row.ipBias.map UInt16.toNat
  filterRow := if s.columns.isEmpty then none else some (serializeFilterRow s row)
  payload := row.payload

lemma flags_spec (s : Schema) (row : Row) :
    flags s row < 256 ^ 2 ∧
      (flags s row &&& kStagedHasCode != 0) = (row.parsed s).code.isSome ∧
      (flags s row &&& kStagedHasFp16 != 0) = (row.parsed s).fp16Vec.isSome ∧
      (flags s row &&& kStagedHasIpBias != 0) = (row.parsed s).ipBias.isSome ∧
      (flags s row &&& kStagedHasFilter != 0) = (row.parsed s).filterRow.isSome ∧
      (flags s row &&& kStagedHasPayload != 0) = (row.parsed s).payload.isSome := by
  unfold flags Row.parsed
  obtain ⟨rowId, vector, ipBias, payload, chunk, localIdx, cols⟩ := row
  dsimp only
  generalize s.columns.isEmpty = e
  cases vector <;> cases ipBias <;> cases payload <;> cases e <;>
    simp [kStagedHasCode, kStagedHasFp16, kStagedHasIpBias, kStagedHasFilter, kStagedHasPayload]

lemma reads_optional {r : Reader Fault α} {enc : α → Bytes} (o : Option α)
    (h : ∀ a ∈ o, Reads r (enc a) a) : Reads (optional o.isSome r) ((o.map enc).getD []) o := by
  cases o with
  | none => exact reads_optional_none r
  | some a => exact reads_optional_some (h a rfl)

lemma sized_vector (s : Schema) (row : Row) : sized row.vector.bytes =
    ((row.parsed s).code.map sized).getD [] ++ ((row.parsed s).fp16Vec.map sized).getD [] := by
  unfold Row.parsed
  cases row.vector with
  | code b => exact (List.append_nil _).symm
  | fp16 v => rfl

lemma record_eq (s : Schema) (row : Row) : record s row =
    leBytes 8 row.rowId.toNat ++ (leBytes 2 (flags s row) ++
      (((row.parsed s).code.map sized).getD [] ++ (((row.parsed s).fp16Vec.map sized).getD [] ++
      (((row.parsed s).ipBias.map (leBytes 2)).getD [] ++
      (((row.parsed s).filterRow.map sized).getD [] ++ (row.parsed s).payload.getD []))))) := by
  have hbias : ((row.parsed s).ipBias.map (leBytes 2)).getD [] =
      (row.ipBias.map fun h => leBytes 2 h.toNat).getD [] := by
    simp only [Row.parsed, Option.map_map]
    rfl
  have hfilter : ((row.parsed s).filterRow.map sized).getD [] =
      if s.columns.isEmpty then [] else sized (serializeFilterRow s row) := by
    simp only [Row.parsed]
    split <;> rfl
  rw [record, sized_vector s row, hbias, hfilter]
  simp only [List.append_assoc]
  rfl

def StagedRow.size (r : StagedRow) : ℕ :=
  10 + (r.code.map fun b => 4 + b.length).getD 0 + (r.fp16Vec.map fun b => 4 + b.length).getD 0 +
    (r.ipBias.map fun _ => 2).getD 0 + (r.filterRow.map fun b => 4 + b.length).getD 0 +
    (r.payload.map fun b => b.length).getD 0

lemma length_sized (b : Bytes) : (sized b).length = 4 + b.length := by
  simp [sized]

lemma length_optional {enc : α → Bytes} (o : Option α) :
    ((o.map enc).getD []).length = (o.map fun a => (enc a).length).getD 0 := by
  cases o <;> rfl

lemma length_record (s : Schema) (row : Row) : (record s row).length = (row.parsed s).size := by
  rw [record_eq]
  have hpay : (row.parsed s).payload.getD [] = ((row.parsed s).payload.map id).getD [] := by
    rw [Option.map_id]
    rfl
  simp only [List.length_append, length_leBytes, hpay, length_optional, length_sized, id_eq,
    StagedRow.size]
  omega

lemma parse_record {s : Schema} {row : Row} (h : (record s row).length < 2 ^ 32) :
    stagedParse (record s row) = .ok (row.parsed s, []) := by
  obtain ⟨hflags, hcode, hfp16, hbias, hfilter, hpay⟩ := flags_spec s row
  have hsize := h
  rw [length_record, StagedRow.size] at hsize
  have hlen : 10 ≤ (record s row).length := by
    rw [length_record, StagedRow.size]
    omega
  unfold stagedParse
  rw [bind_of_ok (need_ok hlen), record_eq,
    bind_of_ok (reads_word _ (by have := row.rowId.toNat_lt; norm_num; omega) _),
    bind_of_ok (reads_word _ hflags _), hcode, hfp16, hbias, hfilter, hpay]
  have hread₁ := reads_optional (r := lengthSection) (row.parsed s).code fun b hb =>
    reads_lengthSection (by rw [Option.mem_def.mp hb] at hsize; simp at hsize; omega)
  have hread₂ := reads_optional (r := fp16Section) (row.parsed s).fp16Vec fun b hb => by
    refine reads_fp16Section (by rw [Option.mem_def.mp hb] at hsize; simp at hsize; omega) ?_
    unfold Row.parsed at hb
    cases hv : row.vector with
    | code b => simp [hv] at hb
    | fp16 v =>
      simp only [hv, Option.mem_def, Option.some.injEq] at hb
      rw [← hb, length_fp16_bytes]
      omega
  have hread₃ := reads_optional (r := checkedWord "record truncated" 2) (row.parsed s).ipBias
    fun n hn => reads_checkedWord _ (by
      obtain ⟨h16, -, rfl⟩ := Option.map_eq_some_iff.mp (Option.mem_def.mp hn)
      have := h16.toNat_lt
      norm_num
      omega)
  have hread₄ := reads_optional (r := lengthSection) (row.parsed s).filterRow fun b hb =>
    reads_lengthSection (by rw [Option.mem_def.mp hb] at hsize; simp at hsize; omega)
  rw [bind_of_ok (hread₁ _), bind_of_ok (hread₂ _), bind_of_ok (hread₃ _), bind_of_ok (hread₄ _)]
  have hrest : optional (row.parsed s).payload.isSome restOf ((row.parsed s).payload.getD []) =
      .ok ((row.parsed s).payload, []) := by
    cases (row.parsed s).payload <;> rfl
  rw [bind_of_ok hrest]
  rfl

/-! ### A parsed record has no other length -/

/-- What a reader takes from the front of a stream. -/
def Takes (r : Reader Fault α) (size : α → ℕ) : Prop :=
  ∀ b a rest, r b = .ok (a, rest) → b.length = size a + rest.length

lemma takes_word (w : ℕ) : Takes (Reader.word Fault.outside w) fun _ => w := by
  intro b a rest h
  by_cases hw : w ≤ b.length
  · rw [word_ok hw] at h
    cases h
    dsimp only
    rw [List.length_drop]
    omega
  · rw [Reader.word, bind_of_error (show Reader.take Fault.outside w b = .error .outside from
      if_neg hw)] at h
    cases h

lemma takes_checked (err : String) (n : ℕ) :
    ∀ b a rest, checked err n b = .ok (a, rest) → a.length = n ∧ b.length = n + rest.length := by
  intro b a rest h
  by_cases hn : n ≤ b.length
  · rw [checked, bind_of_ok (need_ok hn), take_ok hn] at h
    cases h
    rw [List.length_take, List.length_drop]
    omega
  · rw [checked, bind_of_error (need_error (by omega))] at h
    cases h

lemma takes_checkedWord (err : String) (w : ℕ) : Takes (checkedWord err w) fun _ => w := by
  intro b a rest h
  by_cases hw : w ≤ b.length
  · rw [checkedWord, bind_of_ok (need_ok hw)] at h
    exact takes_word w b a rest h
  · rw [checkedWord, bind_of_error (need_error (by omega))] at h
    cases h

lemma takes_lengthSection : Takes lengthSection fun b => 4 + b.length := by
  intro b a rest h
  obtain ⟨n, mid, hn, h⟩ := exists_of_bind_ok h
  have h₁ := takes_checkedWord _ _ _ _ _ hn
  have h₂ := takes_checked _ _ _ _ _ h
  dsimp only at h₁ ⊢
  omega

lemma takes_fp16Section : Takes fp16Section fun b => 4 + b.length := by
  intro b a rest h
  obtain ⟨n, mid, hn, h⟩ := exists_of_bind_ok h
  have h₁ := takes_checkedWord _ _ _ _ _ hn
  split at h
  · cases h
  · have h₂ := takes_checked _ _ _ _ _ h
    dsimp only at h₁ ⊢
    omega

lemma takes_optional (on : Bool) {r : Reader Fault α} {size : α → ℕ} (hr : Takes r size) :
    Takes (optional on r) fun o => (o.map size).getD 0 := by
  intro b o rest h
  cases on with
  | false =>
    cases h
    exact (Nat.zero_add _).symm
  | true =>
    obtain ⟨a, mid, ha, h⟩ := exists_of_bind_ok h
    cases h
    exact hr b a rest ha

lemma length_of_parse {b rest : Bytes} {r : StagedRow} (h : stagedParse b = .ok (r, rest)) :
    b.length = r.size := by
  unfold stagedParse at h
  obtain ⟨_, b₀, h₀, h⟩ := exists_of_bind_ok h
  have hb₀ : b₀ = b := by
    unfold need at h₀
    split at h₀
    · cases h₀
    · cases h₀
      rfl
  obtain ⟨rowId, b₁, h₁, h⟩ := exists_of_bind_ok h
  obtain ⟨flags, b₂, h₂, h⟩ := exists_of_bind_ok h
  obtain ⟨code, b₃, h₃, h⟩ := exists_of_bind_ok h
  obtain ⟨fp16Vec, b₄, h₄, h⟩ := exists_of_bind_ok h
  obtain ⟨ipBias, b₅, h₅, h⟩ := exists_of_bind_ok h
  obtain ⟨filterRow, b₆, h₆, h⟩ := exists_of_bind_ok h
  obtain ⟨payload, b₇, h₇, h⟩ := exists_of_bind_ok h
  obtain ⟨_, b₈, h₈, h⟩ := exists_of_bind_ok h
  cases h
  have hend : b₇.length = 0 := by
    unfold atEnd at h₈
    split at h₈
    · cases h₈
    · omega
  have hpay : Takes restOf fun b => b.length := by
    intro b a rest h
    cases h
    rfl
  have e₁ := takes_word _ _ _ _ h₁
  have e₂ := takes_word _ _ _ _ h₂
  have e₃ := takes_optional _ takes_lengthSection _ _ _ h₃
  have e₄ := takes_optional _ takes_fp16Section _ _ _ h₄
  have e₅ := takes_optional _ (takes_checkedWord _ _) _ _ _ h₅
  have e₆ := takes_optional _ takes_lengthSection _ _ _ h₆
  have e₇ := takes_optional _ hpay _ _ _ h₇
  rw [hb₀] at e₁
  dsimp only at e₁ e₂ e₃ e₄ e₅ e₆ e₇
  simp only [StagedRow.size]
  omega

/-- **A record comes back exactly where its length fits 32 bits.** -/
lemma parse_staged_iff (s : Schema) (row : Row) :
    stagedParse (staged s row) = .ok (row.parsed s, []) ↔ (record s row).length < 2 ^ 32 := by
  constructor
  · intro h
    have hlen := length_of_parse h
    rw [← length_record, staged, List.length_take] at hlen
    have := Nat.mod_lt (record s row).length (show 0 < 2 ^ 32 by norm_num)
    omega
  · intro h
    rw [staged, Nat.mod_eq_of_lt h, List.take_length]
    exact parse_record h

/-! ### The cells of a filter row -/

/-- A value that a column of this type can have. -/
def ValueOk (t : ColumnType) : RawCell → Prop
  | .fixed b => t ≠ .string ∧ t ≠ .set ∧ b.length = t.width
  | .string b => t = .string ∧ b.length < 2 ^ 16
  | .set es => t = .set ∧ es.length < 2 ^ 8 ∧ ∀ b ∈ es, b.length < 2 ^ 16

def CellOk (col : FilterColumn) (c : Option RawCell) : Prop :=
  (c = none → col.nullable = true) ∧ ∀ v ∈ c, ValueOk col.type v

def encodeElem (b : Bytes) : Bytes := leBytes 2 b.length ++ b

def encodeValue : RawCell → Bytes
  | .fixed b => b
  | .string b => leBytes 2 b.length ++ b
  | .set es => leBytes 1 es.length ++ es.flatMap encodeElem

/-- A cell in the filter section of a record. -/
def encodeCell (col : FilterColumn) : Option RawCell → Bytes
  | none => leBytes 1 1
  | some v => (if col.nullable then leBytes 1 0 else []) ++ encodeValue v

def pushValue (d : ColumnData) : RawCell → ColumnData
  | .fixed b => { d with fixedData := d.fixedData ++ b }
  | .string b =>
    { d with
      strOffsets := d.strOffsets ++ [UInt32.ofNat d.strData.length]
      strLengths := d.strLengths ++ [UInt16.ofNat b.length]
      strData := d.strData ++ b }
  | .set es =>
    { d with
      setCounts := d.setCounts ++ [UInt8.ofNat es.length]
      setOffsets := d.setOffsets ++ [UInt32.ofNat d.setElemLengths.length]
      setElemLengths := d.setElemLengths ++ es.map fun b => UInt16.ofNat b.length
      setElemData := d.setElemData ++ es.flatten }

def pushCell (col : FilterColumn) (d : ColumnData) : Option RawCell → ColumnData
  | none => pushNull { d with nullMask := d.nullMask ++ [1] }
  | some v => pushValue (if col.nullable then { d with nullMask := d.nullMask ++ [0] } else d) v

lemma reads_appendElems (es : List Bytes) (hes : ∀ b ∈ es, b.length < 2 ^ 16) (d : ColumnData) :
    Reads (appendElems es.length d) (es.flatMap encodeElem)
      { d with
        setElemLengths := d.setElemLengths ++ es.map fun b => UInt16.ofNat b.length
        setElemData := d.setElemData ++ es.flatten } := by
  induction es generalizing d with
  | nil =>
    have hd : { d with setElemLengths := d.setElemLengths ++ [], setElemData := d.setElemData ++ [] }
        = d := by simp
    exact hd.symm ▸ reads_pure d
  | cons b es ih =>
    have hb := hes b List.mem_cons_self
    have htail := ih (fun x hx => hes x (List.mem_cons_of_mem b hx))
      { d with
        setElemLengths := d.setElemLengths ++ [UInt16.ofNat b.length]
        setElemData := d.setElemData ++ b }
    intro rest
    have hword := reads_checkedWord "set element length truncated"
      (show b.length < 256 ^ 2 by norm_num; omega)
    rw [List.length_cons, appendElems, List.flatMap_cons, encodeElem, List.append_assoc,
      List.append_assoc, bind_of_ok (hword _), bind_of_ok (reads_checked _ rfl _), htail rest]
    simp

lemma reads_appendValue {d : ColumnData} {v : RawCell} (h : ValueOk d.type v) :
    Reads (appendValue d) (encodeValue v) (pushValue d v) := by
  unfold appendValue
  cases v with
  | fixed b =>
    obtain ⟨hs, ht, hlen⟩ := h
    split
    · exact absurd ‹_› hs
    · exact absurd ‹_› ht
    · exact (reads_checked _ hlen).bind_pure
  | string b =>
    obtain ⟨hs, hlen⟩ := h
    split
    · refine (reads_checkedWord _ (show b.length < 256 ^ 2 by norm_num; omega)).bind ?_
      exact (reads_checked _ rfl).bind_pure
    · rw [hs] at *
      contradiction
    · contradiction
  | set es =>
    obtain ⟨ht, hcount, hes⟩ := h
    split
    · rw [ht] at *
      contradiction
    · refine (reads_checkedWord _ (show es.length < 256 ^ 1 by norm_num; omega)).bind ?_
      exact reads_appendElems es hes _
    · contradiction

lemma reads_appendCell {col : FilterColumn} {d : ColumnData} {c : Option RawCell}
    (htype : d.type = col.type) (h : CellOk col c) :
    Reads (appendCell col d) (encodeCell col c) (pushCell col d c) := by
  unfold appendCell
  cases c with
  | none =>
    rw [if_pos (h.1 rfl)]
    intro rest
    rw [encodeCell, bind_of_ok (reads_checkedWord _ (show 1 < 256 ^ 1 by norm_num) rest)]
    rfl
  | some v =>
    have hv := h.2 v rfl
    rw [← htype] at hv
    by_cases hnull : col.nullable = true
    · rw [if_pos hnull]
      simp only [encodeCell, pushCell, hnull, if_true]
      refine (reads_checkedWord _ (show 0 < 256 ^ 1 by norm_num)).bind ?_
      rw [if_neg (by omega)]
      exact reads_appendValue hv
    · rw [if_neg hnull]
      simp only [encodeCell, pushCell, if_neg hnull, List.nil_append]
      exact reads_appendValue hv

/-! ### A column with one more row -/

/-- The arrays of a column have exactly `n` rows. The elements of sets are packed. -/
structure RowData (col : FilterColumn) (n : ℕ) (d : ColumnData) : Prop where
  type : d.type = col.type
  fixed : col.type ≠ .string → col.type ≠ .set → d.fixedData.length = n * col.type.width
  strings : col.type = .string → d.strOffsets.length = n ∧ d.strLengths.length = n ∧
    ∀ i < n, d.strOff i + d.strLen i ≤ d.strData.length
  sets : col.type = .set → d.setCounts.length = n ∧ d.setOffsets.length = n ∧
    (∀ i < n, d.setOff i + d.setCount i ≤ d.setElemLengths.length) ∧
    d.elemStart d.setElemLengths.length = d.setElemData.length

/-- A column of exactly `n` rows, as `ColumnData` documents it: the flags are parallel to the row
arrays, an empty mask means that there are no NULLs. -/
structure Rows (col : FilterColumn) (n : ℕ) (d : ColumnData) : Prop extends RowData col n d where
  mask : col.nullable = true → d.nullMask = [] ∨ d.nullMask.length = n

/-- `d'` is `d` with the cell `c` behind its `n` rows, and nothing else. -/
structure Appends (col : FilterColumn) (n : ℕ) (c : Option RawCell) (d d' : ColumnData) : Prop where
  rows : Rows col (n + 1) d'
  kept : ∀ i < n, d'.cell col i = d.cell col i
  last : d'.cell col n = some c
  /-- The row refers to what was added for it. -/
  behind : (col.type = .string → d'.strOff n = d.strData.length) ∧
    (col.type = .set → d'.setOff n = d.setElemLengths.length)

/-- The column can take another row: it has a flag for every row it has, and 32 bits count what it
has. -/
def HasRoom (col : FilterColumn) (n : ℕ) (d : ColumnData) : Prop :=
  (col.nullable = true → n = 0 ∨ d.nullMask ≠ []) ∧
    (col.type = .string → d.strData.length < 2 ^ 32) ∧
    (col.type = .set → d.setElemLengths.length < 2 ^ 32)

def zeroOf : ColumnType → RawCell
  | .string => .string []
  | .set => .set []
  | t => .fixed (List.replicate t.width 0)

lemma valueOk_zeroOf (t : ColumnType) : ValueOk t (zeroOf t) := by
  cases t <;> simp [zeroOf, ValueOk]

lemma pushNull_eq (d : ColumnData) : pushNull d = pushValue d (zeroOf d.type) := by
  unfold pushNull
  split
  · rename_i h
    simp [h, zeroOf, pushValue]
  · rename_i h
    simp [h, zeroOf, pushValue]
  · rename_i hs ht
    cases htype : d.type <;> simp_all [zeroOf, pushValue]

def flagged (col : FilterColumn) (c : Option RawCell) (d : ColumnData) : ColumnData :=
  if col.nullable then { d with nullMask := d.nullMask ++ [if c.isNone then 1 else 0] } else d

lemma pushCell_eq {col : FilterColumn} {d : ColumnData} {c : Option RawCell}
    (htype : d.type = col.type) (h : CellOk col c) :
    pushCell col d c = pushValue (flagged col c d) (c.getD (zeroOf col.type)) := by
  cases c with
  | none =>
    rw [pushCell, pushNull_eq, flagged, if_pos (h.1 rfl), ← htype]
    rfl
  | some v => rfl

section Push

variable {col : FilterColumn} {n : ℕ} {d : ColumnData} {v : RawCell}

lemma getD_concat_self {γ : Type} (l : List γ) (x y : γ) : (l ++ [x]).getD l.length y = x := by
  simp

lemma strOff_push {b : Bytes} (hn : d.strOffsets.length = n) (hfit : d.strData.length < 2 ^ 32) :
    (pushValue d (.string b)).strOff n = d.strData.length := by
  rw [← hn, ColumnData.strOff, pushValue, getD_concat_self, UInt32.toNat_ofNat_of_lt' hfit]

lemma strLen_push {b : Bytes} (hn : d.strLengths.length = n) (hb : b.length < 2 ^ 16) :
    (pushValue d (.string b)).strLen n = b.length := by
  rw [← hn, ColumnData.strLen, pushValue, getD_concat_self, UInt16.toNat_ofNat_of_lt' hb]

lemma setOff_push {es : List Bytes} (hn : d.setOffsets.length = n)
    (hfit : d.setElemLengths.length < 2 ^ 32) :
    (pushValue d (.set es)).setOff n = d.setElemLengths.length := by
  rw [← hn, ColumnData.setOff, pushValue, getD_concat_self, UInt32.toNat_ofNat_of_lt' hfit]

lemma setCount_push {es : List Bytes} (hn : d.setCounts.length = n) (hes : es.length < 2 ^ 8) :
    (pushValue d (.set es)).setCount n = es.length := by
  rw [← hn, ColumnData.setCount, pushValue, getD_concat_self, UInt8.toNat_ofNat_of_lt' hes]

lemma slice_append_left {b b' : Bytes} {pos len : ℕ} (h : pos + len ≤ b.length) :
    slice (b ++ b') pos len = slice b pos len := by
  rw [slice_eq_some h, slice_eq_some (by rw [List.length_append]; omega)]
  rw [List.drop_append_of_le_length (by omega), List.take_append_of_le_length (by
    rw [List.length_drop]; omega)]

lemma elemStart_push_of_le {es : List Bytes} {k : ℕ} (hk : k ≤ d.setElemLengths.length) :
    (pushValue d (.set es)).elemStart k = d.elemStart k := by
  rw [ColumnData.elemStart, ColumnData.elemStart, pushValue, List.take_append_of_le_length hk]

lemma elemLen_push_of_lt {es : List Bytes} {k : ℕ} (hk : k < d.setElemLengths.length) :
    (pushValue d (.set es)).elemLen k = d.elemLen k := by
  rw [ColumnData.elemLen, ColumnData.elemLen, pushValue, List.getD_append _ _ _ _ hk]

lemma elemStart_push {es : List Bytes} (hes : ∀ b ∈ es, b.length < 2 ^ 16)
    (hpacked : d.elemStart d.setElemLengths.length = d.setElemData.length) (e : ℕ) :
    (pushValue d (.set es)).elemStart (d.setElemLengths.length + e) =
      d.setElemData.length + ((es.take e).map List.length).sum := by
  rw [← hpacked, ColumnData.elemStart, ColumnData.elemStart, pushValue, List.take_length_add_append,
    List.take_length, List.map_append, List.sum_append, ← List.map_take, List.map_map]
  congr 2
  refine List.map_congr_left fun b hb => ?_
  exact UInt16.toNat_ofNat_of_lt' (hes b (List.mem_of_mem_take hb))

lemma elemLen_push {es : List Bytes} (hes : ∀ b ∈ es, b.length < 2 ^ 16) {e : ℕ}
    (he : e < es.length) :
    (pushValue d (.set es)).elemLen (d.setElemLengths.length + e) = (es[e]).length := by
  rw [ColumnData.elemLen, pushValue, List.getD_append_right _ _ _ _ (by omega)]
  simp only [Nat.add_sub_cancel_left]
  rw [List.getD_eq_getElem _ _ (by simpa using he), List.getElem_map]
  exact UInt16.toNat_ofNat_of_lt' (hes _ (List.getElem_mem he))

lemma raw_push_of_lt (h : RowData col n d) (hv : ValueOk col.type v) {i : ℕ} (hi : i < n) :
    (pushValue d v).raw col i = d.raw col i := by
  cases v with
  | fixed b =>
    obtain ⟨hs, ht, -⟩ := hv
    have hin : i * col.type.width + col.type.width ≤ d.fixedData.length := by
      rw [h.fixed hs ht, ← Nat.succ_mul]
      exact Nat.mul_le_mul_right _ hi
    rw [raw_fixed hs ht, raw_fixed hs ht, pushValue, slice_append_left hin]
  | string b =>
    obtain ⟨hoff, hlen, hin⟩ := h.strings hv.1
    have hoff' : (pushValue d (.string b)).strOff i = d.strOff i := by
      rw [ColumnData.strOff, ColumnData.strOff, pushValue, List.getD_append _ _ _ _ (by omega)]
    have hlen' : (pushValue d (.string b)).strLen i = d.strLen i := by
      rw [ColumnData.strLen, ColumnData.strLen, pushValue, List.getD_append _ _ _ _ (by omega)]
    simp only [ColumnData.raw, hv.1, hoff', hlen']
    rw [pushValue, slice_append_left (hin i hi)]
  | set es =>
    obtain ⟨hcounts, hoff, hin, hpacked⟩ := h.sets hv.1
    have hoff' : (pushValue d (.set es)).setOff i = d.setOff i := by
      rw [ColumnData.setOff, ColumnData.setOff, pushValue, List.getD_append _ _ _ _ (by omega)]
    have hcount' : (pushValue d (.set es)).setCount i = d.setCount i := by
      rw [ColumnData.setCount, ColumnData.setCount, pushValue,
        List.getD_append _ _ _ _ (by omega)]
    have hk : ∀ e < d.setCount i, d.setOff i + e < d.setElemLengths.length := by
      intro e he
      have := hin i hi
      omega
    have hold : ∀ e < d.setCount i,
        slice d.setElemData (d.elemStart (d.setOff i + e)) (d.elemLen (d.setOff i + e)) =
          some ((d.setElemData.drop (d.elemStart (d.setOff i + e))).take
            (d.elemLen (d.setOff i + e))) :=
      fun e he => slice_eq_some ((elemStart_succ_le (hk e he)).trans hpacked.le)
    have hnew : ∀ e < d.setCount i, slice (pushValue d (.set es)).setElemData
        ((pushValue d (.set es)).elemStart (d.setOff i + e))
        ((pushValue d (.set es)).elemLen (d.setOff i + e)) =
          some ((d.setElemData.drop (d.elemStart (d.setOff i + e))).take
            (d.elemLen (d.setOff i + e))) := by
      intro e he
      rw [elemStart_push_of_le (hk e he).le, elemLen_push_of_lt (hk e he), pushValue,
        slice_append_left ((elemStart_succ_le (hk e he)).trans hpacked.le)]
      exact hold e he
    simp only [ColumnData.raw, hv.1, hoff', hcount']
    rw [mapM_slice_eq hnew, mapM_slice_eq hold]

lemma raw_push_self (h : RowData col n d) (hv : ValueOk col.type v)
    (hstr : col.type = .string → d.strData.length < 2 ^ 32)
    (hset : col.type = .set → d.setElemLengths.length < 2 ^ 32) :
    (pushValue d v).raw col n = some v := by
  cases v with
  | fixed b =>
    obtain ⟨hs, ht, hb⟩ := hv
    rw [raw_fixed hs ht, pushValue, ← h.fixed hs ht, ← hb]
    simp [slice]
  | string b =>
    obtain ⟨hoff, hlen, -⟩ := h.strings hv.1
    have hsl : slice (d.strData ++ b) d.strData.length b.length = some b := by
      simp [slice]
    simp only [ColumnData.raw, hv.1, strOff_push hoff (hstr hv.1), strLen_push hlen hv.2]
    rw [pushValue, hsl]
    rfl
  | set es =>
    obtain ⟨ht, hcount, hes⟩ := hv
    obtain ⟨hcounts, hoff, -, hpacked⟩ := h.sets ht
    have helem : ∀ e < es.length, slice (pushValue d (.set es)).setElemData
        ((pushValue d (.set es)).elemStart (d.setElemLengths.length + e))
        ((pushValue d (.set es)).elemLen (d.setElemLengths.length + e)) = some (es.getD e []) := by
      intro e he
      rw [elemStart_push hes hpacked, elemLen_push hes he, pushValue]
      have hsl := slice_flatten (List.getElem?_eq_getElem he)
      simp only [slice, List.length_append] at hsl ⊢
      split at hsl
      · rename_i hin
        rw [if_pos (by omega), List.drop_length_add_append]
        rw [List.getD_eq_getElem _ _ he]
        exact hsl
      · cases hsl
    have hmap : (List.range es.length).map (fun e => es.getD e []) = es := by
      refine List.ext_getElem (by simp) fun k h₁ h₂ => ?_
      simp [h₂]
    simp only [ColumnData.raw, ht, setOff_push hoff (hset ht), setCount_push hcounts hcount]
    rw [mapM_slice_eq helem, hmap]
    rfl

lemma rowData_push (h : RowData col n d) (hv : ValueOk col.type v)
    (hstr : col.type = .string → d.strData.length < 2 ^ 32)
    (hset : col.type = .set → d.setElemLengths.length < 2 ^ 32) :
    RowData col (n + 1) (pushValue d v) := by
  cases v with
  | fixed b =>
    obtain ⟨hs, ht, hb⟩ := hv
    refine ⟨h.type, fun _ _ => ?_, fun heq => absurd heq hs, fun heq => absurd heq ht⟩
    rw [pushValue, List.length_append, h.fixed hs ht, hb, Nat.succ_mul]
  | string b =>
    obtain ⟨htype, hb⟩ := hv
    obtain ⟨hoff, hlen, hin⟩ := h.strings htype
    refine ⟨h.type, fun hne => absurd htype hne, fun _ => ⟨?_, ?_, fun i hi => ?_⟩, fun heq => ?_⟩
    · rw [pushValue, List.length_append, hoff, List.length_singleton]
    · rw [pushValue, List.length_append, hlen, List.length_singleton]
    · have hlen' : (pushValue d (.string b)).strData.length = d.strData.length + b.length :=
        List.length_append
      rcases Nat.lt_or_ge i n with hlt | hge
      · have hoff' : (pushValue d (.string b)).strOff i = d.strOff i := by
          rw [ColumnData.strOff, ColumnData.strOff, pushValue, List.getD_append _ _ _ _ (by omega)]
        have hlen'' : (pushValue d (.string b)).strLen i = d.strLen i := by
          rw [ColumnData.strLen, ColumnData.strLen, pushValue, List.getD_append _ _ _ _ (by omega)]
        have := hin i hlt
        omega
      · obtain rfl : i = n := by omega
        rw [strOff_push hoff (hstr htype), strLen_push hlen hb, hlen']
    · rw [htype] at heq
      cases heq
  | set es =>
    obtain ⟨htype, hcount, hes⟩ := hv
    obtain ⟨hcounts, hoff, hin, hpacked⟩ := h.sets htype
    have hlen : (pushValue d (.set es)).setElemLengths.length =
        d.setElemLengths.length + es.length := by
      rw [pushValue, List.length_append, List.length_map]
    refine ⟨h.type, fun _ hne => absurd htype hne, fun heq => ?_,
      fun _ => ⟨?_, ?_, fun i hi => ?_, ?_⟩⟩
    · rw [htype] at heq
      cases heq
    · rw [pushValue, List.length_append, hcounts, List.length_singleton]
    · rw [pushValue, List.length_append, hoff, List.length_singleton]
    · rcases Nat.lt_or_ge i n with hlt | hge
      · have hoff' : (pushValue d (.set es)).setOff i = d.setOff i := by
          rw [ColumnData.setOff, ColumnData.setOff, pushValue, List.getD_append _ _ _ _ (by omega)]
        have hcount' : (pushValue d (.set es)).setCount i = d.setCount i := by
          rw [ColumnData.setCount, ColumnData.setCount, pushValue,
            List.getD_append _ _ _ _ (by omega)]
        have := hin i hlt
        omega
      · obtain rfl : i = n := by omega
        rw [setOff_push hoff (hset htype), setCount_push hcounts hcount, hlen]
    · rw [hlen, elemStart_push hes hpacked, List.take_length, pushValue, List.length_append,
        List.length_flatten]

lemma isNull_push {c : Option RawCell} (hv : ValueOk col.type v) (hnull : col.nullable = true)
    (hmask : d.nullMask.length = n) (i : ℕ) (hi : i ≤ n) :
    (pushValue (flagged col c d) v).isNull col i =
      if i = n then c.isNone else d.isNull col i := by
  have hkeep : (pushValue (flagged col c d) v).nullMask =
      d.nullMask ++ [if c.isNone then 1 else 0] := by
    rw [flagged, if_pos hnull]
    cases v <;> rfl
  have hne : (d.nullMask ++ [if c.isNone then (1 : UInt8) else 0]).isEmpty = false := by
    simp
  rw [ColumnData.isNull, hkeep, hnull, hne]
  by_cases heq : i = n
  · rw [if_pos heq, heq, ← hmask, getD_concat_self]
    cases c <;> rfl
  · rw [if_neg heq]
    have hlt : i < d.nullMask.length := by omega
    have hsome : d.nullMask.isEmpty = false := by
      rw [List.isEmpty_eq_false_iff]
      rintro hnil
      rw [hnil] at hlt
      exact Nat.not_lt_zero _ hlt
    rw [List.getD_append _ _ _ _ hlt, ColumnData.isNull, hnull, hsome]

lemma rowData_flagged {c : Option RawCell} (h : RowData col n d) : RowData col n (flagged col c d) := by
  unfold flagged
  split
  · exact ⟨h.type, h.fixed, h.strings, h.sets⟩
  · exact h

lemma raw_flagged {c : Option RawCell} (i : ℕ) : (flagged col c d).raw col i = d.raw col i := by
  unfold flagged
  split <;> rfl

/-- **A cell is appended exactly where the column has room.** -/
lemma appends_pushCell_iff {c : Option RawCell} (h : Rows col n d) (hc : CellOk col c) :
    Appends col n c d (pushCell col d c) ↔ HasRoom col n d := by
  have hv : ValueOk col.type (c.getD (zeroOf col.type)) := by
    cases c with
    | none => exact valueOk_zeroOf col.type
    | some v => exact hc.2 v rfl
  rw [pushCell_eq h.type hc]
  generalize hval : c.getD (zeroOf col.type) = v at hv
  have hstrData : (flagged col c d).strData = d.strData := by unfold flagged; split <;> rfl
  have helemLens : (flagged col c d).setElemLengths = d.setElemLengths := by
    unfold flagged; split <;> rfl
  have hdata : RowData col n (flagged col c d) := rowData_flagged h.toRowData
  constructor
  · intro happ
    refine ⟨fun hnull => ?_, fun hs => ?_, fun ht => ?_⟩
    · have hkeep : (pushValue (flagged col c d) v).nullMask.length = d.nullMask.length + 1 := by
        rw [flagged, if_pos hnull]
        cases v <;> simp [pushValue]
      rcases happ.rows.mask hnull with hnil | hlen
      · rw [hnil] at hkeep
        simp at hkeep
      · rcases Nat.eq_zero_or_pos n with hzero | hpos
        · exact .inl hzero
        · refine .inr fun hnil => ?_
          rw [hnil] at hkeep
          simp only [List.length_nil] at hkeep
          omega
    · have hoff := happ.behind.1 hs
      rw [ColumnData.strOff] at hoff
      have := UInt32.toNat_lt ((pushValue (flagged col c d) v).strOffsets.getD n 0)
      omega
    · have hoff := happ.behind.2 ht
      rw [ColumnData.setOff] at hoff
      have := UInt32.toNat_lt ((pushValue (flagged col c d) v).setOffsets.getD n 0)
      omega
  · rintro ⟨hmask, hstr, hset⟩
    have hstr' : col.type = .string → (flagged col c d).strData.length < 2 ^ 32 := by
      rwa [hstrData]
    have hset' : col.type = .set → (flagged col c d).setElemLengths.length < 2 ^ 32 := by
      rwa [helemLens]
    have hlen : col.nullable = true → d.nullMask.length = n := by
      intro hnull
      rcases h.mask hnull with hnil | hlen
      · rcases hmask hnull with hzero | hne
        · rw [hnil, hzero]
          rfl
        · exact absurd hnil hne
      · exact hlen
    have hcell : ∀ i ≤ n, (pushValue (flagged col c d) v).isNull col i =
        if i = n then c.isNone else d.isNull col i := by
      intro i hi
      by_cases hnull : col.nullable = true
      · exact isNull_push hv hnull (hlen hnull) i hi
      · have hnone : c.isNone = false := by
          cases c with
          | none => exact absurd (hc.1 rfl) hnull
          | some v => rfl
        have hfalse : ∀ d : ColumnData, d.isNull col i = false := by
          intro d
          rw [ColumnData.isNull, Bool.eq_false_iff.mpr hnull]
          rfl
        rw [hfalse, hfalse, hnone]
        split <;> rfl
    refine ⟨⟨rowData_push hdata hv hstr' hset', fun hnull => .inr ?_⟩, fun i hi => ?_, ?_, ?_⟩
    · rw [← hlen hnull, flagged, if_pos hnull]
      cases v <;> simp [pushValue]
    · have hnull : (pushValue (flagged col c d) v).isNull col i = d.isNull col i :=
        (hcell i hi.le).trans (if_neg (Nat.ne_of_lt hi))
      rw [ColumnData.cell, ColumnData.cell, hnull, raw_push_of_lt hdata hv hi, raw_flagged]
    · rw [ColumnData.cell, hcell n le_rfl, if_pos rfl, raw_push_self hdata hv hstr' hset']
      cases c with
      | none => rfl
      | some x =>
        rw [← hval]
        rfl
    · constructor
      · intro hs
        obtain ⟨hoff, -, -⟩ := hdata.strings hs
        cases v with
        | string b => rw [strOff_push hoff (hstr' hs), hstrData]
        | fixed b => exact absurd hs hv.1
        | set es => exact absurd (hs.symm.trans hv.1) (by decide)
      · intro ht
        obtain ⟨-, hoff, -, -⟩ := hdata.sets ht
        cases v with
        | set es => rw [setOff_push hoff (hset' ht), helemLens]
        | fixed b => exact absurd ht hv.2.1
        | string b => exact absurd (ht.symm.trans hv.1) (by decide)

end Push

/-! ### The serialized cells -/

section Serialize

variable {col : FilterColumn} {n i : ℕ} {d : ColumnData}

lemma elemStart_succ {k : ℕ} (hk : k < d.setElemLengths.length) :
    d.elemStart (k + 1) = d.elemStart k + d.elemLen k := by
  have hlen : d.elemLen k = d.setElemLengths[k].toNat := by
    simp [ColumnData.elemLen, hk]
  rw [ColumnData.elemStart, ColumnData.elemStart, List.take_add_one, List.getElem?_eq_getElem hk,
    hlen]
  simp only [Option.toList_some, List.map_append, List.sum_append, List.map_cons, List.map_nil,
    List.sum_cons, List.sum_nil, Nat.add_zero]

lemma serializeElems_eq (hdata : d.elemStart d.setElemLengths.length ≤ d.setElemData.length)
    (m k : ℕ) (hin : k + m ≤ d.setElemLengths.length)
    (hfit : ∀ e < m, k + e < 2 ^ 32 ∧ d.elemStart (k + e) < 2 ^ 32) (off : ℕ)
    (hoff : 0 < m → off = d.elemStart k) :
    serializeElems d m k off =
      (List.range m).flatMap fun e => encodeElem (d.elem (k + e)) := by
  induction m generalizing k off with
  | zero => rfl
  | succ m ih =>
    have hk : k < d.setElemLengths.length := by omega
    have hlen : (d.elem k).length = d.elemLen k :=
      length_elem ((elemStart_succ_le hk).trans hdata)
    rw [serializeElems, hoff (Nat.succ_pos m), List.range_succ_eq_map, List.flatMap_cons,
      List.flatMap_map]
    rw [encodeElem, show k + 0 = k from rfl, hlen, List.append_assoc]
    congr 2
    rcases Nat.eq_zero_or_pos m with rfl | hm
    · rfl
    · have hnext := hfit 1 (by omega)
      rw [Nat.mod_eq_of_lt hnext.1, ← elemStart_succ hk]
      rw [ih (k + 1) (by omega) (fun e he => by
        have := hfit (e + 1) (by omega)
        rwa [show k + (e + 1) = k + 1 + e by omega] at this) _
        (fun _ => Nat.mod_eq_of_lt hnext.2)]
      refine congrArg List.flatten (List.map_congr_left fun e _ => ?_)
      rw [show k + (e + 1) = k + 1 + e by omega]

/-- The elements of a set row can be reached with 32-bit counters. -/
def Reached (col : FilterColumn) (d : ColumnData) (i : ℕ) : Prop :=
  col.type = .set → d.isNull col i = false → ∀ e < d.setCount i,
    d.setOff i + e < 2 ^ 32 ∧ d.elemStart (d.setOff i + e) < 2 ^ 32

lemma exists_cell (wf : d.WellFormed col n) (hi : i < n) :
    ∃ c, d.cell col i = some c ∧ CellOk col c ∧
      (Reached col d i → serializeCell col d i = encodeCell col c) := by
  cases hnull : d.isNull col i with
  | true =>
    have hcol : col.nullable = true := by
      rw [ColumnData.isNull, Bool.and_eq_true, Bool.and_eq_true] at hnull
      exact hnull.1.1
    refine ⟨none, by rw [ColumnData.cell, hnull, if_pos rfl],
      ⟨fun _ => hcol, fun v hv => absurd hv.symm (Option.some_ne_none v)⟩, fun _ => ?_⟩
    simp only [serializeCell, hnull, hcol, if_true, List.append_nil]
    rfl
  | false =>
    -- What is left is the value, by the kind of the column.
    suffices hsuff : ∃ v, d.raw col i = some v ∧ ValueOk col.type v ∧
        (Reached col d i → serializeValue col.type d i = encodeValue v) by
      obtain ⟨v, hraw, hv, hser⟩ := hsuff
      refine ⟨some v, by rw [ColumnData.cell, hnull, hraw]; rfl,
        ⟨fun hno => absurd hno (Option.some_ne_none _), fun w hw => by cases hw; exact hv⟩,
        fun hreach => ?_⟩
      simp only [serializeCell, hnull, encodeCell, hser hreach, Bool.false_eq_true, if_false]
      rfl
    by_cases hs : col.type = .string
    · have hin := (wf.strings hs).2.2 i hi
      refine ⟨_, raw_string hs hin, ⟨hs, ?_⟩, fun _ => ?_⟩
      · rw [length_str hin]
        exact strLen_lt d i
      · simp only [serializeValue, hs, encodeValue, length_str hin]
    · by_cases ht : col.type = .set
      · obtain ⟨-, -, hin, hdata⟩ := wf.sets ht
        have hk : ∀ e < d.setCount i, d.setOff i + e < d.setElemLengths.length := by
          intro e he
          have := hin i hi
          omega
        have helem : ∀ e < d.setCount i, d.elemStart (d.setOff i + e) +
            d.elemLen (d.setOff i + e) ≤ d.setElemData.length :=
          fun e he => (elemStart_succ_le (hk e he)).trans hdata
        refine ⟨_, raw_set ht helem, ⟨ht, ?_, fun b hb => ?_⟩, fun hreach => ?_⟩
        · rw [ColumnData.rowElems, List.length_map, List.length_range]
          exact UInt8.toNat_lt _
        · obtain ⟨e, he, rfl⟩ := List.mem_map.mp hb
          rw [length_elem (helem e (List.mem_range.mp he))]
          exact UInt16.toNat_lt _
        · have hfit := hreach ht hnull
          simp only [serializeValue, ht, encodeValue]
          rw [serializeElems_eq hdata _ _ (hin i hi) hfit _ fun hpos =>
            Nat.mod_eq_of_lt (hfit 0 hpos).2]
          rw [ColumnData.rowElems, List.flatMap_map, List.length_map, List.length_range]
          rfl
      · have hin : i * col.type.width + col.type.width ≤ d.fixedData.length := by
          refine le_trans ?_ (wf.fixed hs ht)
          rw [← Nat.succ_mul]
          exact Nat.mul_le_mul_right _ hi
        refine ⟨.fixed ((d.fixedData.drop (i * col.type.width)).take col.type.width), ?_,
          ⟨hs, ht, ?_⟩, fun _ => ?_⟩
        · rw [raw_fixed hs ht, slice_eq_some hin]
          rfl
        · rw [List.length_take, List.length_drop]
          omega
        · rw [encodeValue]
          cases h : col.type <;> first | rfl | exact absurd h hs | exact absurd h ht

end Serialize

/-! ### A row through the stage -/

def Row.Ok (s : Schema) (row : Row) : Prop :=
  List.Forall₂ (fun col d => ∃ n, d.WellFormed col n ∧ row.place < n) s.columns row.cols

/-- 32 bits reach the row in its columns: its index, and the elements of its sets. -/
def Row.Addressed (s : Schema) (row : Row) : Prop :=
  row.index = row.place ∧ ∀ x ∈ s.columns.zip row.cols, Reached x.1 x.2 row.place

/-- The columns of a leaf with `n` rows; what stands behind those of the schema is not looked at. -/
def LeafColumns (s : Schema) (n : ℕ) (dst : List ColumnData) : Prop :=
  s.columns.length ≤ dst.length ∧ ∀ x ∈ s.columns.zip dst, Rows x.1 n x.2

/-- **A row goes through the stage**: its record is parsed to its fields, and its filter section
adds its cells to the columns of a leaf and nothing else. -/
structure RoundTrips (s : Schema) (row : Row) (n : ℕ) (dst : List ColumnData) : Prop where
  parse : stagedParse (staged s row) = .ok (row.parsed s, [])
  append : ∃ dst', stagedAppendFilterRow s dst (serializeFilterRow s row) = .ok (dst', []) ∧
    dst'.drop s.columns.length = dst.drop s.columns.length ∧
    ∀ (k : ℕ) (col : FilterColumn) (src d : ColumnData), s.columns[k]? = some col →
      row.cols[k]? = some src → dst[k]? = some d →
      ∃ c d', src.cell col row.place = some c ∧ dst'[k]? = some d' ∧ Appends col n c d d'

lemma reads_appendCells {cols : List FilterColumn} {srcs : List ColumnData} {i : ℕ}
    (hsrc : List.Forall₂ (fun col d => ∃ n, d.WellFormed col n ∧ i < n) cols srcs) :
    ∀ (dst : List ColumnData), cols.length ≤ dst.length →
      (∀ x ∈ cols.zip dst, x.2.type = x.1.type) →
      (∀ x ∈ cols.zip srcs, Reached x.1 x.2 i) →
      ∃ ds, Reads (appendCells (cols.zip dst))
          ((cols.zip srcs).flatMap fun x => serializeCell x.1 x.2 i) ds ∧
        ds.length = cols.length ∧
        ∀ (k : ℕ) (col : FilterColumn) (src d : ColumnData), cols[k]? = some col →
          srcs[k]? = some src → dst[k]? = some d →
          ∃ c, src.cell col i = some c ∧ CellOk col c ∧ ds[k]? = some (pushCell col d c) := by
  induction hsrc with
  | nil =>
    intro dst _ _ _
    exact ⟨[], reads_pure [], rfl, fun k col src d hk => by cases hk⟩
  | @cons col src cols srcs hhead htail ih =>
    intro dst hlen htype hreach
    cases dst with
    | nil => exact absurd hlen (by simp)
    | cons d dst =>
      obtain ⟨n, wf, hi⟩ := hhead
      obtain ⟨c, hcell, hok, hser⟩ := exists_cell wf hi
      obtain ⟨ds, hread, hds, hcells⟩ := ih dst (by simpa using hlen)
        (fun x hx => htype x (List.mem_cons_of_mem _ hx))
        (fun x hx => hreach x (List.mem_cons_of_mem _ hx))
      refine ⟨pushCell col d c :: ds, ?_, by simp [hds], fun k => ?_⟩
      · have hfirst := reads_appendCell (htype (col, d) List.mem_cons_self) hok
        rw [← hser (hreach (col, src) List.mem_cons_self)] at hfirst
        exact hfirst.bind hread.bind_pure
      · cases k with
        | zero =>
          intro col' src' d' hcol hsrc hd
          cases hcol
          cases hsrc
          cases hd
          exact ⟨c, hcell, hok, rfl⟩
        | succ k => exact hcells k

lemma mem_zip_of_getElem? {γ δ : Type} {l : List γ} {l' : List δ} {k : ℕ} {a : γ} {b : δ}
    (ha : l[k]? = some a) (hb : l'[k]? = some b) : (a, b) ∈ l.zip l' :=
  List.mem_of_getElem? (List.getElem?_zip_eq_some.mpr ⟨ha, hb⟩)

/-- **Staged records round-trip.** The parser and the filter walk read inside what they are given.
A row that 32 bits reach in its columns goes through the stage exactly when the length of its
record fits 32 bits and every column of the leaf can take another row. -/
theorem staged_record_round_trip (s : Schema) (row : Row) (n : ℕ) (dst : List ColumnData)
    (b : List UInt8) :
    stagedParse b ≠ .error .outside ∧ stagedAppendFilterRow s dst b ≠ .error .outside ∧
    (row.Ok s → row.Addressed s → LeafColumns s n dst →
      (RoundTrips s row n dst ↔
        (record s row).length < 2 ^ 32 ∧ ∀ x ∈ s.columns.zip dst, HasRoom x.1 n x.2)) := by
  refine ⟨inside_stagedParse b, inside_stagedAppendFilterRow s dst b, fun hrow haddr hdst => ?_⟩
  obtain ⟨hindex, hreach⟩ := haddr
  obtain ⟨hlen, hrows⟩ := hdst
  have htypes : ∀ x ∈ s.columns.zip dst, x.2.type = x.1.type := fun x hx => (hrows x hx).type
  obtain ⟨ds, hread, hds, hcells⟩ := reads_appendCells hrow dst hlen htypes hreach
  have happend : stagedAppendFilterRow s dst (serializeFilterRow s row) =
      .ok (ds ++ dst.drop s.columns.length, []) := by
    have hread' := hread []
    rw [List.append_nil] at hread'
    rw [stagedAppendFilterRow, if_neg (by omega), serializeFilterRow, hindex, bind_of_ok hread']
    rfl
  have hsrcLen : s.columns.length = row.cols.length := hrow.length_eq
  constructor
  · rintro ⟨hparse, dst', hdst', -, hall⟩
    refine ⟨(parse_staged_iff s row).mp hparse, fun x hx => ?_⟩
    obtain ⟨k, hk⟩ := List.getElem?_of_mem hx
    obtain ⟨hcol, hd⟩ := List.getElem?_zip_eq_some.mp hk
    have hkl : k < row.cols.length := by
      rw [← hsrcLen]
      exact (List.getElem?_eq_some_iff.mp hcol).1
    obtain ⟨c, d', hc, hd', happ⟩ := hall k x.1 _ x.2 hcol (List.getElem?_eq_getElem hkl) hd
    obtain ⟨c', hc', hok, hds'⟩ := hcells k x.1 _ x.2 hcol (List.getElem?_eq_getElem hkl) hd
    rw [happend] at hdst'
    cases hdst'
    rw [List.getElem?_append_left (by omega), hds'] at hd'
    cases hd'
    rw [hc] at hc'
    cases hc'
    exact (appends_pushCell_iff (hrows x hx) hok).mp happ
  · rintro ⟨hfit, hroom⟩
    refine ⟨(parse_staged_iff s row).mpr hfit, _, happend, ?_, fun k col src d hcol hsrc hd => ?_⟩
    · rw [← hds, List.drop_left]
    · obtain ⟨c, hc, hok, hds'⟩ := hcells k col src d hcol hsrc hd
      have hkl : k < s.columns.length := (List.getElem?_eq_some_iff.mp hcol).1
      have hmem := mem_zip_of_getElem? hcol hd
      exact ⟨c, _, hc, by rw [List.getElem?_append_left (by omega), hds'],
        (appends_pushCell_iff (hrows _ hmem) hok).mpr (hroom _ hmem)⟩

def stockSchema : Schema := ⟨[⟨"stock", .int32, true⟩], false⟩

/-- A row of a chunk with one cell in it: a value, or NULL. -/
def stockRow (null : UInt8) : Row where
  rowId := 7
  vector := .code [1, 2]
  ipBias := none
  payload := some [9]
  chunkHasFilter := true
  localIdx := 0
  cols := [{ type := .int32, nullMask := [null], fixedData := [5, 0, 0, 0] }]

lemma ok_stockRow (null : UInt8) : (stockRow null).Ok stockSchema :=
  .cons ⟨1, ⟨.inr le_rfl, fun _ _ => le_rfl, nofun, nofun⟩, Nat.one_pos⟩ .nil

lemma addressed_stockRow (null : UInt8) : (stockRow null).Addressed stockSchema := by
  refine ⟨rfl, fun x hx => ?_⟩
  obtain rfl : x = (⟨"stock", .int32, true⟩, _) := List.mem_singleton.mp hx
  exact nofun

/-- The first row of a leaf. -/
theorem staged_record_round_trip_first : RoundTrips stockSchema (stockRow 0) 0 [{ type := .int32 }] := by
  refine ((staged_record_round_trip stockSchema (stockRow 0) 0 [{ type := .int32 }] []).2.2
    (ok_stockRow 0) (addressed_stockRow 0) ⟨le_rfl, fun x hx => ?_⟩).mpr ⟨by decide, fun x hx => ?_⟩
  · obtain rfl : x = (⟨"stock", .int32, true⟩, { type := .int32 }) := List.mem_singleton.mp hx
    exact ⟨⟨rfl, fun _ _ => rfl, nofun, nofun⟩, fun _ => .inl rfl⟩
  · obtain rfl : x = (⟨"stock", .int32, true⟩, { type := .int32 }) := List.mem_singleton.mp hx
    exact ⟨fun _ => .inl rfl, nofun, nofun⟩

/-- A column of one row and no NULLs, so without flags. -/
def unmasked : ColumnData := { type := .int32, fixedData := [3, 0, 0, 0] }

/-- A NULL row that is added to a column without flags makes its first row NULL. -/
theorem null_row_masks_first_row :
    (stockRow 1).Ok stockSchema ∧ (stockRow 1).Addressed stockSchema ∧
      LeafColumns stockSchema 1 [unmasked] ∧ ¬ RoundTrips stockSchema (stockRow 1) 1 [unmasked] := by
  refine ⟨ok_stockRow 1, addressed_stockRow 1, ⟨le_rfl, fun x hx => ?_⟩, fun h => ?_⟩
  · obtain rfl : x = (⟨"stock", .int32, true⟩, unmasked) := List.mem_singleton.mp hx
    exact ⟨⟨rfl, fun _ _ => rfl, nofun, nofun⟩, fun _ => .inl rfl⟩
  · obtain ⟨dst', hdst', -, hall⟩ := h.append
    obtain ⟨c, d', -, hd', happ⟩ := hall 0 _ _ _ rfl rfl rfl
    have hcode : stagedAppendFilterRow stockSchema [unmasked]
        (serializeFilterRow stockSchema (stockRow 1)) =
        .ok ([{ type := .int32, nullMask := [1], fixedData := [3, 0, 0, 0, 0, 0, 0, 0] }], []) := rfl
    rw [hcode] at hdst'
    cases hdst'
    cases hd'
    have hkept := happ.kept 0 Nat.one_pos
    exact absurd hkept (by decide)

end SextantTree.Staged
