import SextantTree.PayloadImage
import SextantTree.PushSpec
import SextantTree.Slice

/-!
The payload offsets of a push build: of a staged chunk, of the buffer of a thread for a cluster, and
of the payload extent of a leaf. All three are running sums in 32 bits. A row is found at its offset
when it starts below `2 ^ 32`, and a row without bytes needs no offset.
-/

namespace SextantTree.PushStage

open FilterHash ByteMem Pages

/-! ### The code -/

/-- The copy of row `i` of a chunk: `plen` is the difference of two offsets, and `pdata` starts at
the first one. -/
def StagedChunk.copied (c : StagedChunk) (i : ℕ) : Option Bytes := do
  let p ← c.payloadOffsets[i]?
  let q ← c.payloadOffsets[i + 1]?
  slice c.payloadData p.toNat (q - p).toNat

/-- `payload_lens`, `payload_offs` and `payload_store`: of a thread's buffer for a cluster, and of a
cluster as `flush_buffer` loads its records. -/
structure PayloadStore where
  lens : List UInt32 := []
  offs : List UInt32 := []
  store : Bytes := []

namespace PayloadStore

def append (p : PayloadStore) (b : Bytes) : PayloadStore where
  lens := p.lens ++ [UInt32.ofNat b.length]
  offs := p.offs ++ [UInt32.ofNat p.store.length]
  store := p.store ++ b

def fill (ps : List Bytes) : PayloadStore := ps.foldl append {}

/-- The payload that the merge puts into the record of row `j`. -/
def get (p : PayloadStore) (j : ℕ) : Option Bytes := do
  let o ← p.offs[j]?
  let n ← p.lens[j]?
  slice p.store o.toNat n.toNat

/-- `memcpy` into a buffer; `none` is a write outside of it. -/
def copyTo (data : Bytes) (pos : ℕ) (b : Bytes) : Option Bytes :=
  if pos + b.length ≤ data.length then some (Slice.overwrite 0 data pos b) else none

/-- The row loop of the payload part of `flush_buffer`: the offsets and the data. -/
def layRows (store : Bytes) :
    List (UInt32 × UInt32) → UInt32 → Bytes → Option (List UInt32 × Bytes)
  | [], _, data => some ([], data)
  | (len, off) :: rows, acc, data => do
    let b ← slice store off.toNat len.toNat
    let data ← copyTo data acc.toNat b
    let rest ← layRows store rows (acc + len) data
    return (acc :: rest.1, rest.2)

/-- `payload_npg`, in 32 bits. -/
def pages (p : PayloadStore) : ℕ :=
  pagesFor (p.lens.length * 8 + (p.lens.map UInt32.toNat).sum) % 2 ^ 32

/-- The payload extent of a leaf of `flush_buffer`. -/
def flush (p : PayloadStore) : Option Bytes :=
  if p.lens.length * 8 ≤ p.pages * kPageSize then do
    let room := p.pages * kPageSize - p.lens.length * 8
    let laid ← layRows p.store (p.lens.zip p.offs) 0 (List.replicate room 0)
    return laid.1.flatMap (fun o => u32le o.toNat) ++ p.lens.flatMap (fun n => u32le n.toNat)
      ++ laid.2
  else none

end PayloadStore

/-- `fetch_payload` on the extent of a leaf of `count` rows; `none` is a read outside of the extent.
-/
def fetchPayload (extent : Bytes) (count slot : ℕ) : Option Bytes :=
  if count ≤ slot then some []
  else do
    let off ← u32At extent slot
    let len ← u32At extent (count + slot)
    slice extent (8 * count + off) len

/-! ### Pieces and their wrapped starts -/

/-- A read by position gives each of the payloads. -/
def Returns (read : ℕ → Option Bytes) (ps : List Bytes) : Prop :=
  ∀ i b, ps[i]? = some b → read i = some b

/-- Every row that has bytes starts below `2 ^ 32`. -/
def StartsFit (ls : List ℕ) : Prop :=
  ∀ i (hi : i < ls.length), ls[i] ≠ 0 → (ls.take i).sum < 2 ^ 32

/-- The offset that is stored for row `i`. -/
def offsetOf (ps : List Bytes) (i : ℕ) : UInt32 := UInt32.ofNat (ps.take i).flatten.length

lemma length_flatten_take (ps : List Bytes) (i : ℕ) :
    (ps.take i).flatten.length = ((ps.map List.length).take i).sum := by
  rw [List.length_flatten, List.map_take]

lemma toNat_ofNat_le (n : ℕ) : (UInt32.ofNat n).toNat ≤ n := by
  rw [UInt32.toNat_ofNat']
  exact Nat.mod_le _ _

lemma slice_nil {data : Bytes} {pos : ℕ} (h : pos ≤ data.length) : slice data pos 0 = some [] := by
  simp [slice, h]

lemma length_take_flatten_le (ps : List Bytes) (i : ℕ) :
    (ps.take i).flatten.length ≤ ps.flatten.length := by
  conv_rhs => rw [← List.take_append_drop i ps]
  rw [List.flatten_append, List.length_append]
  exact Nat.le_add_right _ _

lemma slice_flatten {ps : List Bytes} {i : ℕ} {b : Bytes} (hi : ps[i]? = some b) :
    slice ps.flatten (ps.take i).flatten.length b.length = some b := by
  obtain ⟨hlt, rfl⟩ := List.getElem?_eq_some_iff.1 hi
  have hend : (ps.take i).flatten.length + ps[i].length ≤ ps.flatten.length := by
    have := length_take_flatten_le ps (i + 1)
    rwa [List.take_add_one, hi, Option.toList_some, List.flatten_append, List.length_append,
      List.flatten_singleton] at this
  rw [slice, if_pos hend, take_drop_flatten ps hlt]

lemma StartsFit.slice_offsetOf {ps : List Bytes} (h : StartsFit (ps.map List.length)) {i : ℕ}
    {b : Bytes} (hi : ps[i]? = some b) :
    slice ps.flatten (offsetOf ps i).toNat b.length = some b := by
  obtain ⟨hlt, hget⟩ := List.getElem?_eq_some_iff.1 hi
  by_cases hb : b = []
  · subst hb
    refine slice_nil (le_trans (toNat_ofNat_le _) (length_take_flatten_le ps i))
  · have hstart := h i (by simpa using hlt) (by simpa [hget] using hb)
    rw [← length_flatten_take] at hstart
    rw [offsetOf, UInt32.toNat_ofNat_of_lt' hstart]
    exact slice_flatten hi

/-- Payloads of these lengths: zeros before row `k` and ones from it on. -/
def marked (ls : List ℕ) (k : ℕ) : List Bytes :=
  (ls.take k).map (fun n => List.replicate n 0) ++ (ls.drop k).map fun n => List.replicate n 1

lemma lengths_marked (ls : List ℕ) (k : ℕ) : (marked ls k).map List.length = ls := by
  simp [marked, Function.comp_def]

lemma getElem?_marked {ls : List ℕ} {k : ℕ} (hk : k < ls.length) :
    (marked ls k)[k]? = some (List.replicate ls[k] 1) := by
  rw [marked, List.getElem?_append_right (by simp)]
  simp [Nat.min_eq_left hk.le, hk]

lemma getElem?_flatten_marked {ls : List ℕ} {k p : ℕ} (hp : p < (ls.take k).sum) :
    (marked ls k).flatten[p]? = some 0 := by
  have hzeros : ((ls.take k).map fun n => List.replicate n (0 : UInt8)).flatten
      = List.replicate (ls.take k).sum 0 := by
    rw [List.eq_replicate_iff]
    refine ⟨by simp [List.length_flatten, Function.comp_def], fun x hx => ?_⟩
    obtain ⟨l, hl, hxl⟩ := List.mem_flatten.1 hx
    obtain ⟨n, -, rfl⟩ := List.mem_map.1 hl
    exact (List.mem_replicate.1 hxl).2
  rw [marked, List.flatten_append, hzeros, List.getElem?_append_left (by simpa using hp)]
  simp [hp]

lemma getElem?_of_slice {data b : Bytes} {pos len : ℕ} (h : slice data pos len = some b)
    (hb : b ≠ []) : data[pos]? = b.head? := by
  unfold slice at h
  split_ifs at h with hend
  obtain rfl := Option.some.inj h
  have hlen : len ≠ 0 := by
    rintro rfl
    simp at hb
  rw [List.head?_take, if_neg hlen, List.head?_drop]

lemma slice_ne_marked {n : ℕ} (hne : n ≠ 0) {data : Bytes} {pos len : ℕ}
    (hdata : data[pos]? ≠ some 1) : slice data pos len ≠ some (List.replicate n 1) := by
  intro h
  have hone := getElem?_of_slice h (by simpa using hne)
  rw [List.head?_replicate, if_neg hne] at hone
  exact hdata hone

lemma getElem?_offsetOf_marked {ls : List ℕ} {k : ℕ} (hstart : 2 ^ 32 ≤ (ls.take k).sum) :
    (marked ls k).flatten[(offsetOf (marked ls k) k).toNat]? = some 0 :=
  getElem?_flatten_marked (lt_of_lt_of_le (UInt32.toNat_lt _) hstart)

lemma exists_late_of_not_startsFit {ls : List ℕ} (h : ¬ StartsFit ls) :
    ∃ k, ∃ hk : k < ls.length, ls[k] ≠ 0 ∧ 2 ^ 32 ≤ (ls.take k).sum := by
  unfold StartsFit at h
  push Not at h
  exact h

/-! ### The buffers of the threads -/

namespace PayloadStore

lemma fill_concat (ps : List Bytes) (b : Bytes) : fill (ps ++ [b]) = (fill ps).append b := by
  simp [fill]

lemma fill_eq (ps : List Bytes) :
    fill ps = ⟨ps.map fun b => UInt32.ofNat b.length, starts ps, ps.flatten⟩ := by
  induction ps using List.reverseRecOn with
  | nil => simp [fill, starts]
  | append_singleton ps b ih =>
    rw [fill_concat, ih, append, starts_concat]
    simp

lemma getElem?_starts {ps : List Bytes} {i : ℕ} (hi : i < ps.length) :
    (starts ps)[i]? = some (offsetOf ps i) := by
  simp [starts, offsetOf, hi]

lemma get_fill {ps : List Bytes} {i : ℕ} {b : Bytes} (hi : ps[i]? = some b)
    (hb : b.length < 2 ^ 32) :
    (fill ps).get i = slice ps.flatten (offsetOf ps i).toNat b.length := by
  have hlt := (List.getElem?_eq_some_iff.1 hi).1
  have hlen : (ps.map fun b => UInt32.ofNat b.length)[i]? = some (UInt32.ofNat b.length) := by
    simp [hi]
  simp only [get, fill_eq, getElem?_starts hlt, hlen, bind, Option.bind]
  rw [UInt32.toNat_ofNat_of_lt' hb]

end PayloadStore

lemma length_lt_of_lengths {ps : List Bytes} {ls : List ℕ} (hls : ∀ n ∈ ls, n < 2 ^ 32)
    (hps : ps.map List.length = ls) {i : ℕ} {b : Bytes} (hi : ps[i]? = some b) :
    b.length < 2 ^ 32 := by
  subst hps
  exact hls _ (List.mem_map_of_mem (List.mem_of_getElem? hi))

/-- The buffers of the threads give every payload exactly when every row starts low enough. -/
theorem get_fill_iff {ls : List ℕ} (hls : ∀ n ∈ ls, n < 2 ^ 32) :
    (∀ ps : List Bytes, ps.map List.length = ls → Returns (PayloadStore.fill ps).get ps)
      ↔ StartsFit ls := by
  constructor
  · intro h
    by_contra hfit
    obtain ⟨k, hk, hne, hstart⟩ := exists_late_of_not_startsFit hfit
    have hread := h (marked ls k) (lengths_marked ls k) k _ (getElem?_marked hk)
    rw [PayloadStore.get_fill (getElem?_marked hk)
      (length_lt_of_lengths hls (lengths_marked ls k) (getElem?_marked hk))] at hread
    refine slice_ne_marked hne ?_ hread
    rw [getElem?_offsetOf_marked hstart]
    decide
  · rintro h ps rfl i b hi
    rw [PayloadStore.get_fill hi (length_lt_of_lengths hls rfl hi)]
    exact h.slice_offsetOf hi

/-! ### Staged chunks -/

/-- The chunk has the payloads of its rows, and one offset more than rows. -/
structure StagedChunk.Carries (c : StagedChunk) (ps : List Bytes) : Prop where
  data : c.payloadData = ps.flatten
  offsets : c.payloadOffsets = (List.range (ps.length + 1)).map (offsetOf ps)
  rows : c.rowIds.length = ps.length

lemma offsetOf_succ {ps : List Bytes} {i : ℕ} {b : Bytes} (hi : ps[i]? = some b) :
    offsetOf ps (i + 1) = offsetOf ps i + UInt32.ofNat b.length := by
  rw [offsetOf, offsetOf, List.take_add_one, hi, Option.toList_some, List.flatten_append,
    List.length_append, List.flatten_singleton, UInt32.ofNat_add]

lemma offsetOf_append {ps : List Bytes} {i : ℕ} (hi : i ≤ ps.length) (qs : List Bytes) :
    offsetOf (ps ++ qs) i = offsetOf ps i := by
  rw [offsetOf, offsetOf, List.take_append_of_le_length hi]

lemma StagedChunk.Carries.copied_eq {c : StagedChunk} {ps : List Bytes} (h : c.Carries ps) {i : ℕ}
    {b : Bytes} (hi : ps[i]? = some b) (hb : b.length < 2 ^ 32) :
    c.copied i = slice ps.flatten (offsetOf ps i).toNat b.length := by
  have hlt := (List.getElem?_eq_some_iff.1 hi).1
  have hp : c.payloadOffsets[i]? = some (offsetOf ps i) := by
    rw [h.offsets, List.getElem?_map, List.getElem?_range (by omega)]
    rfl
  have hq : c.payloadOffsets[i + 1]? = some (offsetOf ps (i + 1)) := by
    rw [h.offsets, List.getElem?_map, List.getElem?_range (by omega)]
    rfl
  have hdiff : offsetOf ps (i + 1) - offsetOf ps i = UInt32.ofNat b.length := by
    rw [offsetOf_succ hi, UInt32.add_comm, UInt32.add_sub_cancel]
  simp only [copied, hp, hq, h.data, bind, Option.bind]
  rw [hdiff, UInt32.toNat_ofNat_of_lt' hb]

lemma StagedChunk.Carries.closeRow {st st' : PushStager} {ps : List Bytes}
    (h : st.current.Carries ps) (p : Bytes)
    (hdata : st'.current.payloadData = st.current.payloadData ++ p)
    (hoffsets : st'.current.payloadOffsets = st.current.payloadOffsets)
    (hrows : st'.current.rowIds.length = st.current.rowIds.length + 1) :
    st'.closeRow.Carries (ps ++ [p]) := by
  refine ⟨?_, ?_, ?_⟩
  · simp [PushStager.closeRow, hdata, h.data]
  · have hlast : offsetOf (ps ++ [p]) (ps.length + 1)
        = UInt32.ofNat (ps.flatten ++ p).length := by
      rw [offsetOf, List.take_of_length_le (by simp)]
      simp
    rw [List.length_append, List.length_singleton, List.range_succ, List.map_append, List.map_cons,
      List.map_nil, hlast]
    simp only [PushStager.closeRow, hdata, hoffsets, h.data, h.offsets]
    congr 1
    refine List.map_congr_left fun i hi => ?_
    have := List.mem_range.1 hi
    rw [offsetOf_append (by omega)]
  · simp [PushStager.closeRow, hrows, h.rows]

/-- The payloads of chunk `j`. -/
def chunkPayloads (ps : List Bytes) (j : ℕ) : List Bytes :=
  (ps.drop (kChunkRows * j)).take kChunkRows

/-- The payloads pushed so far, where the chunks on file come before those in memory. -/
structure HoldsPayloads (st : PushStager) (ps : List Bytes) : Prop where
  sealed : ∀ j (c : StagedChunk), st.memoryChunks[j]? = some c →
    c.Carries (chunkPayloads ps (st.spilledChunks + j))
  current : st.current.Carries (ps.drop (kChunkRows * (st.spilledChunks + st.memoryChunks.length)))
  begun : kChunkRows * (st.spilledChunks + st.memoryChunks.length) ≤ ps.length
  short : ps.length < kChunkRows * (st.spilledChunks + st.memoryChunks.length) + kChunkRows

/-- The calls change what they append to, in the current chunk. -/
structure SameSealed (st st' : PushStager) : Prop where
  memoryChunks : st'.memoryChunks = st.memoryChunks
  spilledChunks : st'.spilledChunks = st.spilledChunks
  payloadData : st'.current.payloadData = st.current.payloadData
  payloadOffsets : st'.current.payloadOffsets = st.current.payloadOffsets
  rowIds : st'.current.rowIds = st.current.rowIds

lemma sameSealed_pushValues (call : PushCall) (r : ℕ) (cols : List (FilterColumn × ℕ))
    (st : PushStager) : SameSealed st (PushBuilder.pushValues call r cols st).1 := by
  induction cols generalizing st with
  | nil => exact ⟨rfl, rfl, rfl, rfl, rfl⟩
  | cons x cols ih =>
    simp only [PushBuilder.pushValues]
    cases call.value x.1 x.2 r with
    | error e => exact ⟨rfl, rfl, rfl, rfl, rfl⟩
    | ok v =>
      have h := ih (st.appendValue x.2 x.1.type v)
      exact ⟨h.memoryChunks, h.spilledChunks, h.payloadData, h.payloadOffsets, h.rowIds⟩

lemma HoldsPayloads.maybeSpill {st : PushStager} {ps : List Bytes} (h : HoldsPayloads st ps) :
    HoldsPayloads st.maybeSpill ps := by
  unfold PushStager.maybeSpill
  split_ifs with hfit
  · exact h
  · exact ⟨by simp, h.current, h.begun, h.short⟩

lemma chunkPayloads_append {ps qs : List Bytes} {j : ℕ} (h : kChunkRows * (j + 1) ≤ ps.length) :
    chunkPayloads (ps ++ qs) j = chunkPayloads ps j := by
  rw [Nat.mul_succ] at h
  unfold chunkPayloads
  rw [List.drop_append_of_le_length (by omega), List.take_append_of_le_length (by simp; omega)]

lemma HoldsPayloads.endRow {st st' : PushStager} {ps : List Bytes} (h : HoldsPayloads st ps)
    (p : Bytes) (hmem : st'.memoryChunks = st.memoryChunks)
    (hspilled : st'.spilledChunks = st.spilledChunks)
    (hdata : st'.current.payloadData = st.current.payloadData ++ p)
    (hoffsets : st'.current.payloadOffsets = st.current.payloadOffsets)
    (hrows : st'.current.rowIds.length = st.current.rowIds.length + 1) :
    HoldsPayloads st'.endRow (ps ++ [p]) := by
  set n := st.spilledChunks + st.memoryChunks.length with hn
  have hbegun := h.begun
  have hshort := h.short
  have hclose := h.current.closeRow p hdata hoffsets hrows
  rw [← hn] at hclose hbegun hshort
  rw [← List.drop_append_of_le_length hbegun] at hclose
  have hcount : st'.closeRow.count = ps.length + 1 - kChunkRows * n := by
    have := h.current.rows
    simp only [PushStager.closeRow, hrows]
    rw [this, List.length_drop, ← hn]
    omega
  have hsealed : ∀ j (c : StagedChunk), st.memoryChunks[j]? = some c →
      c.Carries (chunkPayloads (ps ++ [p]) (st.spilledChunks + j)) := by
    intro j c hj
    have hlt := (List.getElem?_eq_some_iff.1 hj).1
    rw [chunkPayloads_append]
    · exact h.sealed j c hj
    · exact le_trans (Nat.mul_le_mul_left _ (by omega)) hbegun
  unfold PushStager.endRow
  dsimp only
  split_ifs with hfull
  · have hlen : (ps ++ [p]).length = kChunkRows * n + kChunkRows := by
      simp only [List.length_append, List.length_singleton]
      omega
    have hnext : st.spilledChunks + (st.memoryChunks.length + 1) = n + 1 := by omega
    refine HoldsPayloads.maybeSpill ⟨?_, ?_, ?_, ?_⟩ <;>
      simp only [hmem, hspilled, List.length_append, List.length_singleton, hnext, Nat.mul_succ]
    · intro j c hj
      rcases Nat.lt_or_ge j st.memoryChunks.length with hlt | hge
      · rw [List.getElem?_append_left hlt] at hj
        exact hsealed j c hj
      · rw [List.getElem?_append_right hge, List.getElem?_singleton] at hj
        split_ifs at hj with hzero
        obtain rfl := Option.some.inj hj
        obtain rfl : j = st.memoryChunks.length := by omega
        rw [← hn, chunkPayloads, List.take_of_length_le (by rw [List.length_drop, hlen]; omega)]
        exact hclose
    · rw [List.drop_of_length_le hlen.le]
      exact ⟨rfl, rfl, rfl⟩
    · rw [List.length_append, List.length_singleton] at hlen
      exact hlen.ge
    · have : 0 < kChunkRows := by decide
      rw [List.length_append, List.length_singleton] at hlen
      omega
  · refine ⟨?_, ?_, ?_, ?_⟩ <;> simp only [hmem, hspilled, ← hn]
    · exact hsealed
    · exact hclose
    · simp only [List.length_append, List.length_singleton]
      omega
    · simp only [List.length_append, List.length_singleton]
      omega

lemma HoldsPayloads.pushRow {st : PushStager} {ps : List Bytes} (h : HoldsPayloads st ps)
    (hpay : st.hasPayload = true) (b : PushBuilder) (call : PushCall) (r : ℕ)
    (ok : (b.pushRow call r st).2 = none) :
    HoldsPayloads (b.pushRow call r st).1 (ps ++ [call.payloadOf true r]) ∧
      (b.pushRow call r st).1.hasPayload = true := by
  obtain ⟨hshape, -, hok⟩ := PushBuilder.pushRow_spec b call r st
  refine ⟨?_, hshape.hasPayload.trans hpay⟩
  have hrow := hok.1 ok
  set st₁ := st.appendVector (call.vector st.dim r) (UInt64.ofNat (b.rows + r)) with hst₁
  have hsame := sameSealed_pushValues call r st₁.schema.columns.zipIdx st₁
  have hkeep := (PushBuilder.pushValues_spec call r st₁.schema.columns.zipIdx st₁).1.hasPayload
  simp only [PushBuilder.pushRow, ← hst₁] at ok ⊢
  cases hvals : PushBuilder.pushValues call r st₁.schema.columns.zipIdx st₁ with
  | mk st₂ err =>
    rw [hvals] at ok hsame hkeep
    dsimp only at hsame hkeep
    cases err with
    | some e => simp at ok
    | none =>
      have hpay₂ : st₂.hasPayload = true := hkeep.trans hpay
      obtain ⟨p, hp⟩ := hrow.2 hpay
      have hpayload : call.payloadOf true r = p := by
        simp [PushCall.payloadOf, hp, Except.toOption]
      simp only [hpay₂, if_true, hp, hpayload]
      refine h.endRow p hsame.memoryChunks hsame.spilledChunks ?_ hsame.payloadOffsets ?_
      · simp [PushStager.appendPayload, hsame.payloadData, hst₁, PushStager.appendVector]
      · simp [PushStager.appendPayload, hsame.rowIds, hst₁, PushStager.appendVector]

lemma HoldsPayloads.pushRows {st : PushStager} {ps : List Bytes} (h : HoldsPayloads st ps)
    (hpay : st.hasPayload = true) (b : PushBuilder) (call : PushCall) (rs : List ℕ)
    (ok : (b.pushRows call rs st).2 = none) :
    HoldsPayloads (b.pushRows call rs st).1 (ps ++ rs.map (call.payloadOf true)) ∧
      (b.pushRows call rs st).1.hasPayload = true := by
  induction rs generalizing st ps with
  | nil => simpa [PushBuilder.pushRows] using ⟨h, hpay⟩
  | cons r rs ih =>
    simp only [PushBuilder.pushRows] at ok ⊢
    cases hrow : b.pushRow call r st with
    | mk st₁ err =>
      rw [hrow] at ok
      cases err with
      | some e => simp at ok
      | none =>
        obtain ⟨h₁, hpay₁⟩ := h.pushRow hpay b call r (by rw [hrow])
        rw [hrow] at h₁ hpay₁
        have := ih h₁ hpay₁ ok
        rwa [List.append_assoc] at this

/-- A build with payloads whose calls were all accepted: the payloads in their order. -/
inductive Accepted (dim : ℕ) (s : Schema) (budget : ℕ) : List Bytes → PushBuilder → Prop
  | start : Accepted dim s budget [] { stager := .new dim s true budget }
  | push {ps : List Bytes} {b : PushBuilder} (call : PushCall) (h : Accepted dim s budget ps b)
      (ok : (b.push call).2 = none) :
      Accepted dim s budget (ps ++ (List.range call.nRows).map (call.payloadOf true))
        (b.push call).1

lemma Accepted.holds {dim : ℕ} {s : Schema} {budget : ℕ} {ps : List Bytes} {b : PushBuilder}
    (h : Accepted dim s budget ps b) :
    HoldsPayloads b.stager ps ∧ b.stager.hasPayload = true := by
  induction h with
  | start =>
    refine ⟨⟨by simp [PushStager.new], ⟨rfl, rfl, rfl⟩, Nat.zero_le _, ?_⟩, rfl⟩
    exact Nat.lt_of_lt_of_le (by decide : 0 < kChunkRows) (Nat.le_add_left _ _)
  | @push ps b call _ ok ih =>
    unfold PushBuilder.push at ok ⊢
    cases hrefused : b.refused call with
    | some e => simp [hrefused] at ok
    | none =>
      rw [hrefused] at ok
      dsimp only at ok ⊢
      cases hgo : b.pushRows call (List.range call.nRows) b.stager with
      | mk st err =>
        rw [hgo] at ok
        cases err with
        | some e => simp at ok
        | none =>
          have := ih.1.pushRows ih.2 b call (List.range call.nRows) (by rw [hgo])
          rwa [hgo] at this

/-- `c` is a chunk of a push build, sealed or taking rows, and `ps` are the payloads of its rows. -/
def Chunked (ps : List Bytes) (c : StagedChunk) : Prop :=
  ∃ dim s budget all b, Accepted dim s budget all b ∧ ∃ j,
    (b.stager.memoryChunks ++ [b.stager.current])[j]? = some c ∧
      ps = chunkPayloads all (b.stager.spilledChunks + j)

lemma Chunked.carries {ps : List Bytes} {c : StagedChunk} (h : Chunked ps c) : c.Carries ps := by
  obtain ⟨dim, s, budget, all, b, hacc, j, hj, rfl⟩ := h
  obtain ⟨hholds, -⟩ := hacc.holds
  rcases Nat.lt_or_ge j b.stager.memoryChunks.length with hlt | hge
  · rw [List.getElem?_append_left hlt] at hj
    exact hholds.sealed j c hj
  · rw [List.getElem?_append_right hge, List.getElem?_singleton] at hj
    split_ifs at hj with hzero
    obtain rfl := Option.some.inj hj
    obtain rfl : j = b.stager.memoryChunks.length := by omega
    have hshort := hholds.short
    rw [chunkPayloads, List.take_of_length_le (by rw [List.length_drop]; omega)]
    exact hholds.current

/-- The call that pushes these payloads, with one vector of zeros for each. -/
def payloadCall (ps : List Bytes) : PushCall where
  vectors := some fun _ => 0
  nRows := ps.length
  payloadOffsets := some fun i => UInt64.ofNat (ps.take i).flatten.length
  payloadData := fun i => ps.flatten.getD i 0

lemma bytesAt_getD {data : Bytes} {pos n : ℕ} (h : pos + n ≤ data.length) :
    bytesAt (fun i => data.getD (pos + i) 0) n = (data.drop pos).take n := by
  have hlen : ((data.drop pos).take n).length = n := by
    rw [List.length_take, List.length_drop]
    omega
  refine List.ext_getElem (by rw [hlen]; simp [bytesAt]) fun i h₁ h₂ => ?_
  have hi : i < n := by rwa [hlen] at h₂
  have hdata : pos + i < data.length := by omega
  simp [bytesAt, List.getD_eq_getElem?_getD, List.getElem?_eq_getElem hdata]

section

variable {ps : List Bytes} (hlen : ps.length < kChunkRows) (hps : ∀ p ∈ ps, p.length < 2 ^ 32)

include hlen hps in
lemma length_flatten_take_lt (i : ℕ) : (ps.take i).flatten.length < 2 ^ 64 := by
  have hsum : (ps.map List.length).sum ≤ ps.length * 2 ^ 32 := by
    have := List.sum_le_card_nsmul (ps.map List.length) (2 ^ 32) (by
      intro n hn
      obtain ⟨p, hp, rfl⟩ := List.mem_map.1 hn
      exact (hps p hp).le)
    simpa using this
  have hrows : kChunkRows = 2 ^ 15 := rfl
  refine lt_of_le_of_lt (length_take_flatten_le ps i) ?_
  rw [List.length_flatten]
  refine lt_of_le_of_lt hsum ?_
  calc ps.length * 2 ^ 32 ≤ 2 ^ 15 * 2 ^ 32 := Nat.mul_le_mul_right _ (by omega)
    _ < 2 ^ 64 := by norm_num

include hlen hps in
lemma payload_payloadCall {r : ℕ} {b : Bytes} (hr : ps[r]? = some b) :
    (payloadCall ps).payload r = .ok b := by
  have hstart : (UInt64.ofNat (ps.take r).flatten.length).toNat = (ps.take r).flatten.length :=
    UInt64.toNat_ofNat_of_lt' (length_flatten_take_lt hlen hps r)
  have hnext : (ps.take (r + 1)).flatten.length = (ps.take r).flatten.length + b.length := by
    rw [List.take_add_one, hr, Option.toList_some, List.flatten_append, List.length_append,
      List.flatten_singleton]
  have hstop : (UInt64.ofNat (ps.take (r + 1)).flatten.length).toNat
      = (ps.take r).flatten.length + b.length := by
    rw [UInt64.toNat_ofNat_of_lt' (length_flatten_take_lt hlen hps (r + 1)), hnext]
  have hb := hps b (List.mem_of_getElem? hr)
  have hslice := slice_flatten hr
  unfold slice at hslice
  split_ifs at hslice with hend
  simp only [PushCall.payload, payloadCall, Option.getD_some, hstart, hstop]
  rw [if_neg (by omega), if_neg (by omega), Nat.add_sub_cancel_left, bytesAt_getD hend]
  exact congrArg _ (Option.some.inj hslice)

include hlen hps in
lemma exists_chunked (hne : ps ≠ []) : ∃ c, Chunked ps c := by
  set b : PushBuilder := { stager := .new 0 ({ columns := [] } : Schema) true 0 } with hb
  have hrow : ∀ r < ps.length, ∃ p, ps[r]? = some p ∧ (payloadCall ps).payload r = .ok p :=
    fun r hr => ⟨ps[r], List.getElem?_eq_getElem hr,
      payload_payloadCall hlen hps (List.getElem?_eq_getElem hr)⟩
  have hgo : (b.pushRows (payloadCall ps) (List.range ps.length) b.stager).2 = none := by
    refine (PushBuilder.pushRows_spec b _ _ _).1.2 fun r hr => ⟨by simp [hb, PushStager.new], ?_⟩
    obtain ⟨p, -, hp⟩ := hrow r (List.mem_range.1 hr)
    exact fun _ => ⟨p, hp⟩
  have hrefused : b.refused (payloadCall ps) = none := by
    simp [PushBuilder.refused, payloadCall, hne]
  have hok : (b.push (payloadCall ps)).2 = none := by
    unfold PushBuilder.push
    rw [hrefused]
    cases h : b.pushRows (payloadCall ps) (List.range ps.length) b.stager with
    | mk st err =>
      rw [h] at hgo
      obtain rfl : err = none := hgo
      simp only [payloadCall] at h ⊢
      rw [h]
  have hall : (List.range (payloadCall ps).nRows).map ((payloadCall ps).payloadOf true) = ps := by
    refine List.ext_getElem? fun r => ?_
    rcases Nat.lt_or_ge r ps.length with hr | hr
    · obtain ⟨p, hget, hp⟩ := hrow r hr
      have hrange : (List.range (payloadCall ps).nRows)[r]? = some r := List.getElem?_range hr
      rw [hget, List.getElem?_map, hrange]
      simp [PushCall.payloadOf, hp, Except.toOption]
    · rw [List.getElem?_eq_none hr, List.getElem?_eq_none (by simpa [payloadCall] using hr)]
  have hstart : Accepted 0 { columns := [] } 0 [] b := .start
  have hacc := Accepted.push (payloadCall ps) hstart hok
  rw [hall, List.nil_append] at hacc
  obtain ⟨hholds, -⟩ := hacc.holds
  set st := (b.push (payloadCall ps)).1.stager with hst
  have hzero : st.spilledChunks + st.memoryChunks.length = 0 := by
    by_contra hpos
    have hmul := Nat.mul_le_mul_left kChunkRows (Nat.one_le_iff_ne_zero.2 hpos)
    rw [Nat.mul_one] at hmul
    exact absurd (le_trans hmul hholds.begun) (by omega)
  have hmem : st.memoryChunks = [] := List.eq_nil_of_length_eq_zero (by omega)
  have hspilled : st.spilledChunks = 0 := by omega
  refine ⟨st.current, 0, { columns := [] }, 0, ps, _, hacc, 0, ?_, ?_⟩
  · rw [← hst, hmem]
    rfl
  · rw [← hst, hspilled, chunkPayloads, Nat.mul_zero, List.drop_zero,
      List.take_of_length_le hlen.le]

end

/-- The chunk of these payloads gives each of them exactly when every row starts low enough. -/
theorem copied_iff {ls : List ℕ} (hls : ∀ n ∈ ls, n < 2 ^ 32) (hlen : ls.length < kChunkRows) :
    (∀ ps : List Bytes, ps.map List.length = ls → ∀ c, Chunked ps c → Returns c.copied ps)
      ↔ StartsFit ls := by
  constructor
  · intro h
    by_contra hfit
    obtain ⟨k, hk, hne, hstart⟩ := exists_late_of_not_startsFit hfit
    have hlengths := lengths_marked ls k
    have hmarked : ∀ p ∈ marked ls k, p.length < 2 ^ 32 := by
      intro p hp
      have := List.mem_map_of_mem (f := List.length) hp
      rw [hlengths] at this
      exact hls _ this
    have hcount : (marked ls k).length = ls.length := by rw [← List.length_map, hlengths]
    obtain ⟨c, hc⟩ := exists_chunked (by omega) hmarked (by
      rw [← List.length_pos_iff]
      omega)
    have hread := h _ hlengths c hc k _ (getElem?_marked hk)
    rw [hc.carries.copied_eq (getElem?_marked hk)
      (length_lt_of_lengths hls hlengths (getElem?_marked hk))] at hread
    refine slice_ne_marked hne ?_ hread
    rw [getElem?_offsetOf_marked hstart]
    decide
  · rintro h ps rfl c hc i b hi
    rw [hc.carries.copied_eq hi (length_lt_of_lengths hls rfl hi)]
    exact h.slice_offsetOf hi

/-! ### The payload extent of a leaf -/

namespace PayloadStore

/-- The rows of `todo` as they are in the buffer, from row `k` on. -/
def stored (ps : List Bytes) : ℕ → List Bytes → List (UInt32 × UInt32)
  | _, [] => []
  | k, b :: todo => (UInt32.ofNat b.length, offsetOf ps k) :: stored ps (k + 1) todo

lemma stored_eq (ps : List Bytes) (k : ℕ) (todo : List Bytes) :
    stored ps k todo = (todo.map fun b => UInt32.ofNat b.length).zip
      ((List.range todo.length).map fun i => offsetOf ps (k + i)) := by
  induction todo generalizing k with
  | nil => rfl
  | cons b todo ih =>
    rw [stored, ih, List.length_cons, List.range_succ_eq_map, List.map_cons, List.map_cons,
      List.zip_cons_cons, List.map_map]
    simp [Function.comp_def, Nat.add_assoc, Nat.add_comm 1]

lemma stored_fill (ps : List Bytes) :
    stored ps 0 ps = (fill ps).lens.zip (fill ps).offs := by
  rw [stored_eq, fill_eq]
  simp only [starts, offsetOf, Nat.zero_add]

lemma getElem?_copyTo {store data data' b : Bytes} {pos len : ℕ} (hb : slice store pos len = some b)
    (h : copyTo data pos b = some data') (p : ℕ) :
    data'[p]? = data[p]? ∨ data'[p]? = store[p]? := by
  unfold slice at hb
  unfold copyTo at h
  split_ifs at hb h with hin hroom
  obtain rfl := Option.some.inj h
  rw [Slice.getElem?_overwrite 0 hroom]
  split_ifs with hp
  · right
    obtain rfl := Option.some.inj hb
    have hlt : p - pos < len := by
      have := hp.2
      rw [List.length_take, List.length_drop] at this
      omega
    rw [List.getElem?_take_of_lt hlt, List.getElem?_drop, Nat.add_sub_cancel' hp.1]
  · exact Or.inl rfl

lemma offsets_cons (ps : List Bytes) (k n : ℕ) :
    offsetOf ps k :: (List.range n).map (fun i => offsetOf ps (k + 1 + i))
      = (List.range (n + 1)).map fun i => offsetOf ps (k + i) := by
  rw [List.range_succ_eq_map, List.map_cons, List.map_map]
  simp [Function.comp_def, Nat.add_assoc, Nat.add_comm 1]

lemma getElem?_middle {done todo : List Bytes} {b : Bytes} :
    (done ++ b :: todo)[done.length]? = some b := by simp

/-- The offsets of the extent are those of the store, and a byte of its data is unwritten or the
byte of the store there, wrapped or not. -/
lemma layRows_spec {ps todo : List Bytes} (done : List Bytes) (hps : done ++ todo = ps)
    {data : Bytes}
    {laid : List UInt32 × Bytes}
    (h : layRows ps.flatten (stored ps done.length todo) (offsetOf ps done.length) data
      = some laid) :
    laid.1 = (List.range todo.length).map (fun i => offsetOf ps (done.length + i)) ∧
      ∀ p : ℕ, laid.2[p]? = data[p]? ∨ laid.2[p]? = ps.flatten[p]? := by
  induction todo generalizing done data laid with
  | nil =>
    obtain rfl := Option.some.inj h
    exact ⟨rfl, fun p => Or.inl rfl⟩
  | cons b todo ih =>
    have hb : ps[done.length]? = some b := by rw [← hps, getElem?_middle]
    simp only [stored, layRows, bind, Option.bind_eq_some_iff] at h
    obtain ⟨row, hrow, data', hcopy, rest, hrest, hlaid⟩ := h
    obtain rfl := Option.some.inj hlaid
    have hdone : (done ++ [b]).length = done.length + 1 := by simp
    rw [← offsetOf_succ hb, ← hdone] at hrest
    obtain ⟨hoffs, hdata⟩ := ih (done ++ [b]) (by simpa using hps) hrest
    refine ⟨?_, fun p => ?_⟩
    · rw [List.length_cons, ← offsets_cons, hoffs, hdone]
    · rcases hdata p with hp | hp
      · rcases getElem?_copyTo hrow hcopy p with hq | hq
        · exact Or.inl (hp.trans hq)
        · exact Or.inr (hp.trans hq)
      · exact Or.inr hp

lemma layRows_eq {ps todo : List Bytes} (done : List Bytes) (hps : done ++ todo = ps)
    (hfit : StartsFit (ps.map List.length)) (hlt : ∀ p ∈ ps, p.length < 2 ^ 32) (room : Bytes)
    (hroom : todo.flatten.length ≤ room.length) :
    ∃ offs, layRows ps.flatten (stored ps done.length todo) (offsetOf ps done.length)
      (done.flatten ++ room) = some (offs, ps.flatten ++ room.drop todo.flatten.length) := by
  induction todo generalizing done room with
  | nil =>
    rw [List.append_nil] at hps
    subst hps
    exact ⟨[], rfl⟩
  | cons b todo ih =>
    have hb : ps[done.length]? = some b := by rw [← hps, getElem?_middle]
    have hblt := hlt b (List.mem_of_getElem? hb)
    have hrow := hfit.slice_offsetOf hb
    have hdone : (done ++ [b]).length = done.length + 1 := by simp
    rw [List.flatten_cons, List.length_append] at hroom
    have htake : (ps.take done.length).flatten = done.flatten := by
      rw [← hps, List.take_left]
    have hcopy : copyTo (done.flatten ++ room) (offsetOf ps done.length).toNat b
        = some ((done ++ [b]).flatten ++ room.drop b.length) := by
      have hle : (offsetOf ps done.length).toNat ≤ done.flatten.length := by
        rw [← htake]
        exact toNat_ofNat_le _
      rw [copyTo, if_pos (by rw [List.length_append]; omega)]
      congr 1
      by_cases hnil : b = []
      · subst hnil
        have hgap : (offsetOf ps done.length).toNat - (done.flatten ++ room).length = 0 := by
          rw [List.length_append]
          omega
        rw [Slice.overwrite, hgap, List.replicate_zero, List.append_nil, List.append_nil,
          List.length_nil, Nat.add_zero, List.take_append_drop, List.drop_zero]
        simp
      · obtain ⟨hk, hget⟩ := List.getElem?_eq_some_iff.1 hb
        have hstart := hfit done.length (by simpa using hk) (by simpa [hget] using hnil)
        rw [← length_flatten_take, htake] at hstart
        rw [offsetOf, htake, UInt32.toNat_ofNat_of_lt' hstart]
        conv_lhs => rw [← List.take_append_drop b.length room]
        rw [Slice.overwrite_middle 0 _ (by rw [List.length_take]; omega)]
        simp
    obtain ⟨offs, hrest⟩ := ih (done ++ [b]) (by simpa using hps) (room.drop b.length)
      (by rw [List.length_drop]; omega)
    rw [hdone, offsetOf_succ hb, List.drop_drop] at hrest
    refine ⟨offsetOf ps done.length :: offs, ?_⟩
    simp only [stored, layRows, UInt32.toNat_ofNat_of_lt' hblt, hrow, hcopy, hrest, bind,
      Option.bind, List.flatten_cons, List.length_append]
    rfl

lemma fetchPayload_eq {offs lens : List UInt32} (hlen : offs.length = lens.length) (data : Bytes)
    {i : ℕ} {o n : UInt32} (ho : offs[i]? = some o) (hn : lens[i]? = some n) :
    fetchPayload (offs.flatMap (fun o => u32le o.toNat) ++ lens.flatMap (fun n => u32le n.toNat)
      ++ data) lens.length i = slice data o.toNat n.toNat := by
  have hi := (List.getElem?_eq_some_iff.1 hn).1
  set words := (offs ++ lens).map UInt32.toNat with hwords
  have hfront : offs.flatMap (fun o => u32le o.toNat) ++ lens.flatMap (fun n => u32le n.toNat)
      = words.flatMap u32le := by
    rw [hwords, List.flatMap_map, List.flatMap_append]
  have hcount : (words.flatMap u32le).length = 8 * lens.length := by
    rw [length_flatMap_u32le, hwords, List.length_map, List.length_append]
    omega
  have hoff : u32At (words.flatMap u32le ++ data) i = some o.toNat := by
    refine u32At_words ?_ (UInt32.toNat_lt _)
    rw [hwords, List.getElem?_map, List.getElem?_append_left (by omega), ho]
    rfl
  have hlength : u32At (words.flatMap u32le ++ data) (lens.length + i) = some n.toNat := by
    refine u32At_words ?_ (UInt32.toNat_lt _)
    rw [hwords, List.getElem?_map, List.getElem?_append_right (by omega)]
    simp [hlen, hn]
  rw [hfront, fetchPayload, if_neg (by omega)]
  simp only [hoff, hlength, bind, Option.bind]
  rw [slice, slice, ← hcount, List.length_append, ← List.drop_drop, List.drop_left]
  refine if_congr (by omega) rfl rfl

end PayloadStore

lemma StartsFit.init {ls : List ℕ} {n : ℕ} (h : StartsFit (ls ++ [n])) : StartsFit ls := by
  intro i hi hne
  have := h i (by simp; omega)
  rw [List.getElem_append_left hi, List.take_append_of_le_length hi.le] at this
  exact this hne

lemma StartsFit.sum_lt {ls : List ℕ} (h : StartsFit ls) (hls : ∀ n ∈ ls, n < 2 ^ 32) :
    ls.sum < 2 ^ 33 := by
  induction ls using List.reverseRecOn with
  | nil => simp
  | append_singleton ls n ih =>
    have hn := hls n (by simp)
    by_cases hzero : n = 0
    · have := ih h.init fun m hm => hls m (List.mem_append_left _ hm)
      simpa [hzero] using this
    · have := h ls.length (by simp) (by simpa using hzero)
      rw [List.take_left] at this
      rw [List.sum_append, List.sum_singleton]
      omega

namespace PayloadStore

lemma lens_fill (ps : List Bytes) : (fill ps).lens = ps.map fun b => UInt32.ofNat b.length := by
  rw [fill_eq]

lemma sum_lens_fill {ps : List Bytes} (hlt : ∀ p ∈ ps, p.length < 2 ^ 32) :
    ((fill ps).lens.map UInt32.toNat).sum = ps.flatten.length := by
  rw [lens_fill, List.map_map, List.length_flatten]
  refine congrArg _ (List.map_congr_left fun p hp => ?_)
  exact UInt32.toNat_ofNat_of_lt' (hlt p hp)

lemma getElem?_lens {ps : List Bytes} {i : ℕ} {b : Bytes} (hi : ps[i]? = some b) :
    (fill ps).lens[i]? = some (UInt32.ofNat b.length) := by
  rw [lens_fill, List.getElem?_map, hi]
  rfl

lemma layRows_fill (ps : List Bytes) (data : Bytes) :
    layRows (fill ps).store ((fill ps).lens.zip (fill ps).offs) 0 data
      = layRows ps.flatten (stored ps 0 ps) (offsetOf ps 0) data := by
  rw [stored_fill, fill_eq]
  rfl

lemma fetch_flush {ps : List Bytes} {laid : List UInt32 × Bytes} {data : Bytes}
    (hlaid : layRows ps.flatten (stored ps 0 ps) (offsetOf ps 0) data = some laid) {i : ℕ}
    {b : Bytes} (hi : ps[i]? = some b) (hb : b.length < 2 ^ 32) :
    fetchPayload (laid.1.flatMap (fun o => u32le o.toNat)
      ++ (fill ps).lens.flatMap (fun n => u32le n.toNat) ++ laid.2) ps.length i
      = slice laid.2 (offsetOf ps i).toNat b.length := by
  have hlt := (List.getElem?_eq_some_iff.1 hi).1
  obtain ⟨hoffs, -⟩ := layRows_spec [] (List.nil_append ps) hlaid
  have hcount : ps.length = (fill ps).lens.length := by rw [lens_fill, List.length_map]
  have ho : laid.1[i]? = some (offsetOf ps i) := by
    rw [hoffs, List.getElem?_map, List.getElem?_range hlt]
    simp
  rw [hcount, fetchPayload_eq (by rw [hoffs, ← hcount]; simp) _ ho (getElem?_lens hi),
    UInt32.toNat_ofNat_of_lt' hb]

lemma flush_eq {ps : List Bytes} (hlt : ∀ p ∈ ps, p.length < 2 ^ 32) (hcount : ps.length < 2 ^ 32)
    (hfit : StartsFit (ps.map List.length)) :
    ∃ laid tail, layRows ps.flatten (stored ps 0 ps) (offsetOf ps 0)
          (List.replicate ((fill ps).pages * kPageSize - (fill ps).lens.length * 8) 0) = some laid ∧
      laid.2 = ps.flatten ++ tail ∧
      (fill ps).flush = some (laid.1.flatMap (fun o => u32le o.toNat)
        ++ (fill ps).lens.flatMap (fun n => u32le n.toNat) ++ laid.2) := by
  have hsum := sum_lens_fill hlt
  have hlens : (fill ps).lens.length = ps.length := by rw [lens_fill, List.length_map]
  have htotal : ps.flatten.length < 2 ^ 33 := by
    rw [List.length_flatten]
    refine hfit.sum_lt fun n hn => ?_
    obtain ⟨p, hp, rfl⟩ := List.mem_map.1 hn
    exact hlt p hp
  have hpages : (fill ps).lens.length * 8 + ps.flatten.length ≤ (fill ps).pages * kPageSize := by
    unfold pages
    rw [hsum, hlens, pagesFor, kPageSize]
    omega
  obtain ⟨offs, hlaid⟩ := layRows_eq [] (List.nil_append ps) hfit hlt
    (List.replicate ((fill ps).pages * kPageSize - (fill ps).lens.length * 8) 0)
    (by rw [List.length_replicate]; omega)
  rw [List.flatten_nil, List.nil_append, List.length_nil] at hlaid
  refine ⟨_, _, hlaid, rfl, ?_⟩
  rw [flush, if_pos (by omega)]
  simp only [layRows_fill, hlaid, bind, Option.bind]
  rfl

end PayloadStore

/-- The read of row `i` of a leaf. -/
def leafRead (ps : List Bytes) (i : ℕ) : Option Bytes :=
  (PayloadStore.fill ps).flush.bind fun extent => fetchPayload extent ps.length i

open PayloadStore in
/-- The extent of a leaf gives every payload exactly when every row starts low enough. -/
theorem leafRead_iff {ls : List ℕ} (hls : ∀ n ∈ ls, n < 2 ^ 32) (hcount : ls.length < 2 ^ 32) :
    (∀ ps : List Bytes, ps.map List.length = ls → Returns (leafRead ps) ps) ↔ StartsFit ls := by
  constructor
  · intro h
    by_contra hfit
    obtain ⟨k, hk, hne, hstart⟩ := exists_late_of_not_startsFit hfit
    have hget := getElem?_marked hk
    have hread := h (marked ls k) (lengths_marked ls k) k _ hget
    rw [leafRead, flush] at hread
    split_ifs at hread with hroom
    · simp only [layRows_fill, bind, Option.bind_eq_some_iff] at hread
      obtain ⟨extent, ⟨laid, hlaid, hext⟩, hfetch⟩ := hread
      obtain rfl := Option.some.inj hext
      rw [fetch_flush hlaid hget (length_lt_of_lengths hls (lengths_marked ls k) hget)] at hfetch
      refine slice_ne_marked hne ?_ hfetch
      obtain ⟨-, hdata⟩ := layRows_spec [] (List.nil_append (marked ls k)) hlaid
      intro hone
      rcases hdata (offsetOf (marked ls k) k).toNat with hp | hp <;> rw [hone] at hp
      · -- a byte that no row wrote
        have := List.eq_of_mem_replicate (List.mem_of_getElem? hp.symm)
        exact absurd this (by decide)
      · rw [getElem?_offsetOf_marked hstart] at hp
        exact absurd hp (by decide)
    · exact absurd hread (by simp)
  · rintro h ps rfl i b hi
    have hlt : ∀ p ∈ ps, p.length < 2 ^ 32 := fun p hp => hls _ (List.mem_map_of_mem hp)
    obtain ⟨laid, tail, hlaid, hdata, hflush⟩ := flush_eq hlt (by simpa using hcount) h
    rw [leafRead, hflush, Option.bind_some, fetch_flush hlaid hi (length_lt_of_lengths hls rfl hi),
      hdata]
    have hslice := h.slice_offsetOf hi
    unfold slice at hslice ⊢
    split_ifs at hslice with hin
    rw [if_pos (by rw [List.length_append]; omega), List.drop_append_of_le_length (by omega),
      List.take_append_of_le_length (by rw [List.length_drop]; omega)]
    exact hslice

/-- Each row of a chunk, of a thread's buffer and of a leaf with payloads of these lengths is found
with its own bytes. -/
def PayloadsSurvive (ls : List ℕ) : Prop :=
  ∀ ps : List Bytes, ps.map List.length = ls →
    (∀ c, Chunked ps c → Returns c.copied ps) ∧ Returns (PayloadStore.fill ps).get ps ∧
      Returns (leafRead ps) ps

/-- **Payloads survive exactly when no row that has bytes starts at `2 ^ 32` or behind.** -/
theorem payloadsSurvive_iff {ls : List ℕ} (hls : ∀ n ∈ ls, n < 2 ^ 32)
    (hcount : ls.length < 2 ^ 32) : PayloadsSurvive ls ↔ StartsFit ls := by
  constructor
  · exact fun h => (get_fill_iff hls).1 fun ps hps => (h ps hps).2.1
  · intro h ps hps
    refine ⟨fun c hc i b hi => ?_, (get_fill_iff hls).2 h ps hps,
      (leafRead_iff hls hcount).2 h ps hps⟩
    rw [hc.carries.copied_eq hi (length_lt_of_lengths hls hps hi)]
    subst hps
    exact h.slice_offsetOf hi

lemma startsFit_three : StartsFit [3, 0, 4] := by
  intro i hi _
  refine lt_of_le_of_lt ?_ (by norm_num : 7 < 2 ^ 32)
  calc ([3, 0, 4].take i).sum ≤ [3, 0, 4].sum :=
        (List.take_sublist i _).sum_le_sum fun _ _ => Nat.zero_le _
    _ = 7 := rfl

theorem payloadsSurvive_three : (∀ n ∈ [3, 0, 4], n < 2 ^ 32) ∧ PayloadsSurvive [3, 0, 4] := by
  have hls : ∀ n ∈ [3, 0, 4], n < 2 ^ 32 := by simp
  exact ⟨hls, (payloadsSurvive_iff hls (by norm_num)).2 startsFit_three⟩

lemma not_startsFit_gigabytes : ¬ StartsFit (List.replicate 5 (2 ^ 30)) := by
  intro h
  have := h 4 (by simp) (by simp)
  simp at this

theorem gigabytes_are_lost :
    (∀ n ∈ List.replicate 5 (2 ^ 30), n < 2 ^ 32) ∧ ¬ PayloadsSurvive (List.replicate 5 (2 ^ 30)) ∧
      ¬ (∀ ps : List Bytes, ps.map List.length = List.replicate 5 (2 ^ 30) →
        ∀ c, Chunked ps c → Returns c.copied ps) := by
  have hls : ∀ n ∈ List.replicate 5 (2 ^ 30), n < 2 ^ 32 := by
    intro n hn
    rw [List.eq_of_mem_replicate hn]
    norm_num
  refine ⟨hls, fun h => ?_, fun h => not_startsFit_gigabytes ((copied_iff hls (by decide)).1 h)⟩
  exact not_startsFit_gigabytes ((get_fill_iff hls).1 fun ps hps => (h ps hps).2.1)

end SextantTree.PushStage
