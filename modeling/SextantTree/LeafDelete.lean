import SextantTree.ColumnPick
import SextantTree.Fsck
import SextantTree.LeafGeometry

/-!
The rewrite of a leaf by `delete_batch` for global product quantization: the slots that stay, a new
buffer with the header and the summary, then codes, row ids and filter columns, each by code of its
own.
-/

namespace SextantTree.LeafDelete

open ByteMem LeafCodes ColumnBytes

/-! ### The rewrite -/

/-- The slots that are not deleted, in order. -/
def survivors (count : ℕ) (slots : List ℕ) : List ℕ := (List.range count).filter (· ∉ slots)

/-- `GlobalPqCoder::geometry` of a leaf header. -/
def headerGeometry (b : Mem) : LeafGeometry :=
  (Family.globalPq (word b 2 24) (word b 1 26)).geometry (word b 4 48) (word b 8 8)

/-- The bytes from `base` on handed to a function that writes them. -/
def through (m : Mem) (base : ℕ) (f : Mem → Mem) : Mem := fun i =>
  if base ≤ i then f (fun j => m (base + j)) (i - base) else m i

/-- The bytes from `base` on. -/
def shifted (m : Mem) (base : ℕ) : Mem := fun i => m (base + i)

def copyRowIds (old : Mem) (oldOff newOff : ℕ) (keep : List ℕ) (m : Mem) : Mem :=
  (List.range keep.length).foldl (fun m i =>
    poke m (newOff + i * 8) (peek old (oldOff + keep.getD i 0 * 8) 8)) m

/-- The filter columns: read, selected, written. -/
def rewriteColumns (old : Mem) (oldOff newOff count : ℕ) (s : Schema) (keep : List ℕ) (m : Mem) :
    Option Mem := do
  let cols := (readFilterColumns (shifted old oldOff) count s).1
  let new ← selectFilterRows cols s keep
  some (through m newOff fun m => (writeFilterColumns m keep.length s new).1)

def finishHeader (pages : ℕ) (m : Mem) : Mem :=
  let m := poke m 40 (leBytes 8 pages)
  let m := poke m 76 [1]
  poke m 104 (leBytes 4 (Fsck.computeCrc32 (peek m 0 104)).toNat)

/-- A cleared buffer with header and summary, and the new number of rows. Behind it is `rest`. -/
def newBuffer (old : Mem) (summarySize newCount pages : ℕ) (rest : Mem) : Mem :=
  let m := poke (memzero rest 0 (pages * 4096)) 0 (peek old 0 (112 + summarySize))
  poke m 8 (leBytes 8 newCount)

/-- The rewrite of a leaf without the rows in `slots`: the new buffer and its pages. A read
outside a column has no result. -/
def deleteRewrite (m4 bits summarySize : ℕ) (s : Schema) (buf : Mem) (slots : List ℕ) (rest : Mem) :
    Option (Mem × ℕ) :=
  let count := word buf 8 8 % 2 ^ 32
  let keep := survivors count slots
  if keep.length = count then some (buf, word buf 8 40)
  else do
    let oldGeo := headerGeometry buf
    let oldFilterBytes := if word buf 8 56 ≠ 0 then
        word buf 8 40 * 4096 - leafExtentBytes count m4 bits summarySize 0
      else 0
    let pages := (leafExtentBytes keep.length m4 bits summarySize oldFilterBytes + 4096 - 1) / 4096 %
      2 ^ 32
    let m := globalCompact (word buf 2 24) (word buf 1 26) (word buf 4 48) buf keep
      (newBuffer buf summarySize keep.length pages rest)
    let newGeo := headerGeometry m
    let m := copyRowIds buf oldGeo.rowidsOffset newGeo.rowidsOffset keep m
    let m ← if 0 < oldFilterBytes then
        rewriteColumns buf oldGeo.filterOffset newGeo.filterOffset count s keep m
      else some m
    some (finishHeader pages m, pages)

/-! ### Leaves -/

/-- A leaf of a global-PQ index: what its header says, the codes of its rows with clear lanes behind
them, and its filter columns as they were written, all in its pages. -/
structure GlobalLeaf where
  m4 : ℕ
  bits : ℕ
  summarySize : ℕ
  schema : Schema
  buf : Mem
  count : ℕ
  pages : ℕ
  code : ℕ → ℕ → UInt8
  cols : List ColumnData
  /-- What was in the filter region before. -/
  before : Mem
  bitsOk : BitsOk bits
  count_lt : count < 2 ^ 32
  pages_lt : pages < 2 ^ 32
  header_m4 : word buf 2 24 = m4
  header_bits : word buf 1 26 = bits
  header_summarySize : word buf 4 48 = summarySize
  header_count : word buf 8 8 = count
  header_pages : word buf 8 40 = pages
  header_filter : schema.columns ≠ [] → word buf 8 56 ≠ 0
  codes : HoldsCodes bits m4 (leafCodesOffset summarySize) buf count code
  wellFormed : List.Forall₂ (fun col d => d.WellFormed col count) schema.columns cols
  filter : ∀ i < (writeFilterColumns before count schema cols).2,
    buf (((Family.globalPq m4 bits).geometry summarySize count).filterOffset + i) =
      (writeFilterColumns before count schema cols).1 i
  inside : ((Family.globalPq m4 bits).geometry summarySize count).filterOffset +
    ColumnBytes.filterColumnsBytes count schema cols ≤ pages * 4096

namespace GlobalLeaf

variable (L : GlobalLeaf)

def family : Family := .globalPq L.m4 L.bits

def geometry (n : ℕ) : LeafGeometry := L.family.geometry L.summarySize n

/-- The leaf `m` of `pages` pages has exactly the rows `keep` of `L` in this order, each with its code,
row id and cells, and clear lanes behind them; all regions are inside its pages and what is behind
these stays. -/
structure Compacted (keep : List ℕ) (rest m : Mem) (pages : ℕ) : Prop where
  header_count : word m 8 8 = keep.length
  header_pages : word m 8 40 = pages
  crc : word m 4 104 = (Fsck.computeCrc32 (peek m 0 104)).toNat
  codes : HoldsCodes L.bits L.m4 (leafCodesOffset L.summarySize) m keep.length
    fun i => L.code (keep.getD i 0)
  rowIds : ∀ i j, keep[i]? = some j → peek m ((L.geometry keep.length).rowidsOffset + i * 8) 8 =
    peek L.buf ((L.geometry L.count).rowidsOffset + j * 8) 8
  cells : ∀ (c : ℕ) col d, L.schema.columns[c]? = some col → L.cols[c]? = some d →
    ∀ i j, keep[i]? = some j → ∃ d' v,
      (readFilterColumns (shifted m (L.geometry keep.length).filterOffset) keep.length
        L.schema).1[c]? = some d' ∧
      (parseFilterColumns (shifted m (L.geometry keep.length).filterOffset) keep.length
        L.schema).1[c]? = some v ∧
      d'.cell col i = d.cell col j ∧
      SameRow (shifted m (L.geometry keep.length).filterOffset) col d' d' v i
  inside : ∀ r ∈ L.family.regions L.summarySize keep.length
    (readFilterColumns (shifted m (L.geometry keep.length).filterOffset) keep.length L.schema).2,
    r.1 + r.2 ≤ pages * 4096
  frame : ∀ p, pages * 4096 ≤ p → m p = rest p

/-- Deleting the rows in `slots` leaves exactly the others. -/
def Exact (slots : List ℕ) : Prop :=
  ∀ rest : Mem, ∃ m pages,
    deleteRewrite L.m4 L.bits L.summarySize L.schema L.buf slots rest = some (m, pages) ∧
      L.Compacted (survivors L.count slots) rest m pages

end GlobalLeaf

/-! ### Steps -/

lemma survivors_sublist (count : ℕ) (slots : List ℕ) :
    (survivors count slots).Sublist (List.range count) := List.filter_sublist

lemma survivors_length_lt {count : ℕ} {slots : List ℕ} (h : ∃ i ∈ slots, i < count) :
    (survivors count slots).length < count := by
  obtain ⟨i, hi, hlt⟩ := h
  have hle := (survivors_sublist count slots).length_le
  rw [List.length_range] at hle
  refine lt_of_le_of_ne hle fun heq => ?_
  have hall := (survivors_sublist count slots).eq_of_length (by rw [List.length_range]; exact heq)
  have hmem : i ∈ survivors count slots := by
    rw [hall]
    exact List.mem_range.mpr hlt
  simp [survivors, hi] at hmem

section Steps

variable {m m' old rest : Mem} {keep : List ℕ} {w off : ℕ}

lemma copyRowIds_spec (old : Mem) (oldOff newOff : ℕ) (keep : List ℕ) (m : Mem) :
    (∀ i j, keep[i]? = some j → peek (copyRowIds old oldOff newOff keep m) (newOff + i * 8) 8 =
      peek old (oldOff + j * 8) 8) ∧
    ∀ p, p < newOff ∨ newOff + keep.length * 8 ≤ p →
      copyRowIds old oldOff newOff keep m p = m p := by
  obtain ⟨hin, hout⟩ := foldl_local (n := keep.length)
    (f := fun m i => poke m (newOff + i * 8) (peek old (oldOff + keep.getD i 0 * 8) 8))
    (R := fun i p => newOff + i * 8 ≤ p ∧ p < newOff + i * 8 + 8)
    (fun s _ t _ p hs ht => by omega)
    (fun m t p _ hp => by rw [poke_peek_apply, if_neg hp])
    (fun m m' t _ heq p hp => by rw [poke_peek_apply, poke_peek_apply, if_pos hp, if_pos hp]) m
  refine ⟨fun i j hj => ?_, fun p hp => hout p fun t ht hr => by omega⟩
  obtain ⟨hi, -⟩ := List.getElem?_eq_some_iff.mp hj
  refine List.map_congr_left fun k hk => ?_
  have hk := List.mem_range.mp hk
  refine (hin i hi _ ⟨by omega, by omega⟩).trans ?_
  rw [poke_peek_apply, if_pos ⟨by omega, by omega⟩, List.getD_eq_getElem?_getD, hj]
  exact congrArg old (by simp only [Option.getD_some]; omega)

lemma shifted_through (m : Mem) (base : ℕ) (f : Mem → Mem) :
    shifted (through m base f) base = f (shifted m base) := by
  funext i
  simp only [shifted, through, if_pos (Nat.le_add_right _ _), Nat.add_sub_cancel_left]
  rfl

lemma through_of_lt {base p : ℕ} (f : Mem → Mem) (h : p < base) : through m base f p = m p :=
  if_neg (by omega)

lemma finishHeader_spec {pages : ℕ} (hpages : pages < 2 ^ 32) (m : Mem) :
    word (finishHeader pages m) 8 40 = pages ∧ word (finishHeader pages m) 8 8 = word m 8 8 ∧
      word (finishHeader pages m) 4 104 =
        (Fsck.computeCrc32 (peek (finishHeader pages m) 0 104)).toNat ∧
      ∀ p, 112 ≤ p → finishHeader pages m p = m p := by
  have hlen := length_leBytes 8 pages
  refine ⟨?_, ?_, ?_, fun p hp => ?_⟩
  · simp only [finishHeader]
    rw [word_poke (.inl (by omega)), word_poke (.inl (by omega)), word_poke_self (by omega)]
  · simp only [finishHeader]
    rw [word_poke (.inl (by omega)), word_poke (.inl (by omega)), word_poke (.inl (by omega))]
  · simp only [finishHeader]
    rw [word_poke_self (UInt32.toNat_lt _)]
    refine congrArg (fun b => (Fsck.computeCrc32 b).toNat) (List.map_congr_left fun i hi => ?_)
    have := List.mem_range.mp hi
    exact (poke_apply_of_lt (by omega)).symm
  · simp only [finishHeader]
    rw [poke_apply_of_le (by rw [length_leBytes]; omega),
      poke_apply_of_le (by rw [List.length_singleton]; omega),
      poke_apply_of_le (by rw [hlen]; omega)]

lemma newBuffer_spec (old rest : Mem) (ss : ℕ) {k pages : ℕ} (hk : k < 2 ^ 32)
    (hpages : 112 + ss ≤ pages * 4096) :
    word (newBuffer old ss k pages rest) 8 8 = k ∧
      (∀ w off, 16 ≤ off → off + w ≤ 112 →
        word (newBuffer old ss k pages rest) w off = word old w off) ∧
      (∀ p, 112 + ss ≤ p → p < pages * 4096 → newBuffer old ss k pages rest p = 0) ∧
      ∀ p, pages * 4096 ≤ p → newBuffer old ss k pages rest p = rest p := by
  have hlen := length_leBytes 8 k
  have hfar : ∀ p, 16 ≤ p → newBuffer old ss k pages rest p =
      if p < 112 + ss then old p else memzero rest 0 (pages * 4096) p := by
    intro p hp
    simp only [newBuffer]
    rw [poke_apply_of_le (by rw [hlen]; omega), poke_peek_apply]
    simp
  refine ⟨word_poke_self (by omega), fun w off hlo hhi => word_congr fun i h₁ h₂ => ?_,
    fun p h₁ h₂ => ?_, fun p hp => ?_⟩
  · rw [hfar i (by omega), if_pos (by omega)]
  · rw [hfar p (by omega), if_neg (by omega)]
    exact if_pos (by omega)
  · rw [hfar p (by omega), if_neg (by omega)]
    exact if_neg (by omega)

lemma clearTo_of_zero {bits m4 base nb : ℕ}
    (h : ∀ p, base ≤ p → p < base + nb * (m4 * 16) → m p = 0) : ClearTo bits m4 base m nb := by
  intro i hi s hs
  have hbyte := byteOf_laneAddr bits base i hs
  have hend := Nat.mul_le_mul_right (m4 * 16) (show i / codesPerBlock bits + 1 ≤ nb from hi)
  rw [Nat.add_mul, Nat.one_mul] at hend
  exact (PackedCells.cell_congr (h _ (by omega) (by omega))).trans (PackedCells.cell_zero _ _)

end Steps

/-! ### Sizes -/

lemma add_le_columnBytes (n : ℕ) (col : FilterColumn) (d : ColumnData) (p : ℕ) :
    p + n ≤ columnBytes n col d p := by
  have hdata : p + n ≤ dataEnd n col d p := by
    have h₁ := le_align4 (p + n * (4 + 2))
    have h₂ := le_align4 (p + n * 1)
    unfold dataEnd
    cases col.type <;> simp only [ColumnType.width] <;> omega
  rw [columnBytes_eq]
  refine le_trans ?_ (le_align4 _)
  split <;> omega

lemma filterColumnsBytes_pos {n : ℕ} {s : Schema} {cols : List ColumnData} (hn : 0 < n)
    (hlen : s.columns.length = cols.length) (hne : s.columns ≠ []) :
    0 < ColumnBytes.filterColumnsBytes n s cols := by
  have hmono : ∀ (xs : List (FilterColumn × ColumnData)) (p : ℕ),
      p ≤ xs.foldl (fun total x => columnBytes n x.1 x.2 total) p := by
    intro xs
    induction xs with
    | nil => exact fun _ => le_rfl
    | cons x xs ih => exact fun p => (Nat.le_of_add_right_le (add_le_columnBytes n x.1 x.2 p)).trans (ih _)
  rw [filterColumnsBytes_eq]
  obtain ⟨col, as, has⟩ := List.exists_cons_of_ne_nil hne
  obtain ⟨d, bs, hbs⟩ : ∃ d bs, cols = d :: bs :=
    List.exists_cons_of_length_pos (by rw [← hlen, has]; simp)
  rw [has, hbs, List.zip_cons_cons, List.foldl_cons]
  have hfirst := add_le_columnBytes n col d 0
  calc 0 < 0 + n := by omega
    _ ≤ columnBytes n col d 0 := hfirst
    _ ≤ _ := hmono _ _

namespace GlobalLeaf

variable (L : GlobalLeaf) {k : ℕ}

lemma filterOffset_mono (hk : k ≤ L.count) :
    (L.geometry k).filterOffset ≤ (L.geometry L.count).filterOffset := by
  simp only [geometry, family, Family.geometry, leafRowidsOffset]
  have hblocks := Nat.mul_le_mul_right (L.m4 * 16) (Nat.div_le_div_right (c := codesPerBlock L.bits)
    (show k + codesPerBlock L.bits - 1 ≤ L.count + codesPerBlock L.bits - 1 by omega))
  omega

lemma leafExtentBytes_eq (hk : k < 2 ^ 32) (fcb : ℕ) :
    leafExtentBytes k L.m4 L.bits L.summarySize fcb = (L.geometry k).filterOffset + fcb :=
  (filterOffset_add L.family L.summarySize k fcb hk).symm

/-- `old_filter_bytes`. -/
def oldFilterBytes : ℕ :=
  if word L.buf 8 56 ≠ 0 then L.pages * 4096 - (L.geometry L.count).filterOffset else 0

/-- The pages of the leaf with `k` rows. -/
def newPages (k : ℕ) : ℕ := ((L.geometry k).filterOffset + L.oldFilterBytes + 4096 - 1) / 4096

lemma newPages_spec (hk : k ≤ L.count) :
    L.newPages k < 2 ^ 32 ∧
      (L.geometry k).filterOffset + L.oldFilterBytes ≤ L.newPages k * 4096 := by
  have hmono := L.filterOffset_mono hk
  have hin := L.inside
  have hpages := L.pages_lt
  change (L.geometry L.count).filterOffset + _ ≤ _ at hin
  simp only [newPages, oldFilterBytes]
  split <;> omega

lemma filterColumnsBytes_le :
    ColumnBytes.filterColumnsBytes L.count L.schema L.cols ≤ L.oldFilterBytes := by
  have hin := L.inside
  change (L.geometry L.count).filterOffset + _ ≤ _ at hin
  by_cases hne : L.schema.columns = []
  · have hzero : ColumnBytes.filterColumnsBytes L.count L.schema L.cols = 0 := by
      simp [ColumnBytes.filterColumnsBytes, hne]
    omega
  · rw [oldFilterBytes, if_pos (L.header_filter hne)]
    omega

/-! ### The buffer, region by region -/

def codesBuffer (keep : List ℕ) (rest : Mem) : Mem :=
  globalCompact L.m4 L.bits L.summarySize L.buf keep
    (newBuffer L.buf L.summarySize keep.length (L.newPages keep.length) rest)

def rowsBuffer (keep : List ℕ) (rest : Mem) : Mem :=
  copyRowIds L.buf (L.geometry L.count).rowidsOffset (L.geometry keep.length).rowidsOffset keep
    (L.codesBuffer keep rest)

def columnsBuffer (keep : List ℕ) (rest : Mem) : Mem :=
  through (L.rowsBuffer keep rest) (L.geometry keep.length).filterOffset fun m =>
    (writeFilterColumns m keep.length L.schema (pickedColumns L.count L.schema L.cols keep)).1

lemma offsets_le (hk : k ≤ L.count) :
    112 + L.summarySize ≤ leafCodesOffset L.summarySize ∧
      (L.geometry k).rowidsOffset = leafCodesOffset L.summarySize +
        (k + codesPerBlock L.bits - 1) / codesPerBlock L.bits * (L.m4 * 16) ∧
      (L.geometry k).filterOffset = (L.geometry k).rowidsOffset + k * 8 ∧
      (L.geometry k).filterOffset ≤ L.newPages k * 4096 :=
  ⟨summary_le_codes _, rfl, rfl, by have := (L.newPages_spec hk).2; omega⟩

section Buffer

variable {keep : List ℕ} (rest : Mem) (hsub : keep.Sublist (List.range L.count))
include hsub

lemma keep_length_le : keep.length ≤ L.count := by simpa using hsub.length_le

lemma codesBuffer_spec :
    HoldsCodes L.bits L.m4 (leafCodesOffset L.summarySize) (L.codesBuffer keep rest) keep.length
      (fun i => L.code (keep.getD i 0)) ∧
    Untouched (leafCodesOffset L.summarySize) (L.geometry keep.length).rowidsOffset
      (newBuffer L.buf L.summarySize keep.length (L.newPages keep.length) rest)
      (L.codesBuffer keep rest) := by
  have hk := L.keep_length_le hsub
  have hlt := L.count_lt
  obtain ⟨h₁, h₂, h₃, h₄⟩ := L.offsets_le hk
  obtain ⟨-, -, hzero, -⟩ := newBuffer_spec L.buf rest L.summarySize
    (show keep.length < 2 ^ 32 by omega) (show _ ≤ L.newPages keep.length * 4096 by omega)
  obtain ⟨hcodes, hframe⟩ := compactCodes_spec L.buf
    (newBuffer L.buf L.summarySize keep.length (L.newPages keep.length) rest) L.bits L.m4
    (leafCodesOffset L.summarySize) keep
    (clearTo_of_zero fun p hp hp' => hzero p (by omega) (by omega))
  refine ⟨hcodes.congr fun i hi s hs => ?_, hframe⟩
  have hmem : keep.getD i 0 < L.count := by
    rw [List.getD_eq_getElem?_getD, List.getElem?_eq_getElem hi]
    exact List.mem_range.mp (hsub.subset (List.getElem_mem hi))
  rw [movedSegment_eq L.bitsOk]
  exact L.codes.rows _ hmem s hs

lemma codesBuffer_header :
    word (L.codesBuffer keep rest) 8 8 = keep.length ∧
      headerGeometry (L.codesBuffer keep rest) = L.geometry keep.length := by
  have hk := L.keep_length_le hsub
  have hlt := L.count_lt
  obtain ⟨h₁, h₂, h₃, h₄⟩ := L.offsets_le hk
  obtain ⟨hcount, hwords, -, -⟩ := newBuffer_spec L.buf rest L.summarySize
    (show keep.length < 2 ^ 32 by omega) (show _ ≤ L.newPages keep.length * 4096 by omega)
  obtain ⟨-, hframe⟩ := L.codesBuffer_spec rest hsub
  have hword : ∀ w off, off + w ≤ 112 → word (L.codesBuffer keep rest) w off =
      word (newBuffer L.buf L.summarySize keep.length (L.newPages keep.length) rest) w off :=
    fun w off h => word_congr fun i _ hi => hframe i (.inl (by omega))
  have hc := (hword 8 8 (by omega)).trans hcount
  refine ⟨hc, ?_⟩
  rw [headerGeometry, hc, hword 2 24 (by omega), hword 1 26 (by omega), hword 4 48 (by omega),
    hwords 2 24 (by omega) (by omega), hwords 1 26 (by omega) (by omega),
    hwords 4 48 (by omega) (by omega), L.header_m4, L.header_bits, L.header_summarySize]
  rfl

end Buffer

lemma deleteRewrite_eq_bind {slots : List ℕ} (hhit : ∃ i ∈ slots, i < L.count) (rest : Mem) :
    deleteRewrite L.m4 L.bits L.summarySize L.schema L.buf slots rest =
      (if 0 < L.oldFilterBytes then
        rewriteColumns L.buf (L.geometry L.count).filterOffset
          (L.geometry (survivors L.count slots).length).filterOffset L.count L.schema
          (survivors L.count slots) (L.rowsBuffer (survivors L.count slots) rest)
      else some (L.rowsBuffer (survivors L.count slots) rest)).bind fun m =>
        some (finishHeader (L.newPages (survivors L.count slots).length) m,
          L.newPages (survivors L.count slots).length) := by
  have hsub := survivors_sublist L.count slots
  have hlt := survivors_length_lt hhit
  have hcount := L.count_lt
  have hold : headerGeometry L.buf = L.geometry L.count := by
    rw [headerGeometry, L.header_m4, L.header_bits, L.header_summarySize, L.header_count]
    rfl
  have hfilter : (if word L.buf 8 56 ≠ 0 then word L.buf 8 40 * 4096 -
      leafExtentBytes L.count L.m4 L.bits L.summarySize 0 else 0) = L.oldFilterBytes := by
    rw [L.header_pages, L.leafExtentBytes_eq hcount, Nat.add_zero]
    rfl
  set keep := survivors L.count slots with hkeep
  have hpages : (leafExtentBytes keep.length L.m4 L.bits L.summarySize L.oldFilterBytes + 4096 - 1) /
      4096 % 2 ^ 32 = L.newPages keep.length := by
    rw [L.leafExtentBytes_eq (by omega)]
    exact Nat.mod_eq_of_lt (L.newPages_spec hlt.le).1
  have hbuf := (L.codesBuffer_header rest hsub).2
  rw [codesBuffer] at hbuf
  unfold deleteRewrite
  simp only [L.header_count, Nat.mod_eq_of_lt hcount, ← hkeep, if_neg hlt.ne, hold, hfilter, hpages,
    L.header_m4, L.header_bits, L.header_summarySize, hbuf]
  split <;> rfl

/-! ### Exactly the surviving rows -/

/-- Every column fits what reading and selecting count in 32 bits. -/
def Compactable : Prop := ∀ x ∈ L.schema.columns.zip L.cols, x.2.Compactable x.1 L.count

section Exact

variable {L} (hc : L.Compactable)
include hc

lemma readFilterColumns_eq :
    (readFilterColumns (shifted L.buf (L.geometry L.count).filterOffset) L.count L.schema).1 =
      (L.schema.columns.zip L.cols).map fun x => x.2.readBack x.1 L.count := by
  have hlen := L.wellFormed.length_eq
  have hcols : (L.schema.columns.zip L.cols).map Prod.fst = L.schema.columns :=
    List.map_fst_zip hlen.le
  have hwf : ∀ x ∈ L.schema.columns.zip L.cols, x.2.WellFormed x.1 L.count := fun x hx =>
    (List.forall₂_iff_zip.mp L.wellFormed).2 hx
  obtain ⟨-, -, -, hread⟩ := allWritten (m := L.before) (p := 0) hwf fun x hx =>
    (hc x hx).toAddressable
  have hall := hread (shifted L.buf (L.geometry L.count).filterOffset) fun i _ hi => by
    rw [← writeFilterColumns_eq] at hi ⊢
    exact L.filter i hi
  have hdata := hall.data
  rwa [hcols] at hdata

lemma deleteRewrite_eq {slots : List ℕ} (hhit : ∃ i ∈ slots, i < L.count) (rest : Mem) :
    deleteRewrite L.m4 L.bits L.summarySize L.schema L.buf slots rest =
      some (finishHeader (L.newPages (survivors L.count slots).length)
        (L.columnsBuffer (survivors L.count slots) rest),
        L.newPages (survivors L.count slots).length) := by
  have hsub := survivors_sublist L.count slots
  have hlt := survivors_length_lt hhit
  rw [L.deleteRewrite_eq_bind hhit]
  by_cases hpos : 0 < L.oldFilterBytes
  · rw [if_pos hpos, rewriteColumns, readFilterColumns_eq hc,
      selectFilterRows_readBack L.wellFormed hc (mem_of_sublist hsub)]
    rfl
  · -- Without a filter region there are no columns.
    have hnil : L.schema.columns = [] := by
      by_contra hne
      have hcount : 0 < L.count := by omega
      have := filterColumnsBytes_pos hcount L.wellFormed.length_eq hne
      have := L.filterColumnsBytes_le
      omega
    have hsame : L.columnsBuffer (survivors L.count slots) rest =
        L.rowsBuffer (survivors L.count slots) rest := by
      funext p
      simp only [columnsBuffer, through, writeFilterColumns, hnil, List.isEmpty_nil, Bool.true_or,
        if_true]
      split
      · exact congrArg _ (by omega)
      · rfl
    rw [if_neg hpos, hsame]
    rfl

/-- **Rows of columns that fit are compacted exactly.** -/
lemma exact_of_compactable {slots : List ℕ} (hhit : ∃ i ∈ slots, i < L.count) : L.Exact slots := by
  intro rest
  refine ⟨_, _, deleteRewrite_eq hc hhit rest, ?_⟩
  have hsub := survivors_sublist L.count slots
  have hk := (survivors_length_lt hhit).le
  have hlt := L.count_lt
  set keep := survivors L.count slots
  obtain ⟨h₁, h₂, h₃, h₄⟩ := L.offsets_le hk
  obtain ⟨hpages, hend⟩ := L.newPages_spec hk
  obtain ⟨hfpages, hfcount, hcrc, hfframe⟩ :=
    finishHeader_spec hpages (L.columnsBuffer keep rest)
  obtain ⟨hcodes, hcframe⟩ := L.codesBuffer_spec rest hsub
  obtain ⟨hrows, hrframe⟩ := copyRowIds_spec L.buf (L.geometry L.count).rowidsOffset
    (L.geometry keep.length).rowidsOffset keep (L.codesBuffer keep rest)
  have hrt := roundTrips_of_addressable
    (m := shifted (L.rowsBuffer keep rest) (L.geometry keep.length).filterOffset)
    (pickedColumns_wellFormed L.wellFormed hc hsub) (pickedColumns_addressable L.wellFormed hc hsub)
  have hbytes := (pickedColumns_bytes L.wellFormed hc hsub).trans L.filterColumnsBytes_le
  -- Before the filter columns the buffer is as the row-id loop left it.
  have hlow : ∀ p, p < (L.geometry keep.length).filterOffset →
      L.columnsBuffer keep rest p = L.rowsBuffer keep rest p := fun p hp => through_of_lt _ hp
  have hregion : shifted (finishHeader (L.newPages keep.length) (L.columnsBuffer keep rest))
      (L.geometry keep.length).filterOffset =
      (writeFilterColumns (shifted (L.rowsBuffer keep rest) (L.geometry keep.length).filterOffset)
        keep.length L.schema (pickedColumns L.count L.schema L.cols keep)).1 := by
    have hbehind : shifted (finishHeader (L.newPages keep.length) (L.columnsBuffer keep rest))
        (L.geometry keep.length).filterOffset =
        shifted (L.columnsBuffer keep rest) (L.geometry keep.length).filterOffset :=
      funext fun i => hfframe _ (by omega)
    exact hbehind.trans (shifted_through _ _ _)
  have hread := hrt.read
  rw [hrt.size] at hread
  refine ⟨?_, hfpages, hcrc, ?_, fun i j hj => ?_, ?_, ?_, fun p hp => ?_⟩
  · rw [hfcount, ← (L.codesBuffer_header rest hsub).1]
    refine word_congr fun p _ hp => ?_
    rw [hlow p (by omega)]
    exact hrframe p (.inl (by omega))
  · refine hcodes.of_agree fun p hp hp' => ?_
    rw [hfframe p (by omega), hlow p (by omega)]
    exact hrframe p (.inl (by omega))
  · rw [← hrows i j hj]
    obtain ⟨hi, -⟩ := List.getElem?_eq_some_iff.mp hj
    refine List.map_congr_left fun b hb => ?_
    have hb := List.mem_range.mp hb
    rw [hfframe _ (by omega), hlow _ (by omega)]
    rfl
  · intro c col d hcol hd i j hj
    have hx : (L.schema.columns.zip L.cols)[c]? = some (col, d) := by
      rw [List.getElem?_zip_eq_some]
      exact ⟨hcol, hd⟩
    have hpick : (pickedColumns L.count L.schema L.cols keep)[c]? =
        some (d.picked col L.count keep) := by
      rw [pickedColumns, List.getElem?_map, hx]
      rfl
    obtain ⟨hi, -⟩ := List.getElem?_eq_some_iff.mp hj
    obtain ⟨d', v, hd', hv, hrow⟩ := hrt.rows c col _ hcol hpick i hi
    have hmem := List.mem_of_getElem? hx
    rw [hregion]
    refine ⟨d', v, hd', hv, hrow.cell.trans ?_, ⟨rfl, hrow.value, hrow.hashes, hrow.isNull⟩⟩
    exact picked_cell ((List.forall₂_iff_zip.mp L.wellFormed).2 hmem) (hc _ hmem) hsub hj
  · rw [hregion, hread]
    intro r hr
    have hin := regions_inside L.family L.summarySize keep.length _ (by omega) r hr
    rw [← filterOffset_add L.family L.summarySize keep.length _ (by omega)] at hin
    change _ ≤ (L.geometry keep.length).filterOffset + _ at hin
    omega
  · have hge : (L.geometry keep.length).filterOffset ≤ p := by omega
    have hout := hrt.inside (p - (L.geometry keep.length).filterOffset)
      (by rw [hrt.size]; omega)
    obtain ⟨-, -, -, hfar⟩ := newBuffer_spec L.buf rest L.summarySize
      (show keep.length < 2 ^ 32 by omega) (show _ ≤ L.newPages keep.length * 4096 by omega)
    rw [hfframe p (by omega), ← hfar p hp, ← hcframe p (.inr (by omega)),
      ← hrframe p (.inr (by omega))]
    calc L.columnsBuffer keep rest p = _ := if_pos hge
      _ = _ := hout
      _ = L.rowsBuffer keep rest p := congrArg (L.rowsBuffer keep rest) (by omega)

end Exact

variable {L}

lemma not_exact_of_long {xs ys : List (FilterColumn × ColumnData)} {col : FilterColumn}
    {d : ColumnData} (hsplit : L.schema.columns.zip L.cols = xs ++ (col, d) :: ys)
    (hxs : ∀ x ∈ xs, x.2.Addressable x.1 L.count)
    (hys : ∀ y ∈ ys, y.1.type = .set → y.2.Addressable y.1 L.count) (hcol : col.type = .string)
    (hlong : 2 ^ 32 ≤ total d.strLen L.count) : 0 < L.count ∧ ¬ L.Exact [0] := by
  obtain ⟨i, hi, hlt, hcross⟩ := exists_crossing hlong
  have hne : i ≠ 0 := by
    rintro rfl
    have := strLen_lt d 0
    rw [total_zero] at hcross
    omega
  have hpos : 0 < L.count := by omega
  refine ⟨hpos, fun hex => ?_⟩
  obtain ⟨m, pages, heq, -⟩ := hex fun _ => 0
  have hcolumns : L.schema.columns ≠ [] := by
    rintro hnil
    rw [hnil, List.zip_nil_left] at hsplit
    simp at hsplit
  have hbytes := (filterColumnsBytes_pos hpos L.wellFormed.length_eq hcolumns).trans_le
    L.filterColumnsBytes_le
  have hkeep : i ∈ survivors L.count [0] := by simp [survivors, hi, hne]
  have hnone := selectFilterRows_long L.wellFormed hsplit hxs hys hcol
    (show ∀ i < _, shifted L.buf (L.geometry L.count).filterOffset i = _ from L.filter) hi hlt hcross
    hkeep
  rw [L.deleteRewrite_eq_bind ⟨0, by simp, hpos⟩, if_pos hbytes, rewriteColumns, hnone] at heq
  cases heq

lemma exists_first {α : Type*} {P : α → Prop} {l : List α} (h : ¬ ∀ x ∈ l, P x) :
    ∃ xs y ys, l = xs ++ y :: ys ∧ (∀ x ∈ xs, P x) ∧ ¬ P y := by
  induction l with
  | nil => exact absurd (fun x hx => absurd hx List.not_mem_nil) h
  | cons a l ih =>
    by_cases ha : P a
    · have hl : ¬ ∀ x ∈ l, P x := fun hall => h fun x hx => by
        rcases List.mem_cons.mp hx with rfl | hx
        · exact ha
        · exact hall x hx
      obtain ⟨xs, y, ys, rfl, hxs, hy⟩ := ih hl
      refine ⟨a :: xs, y, ys, rfl, fun x hx => ?_, hy⟩
      rcases List.mem_cons.mp hx with rfl | hx
      · exact ha
      · exact hxs x hx
    · exact ⟨[], a, l, rfl, fun x hx => absurd hx List.not_mem_nil, ha⟩

end GlobalLeaf

/-- **`delete_batch` compacts a leaf exactly** when everything that reading and selecting its filter
columns count in 32 bits fits; and when the Set columns fit, exactly then. -/
theorem delete_compacts_exactly_iff (L : GlobalLeaf) :
    (L.Compactable → ∀ slots, (∃ i ∈ slots, i < L.count) → L.Exact slots) ∧
    ((∀ x ∈ L.schema.columns.zip L.cols, x.1.type = .set → x.2.Compactable x.1 L.count) →
      ((∀ slots, (∃ i ∈ slots, i < L.count) → L.Exact slots) ↔ L.Compactable)) := by
  refine ⟨fun hc slots hhit => GlobalLeaf.exact_of_compactable hc hhit, fun hsets =>
    ⟨fun hex => ?_, fun hc slots hhit => GlobalLeaf.exact_of_compactable hc hhit⟩⟩
  by_contra hc
  obtain ⟨xs, ⟨col, d⟩, ys, hsplit, hxs, hx⟩ := GlobalLeaf.exists_first hc
  have hmem : ∀ y ∈ xs ++ (col, d) :: ys, y ∈ L.schema.columns.zip L.cols := fun y hy => by
    rw [hsplit]
    exact hy
  have ht : col.type ≠ .set := fun ht => hx (hsets (col, d) (hmem _ (by simp)) ht)
  have hlong : col.type = .string ∧ 2 ^ 32 ≤ total d.strLen L.count := by
    by_contra hfits
    rw [not_and_or, not_le] at hfits
    refine hx ⟨⟨fun hs => hfits.resolve_left (not_not.mpr hs), fun h => absurd h ht⟩,
      fun h => absurd h ht⟩
  obtain ⟨hpos, hnot⟩ := GlobalLeaf.not_exact_of_long hsplit (fun x hx => (hxs x hx).toAddressable)
    (fun y hy h => (hsets y (hmem y (by simp [hy])) h).toAddressable) hlong.1 hlong.2
  exact hnot (hex [0] ⟨0, by simp, hpos⟩)

/-! ### A leaf of long strings -/

/-- The header of a leaf with one 4-bit segment and no summary. -/
def plainHeader (count pages : ℕ) : Mem :=
  let m : Mem := poke (fun _ => 0) 8 (leBytes 8 count)
  let m := poke m 24 (leBytes 2 1)
  let m := poke m 26 [4]
  let m := poke m 40 (leBytes 8 pages)
  poke m 56 (leBytes 8 1)

section Plain

variable {count pages : ℕ}

lemma plainHeader_far {p : ℕ} (hp : 64 ≤ p) : plainHeader count pages p = 0 := by
  simp only [plainHeader]
  rw [poke_apply_of_le (by simpa using hp), poke_apply_of_le (by rw [length_leBytes]; omega),
    poke_apply_of_le (by rw [List.length_singleton]; omega),
    poke_apply_of_le (by rw [length_leBytes]; omega), poke_apply_of_le (by rw [length_leBytes]; omega)]

lemma plainHeader_words (hcount : count < 2 ^ 32) (hpages : pages < 2 ^ 32) :
    word (plainHeader count pages) 2 24 = 1 ∧ word (plainHeader count pages) 1 26 = 4 ∧
      word (plainHeader count pages) 4 48 = 0 ∧ word (plainHeader count pages) 8 8 = count ∧
      word (plainHeader count pages) 8 40 = pages ∧ word (plainHeader count pages) 8 56 = 1 := by
  have h₁ := length_leBytes 8 count
  have h₂ := length_leBytes 8 pages
  have h₃ := length_leBytes 8 1
  have h₄ := length_leBytes 2 1
  refine ⟨?_, ?_, ?_, ?_, ?_, word_poke_self (by norm_num)⟩ <;> simp only [plainHeader]
  · rw [word_poke (.inl (by omega)), word_poke (.inl (by omega)), word_poke (.inl (by omega)),
      word_poke_self (by norm_num)]
  · rw [word_poke (.inl (by omega)), word_poke (.inl (by omega))]
    exact (holds_poke_self _ 26 (leBytes 1 4)).word (by norm_num)
  · rw [word_poke (.inl (by omega)), word_poke (.inr (by omega)),
      word_poke (.inr (by rw [List.length_singleton]; omega)), word_poke (.inr (by omega)),
      word_poke (.inr (by omega))]
    rfl
  · rw [word_poke (.inl (by omega)), word_poke (.inl (by omega)), word_poke (.inl (by omega)),
      word_poke (.inl (by omega)), word_poke_self (by omega)]
  · rw [word_poke (.inl (by omega)), word_poke_self (by omega)]

lemma word_plain (f : Mem → Mem) (w off : ℕ) (h : off + w ≤ 112) :
    word (through (plainHeader count pages) ((Family.globalPq 1 4).geometry 0 count).filterOffset f) w
      off = word (plainHeader count pages) w off := by
  refine word_congr fun i _ hi => through_of_lt f ?_
  simp only [Family.geometry, leafRowidsOffset, leafCodesOffset]
  omega

end Plain

lemma plainLeaf_bitsOk : 4 = 4 ∨ 4 = 8 := .inl rfl

lemma plainLeaf_codes (s : Schema) (cols : List ColumnData) (count pages : ℕ) (hcount : count < 2 ^ 32) :
    HoldsCodes 4 1 (leafCodesOffset 0) (through (plainHeader count pages)
      ((Family.globalPq 1 4).geometry 0 count).filterOffset fun m =>
        (writeFilterColumns m count s cols).1) count fun _ _ => 0 := by
  have hclear : ClearTo 4 1 (leafCodesOffset 0) (through (plainHeader count pages)
      ((Family.globalPq 1 4).geometry 0 count).filterOffset fun m =>
        (writeFilterColumns m count s cols).1) ((count + codesPerBlock 4 - 1) / codesPerBlock 4) := by
    refine clearTo_of_zero fun p hp hp' => ?_
    rw [through_of_lt _ (by simp only [Family.geometry, leafRowidsOffset]; omega)]
    refine plainHeader_far ?_
    simp only [leafCodesOffset] at hp
    omega
  exact ⟨fun i hi => hclear i (div_lt_of_lt hi), fun i _ hlt => hclear i hlt⟩

/-- A leaf with clear codes, one 4-bit segment and no summary. -/
def plainLeaf (s : Schema) (cols : List ColumnData) (count pages : ℕ) (hcount : count < 2 ^ 32)
    (hpages : pages < 2 ^ 32) (wf : List.Forall₂ (fun col d => d.WellFormed col count) s.columns cols)
    (hin : ((Family.globalPq 1 4).geometry 0 count).filterOffset +
      ColumnBytes.filterColumnsBytes count s cols ≤ pages * 4096) : GlobalLeaf where
  m4 := 1
  bits := 4
  summarySize := 0
  schema := s
  buf := through (plainHeader count pages) ((Family.globalPq 1 4).geometry 0 count).filterOffset
    fun m => (writeFilterColumns m count s cols).1
  count := count
  pages := pages
  code _ _ := 0
  cols := cols
  before := shifted (plainHeader count pages) ((Family.globalPq 1 4).geometry 0 count).filterOffset
  bitsOk := plainLeaf_bitsOk
  count_lt := hcount
  pages_lt := hpages
  header_m4 := (word_plain _ 2 24 (by decide)).trans (plainHeader_words hcount hpages).1
  header_bits := (word_plain _ 1 26 (by decide)).trans (plainHeader_words hcount hpages).2.1
  header_summarySize := (word_plain _ 4 48 (by decide)).trans (plainHeader_words hcount hpages).2.2.1
  header_count := (word_plain _ 8 8 (by decide)).trans (plainHeader_words hcount hpages).2.2.2.1
  header_pages := (word_plain _ 8 40 (by decide)).trans (plainHeader_words hcount hpages).2.2.2.2.1
  header_filter _ := by
    rw [word_plain _ 8 56 (by decide), (plainHeader_words hcount hpages).2.2.2.2.2]
    exact one_ne_zero
  codes := plainLeaf_codes s cols count pages hcount
  wellFormed := wf
  filter i _ := congrFun (shifted_through _ _ _) i
  inside := hin

lemma filterColumnsBytes_text (n : ℕ) (d : ColumnData) :
    ColumnBytes.filterColumnsBytes n textSchema [d] =
      align4 (align4 (0 + n * (4 + 2)) + n * 4 + total d.strLen n) := by
  rw [filterColumnsBytes_eq]
  rfl

lemma longColumn_inside : ((Family.globalPq 1 4).geometry 0 65538).filterOffset +
    ColumnBytes.filterColumnsBytes 65538 textSchema [longColumn 65538 65535] ≤ 2 ^ 21 * 4096 := by
  rw [filterColumnsBytes_text, total_longColumn 65538 (by norm_num)]
  simp only [Family.geometry, leafRowidsOffset, leafCodesOffset, codesPerBlock, align4, if_true]
  norm_num

/-- 65538 rows with a string of 65535 bytes each. -/
def longLeaf : GlobalLeaf :=
  plainLeaf textSchema [longColumn 65538 65535] 65538 (2 ^ 21) (by decide) (by decide)
    (.cons (wellFormed_longColumn _ (by norm_num)) .nil) longColumn_inside

/-- Deleting the first row of that leaf reads the last string behind the string data. -/
theorem delete_reads_behind_strings : 0 < longLeaf.count ∧ ¬ longLeaf.Exact [0] := by
  refine GlobalLeaf.not_exact_of_long (show _ = [] ++ [_] from rfl) (by simp) (by simp) rfl ?_
  have htotal := total_longColumn 65538 (show 65535 < 2 ^ 16 by norm_num)
  change 2 ^ 32 ≤ total (longColumn 65538 65535).strLen 65538
  rw [htotal]
  norm_num

end SextantTree.LeafDelete
