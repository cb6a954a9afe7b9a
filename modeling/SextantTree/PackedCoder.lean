import SextantTree.Disk
import SextantTree.LeafCodesRun
import SextantTree.LeafWriters

/-!
A coder of the tree made of the byte model of product-quantized leaves: a new leaf and a group of a
split are written into blocks and read back from them. Which code a vector gets, and how a leaf is
split, are the quantizer's.
-/

namespace SextantTree.LeafCodes

open ByteMem PackedCells
open FilterHash (Bytes)

variable {sh : PqShape} {bs : List Bytes}

/-- The bytes of a packed code. -/
def IsCode (sh : PqShape) (b : Bytes) : Prop :=
  b.length = sh.size ∧ ∀ s < 2 * sh.size, sh.m4 ≤ s → cell sh.width (memOf b) s = 0

instance (b : Bytes) : Decidable (IsCode sh b) := inferInstanceAs (Decidable (_ ∧ _))

lemma memOf_behind {b : Bytes} {i : ℕ} (h : b.length ≤ i) : memOf b i = 0 := by
  rw [memOf, List.getD_eq_getElem?_getD, List.getElem?_eq_none h]
  rfl

lemma cell_behind {w : Width} {b : Bytes} {s : ℕ} (h : 2 * b.length ≤ s) : cell w (memOf b) s = 0 := by
  cases w with
  | nibble =>
    rw [cell, memOf_behind (by omega)]
    split <;> rfl
  | byte => exact memOf_behind (by omega)

def IsCode.code {b : Bytes} (h : IsCode sh b) : Code sh where
  bytes := b
  length_bytes := h.1
  pad s hs := by
    by_cases hlt : s < 2 * sh.size
    · exact h.2 s hlt hs
    · exact cell_behind (by have := h.1; omega)

lemma Code.isCode (c : Code sh) : IsCode sh c.bytes := ⟨c.length_bytes, fun s _ hs => c.pad s hs⟩

lemma exists_codes (h : ∀ b ∈ bs, IsCode sh b) : ∃ codes : List (Code sh), codes.map Code.bytes = bs :=
  ⟨bs.pmap (fun _ hb => hb.code) h, by
    rw [List.map_pmap]
    exact List.pmap_eq_self.2 fun _ _ => rfl⟩

lemma clear_zero (base count : ℕ) : Clear sh base (fun _ => 0) count := fun _ _ _ _ => cell_zero _ _

/-- A group of codes as `encode_group` writes them into a cleared leaf, and as they are read back. -/
def regroup (sh : PqShape) (base : ℕ) (bs : List Bytes) : List Bytes :=
  if ∀ b ∈ bs, IsCode sh b then
    extractedCodes sh (groupCodes (memOf bs.flatten) base bs.length sh.m4 sh.bits fun _ => 0) base bs.length
  else bs

/-- **A group** keeps its codes. -/
lemma regroup_eq (base : ℕ) (bs : List Bytes) : regroup sh base bs = bs := by
  unfold regroup
  split_ifs with h
  · obtain ⟨codes, rfl⟩ := exists_codes h
    have hread := extractedCodes_of_holds (holdsList_group (clear_zero base codes.length))
    rwa [codesMem, List.flatMap_def, ← List.length_map Code.bytes] at hread
  · rfl

/-- Codes as `flush_leaf` writes them, and as they are read back. -/
def flushed (sh : PqShape) (base : ℕ) (codes : List (Code sh)) : List Bytes :=
  extractedCodes sh (flushCodes (codesMem codes) base codes.length sh.m4 sh.bits fun _ => 0) base
    codes.length

lemma flushed_eq (base : ℕ) {codes : List (Code sh)} (h : FlushFits sh codes.length) :
    flushed sh base codes = codes.map Code.bytes :=
  extractedCodes_of_holds (holdsList_flush _ h)

/-- `extent_bytes`; the number of blocks keeps within 32 bits. -/
def packedExtentBytes (sh : PqShape) (summarySize n : ℕ) : ℕ :=
  leafRowidsOffset summarySize ((n + sh.lanes - 1) / sh.lanes) (sh.m4 * 16) + n * 8

lemma packedExtentBytes_eq (summarySize : ℕ) {n : ℕ} (hn : n < 2 ^ 32) :
    packedExtentBytes sh summarySize n =
      (Family.globalPq sh.m4 sh.bits).extentBytes n summarySize 0 := by
  have hblocks : (n + sh.lanes - 1) / sh.lanes < 2 ^ 32 := by
    simp only [PqShape.lanes, codesPerBlock]
    split <;> omega
  rw [packedExtentBytes, leafRowidsOffset, Family.extentBytes, leafExtentBytes,
    Nat.mod_eq_of_lt hblocks, Nat.add_zero]

/-- A product coder of the tree. -/
def packedCoder (sh : PqShape) (summarySize : ℕ) (encode : Vec → Code sh)
    (assign : List Bytes → ℕ → ℕ → Bool) (centroid : List Bytes → ℕ → Bool → Vec)
    (codebook : Bytes) : LeafCoder where
  family := .globalPq
  familyName := "pq"
  extentBytes := packedExtentBytes sh summarySize
  extentBytes_pos n := by
    unfold packedExtentBytes leafRowidsOffset leafCodesOffset
    omega
  extentBytes_mono m n h := by
    have hblocks : (m + sh.lanes - 1) / sh.lanes ≤ (n + sh.lanes - 1) / sh.lanes :=
      Nat.div_le_div_right (by omega)
    have := Nat.mul_le_mul_right (sh.m4 * 16) hblocks
    unfold packedExtentBytes leafRowidsOffset
    omega
  flushLeaf vs := ([], flushed sh (leafCodesOffset summarySize) (vs.map encode))
  length_flushLeaf vs := by simp [flushed, extractedCodes]
  appendEncode _ v := (encode v).bytes
  splitAssign _ := assign
  splitCentroid _ := centroid
  encodeGroup st cs := (st, regroup sh (leafCodesOffset summarySize) cs)
  length_encodeGroup _ cs := by rw [regroup_eq]
  encodeGroup_global _ _ cs := regroup_eq _ cs
  serializeGlobal := some codebook

end SextantTree.LeafCodes
