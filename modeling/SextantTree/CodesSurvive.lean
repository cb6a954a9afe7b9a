import SextantTree.LeafCodesRun
import SextantTree.LeafWritersSpec

/-!
Codes read back after every rewrite of a leaf, for the families with packed codes. The flat families
copy their codes with sizes of 64 bits; what they read back is always what went in.
-/

namespace SextantTree.LeafCodes

open ByteMem

/-- A code of `cs` bytes. -/
structure FlatCode (cs : ℕ) where
  bytes : List UInt8
  length_bytes : bytes.length = cs

/-- What `extract_codes` of the flat families leaves in a buffer, code by code. -/
def extractedFlat (cs : ℕ) (leaf : Mem) (base count : ℕ) : List (List UInt8) :=
  (List.range count).map fun i =>
    peek (poke (fun _ => 0) 0 (peek leaf base (count * cs))) (i * cs) cs

section Flat

variable {cs base : ℕ} {leaf : Mem} {codes : List (FlatCode cs)}

/-- Code `i` of a list. -/
def flatAt (codes : List (FlatCode cs)) (i : ℕ) : Mem := memOf ((codes.map FlatCode.bytes).getD i [])

def flatMem (codes : List (FlatCode cs)) : Mem := memOf (codes.flatMap FlatCode.bytes)

lemma flatAt_eq {i : ℕ} {c : FlatCode cs} (h : codes[i]? = some c) :
    flatAt codes i = memOf c.bytes := by
  rw [flatAt, List.getD_eq_getElem?_getD, List.getElem?_map, h]
  rfl

lemma flatMem_apply {i k : ℕ} (hi : i < codes.length) (hk : k < cs) :
    flatMem codes (i * cs + k) = flatAt codes i k := by
  have hc := List.getElem?_eq_getElem hi
  rw [flatAt_eq hc]
  exact memOf_flatMap FlatCode.length_bytes hc hk

/-- The rows of the leaf are the codes of the list. -/
def FlatHolds (base : ℕ) (leaf : Mem) (codes : List (FlatCode cs)) : Prop :=
  ∀ i < codes.length, ∀ k < cs, leaf (base + (i * cs + k)) = flatAt codes i k

lemma extractedFlat_of_holds (h : FlatHolds base leaf codes) :
    extractedFlat cs leaf base codes.length = codes.map FlatCode.bytes := by
  refine List.ext_getElem (by simp [extractedFlat]) fun i h₁ h₂ => ?_
  have hi : i < codes.length := by simpa using h₂
  simp only [extractedFlat, List.getElem_map, List.getElem_range]
  refine List.ext_getElem (by rw [length_peek, codes[i].length_bytes]) fun k hk₁ hk₂ => ?_
  have hk : k < cs := by rwa [length_peek] at hk₁
  have hget : codes[i].bytes[k] = flatAt codes i k := by
    rw [flatAt_eq (List.getElem?_eq_getElem hi), memOf, List.getD_eq_getElem?_getD,
      List.getElem?_eq_getElem hk₂]
    rfl
  have := row_lt hi hk
  rw [hget, ← h i hi k hk]
  simp only [peek, List.getElem_map, List.getElem_range]
  rw [← peek, poke_peek_apply, if_pos (by omega)]
  congr 1

lemma flatAt_append {new : List (FlatCode cs)} (i : ℕ) : flatAt (codes ++ new) i =
    if i < codes.length then flatAt codes i else flatAt new (i - codes.length) := by
  simp only [flatAt, List.map_append, List.getD_eq_getElem?_getD]
  split
  · rw [List.getElem?_append_left (by simpa using ‹_›)]
  · rw [List.getElem?_append_right (by simpa using not_lt.mp ‹_›), List.length_map]

end Flat

/-! ### Scalar leaves -/

/-- A leaf of `ScalarLmCoder` and the codes that went into it. -/
inductive SlmLeaf (cs : ℕ) (hasIpBias : Bool) (ss : ℕ) : Mem → List (FlatCode cs) → Prop
  | flushed (codes : List (FlatCode cs)) (biases : Option Mem) (m : Mem)
      (hcount : codes.length < 2 ^ 32) :
      SlmLeaf cs hasIpBias ss (slmFlush cs hasIpBias ss codes.length (flatMem codes) biases m).1 codes
  | grouped (codes : List (FlatCode cs)) (biases : Option Mem) (rowIds m : Mem)
      (hcount : codes.length < 2 ^ 32) :
      SlmLeaf cs hasIpBias ss
        (slmGroup cs hasIpBias ss codes.length (flatMem codes) biases rowIds m) codes
  | appended {old : Mem} {codes : List (FlatCode cs)} (hold : SlmLeaf cs hasIpBias ss old codes)
      (new : List (FlatCode cs)) (bias : ℕ → Mem) (m : Mem)
      (hcount : codes.length + new.length < 2 ^ 32) :
      SlmLeaf cs hasIpBias ss (slmAppend cs hasIpBias ss codes.length (codes.length + new.length)
        new.length old (flatAt new) bias m) (codes ++ new)

lemma SlmLeaf.holds {cs ss : ℕ} {hasIpBias : Bool} {leaf : Mem} {codes : List (FlatCode cs)}
    (h : SlmLeaf cs hasIpBias ss leaf codes) : FlatHolds (leafCodesOffset ss) leaf codes := by
  induction h with
  | flushed codes biases m _ =>
    intro i hi k hk
    have hrows := (flatRows_copy (flatMem codes) biases cs (leafCodesOffset ss) codes.length
      hasIpBias m).1.codes i hi k hk
    exact hrows.trans (flatMem_apply hi hk)
  | grouped codes biases rowIds m _ =>
    intro i hi k hk
    have hrows := (flatRows_copy (flatMem codes) biases cs (leafCodesOffset ss) codes.length
      hasIpBias m).1.codes i hi k hk
    have := row_lt hi hk
    simp only [slmGroup, poke_peek_apply, scalarRowidsOffset]
    rw [if_neg (by omega)]
    exact hrows.trans (flatMem_apply hi hk)
  | @appended old codes _ new bias m hcount ih =>
    intro i hi k hk
    rw [List.length_append] at hi
    have hrows := (appendFlat_spec hasIpBias (leafCodesOffset ss)
      (fun ai pos m => poke m pos (peek (flatAt new ai) 0 cs)) bias
      (fun ai _ => localPut_poke cs (flatAt new ai)) rfl hcount old m).1.codes i hi k hk
    refine hrows.trans ?_
    rw [flatAt_append]
    split
    · exact ih i ‹_› k hk
    · rw [poke_peek_apply, if_pos (by omega)]
      congr 1
      omega

def lscFlatCode (dim : ℕ) (level : ℕ → UInt8) : FlatCode (lscCodeSize dim) where
  bytes := peek (lscCode dim level) 0 (lscCodeSize dim)
  length_bytes := length_peek _ _ _

def lscCodes (dim : ℕ) (levels : List (ℕ → UInt8)) : List (FlatCode (lscCodeSize dim)) :=
  levels.map (lscFlatCode dim)

/-- Row `i` of a list of levels. -/
def levelAt (levels : List (ℕ → UInt8)) (i : ℕ) : ℕ → UInt8 := levels.getD i fun _ => 0

/-- A leaf of `LocalScalarCoder` and the codes that went into it: the levels that its vectors have.
What is not flushed is encoded into a clear buffer. -/
inductive LscLeaf (dim : ℕ) (hasIpBias : Bool) (ss : ℕ) :
    Mem → List (FlatCode (lscCodeSize dim)) → Prop
  | flushed (levels : List (ℕ → UInt8)) (lo steps biases m : Mem) (hcount : levels.length < 2 ^ 32) :
      LscLeaf dim hasIpBias ss (lscFlush dim hasIpBias ss levels.length lo steps (levelAt levels)
        biases m).1 (lscCodes dim levels)
  | grouped (levels : List (ℕ → UInt8)) (lo steps : Mem) (biases : Option Mem) (rowIds m : Mem)
      (hcount : levels.length < 2 ^ 32) (hclear : ∀ p, lscCodesOffset ss dim ≤ p →
        p < lscCodesOffset ss dim + levels.length * lscCodeSize dim → m p = 0) :
      LscLeaf dim hasIpBias ss (lscGroup dim hasIpBias ss levels.length lo steps (levelAt levels)
        biases rowIds m) (lscCodes dim levels)
  | appended {old : Mem} {codes : List (FlatCode (lscCodeSize dim))}
      (hold : LscLeaf dim hasIpBias ss old codes) (levels : List (ℕ → UInt8)) (bias : ℕ → Mem)
      (m : Mem) (hcount : codes.length + levels.length < 2 ^ 32)
      (hclear : ∀ p, lscCodesOffset ss dim ≤ p →
        p < lscCodesOffset ss dim + (codes.length + levels.length) * lscCodeSize dim → m p = 0) :
      LscLeaf dim hasIpBias ss (lscAppend dim hasIpBias ss codes.length
        (codes.length + levels.length) levels.length old (levelAt levels) bias m)
        (codes ++ lscCodes dim levels)

lemma flatAt_lscCodes {dim i k : ℕ} {levels : List (ℕ → UInt8)} (hi : i < levels.length)
    (hk : k < lscCodeSize dim) : flatAt (lscCodes dim levels) i k = lscCode dim (levelAt levels i) k := by
  have hlevel : levelAt levels i = levels[i] := by
    rw [levelAt, List.getD_eq_getElem?_getD, List.getElem?_eq_getElem hi]
    rfl
  rw [flatAt_eq (c := lscFlatCode dim levels[i])
    (by rw [lscCodes, List.getElem?_map, List.getElem?_eq_getElem hi]; rfl), hlevel, memOf,
    List.getD_eq_getElem?_getD, List.getElem?_eq_getElem (by rw [(lscFlatCode _ _).length_bytes]; exact hk)]
  simp only [lscFlatCode, peek, List.getElem_map, List.getElem_range, Nat.zero_add, Option.getD_some]

lemma putLevels_apply_of_le {dim ss p : ℕ} (lo steps m : Mem) (hp : lscCodesOffset ss dim ≤ p) :
    putLevels dim ss lo steps m p = m p := by
  simp only [lscCodesOffset] at hp
  simp only [putLevels, lscLevelsOffset, poke_peek_apply]
  rw [if_neg (by omega), if_neg (by omega)]

lemma LscLeaf.holds {dim ss : ℕ} {hasIpBias : Bool} {leaf : Mem}
    {codes : List (FlatCode (lscCodeSize dim))} (h : LscLeaf dim hasIpBias ss leaf codes) :
    FlatHolds (lscCodesOffset ss dim) leaf codes := by
  induction h with
  | flushed levels lo steps biases m _ =>
    intro i hi k hk
    have hi' : i < levels.length := by simpa [lscCodes] using hi
    have hrows := (flatRows_copy ((List.range levels.length).foldl
      (fun b i => encodeOne dim (levelAt levels i) (i * lscCodeSize dim) b) fun _ => 0) (some biases)
      (lscCodeSize dim) (lscCodesOffset ss dim) levels.length hasIpBias
      (putLevels dim ss lo steps (poke m 88 [3]))).1.codes i hi' k hk
    have hmade := (encodeRows_spec dim 0 levels.length (levelAt levels) fun _ => 0).1 i hi' k hk rfl
    simp only [Nat.zero_add] at hmade
    rw [flatAt_lscCodes hi' hk]
    exact hrows.trans hmade
  | grouped levels lo steps biases rowIds m _ hclear =>
    intro i hi k hk
    have hi' : i < levels.length := by simpa [lscCodes] using hi
    have hlt := row_lt hi' hk
    have hmade := (encodeRows_spec dim (lscCodesOffset ss dim) levels.length (levelAt levels) m).1 i hi'
      k hk (hclear _ (by omega) (by omega))
    have hstart : 112 ≤ lscCodesOffset ss dim := by
      simp only [lscCodesOffset, leafCodesOffset]
      omega
    rw [flatAt_lscCodes hi' hk, lscGroup, putLevels_apply_of_le _ _ _ (by omega),
      poke_apply_of_le (by simp only [List.length_singleton]; omega), poke_peek_apply,
      if_neg (by omega), putBiases_apply, if_neg (by omega)]
    exact hmade
  | @appended old codes _ levels bias m hcount hclear ih =>
    intro i hi k hk
    have hlen : (lscCodes dim levels).length = levels.length := List.length_map _
    rw [List.length_append, hlen] at hi
    have hrows := (appendFlat_spec hasIpBias (lscCodesOffset ss dim)
      (fun ai pos m => encodeOne dim (levelAt levels ai) pos m) bias
      (fun ai _ => localPut_encodeOne (levelAt levels ai)) rfl hcount old
      (poke m (lscLevelsOffset ss) (peek old (lscLevelsOffset ss)
        (lscCodesOffset ss dim - lscLevelsOffset ss)))).1.codes i hi k hk
    refine hrows.trans ?_
    rw [flatAt_append]
    split
    · exact ih i ‹_› k hk
    · have hlt := row_lt hi hk
      rw [flatAt_lscCodes (by omega) hk, ← Nat.add_assoc]
      refine encodeOne_shift _ _ _ ?_
      rw [poke_peek_apply, if_neg (by omega), Nat.add_assoc]
      exact hclear _ (by omega) (by omega)

/-! ### Every family -/

/-- **Codes survive every rewrite of a leaf**, exactly as long as `flush_leaf` of a global leaf has no
more rows than its 32-bit block count and code offset can take, and `append_encode` no more old rows
than its block count can. Groups, compaction and the scalar families have no such limit. -/
theorem leaf_codes_survive_iff (sh : PqShape) (base : ℕ) :
    ((∀ leaf codes, CodeLeaf sh base leaf codes →
        extractedCodes sh leaf base codes.length = codes.map Code.bytes) ∧
      (∀ count < 2 ^ 32, FlushSurvives sh base count ↔ FlushFits sh count) ∧
      (∀ count, GroupSurvives sh base count) ∧
      (∀ oldCount n, oldCount + n < 2 ^ 32 →
        (AppendSurvives sh base oldCount n ↔ AppendFits sh oldCount))) ∧
    (∀ cs hasIpBias ss leaf codes, SlmLeaf cs hasIpBias ss leaf codes →
      extractedFlat cs leaf (leafCodesOffset ss) codes.length = codes.map FlatCode.bytes) ∧
    ∀ dim hasIpBias ss leaf codes, LscLeaf dim hasIpBias ss leaf codes →
      extractedFlat (lscCodeSize dim) leaf (lscCodesOffset ss dim) codes.length =
        codes.map FlatCode.bytes := by
  refine ⟨⟨?_, ?_, groupSurvives sh base, ?_⟩, ?_, ?_⟩
  · intro leaf codes h
    exact extractedCodes_of_holds h.holds
  · intro count hcount
    exact flushSurvives_iff base hcount
  · intro oldCount n hcount
    exact appendSurvives_iff base hcount
  · intro cs hasIpBias ss leaf codes h
    exact extractedFlat_of_holds h.holds
  · intro dim hasIpBias ss leaf codes h
    exact extractedFlat_of_holds h.holds

def wideShape : PqShape := ⟨32768, 8, .inr rfl, by decide⟩

/-- The last of 131073 codes of 32768 bytes starts at 4 GiB: `flush_leaf` writes the first one in its
place. -/
theorem flush_leaf_loses_last_code :
    extractedCodes wideShape
      (flushCodes (codesMem (List.replicate 131072 (zeroCode wideShape) ++ [oneCode wideShape]))
        (leafCodesOffset 0) 131073 wideShape.m4 wideShape.bits fun _ => 0) (leafCodesOffset 0) 131073 ≠
      (List.replicate 131072 (zeroCode wideShape) ++ [oneCode wideShape]).map Code.bytes :=
  flush_loses_last (n := 131072) (by decide) (by decide) _

end SextantTree.LeafCodes
