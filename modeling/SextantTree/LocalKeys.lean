import SextantTree.Quantizer
import SextantTree.RoundedSums
import SextantTree.TailLanes

/-!
The keys that a scan of leaves with codebooks of their own gives to the rows: the distances between
the query's residual and the entries of the leaf's codebook are quantized to bytes (`bind_leaf`), a
kernel sums the bytes of a row up, and the sum is turned back into an estimate of the distance
(`to_key`), so that rows of different leaves can share a heap.

Numbers are those of an ordered field, and the encoding of an estimate in a key is any map into an
order.
-/

namespace SextantTree.LocalKeys

open BlockKernels LocalPq LeafCodes RoundedSums

variable {α : Type} [Field α] [LinearOrder α] [FloorRing α]

/-! ### Tables -/

/-- A table in bytes, with what turns a sum of its entries into a distance. -/
structure ByteLut (α : Type) where
  lut : Bytes
  scale : α
  offset : α

section Tables

variable (lut : ℕ → α) (m K : ℕ)

/-- `seg_min`. -/
def segMin (s : ℕ) : α := least (fun c => lut (s * K + c)) (lut (s * K)) (List.range' 1 (K - 1))

/-- An entry without the least one of its segment. -/
def above (k : ℕ) : α := lut k - segMin lut K (k / K)

/-- `max_span`. -/
def maxSpan : α := greatest (above lut K) 0 (List.range (m * K))

/-- An entry rounded, clamped to `hi` and cast to a byte. -/
def level (hi : ℤ) (x : α) : UInt8 := UInt8.ofNat (max 0 (min hi (roundHalf x))).toNat

/-- `quantize_lut_u8_scaled`. -/
def quantizeLutU8Scaled : ByteLut α :=
  let span := maxSpan lut m K
  let A : α :=
    if 0 < span then
      let aCap : α := 4294967295 / (m * 255)
      if aCap < 255 / span then aCap else 255 / span
    else 0
  { lut := fun k => level 255 (above lut K k * A)
    scale := A
    offset := ∑ s ∈ Finset.range m, segMin lut K s }

/-- `quantize_lut_u4_compander`: the table and its scale. -/
def quantizeLutU4Compander (aNum : α) : Bytes × α :=
  let span := maxSpan lut m K
  let A : α := if 0 < span then aNum / span else 0
  (fun k => level 15 (above lut K k * A), A)

end Tables

/-- `build_fastscan_lut`. -/
def buildFastscanLut (q : Quant.PqQuantizer α) (query : ℕ → α) : ByteLut α :=
  quantizeLutU8Scaled (q.preprocessQuery query) q.m q.K

/-- `build_fastscan_lut4`. -/
def buildFastscanLut4 (q : Quant.PqQuantizer α) (query : ℕ → α) (aNum : α) :
    Except String (ByteLut α) :=
  if q.bits ≠ 4 ∨ q.K ≠ 16 then
    .error ("build_fastscan_lut4: requires bits=4 (K=16); got bits=" ++ toString q.bits ++ " (K=" ++
      toString q.K ++ "). Use build_fastscan_lut for 8-bit.")
  else
    let t := quantizeLutU4Compander (q.preprocessQuery query) q.m q.K aNum
    .ok ⟨t.1, t.2, ∑ s ∈ Finset.range q.m, segMin (q.preprocessQuery query) q.K s⟩

/-! ### Setups -/

/-- What the scan reads of a leaf, and where its header says that this is. -/
structure Leaf (α : Type) where
  centroid : ℕ → α
  codebook : ℕ → α
  count : UInt32
  codes : Bytes

/-- `LocalPqCoder::Setup`; one of its two tables is in use. -/
structure Setup (α : Type) where
  residual : ℕ → α
  lut : Bytes
  queryCopy : ℕ → α
  leafQ : Quant.PqQuantizer α
  lutScale : α
  lutOffset : α

/-- `set_codebook_data`. -/
def setCodebookData (q : Quant.PqQuantizer α) (cb : ℕ → α) : Quant.PqQuantizer α :=
  Quant.PqQuantizer.computeCentroidSqnorms { q with codebook := cb }

section Coder

variable (c : LocalPqCoder)

/-- The quantizer of a setup as it is constructed. -/
def newQuantizer : Quant.PqQuantizer α :=
  { metric := .l2Sq, dim := c.dim, m := c.m4, bits := c.bits, rotation := none
    codebook := fun _ => 0, centroidSqnorms := fun _ => 0 }

/-- `scan_setup`. -/
def scanSetup (query : ℕ → α) : Setup α :=
  { residual := fun _ => 0, lut := fun _ => 0, queryCopy := query, leafQ := newQuantizer c
    lutScale := 1, lutOffset := 0 }

/-- The table for the bits of the coder; with four bits over the whole span. -/
def buildTable (leafQ : Quant.PqQuantizer α) (residual : ℕ → α) : Except String (ByteLut α) :=
  if c.bits = 8 then .ok (buildFastscanLut leafQ residual) else buildFastscanLut4 leafQ residual 15

/-- `bind_leaf`. -/
def bindLeaf (s : Setup α) (leaf : Leaf α) : Except String (Setup α) := do
  let residual := fun d => s.queryCopy d - leaf.centroid d
  let leafQ := setCodebookData s.leafQ leaf.codebook
  let t ← buildTable c leafQ residual
  return { s with residual, leafQ, lut := t.lut, lutScale := t.scale, lutOffset := t.offset }

/-! ### Keys -/

/-- The blocks of a leaf with the table of the setup. The sums are left as they are. -/
def blocks (s : Setup α) (leaf : Leaf α) : PqBlocks :=
  ⟨c.bits = 8, UInt16.ofNat c.m4, leaf.count, leaf.codes, s.lut, none⟩

/-- `to_key`, with the sentinel above all keys. -/
def toKey {κ : Type} (encode : α → κ) (s : Setup α) (raw : UInt32) : WithTop κ :=
  if raw = 0xFFFFFFFF then ⊤
  else
    let sc := if 0 < s.lutScale then s.lutScale else 1
    ↑(encode ((raw.toNat : α) / sc + s.lutOffset))

/-- The key `scan_leaf` has for a row. -/
def rowKey {κ : Type} (encode : α → κ) (t : Target) (s : Setup α) (leaf : Leaf α) (i : ℕ) :
    WithTop κ :=
  toKey encode s
    ((blocks c s leaf).out t (i / codesPerBlockRead c.bits) (i % codesPerBlockRead c.bits))

/-- The row is in one of the blocks that `scan_leaf` goes through. -/
def Scanned (leaf : Leaf α) (i : ℕ) : Prop :=
  i < leaf.count.toNat ∧ i / codesPerBlockRead c.bits < blockCount c.bits leaf.count.toNat

end Coder

/-! ### What the keys stand for -/

/-- The setups of a query, whatever leaves they have been bound to. -/
inductive Made (c : LocalPqCoder) (query : ℕ → α) : Setup α → Prop
  | start : Made c query (scanSetup c query)
  | bound {s s' : Setup α} {leaf : Leaf α} : Made c query s → bindLeaf c s leaf = .ok s' →
      Made c query s'

/-- A setup that has just been bound to the leaf. -/
def BoundTo (c : LocalPqCoder) (query : ℕ → α) (leaf : Leaf α) (s : Setup α) : Prop :=
  ∃ s₀, Made c query s₀ ∧ bindLeaf c s₀ leaf = .ok s

/-- The distance of a row's code in the table before it is quantized. -/
def exactDist (c : LocalPqCoder) (s : Setup α) (leaf : Leaf α) (i : ℕ) : α :=
  s.leafQ.lutDistance (extractCodeFromLeaf leaf.codes i c.m4 c.bits 0 0 fun _ => 0)
    (s.leafQ.preprocessQuery s.residual)

def tolerance (c : LocalPqCoder) (s : Setup α) : α :=
  if s.lutScale = 0 then 0 else c.m4 / (2 * s.lutScale)

/-- Rows whose distances are further apart than the estimates are off have keys in their order. -/
def KeysComparable {κ : Type} [LinearOrder κ] (encode : α → κ) (t : Target) (c : LocalPqCoder) :
    Prop :=
  ∀ (query : ℕ → α) (leaf₁ leaf₂ : Leaf α) (s₁ s₂ : Setup α) (i₁ i₂ : ℕ),
    BoundTo c query leaf₁ s₁ → BoundTo c query leaf₂ s₂ →
    Scanned c leaf₁ i₁ → Scanned c leaf₂ i₂ →
    tolerance c s₁ + tolerance c s₂ < |exactDist c s₁ leaf₁ i₁ - exactDist c s₂ leaf₂ i₂| →
    cmp (rowKey c encode t s₁ leaf₁ i₁) (rowKey c encode t s₂ leaf₂ i₂) =
      cmp (exactDist c s₁ leaf₁ i₁) (exactDist c s₂ leaf₂ i₂)

/-- The sums of a row fit, or stop so late that the estimate is not off by more. -/
def WideEnough (t : Target) (c : LocalPqCoder) : Prop :=
  c.bits = 8 ∨
    match t with
    | .portable => True
    | .neon => c.m4 ≤ 4369
    | .avx2 | .avx512 => c.m4 ≤ 4519

end SextantTree.LocalKeys
