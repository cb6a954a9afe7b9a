import SextantTree.LeafWritersSpec
import SextantTree.Rounding
import SextantTree.ScalarLloydMax

/-!
The leaves of the scalar families under squared distances, where every row keeps the squared norm of
what its code decodes to: built, appended to and split. Numbers are exact but for those of half
precision; the buffers are those of the leaf writers. The row ids, filter columns and header fields
that are written besides are left out.
-/

namespace SextantTree.RowBias

open ByteMem SegmentedVec LeafCodes ScalarLloydMax

variable {α : Type} [Field α] [LinearOrder α]

/-- `float16_t`: the number that two bytes stand for, and the bytes that a number is rounded to. -/
structure HalfUnit (α : Type) where
  ofBits : ℕ → α
  toBits : α → UInt16

/-- Half-precision numbers one after the other. -/
def halves (f : ℕ → UInt16) : Mem := fun p =>
  if p % 2 = 0 then UInt8.ofNat (f (p / 2)).toNat else UInt8.ofNat ((f (p / 2)).toNat / 256)

namespace HalfUnit

variable (H : HalfUnit α)

def round (x : α) : α := H.ofBits (H.toBits x).toNat

/-- The bias of a decoded vector: its squared norm, clamped and rounded. -/
def normBias (dim : ℕ) (x : ℕ → α) : UInt16 := H.toBits (min (dot dim x x) 65504)

end HalfUnit

/-! ### The levels of a leaf -/

structure Levels where
  lo : ℕ → UInt16
  steps : ℕ → UInt16

section Levels

variable (H : HalfUnit α) (sqrt : α → α)

/-- The lower end and the step of a dimension, before they are rounded. -/
def ruler (vecs : ℕ → ℕ → α) (count d : ℕ) : α × α :=
  let mean := (∑ i ∈ Finset.range count, vecs i d) / count
  let var := ∑ i ∈ Finset.range count, (vecs i d - mean) * (vecs i d - mean)
  let mn := (List.range count).foldl (fun mn i => min mn (vecs i d)) (10 ^ 30)
  let mx := (List.range count).foldl (fun mx i => max mx (vecs i d)) (-10 ^ 30)
  let sd := sqrt (var / count)
  let wide := (mean - 27 / 10 * sd, mean + 27 / 10 * sd)
  let (lo, hi) := if wide.2 - wide.1 ≤ 0 then (mn, mx) else wide
  let step := max ((hi - lo) / 15) (1 / 10 ^ 8)
  (lo - 1 / 2 * step, step)

def fitLocalScalarLevels (vecs : ℕ → ℕ → α) (count : ℕ) : Levels where
  lo d := H.toBits (ruler sqrt vecs count d).1
  steps d := H.toBits (ruler sqrt vecs count d).2

def Levels.value (lv : Levels) (d c : ℕ) : α :=
  H.ofBits (lv.lo d).toNat + H.ofBits (lv.steps d).toNat * c

/-- The level that `encode_one` picks; a quotient by zero is infinite, or none. -/
def Levels.pick (lv : Levels) (x : ℕ → α) (d : ℕ) : ℕ :=
  let lo := H.ofBits (lv.lo d).toNat
  let st := H.ofBits (lv.steps d).toNat
  if st = 0 then if 0 < x d - lo then 15 else 0
  else
    let t := (x d - lo) / st + 1 / 2
    if 15 ≤ t then 15 else if t ≤ 0 then 0 else Nat.findGreatest (fun k => (k : α) ≤ t) 15

/-- The bias that `encode_one` puts out. -/
def Levels.bias (lv : Levels) (dim : ℕ) (x : ℕ → α) : UInt16 :=
  H.normBias dim fun d => lv.value H d (lv.pick H x d)

end Levels

/-! ### Coders -/

/-- The two families, both with 4 bits. -/
inductive Coder (α : Type)
  | scalarLm (q : ScalarLloydMaxQuantizer α) (four : q.bits = 4)
  | localScalar (dim : ℕ)

structure Leaf where
  count : ℕ
  bytes : Mem

def nibbleAt (m : Mem) (out d : ℕ) : UInt8 :=
  if d % 2 = 0 then m (out + d / 2) &&& 0x0F else m (out + d / 2) >>> 4

namespace Coder

variable (H : HalfUnit α) (ss : ℕ) (c : Coder α)

def dim : Coder α → ℕ
  | scalarLm q _ => q.dim
  | localScalar dim => dim

def codeSize : Coder α → ℕ
  | scalarLm q _ => q.codeSize
  | localScalar dim => lscCodeSize dim

def base : Coder α → ℕ
  | scalarLm _ _ => leafCodesOffset ss
  | localScalar dim => lscCodesOffset ss dim

/-- `decode_one`. -/
def decodeOne (leaf : Mem) (i : ℕ) : Coder α → ℕ → α
  | scalarLm q _ => q.decode fun k => leaf (leafCodesOffset ss + (i * q.codeSize + k))
  | localScalar dim => fun d =>
    H.ofBits (word leaf 2 (lscLevelsOffset ss + d * 2)) +
      H.ofBits (word leaf 2 (lscLevelsOffset ss + dim * 2 + d * 2)) *
        (nibbleAt leaf (lscCodesOffset ss dim + i * lscCodeSize dim) d).toNat

def biasAt (leaf : Leaf) (i : ℕ) : ℕ :=
  word leaf.bytes 2 (c.base ss + leaf.count * c.codeSize + i * 2)

def key (leaf : Leaf) (i : ℕ) (query : ℕ → α) : α :=
  H.ofBits (c.biasAt ss leaf i) - 2 * dot c.dim query (c.decodeOne H ss leaf.bytes i)

variable (sqrt : α → α)

/-- `encode` of the rows of a leaf and `flush_leaf` into its buffer; a local coder gets the vectors
at half precision. -/
def flush (rows : List (ℕ → α)) (m : Mem) : Coder α → Leaf
  | scalarLm q _ =>
    let codes : Mem := fun p =>
      q.encode (rows.getD (p / q.codeSize) fun _ => 0) (p % q.codeSize)
    let biases := halves fun i =>
      H.normBias q.dim (q.decode (q.encode (rows.getD i fun _ => 0)))
    ⟨rows.length, (slmFlush q.codeSize true ss rows.length codes (some biases) m).1⟩
  | localScalar dim =>
    let x : ℕ → ℕ → α := fun i d => H.round (rows.getD i (fun _ => 0) d)
    let lv := fitLocalScalarLevels H sqrt x rows.length
    let level : ℕ → ℕ → UInt8 := fun i d => UInt8.ofNat (lv.pick H (x i) d)
    ⟨rows.length, (lscFlush dim true ss rows.length (halves lv.lo) (halves lv.steps) level
      (halves fun i => lv.bias H dim (x i)) m).1⟩

/-- A cleared buffer with the header and the summary of a leaf. -/
def fresh (old : Mem) : Mem := poke (fun _ => 0) 0 (peek old 0 (112 + ss))

/-- `append_encode` with the levels of the leaf. -/
def append (leaf : Leaf) (rows : List (ℕ → α)) : Coder α → Leaf
  | scalarLm q _ =>
    let code : ℕ → Mem := fun ai => q.encode (rows.getD ai fun _ => 0)
    let bias : ℕ → Mem := fun ai => halves fun _ => H.normBias q.dim (q.decode (code ai))
    ⟨leaf.count + rows.length, slmAppend q.codeSize true ss leaf.count (leaf.count + rows.length)
      rows.length leaf.bytes code bias (fresh ss leaf.bytes)⟩
  | localScalar dim =>
    let lv : Levels :=
      { lo := fun d => UInt16.ofNat (word leaf.bytes 2 (lscLevelsOffset ss + d * 2))
        steps := fun d => UInt16.ofNat (word leaf.bytes 2 (lscLevelsOffset ss + dim * 2 + d * 2)) }
    let level : ℕ → ℕ → UInt8 := fun ai d =>
      UInt8.ofNat (lv.pick H (rows.getD ai fun _ => 0) d)
    let bias : ℕ → Mem := fun ai => halves fun _ => lv.bias H dim (rows.getD ai fun _ => 0)
    ⟨leaf.count + rows.length, lscAppend dim true ss leaf.count (leaf.count + rows.length)
      rows.length leaf.bytes level bias (fresh ss leaf.bytes)⟩

/-- The groups of `plan_split`: the rows by the side they are assigned to, or two halves if one side
is empty. -/
def groups (count : ℕ) (side : ℕ → Bool) : List ℕ × List ℕ :=
  let group0 := (List.range count).filter fun i => !side i
  let group1 := (List.range count).filter side
  if group0 = [] ∨ group1 = [] then
    ((List.range count).filter (· < count / 2), (List.range count).filter (¬ · < count / 2))
  else (group0, group1)

/-- Items of `w` bytes of the rows of a group. -/
def gather (w : ℕ) (src : Mem) (pos : ℕ) (group : List ℕ) : Mem := fun p =>
  src (pos + (group.getD (p / w) 0 * w + p % w))

/-- `write_leaf_from_group`: `encode_group` of a group of rows, with the biases of the old leaf. -/
def regroup (leaf : Leaf) (group : List ℕ) : Coder α → Leaf
  | scalarLm q _ =>
    let base := leafCodesOffset ss
    let cs := q.codeSize
    let codes := gather cs leaf.bytes base group
    let biases := gather 2 leaf.bytes (base + leaf.count * cs) group
    let rowIds := gather 8 leaf.bytes (scalarRowidsOffset ss leaf.count cs true) group
    ⟨group.length, slmGroup cs true ss group.length codes (some biases) rowIds
      (fresh ss leaf.bytes)⟩
  | localScalar dim =>
    let base := lscCodesOffset ss dim
    let cs := lscCodeSize dim
    let vecs : ℕ → ℕ → α := fun i =>
      (localScalar dim).decodeOne H ss leaf.bytes (group.getD i 0)
    let lv := fitLocalScalarLevels H sqrt vecs group.length
    let level : ℕ → ℕ → UInt8 := fun i d => UInt8.ofNat (lv.pick H (vecs i) d)
    let biases := gather 2 leaf.bytes (base + leaf.count * cs) group
    let rowIds := gather 8 leaf.bytes
      (base + leaf.count * cs + scalarBiasBytes leaf.count true) group
    ⟨group.length, lscGroup dim true ss group.length (halves lv.lo) (halves lv.steps) level
      (some biases) rowIds (fresh ss leaf.bytes)⟩

/-! ### Runs -/

/-- What `insert_batch` does to the leaves, one after the other: rows routed to a leaf, and the split
of a leaf, with the side that Lloyd's loop assigns each row to. -/
inductive Op (α : Type)
  | insert (leaf : ℕ) (rows : List (ℕ → α))
  | split (leaf : ℕ) (side : ℕ → Bool)

def build (leaves : List (List (ℕ → α) × Mem)) : List Leaf :=
  leaves.map fun l => c.flush H ss sqrt l.1 l.2

/-- One operation; a split keeps the first group in the place of the leaf. -/
def step (index : List Leaf) : Op α → List Leaf
  | .insert j rows =>
    match index[j]? with
    | some leaf => index.set j (c.append H ss leaf rows)
    | none => index
  | .split j side =>
    match index[j]? with
    | some leaf =>
      let g := groups leaf.count side
      index.set j (c.regroup H ss sqrt leaf g.1) ++ [c.regroup H ss sqrt leaf g.2]
    | none => index

/-- The indices of the runs whose steps all meet a condition. -/
inductive Reach (ok : List Leaf → Op α → Prop) : List Leaf → Prop
  | build (leaves : List (List (ℕ → α) × Mem)) : Reach ok (c.build H ss sqrt leaves)
  | step {index : List Leaf} (op : Op α) :
      Reach ok index → ok index op → Reach ok (c.step H ss sqrt index op)

/-- Every row has the bias of what its code decodes to. -/
def Consistent (leaf : Leaf) : Prop :=
  ∀ i < leaf.count,
    c.biasAt ss leaf i = (H.normBias c.dim (c.decodeOne H ss leaf.bytes i)).toNat

end Coder

/-! ### Binary16 -/

/-- Half precision over the rationals, ties to even; what is too large is infinite. -/
def binary16 : HalfUnit ℚ where
  ofBits w :=
    let k : ℚ := if w / 1024 % 32 = 0 then (w % 1024 : ℕ)
      else ((1024 + w % 1024) * 2 ^ (w / 1024 % 32 - 1) : ℕ)
    (if w / 32768 = 0 then k else -k) / 2 ^ 24
  toBits x :=
    let n := x.num.natAbs * 2 ^ 24
    -- the place of the first bit that is kept, in units of 2 ^ -24
    let s := Nat.log2 (n / x.den) - 10
    let k := min (s * 1024 + Rounding.halfEven n (x.den * 2 ^ s)) 31744
    UInt16.ofNat (if x < 0 then 32768 + k else k)

end SextantTree.RowBias
