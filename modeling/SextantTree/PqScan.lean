import SextantTree.Search

/-!
The scan of a leaf with product-quantized codes, block by block: the kernel forms the sums of a
block's lanes, lanes behind the last row are masked, and a block whose least key is above the front
of the heap is passed over.

What the kernel sums up from the codes and the tables is a field of the leaf; the estimates that the
local coder computes from a sum are bit patterns of floats.
-/

namespace SextantTree

open BoundedHeap

/-- The targets between which the lane helpers differ. -/
inductive Arch
  | aarch64
  | other
deriving DecidableEq, Repr

/-- A leaf as `scan_leaf` of the global and of the local coder sees it. -/
structure PqLeaf where
  /-- Whether `pq_bits` is 8, and not 4. -/
  pq8 : Bool
  count : ℕ
  /-- The sums of a block's lanes, before any mask. -/
  acc : ℕ → ℕ → UInt32
  /-- For the local coder, the dequantized estimate of a sum. -/
  estimate : Option (UInt32 → UInt32) := none

/-- The order-preserving encoding of a float. -/
def f32ToDistKey (bits : UInt32) : UInt32 :=
  if bits &&& 0x80000000 ≠ 0 then ~~~bits else bits ||| 0x80000000

namespace PqLeaf

def rows (l : PqLeaf) : ℕ := l.count % 2 ^ 32

def codesPerBlock (l : PqLeaf) : ℕ := if l.pq8 then 16 else 32

def nBlocks (l : PqLeaf) : ℕ := (l.rows + l.codesPerBlock - 1) % 2 ^ 32 / l.codesPerBlock

def tailCount (l : PqLeaf) : ℕ := l.rows - l.rows / l.codesPerBlock * l.codesPerBlock

def fullMask (l : PqLeaf) : ℕ := if l.codesPerBlock = 32 then 0xFFFFFFFF else 0xFFFF

def tailMask (l : PqLeaf) : ℕ :=
  if l.tailCount = 0 then l.fullMask
  else if l.codesPerBlock ≤ l.tailCount then l.fullMask
  else 2 ^ l.tailCount - 1

def validMask (l : PqLeaf) (b : ℕ) : ℕ := if b + 1 < l.nBlocks then l.fullMask else l.tailMask

/-- A key of the shared heap; the identity for the global coder. -/
def toKey (l : PqLeaf) (raw : UInt32) : UInt32 :=
  match l.estimate with
  | none => raw
  | some estimate => if raw = 0xFFFFFFFF then raw else f32ToDistKey (estimate raw)

end PqLeaf

/-- The lanes of `fastscan_block16`, masked by the kernel itself. -/
def fastscanBlock16 (acc : ℕ → UInt32) (validMask : ℕ) (j : ℕ) : UInt32 :=
  if (validMask % 2 ^ 16).testBit j then acc j else 0xFFFFFFFF

/-- Overwrites the masked lanes. The vector code goes over four registers of four lanes. -/
def u32MaskSentinel32 (a : Arch) (v : ℕ → UInt32) (validMask : ℕ) (j : ℕ) : UInt32 :=
  match a with
  | .aarch64 =>
    if j < 16 then v j ||| (if validMask.testBit j then 0 else 0xFFFFFFFF) else v j
  | .other => if validMask.testBit j then v j else 0xFFFFFFFF

def PqLeaf.out (a : Arch) (l : PqLeaf) (b j : ℕ) : UInt32 :=
  if l.pq8 then l.toKey (fastscanBlock16 (l.acc b) (l.validMask b) j)
  else if l.validMask b ≠ 0xFFFFFFFF then
    l.toKey (u32MaskSentinel32 a (l.acc b) (l.validMask b) j)
  else l.toKey (l.acc b j)

/-- `u32_min16` and `u32_min32`. -/
def u32Min (v : ℕ → UInt32) (n : ℕ) : ℕ :=
  (List.range n).foldl (fun m j => min m (v j).toNat) 0xFFFFFFFF

/-! ### The heap -/

/-- The vector of the heap, with the width it is bounded by. -/
structure RawScanHeap where
  size : ℕ
  h : ScanHeap
  w : ℕ

namespace RawScanHeap

def full (s : RawScanHeap) : Bool := s.w ≤ s.size

def front (s : RawScanHeap) : ℕ := (s.h 0).pqDist

/-- `std::make_heap`. -/
def makeHeap (n : ℕ) (h : ScanHeap) : ScanHeap :=
  (List.range (n / 2)).reverse.foldl (fun h pos => siftDown id n n h pos) h

def push (s : RawScanHeap) (e : HeapEntry) : RawScanHeap :=
  let s' := { s with size := s.size + 1, h := Function.update s.h s.size e }
  if s'.size = s'.w then { s' with h := makeHeap s'.size s'.h } else s'

/-- `heap_should_replace` for the entry `e` of the leaf. -/
def shouldReplace (s : RawScanHeap) (e : HeapEntry) : Bool :=
  let f := s.h 0
  if e.pqDist ≠ f.pqDist then e.pqDist < f.pqDist
  else if e.leafSlot ≠ f.leafSlot then e.leafSlot < f.leafSlot
  else e.localIdx < f.localIdx

def replaceTop (s : RawScanHeap) (e : HeapEntry) : RawScanHeap :=
  { s with h := BoundedHeap.replaceTop id s.size s.h e }

/-- `heap_init`. -/
def init (w : ℕ) : RawScanHeap := ⟨w, heapInit, w⟩

/-- The loop that fills a heap that is not full yet. -/
def fill : RawScanHeap → List HeapEntry → RawScanHeap
  | s, [] => s
  | s, e :: rest =>
    if ¬ e.IsReal then fill s rest
    else
      let s := s.push e
      if s.full then s else fill s rest

/-- The loop over the lanes of a block that is not passed over. -/
def displace (pq8 : Bool) (s : RawScanHeap) (e : HeapEntry) : RawScanHeap :=
  if pq8 ∧ ¬ e.IsReal then s
  else if s.shouldReplace e then s.replaceTop e
  else s

end RawScanHeap

namespace PqLeaf

def lanes (a : Arch) (slot : ℕ) (l : PqLeaf) (b : ℕ) : List HeapEntry :=
  (List.range l.codesPerBlock).map fun j =>
    .make (l.out a b j).toNat slot (b * l.codesPerBlock + j)

def scanBlock (a : Arch) (slot : ℕ) (l : PqLeaf) (s : RawScanHeap) (b : ℕ) : RawScanHeap :=
  let lanes := l.lanes a slot b
  let s := if s.full then s else s.fill lanes
  if ¬ s.full then s
  else if s.front < u32Min (l.out a b) l.codesPerBlock then s
  else lanes.foldl (RawScanHeap.displace l.pq8) s

/-- `scan_leaf`, for the leaf in the given slot of the candidate list. -/
def scan (a : Arch) (slot : ℕ) (l : PqLeaf) (s : RawScanHeap) : RawScanHeap :=
  if l.rows = 0 then s else (List.range l.nBlocks).foldl (l.scanBlock a slot) s

end PqLeaf

/-- One heap for a list of leaves with their slots. -/
def pqScan (a : Arch) (w : ℕ) (ps : List (ℕ × PqLeaf)) : RawScanHeap :=
  ps.foldl (fun s p => p.2.scan a p.1 s) (.init w)

/-- The entries of a heap that are not sentinels. -/
def RawScanHeap.real (s : RawScanHeap) : List HeapEntry := (slots s.size s.h).filter (HeapEntry.IsReal ·)

/-- The heaps of several threads, merged and cut as `search` does it. -/
def pqMerge (a : Arch) (w : ℕ) (shards : List (List (ℕ × PqLeaf))) : List HeapEntry :=
  (mergeHeaps w (shards.flatMap fun shard => slots (pqScan a w shard).size (pqScan a w shard).h)).filter
    (HeapEntry.IsReal ·)

end SextantTree
