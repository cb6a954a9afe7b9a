import Mathlib.Data.UInt
import Mathlib.Order.Basic

/-!
The frequency sketch of the block cache and the leaf cache: a table of words, sixteen counters of four
bits in each. A key has one counter in each of four rows of a block; they are halved when enough
additions were made. The threads take turns here, one call after the other.
-/

namespace SextantTree

structure FrequencySketch where
  /-- `table_`, with `table_size_` words; a null pointer before the first `ensure_capacity`. -/
  table : Option (List UInt64) := none
  sampleSize : UInt32 := 0
  blockMask : UInt32 := 0
  size : UInt32 := 0

namespace FrequencySketch

def minSketchSize : UInt32 := 256

def resetMask : UInt64 := 0x7777777777777777

def oneMask : UInt64 := 0x1111111111111111

def ceilingPowerOfTwo (v : UInt32) : UInt32 :=
  let v := v - 1
  let v := v ||| (v >>> 1)
  let v := v ||| (v >>> 2)
  let v := v ||| (v >>> 4)
  let v := v ||| (v >>> 8)
  let v := v ||| (v >>> 16)
  v + 1

def spread (x : UInt32) : UInt32 :=
  let x := x ^^^ (x >>> 17)
  let x := x * 0xed5ad4bb
  let x := x ^^^ (x >>> 11)
  let x := x * 0xac4c1b51
  x ^^^ (x >>> 15)

def rehash (x : UInt32) : UInt32 :=
  let x := x * 0x31848bab
  x ^^^ (x >>> 14)

def popcount (x : UInt64) : UInt64 :=
  let x : UInt64 := x - ((x >>> 1) &&& (0x5555555555555555 : UInt64))
  let x : UInt64 := (x &&& (0x3333333333333333 : UInt64)) +
    ((x >>> 2) &&& (0x3333333333333333 : UInt64))
  let x : UInt64 := (x + (x >>> 4)) &&& (0x0f0f0f0f0f0f0f0f : UInt64)
  (x * (0x0101010101010101 : UInt64)) >>> 56

def ensureCapacity (s : FrequencySketch) (maximumEntries : UInt32) : FrequencySketch :=
  let maximum := max maximumEntries minSketchSize
  let newSize := ceilingPowerOfTwo maximum
  if s.table.any fun t => maximum.toNat ≤ t.length then s
  else
    { table := some (List.replicate newSize.toNat 0)
      sampleSize := 10 * maximum
      blockMask := (newSize >>> 3) - 1
      size := 0 }

/-- The slot and the index of the counter of a key in row `i`. -/
def counterOf (blockMask : UInt32) (key : UInt64) (i : UInt32) : UInt32 × UInt32 :=
  let blockHash : UInt32 := spread key.toUInt32
  let counterHash : UInt32 := rehash blockHash
  let block : UInt32 := (blockHash &&& blockMask) <<< 3
  let h : UInt32 := counterHash >>> (i <<< 3)
  (block + (h &&& (1 : UInt32)) + (i <<< 1), (h >>> 1) &&& (15 : UInt32))

def rows : List UInt32 := [0, 1, 2, 3]

/-- There is no result where the table is read behind its end. -/
def frequency (s : FrequencySketch) (key : UInt64) : Option UInt32 :=
  match s.table with
  | none => some 0
  | some t => rows.foldlM (fun (frequency : UInt32) i => do
      let (slot, index) := counterOf s.blockMask key i
      let word ← t[slot.toNat]?
      return min frequency ((word >>> (index <<< 2).toUInt64) &&& 0xf).toUInt32) 15

/-- The table after it, and whether the counter was incremented. -/
def incrementAt (t : List UInt64) (i j : UInt32) : Option (List UInt64 × Bool) := do
  let offset := (j <<< 2).toUInt64
  let mask : UInt64 := 0xf <<< offset
  let increment : UInt64 := 1 <<< offset
  let old ← t[i.toNat]?
  if old &&& mask = mask then return (t, false)
  else return (t.set i.toNat (old + increment), true)

/-- The additions of `increment`, and whether they make a reset due. -/
def add (s : FrequencySketch) (key : UInt64) : Option (FrequencySketch × Bool) :=
  match s.table with
  | none => some (s, false)
  | some t => do
    let (t, added) ← rows.foldlM (fun (x : List UInt64 × Bool) i => do
      let (slot, index) := counterOf s.blockMask key i
      let (t, a) ← incrementAt x.1 slot index
      return (t, x.2 || a)) (t, false)
    if added then
      let size := s.size + 1
      return ({ s with table := some t, size := size }, size = s.sampleSize)
    else return ({ s with table := some t }, false)

/-- The odd counters, as `reset` counts them. -/
def oddCounters (t : List UInt64) : UInt64 :=
  t.foldl (fun (count slot : UInt64) => count + popcount (slot &&& oneMask)) 0

def reset (s : FrequencySketch) : FrequencySketch :=
  let t := s.table.getD []
  let count := oddCounters t
  { s with
    table := s.table.map fun t => t.map fun (slot : UInt64) => (slot >>> 1) &&& resetMask
    size := (s.size - (count >>> 2).toUInt32) >>> 1 }

def increment (s : FrequencySketch) (key : UInt64) : Option FrequencySketch := do
  let (s, due) ← s.add key
  return if due then s.reset else s

end FrequencySketch

end SextantTree
