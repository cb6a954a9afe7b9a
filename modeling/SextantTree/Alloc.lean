import SextantTree.Pages

/-!
The extent allocator of the page file, as the code computes it.

The bitmap is the byte vector of the source read as one number: bit `i` of the vector is
bit `i` of the number, and `size` is the length of the vector in bytes. The free list
lives in the free pages themselves, each holding the id of the next one. Page numbers are not
bounded; the counter of free pages has 64 bits, and a bitmap region is counted in 32.
-/

namespace SextantTree.Alloc

open SextantTree.Pages

/-- The in-memory allocation bitmap; a set bit is an allocated page. -/
structure Bitmap where
  size : ℕ
  bits : ℕ
  deriving DecidableEq

def bitGet (bm : Bitmap) (bit : ℕ) : Bool := bm.bits.testBit bit

def bitSet (bm : Bitmap) (bit : ℕ) : Bitmap := { bm with bits := bm.bits ||| 1 <<< bit }

def bitClear (bm : Bitmap) (bit : ℕ) : Bitmap :=
  { bm with bits := bm.bits ^^^ (bm.bits &&& 1 <<< bit) }

/-- The scan of `findFreeRun` from bit `i` on, with `fuel` bits left. -/
def findFreeRunFrom (bm : Bitmap) (count : ℕ) : (fuel i runStart runLen : ℕ) → Option ℕ
  | 0, _, _, _ => none
  | fuel + 1, i, runStart, runLen =>
    if bitGet bm i then findFreeRunFrom bm count fuel (i + 1) (i + 1) 0
    else if count ≤ runLen + 1 then some runStart
    else findFreeRunFrom bm count fuel (i + 1) runStart (runLen + 1)

/-- The first run of `count` clear bits in `[from, nBits)`. -/
def findFreeRun (bm : Bitmap) (start nBits count : ℕ) : Option ℕ :=
  findFreeRunFrom bm count (nBits - start) start start 0

structure PageAllocator where
  bitmapPage : ℕ
  bitmapPages : ℕ
  nPages : ℕ
  freeListHead : Option ℕ
  nFreePages : ℕ
  bitmap : Bitmap
  deriving DecidableEq

/-- The file together with the allocator working on it. -/
structure Vol (P : Type) where
  file : PageFile P
  alloc : PageAllocator

/-- `grow_bitmap`: the vector is extended with zero bytes, so the number does not change. -/
def growBitmap (bm : Bitmap) (nPages : ℕ) : Bitmap :=
  { bm with size := max bm.size ((nPages + 7) / 8) }

variable {P : Type} [PageImage P]

/-- The pages the format reserves: the two superblocks and the bitmap. -/
def PageAllocator.firstFree (a : PageAllocator) : ℕ := a.bitmapPage + a.bitmapPages

def init (file : PageFile P) (bitmapPage bitmapPages : ℕ) : PageAllocator :=
  let firstFree := bitmapPage + bitmapPages
  let bm := (List.range firstFree).foldl bitSet (growBitmap ⟨0, 0⟩ firstFree)
  let nPages := max firstFree file.numPages
  { bitmapPage := bitmapPage
    bitmapPages := bitmapPages
    nPages := nPages
    freeListHead := none
    nFreePages := 0
    bitmap := growBitmap bm nPages }

inductive AllocError
  /-- `load`: the file has more pages than its bitmap region addresses. -/
  | outgrewRegion (nPages covered : ℕ)
  /-- `flush_bitmap`: the in-memory bitmap no longer fits its region. -/
  | underProvisioned (inMemory reserved : ℕ)
  deriving DecidableEq

/-- The bitmap bytes stored in `n` pages from page `start` on. -/
def readBits (file : PageFile P) (start : ℕ) : ℕ → ℕ
  | 0 => 0
  | n + 1 => PageImage.bits (file.pages start) + 2 ^ pageBits * readBits file (start + 1) n

def load (file : PageFile P) (bitmapPage bitmapPages nPages : ℕ) (freeListHead : Option ℕ)
    (nFreePages : ℕ) : Except AllocError PageAllocator :=
  if 0 < bitmapPages ∧ bitmapPages * kPageSize * 8 < nPages then
    .error (.outgrewRegion nPages (bitmapPages * kPageSize * 8))
  else
    let bm := growBitmap ⟨0, 0⟩ nPages
    .ok
      { bitmapPage := bitmapPage
        bitmapPages := bitmapPages
        nPages := nPages
        freeListHead := freeListHead
        nFreePages := nFreePages
        bitmap := ⟨max bm.size (bitmapPages * kPageSize), readBits file bitmapPage bitmapPages⟩ }

/-- The free pages below `n`, counted off the bitmap. -/
def countFree (bm : Bitmap) (n : ℕ) : ℕ := (List.range n).countP fun i => !bitGet bm i

def clearFreeList (a : PageAllocator) : PageAllocator :=
  { a with freeListHead := none, nFreePages := countFree a.bitmap a.nPages % 2 ^ 64 }

/-- The counter of free pages, one down. -/
def countDown (n : ℕ) : ℕ := if n = 0 then 2 ^ 64 - 1 else n - 1

def grow (v : Vol P) (extraPages : ℕ) : Vol P where
  file := v.file.truncate (v.alloc.nPages + extraPages)
  alloc :=
    { v.alloc with
      bitmap := growBitmap v.alloc.bitmap (v.alloc.nPages + extraPages)
      nPages := v.alloc.nPages + extraPages
      nFreePages := (v.alloc.nFreePages + extraPages) % 2 ^ 64 }

/-- One page taken by number: its bit is set and the free counter goes down. -/
def take (v : Vol P) (page : ℕ) : Vol P :=
  { v with
    alloc :=
      { v.alloc with
        bitmap := bitSet v.alloc.bitmap page
        nFreePages := countDown v.alloc.nFreePages } }

/-- Steps 2 and 3 of `alloc_page`: the bitmap scan, then one page more. -/
def allocByScan (v : Vol P) : ℕ × Vol P :=
  match findFreeRun v.alloc.bitmap 0 v.alloc.nPages 1 with
  | some found => (found, take v found)
  | none =>
    let v' := grow v 1
    (v'.alloc.nPages - 1, take v' (v'.alloc.nPages - 1))

/-- The free list is a hint: an entry whose bit is set is stale, and the whole chain is
dropped. The loop of the source leaves in its first round either way. -/
def allocPage (v : Vol P) : ℕ × Vol P :=
  match v.alloc.freeListHead with
  | some page =>
    if bitGet v.alloc.bitmap page then
      allocByScan { v with alloc := clearFreeList v.alloc }
    else
      let v' := { v with
        alloc := { v.alloc with freeListHead := PageImage.next (v.file.pages page) } }
      (page, take v' page)
  | none => allocByScan v

/-- One page of `mark_allocated`; the counter moves only if the page was free. -/
def markOne (a : PageAllocator) (page : ℕ) : PageAllocator :=
  { a with
    nFreePages := if bitGet a.bitmap page then a.nFreePages else countDown a.nFreePages
    bitmap := bitSet a.bitmap page }

def markAllocated (a : PageAllocator) (start count : ℕ) : PageAllocator :=
  (List.range count).foldl (fun b i => markOne b (start + i)) a

def allocExtent (v : Vol P) (count : ℕ) : Option ℕ × Vol P :=
  if count = 0 then (none, v)
  else if count = 1 then
    let r := allocPage v
    (some r.1, r.2)
  else
    match findFreeRun v.alloc.bitmap 0 v.alloc.nPages count with
    | some found => (some found, { v with alloc := markAllocated v.alloc found count })
    | none =>
      let v' := grow v count
      match findFreeRun v'.alloc.bitmap 0 v'.alloc.nPages count with
      | some found => (some found, { v' with alloc := markAllocated v'.alloc found count })
      | none => (none, v')

/-- A page that is allocated is stamped with the current head and becomes the new head. -/
def freeOne (v : Vol P) (page : ℕ) : Vol P :=
  if bitGet v.alloc.bitmap page then
    { file := v.file.writePage page (PageImage.link v.alloc.freeListHead)
      alloc :=
        { v.alloc with
          bitmap := bitClear v.alloc.bitmap page
          freeListHead := some page
          nFreePages := (v.alloc.nFreePages + 1) % 2 ^ 64 } }
  else v

def freePage (v : Vol P) : Option ℕ → Vol P
  | none => v
  | some page => freeOne v page

def freeExtent (v : Vol P) (start count : ℕ) : Vol P :=
  (List.range count).foldl (fun w i => freeOne w (start + i)) v

/-- The bitmap pages written by `flush_bitmap`, the tail padded with zeros. -/
def bitmapImage (bm : Bitmap) (i : ℕ) : P :=
  PageImage.bitmapPage (bm.bits / 2 ^ (pageBits * i) % 2 ^ pageBits)

/-- `flush_bitmap`, its bytes counted in 32 bits; `none` when `write_pages` is handed a buffer
shorter than the region. -/
def flushBitmap (v : Vol P) : Option (Except AllocError (PageFile P)) :=
  let bytesToWrite := v.alloc.bitmapPages * kPageSize % 2 ^ 32
  if v.alloc.bitmapPages = 0 then some (.ok v.file)
  else if bytesToWrite < v.alloc.bitmap.size then
    some (.error (.underProvisioned v.alloc.bitmap.size bytesToWrite))
  else if bytesToWrite < v.alloc.bitmapPages * kPageSize then none
  else some (.ok (v.file.writePages v.alloc.bitmapPage v.alloc.bitmapPages
    (bitmapImage v.alloc.bitmap)))

end SextantTree.Alloc
