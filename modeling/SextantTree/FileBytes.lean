import SextantTree.Pages
import SextantTree.ByteMem

/-!
The tree file as bytes: `PageFile` over `pread`, `pwrite` and `ftruncate`, and the superblock in
its first two pages. Unlike the page file of `Pages`, nothing is assumed of what a page holds.
-/

namespace SextantTree.FileBytes

open ByteMem Pages

def kInvalidPage : ℕ := 0xFFFFFFFFFFFFFFFF

def kSuperblockMagic : ℕ := 0x0045525454584553

/-- The exceptions that leave the code modelled here. -/
inductive Error
  | unexpectedEof (page short : ℕ)
  | neitherCopyValid
  | missingLeafTable
  | lengthError

def Error.what (path : String) : Error → String
  | .unexpectedEof page short =>
    "PageFile::read_pages: unexpected EOF on '" ++ path ++ "' at page " ++ toString page ++
      " (short by " ++ toString short ++ " bytes)"
  | .neitherCopyValid => "Superblock::load: neither copy has valid magic on '" ++ path ++ "'"
  | .missingLeafTable => "superblock: missing leaf extent table"
  | .lengthError => "vector::_M_default_append"

/-- A computation stops with an exception, or by touching memory it does not own. -/
inductive Fault
  | thrown (e : Error)
  | outOfBounds

/-- A buffer of `size` bytes. -/
structure Buf where
  size : ℕ
  data : Mem

namespace Buf

/-- A read of the word of `w` bytes at `off`. -/
def word (b : Buf) (w off : ℕ) : Except Fault ℕ :=
  if off + w ≤ b.size then .ok (ByteMem.word b.data w off) else .error .outOfBounds

/-- A read of `n` bytes at `off`. -/
def bytes (b : Buf) (off n : ℕ) : Except Fault (List UInt8) :=
  if off + n ≤ b.size then .ok (peek b.data off n) else .error .outOfBounds

end Buf

structure ByteFile where
  size : ℕ
  data : Mem

namespace ByteFile

/-- `num_pages`: a partial page at the end counts. -/
def numPages (f : ByteFile) : ℕ := (f.size + kPageSize - 1) / kPageSize

/-- The file's bytes, with the zeros that growing it fills in. -/
def contents (f : ByteFile) : Mem := fun i => if i < f.size then f.data i else 0

def offset (page : ℕ) : ℕ := page * kPageSize % 2 ^ 64

/-- `read_pages` into a buffer of that many pages, without the debug build's bounds check. -/
def readPages (f : ByteFile) (page n : ℕ) : Except Fault Buf :=
  if n = 0 then .ok ⟨0, fun _ => 0⟩
  else if offset page + n * kPageSize ≤ f.size then
    .ok ⟨n * kPageSize, fun i => f.data (offset page + i)⟩
  else
    .error (.thrown (.unexpectedEof page (n * kPageSize - (f.size - offset page))))

/-- `write_pages`. A write behind the end leaves zeros before it. -/
def writePages (f : ByteFile) (page : ℕ) (b : List UInt8) : ByteFile :=
  { size := max f.size (offset page + b.length), data := poke f.contents (offset page) b }

/-- `truncate`. -/
def truncate (f : ByteFile) (n : ℕ) : ByteFile :=
  { size := offset n, data := f.contents }

end ByteFile

/-! ### Superblock -/

/-- `Superblock`: the bytes of `SuperblockDisk`. -/
structure Superblock where
  disk : Mem

namespace Superblock

variable (sb : Superblock)

def commitSeq : ℕ := word sb.disk 8 8
def rootNodePage : ℕ := word sb.disk 8 16
def rootNodePages : ℕ := word sb.disk 4 24
def nPages : ℕ := word sb.disk 8 40
def freeListHead : ℕ := word sb.disk 8 48
def nFreePages : ℕ := word sb.disk 8 56
def allocBitmapPage : ℕ := word sb.disk 8 64
def allocBitmapPages : ℕ := word sb.disk 4 72
def codebookPage : ℕ := word sb.disk 8 80
def codebookPages : ℕ := word sb.disk 4 88
def configPage : ℕ := word sb.disk 8 96
def configPages : ℕ := word sb.disk 4 104
def pcaPage : ℕ := word sb.disk 8 112
def pcaPages : ℕ := word sb.disk 4 120
def cardinalityPage : ℕ := word sb.disk 8 128
def cardinalityPages : ℕ := word sb.disk 4 136
def leafTablePage : ℕ := word sb.disk 8 144
def leafTablePages : ℕ := word sb.disk 4 152
def planePage : ℕ := word sb.disk 8 160
def planePages : ℕ := word sb.disk 4 168

def setNPages (n : ℕ) : Superblock := ⟨poke sb.disk 40 (leBytes 8 n)⟩

def setFreeList (head nFree : ℕ) : Superblock :=
  ⟨poke (poke sb.disk 48 (leBytes 8 head)) 56 (leBytes 8 nFree)⟩

def setBitmap (page pages : ℕ) : Superblock :=
  ⟨poke (poke sb.disk 64 (leBytes 8 page)) 72 (leBytes 4 pages)⟩

def valid (b : Buf) : Bool := word b.data 8 0 == kSuperblockMagic

/-- `load`: the valid copy with the higher `commit_seq`. -/
def load (f : ByteFile) : Except Fault Superblock := do
  let active ← f.readPages 0 1
  let shadow ← f.readPages 1 1
  match valid active, valid shadow with
  | false, false => .error (.thrown .neitherCopyValid)
  | true, true =>
    .ok (if commitSeq ⟨shadow.data⟩ ≤ commitSeq ⟨active.data⟩ then ⟨active.data⟩ else ⟨shadow.data⟩)
  | true, false => .ok ⟨active.data⟩
  | false, true => .ok ⟨shadow.data⟩

/-- The superblock `commit` writes. -/
def next : Superblock := ⟨poke sb.disk 8 (leBytes 8 ((sb.commitSeq + 1) % 2 ^ 64))⟩

/-- `commit`: even sequence numbers go to page 0, odd ones to page 1. -/
def commit (f : ByteFile) : ByteFile :=
  f.writePages (if sb.next.commitSeq % 2 = 0 then 0 else 1) (peek sb.next.disk 0 kPageSize)

end Superblock

end SextantTree.FileBytes
