import SextantTree.Heap
import SextantTree.Summary

/-!
What the tree file stores. A page holds a slice of one object (a leaf, a node, a blob), a
superblock copy, a slice of the allocation bitmap, or the link word of a free page. An
extent is read back by asking each of its pages for the same object in order; a run of
pages that does not hold one object is bytes nobody wrote as such, and reading it is
undefined here.
-/

namespace SextantTree

open Pages Alloc FilterHash

/-- A vector, its components exact. -/
abbrev Vec : Type := List ℚ

/-- The stored code of one row, with its bias where the family keeps one. -/
abbrev Code : Type := Bytes

abbrev RowId : Type := ℕ

/-- A page and an extent length as headers and tables store them; `none` is `kInvalidPage`. -/
structure Extent where
  page : Option ℕ
  pages : ℕ
deriving DecidableEq, Repr

def Extent.invalid : Extent := ⟨none, 0⟩

abbrev LeafTableEntry : Type := Extent

def pagesFor (bytes : ℕ) : ℕ := (bytes + kPageSize - 1) / kPageSize

instance (s : Schema) : DecidableEq (FilterRow s) := fun a b =>
  decidable_of_iff (a.cells = b.cells) ⟨fun h => by cases a; cases b; cases h; rfl, fun h => h ▸ rfl⟩

structure LeafRow (s : Schema) where
  rowId : RowId
  code : Code
  filter : FilterRow s
deriving DecidableEq

/-- A leaf extent: the header fields the engine reads, the summary and the rows. -/
structure Leaf (s : Schema) where
  rows : List (LeafRow s)
  summary : Summary
  summaryDirty : Bool
  /-- `filter_columns_offset` is not zero. -/
  hasFilterColumns : Bool
  extentPages : ℕ
  payload : Extent
  /-- Per-leaf coder state: levels or codebook of the local families. -/
  state : Bytes
deriving DecidableEq

def Leaf.count {s : Schema} (l : Leaf s) : ℕ := l.rows.length

/-- A child of an internal node. For a leaf, `childPage` is its position in the leaf table. -/
structure ChildEntry where
  childPage : Option ℕ
  childPages : ℕ
  isLeaf : Bool
  centroid : Vec
  summary : Summary
deriving DecidableEq

structure Node where
  children : List ChildEntry
  extentPages : ℕ
deriving DecidableEq

structure Manifest where
  dim : ℕ
  depth : ℕ
  kRoot : ℕ
  kL1 : ℕ
  leafCapacity : ℕ
  nVectors : ℕ
  nLeaves : ℕ
  pcaDims : ℕ
deriving DecidableEq, Repr

/-- The objects stored in extents. -/
inductive Obj (s : Schema)
  | leaf (l : Leaf s)
  | node (n : Node)
  | payload (bytes : Bytes)
  | leafTable (entries : List LeafTableEntry)
  /-- The TOML text of a manifest, `bytes` long. -/
  | config (m : Manifest) (bytes : ℕ)
  | pca (floats : List ℚ)
  | blob (bytes : Bytes)
deriving DecidableEq

def Obj.pages {s : Schema} : Obj s → ℕ
  | leaf l => l.extentPages
  | node n => n.extentPages
  | payload b => pagesFor b.length
  | leafTable es => pagesFor (8 + es.length * 12)
  | config _ bytes => pagesFor bytes
  | pca fs => pagesFor (fs.length * 4)
  | blob b => pagesFor b.length

structure SuperblockDisk where
  commitSeq : ℕ
  root : Extent
  depth : ℕ
  nLeaves : ℕ
  nPages : ℕ
  freeListHead : Option ℕ
  nFreePages : ℕ
  bitmapPage : ℕ
  bitmapPages : ℕ
  codebook : Extent
  config : Extent
  pca : Extent
  cardinality : Extent
  leafTable : Extent
  plane : Extent
deriving DecidableEq, Repr

/-- The contents of one page. -/
inductive Img (s : Schema)
  | zero
  | link (next : Option ℕ)
  | bitmap (bits : ℕ)
  | super (sb : SuperblockDisk)
  | part (o : Obj s) (i : ℕ)

/-- The allocator reads link words of free pages and bits of bitmap pages only; what it would
see in another page does not matter. -/
instance (s : Schema) : PageImage (Img s) where
  zero := .zero
  link := .link
  next
    | .link n => n
    | .zero => some 0
    | _ => none
  bitmapPage := .bitmap
  bits
    | .bitmap b => b
    | _ => 0
  next_link _ := rfl
  bits_bitmapPage _ _ := rfl

abbrev TreeFile (s : Schema) : Type := PageFile (Img s)
abbrev TreeVol (s : Schema) : Type := Vol (Img s)

/-! ### Failures -/

inductive ErrorKind
  /-- An exception with its text. -/
  | thrown (what : String)
  /-- An exception of the allocator. -/
  | alloc (e : AllocError)
  /-- The language gives the program no meaning: an access out of bounds, or bytes read as an
  object that is not there. -/
  | undefined
  /-- A loop ran out of the steps it was given. -/
  | diverged
deriving DecidableEq

/-- A call that did not return, with the file as it left it. -/
structure Failure (s : Schema) where
  kind : ErrorKind
  file : TreeFile s

section

variable {s : Schema}

/-- Page `i` of the extent at `p` holds slice `i` of `o`. -/
def holdsPart (file : TreeFile s) (p : ℕ) (o : Obj s) (i : ℕ) : Bool :=
  match file.pages (p + i) with
  | .part o' j => decide (o' = o ∧ j = i)
  | _ => false

/-- The object in an extent of `pages` pages at `page`. -/
def readObj (file : TreeFile s) (page pages : ℕ) : Option (Obj s) :=
  match file.pages page with
  | .part o 0 =>
    if 0 < o.pages ∧ o.pages ≤ pages ∧ page + pages ≤ file.numPages ∧
        (List.range o.pages).all (holdsPart file page o) then some o
    else none
  | _ => none

/-- The object in an extent, if it is one of the kind `sel` picks. -/
def readAs {α : Type} (sel : Obj s → Option α) (file : TreeFile s) (e : Extent) : Option α :=
  e.page.bind fun p => (readObj file p e.pages).bind sel

def readNode (file : TreeFile s) (e : Extent) : Option Node :=
  readAs (fun | .node n => some n | _ => none) file e

def readLeafExtent (file : TreeFile s) (e : Extent) : Option (Leaf s) :=
  readAs (fun | .leaf l => some l | _ => none) file e

def readLeafTable (file : TreeFile s) (e : Extent) : Option (List LeafTableEntry) :=
  readAs (fun | .leafTable es => some es | _ => none) file e

def readConfig (file : TreeFile s) (e : Extent) : Option Manifest :=
  readAs (fun | .config m _ => some m | _ => none) file e

def readPca (file : TreeFile s) (e : Extent) : Option (List ℚ) :=
  readAs (fun | .pca fs => some fs | _ => none) file e

def readPayload (file : TreeFile s) (e : Extent) : Option Bytes :=
  readAs (fun | .payload b => some b | _ => none) file e

def Obj.image (o : Obj s) (i : ℕ) : Img s := .part o i

/-- `alloc_extent` for an object, then `write_pages`. -/
def writeObj (v : TreeVol s) (o : Obj s) : Extent × TreeVol s :=
  match allocExtent v o.pages with
  | (some p, v') => (⟨some p, o.pages⟩, { v' with file := v'.file.writePages p o.pages o.image })
  | (none, v') => (Extent.invalid, v')

/-- `write_pages` of an object at the page an allocation returned. -/
def writeAt (v : TreeVol s) (page : Option ℕ) (o : Obj s) : TreeVol s :=
  match page with
  | some p => { v with file := v.file.writePages p o.pages o.image }
  | none => v

/-- `free_extent` of a stored extent; an invalid page frees nothing. -/
def freeAt (v : TreeVol s) (e : Extent) : TreeVol s :=
  match e.page with
  | some p => freeExtent v p e.pages
  | none => v

/-! ### The superblock -/

def kSuperblockPage : ℕ := 0
def kSuperblockShadowPage : ℕ := 1

def readCopy (file : TreeFile s) (page : ℕ) : Option SuperblockDisk :=
  match file.pages page with
  | .super sb => some sb
  | _ => none

/-- `Superblock::load`: the valid copy with the higher sequence number. -/
def loadSuperblock (file : TreeFile s) : Option SuperblockDisk :=
  match readCopy file kSuperblockPage, readCopy file kSuperblockShadowPage with
  | some active, some shadow =>
    if shadow.commitSeq ≤ active.commitSeq then some active else some shadow
  | some active, none => some active
  | none, shadow => shadow

/-- The copy a commit with that sequence number writes. -/
def shadowPage (commitSeq : ℕ) : ℕ :=
  if commitSeq % 2 = 0 then kSuperblockPage else kSuperblockShadowPage

/-- `Superblock::commit`. -/
def commitSuperblock (file : TreeFile s) (sb : SuperblockDisk) : TreeFile s × SuperblockDisk :=
  let sb := { sb with commitSeq := sb.commitSeq + 1 }
  (file.writePage (shadowPage sb.commitSeq) (.super sb), sb)

end

/-! ### Sizes -/

/-- `child_entry_size`, rounded up to the alignment of a child entry. -/
def childEntrySize (dim summarySize : ℕ) : ℕ := (24 + dim * 2 + summarySize + 7) / 8 * 8

def nodeExtentBytes (dim nChildren summarySize : ℕ) : ℕ :=
  32 + childEntrySize dim summarySize * nChildren

def nodeExtentPages (dim nChildren summarySize : ℕ) : ℕ :=
  pagesFor (nodeExtentBytes dim nChildren summarySize)

def align4 (n : ℕ) : ℕ := (n + 3) / 4 * 4

/-- The bytes of a string cell, and of the elements of a set cell with their length words. -/
def Cell.dataBytes : Cell → ℕ
  | .string v => v.length
  | .set elems => (elems.map fun e => 2 + e.length).sum
  | _ => 0

def Cell.elements : Cell → ℕ
  | .set elems => elems.length
  | _ => 0

/-- The end of a column that starts at byte `total`. -/
def columnEnd (col : FilterColumn) (cells : List (Option Cell)) (total : ℕ) : ℕ :=
  let count := cells.length
  let data := (cells.map fun c => c.elim 0 Cell.dataBytes).sum
  let elems := (cells.map fun c => c.elim 0 Cell.elements).sum
  let total :=
    match col.type with
    | .string => align4 (total + count * (4 + 2)) + count * 4 + data
    | .set => align4 (total + count * 1) + count * 4 + elems * 4 + data
    | t => total + count * t.width
  align4 (if col.nullable then total + count else total)

/-- `filter_columns_bytes`. -/
def filterColumnsBytes {s : Schema} (rows : List (FilterRow s)) : ℕ :=
  s.columns.zipIdx.foldl (fun total x => columnEnd x.1 (rows.map (·.get x.2)) total) 0

/-! ### Payload extents -/

def u32le (n : ℕ) : Bytes :=
  [UInt8.ofNat n, UInt8.ofNat (n / 2 ^ 8), UInt8.ofNat (n / 2 ^ 16), UInt8.ofNat (n / 2 ^ 24)]

/-- `memcpy` of `b` into a buffer from position `pos` on. -/
def splice (data : Bytes) (pos : ℕ) (b : Bytes) : Bytes :=
  data.take pos ++ b ++ data.drop (pos + b.length)

/-- The offsets and the data region of a payload extent; the running offset has 32 bits. -/
def layPayload (data : Bytes) : (acc : ℕ) → List Bytes → List ℕ × Bytes
  | _, [] => ([], data)
  | acc, b :: bs =>
    let rest := layPayload (splice data acc b) ((acc + b.length) % 2 ^ 32) bs
    (acc :: rest.1, rest.2)

/-- A payload extent: offsets, lengths, data. -/
def payloadImage (ps : List Bytes) : Bytes :=
  let laid := layPayload (List.replicate (ps.map List.length).sum 0) 0 ps
  laid.1.flatMap u32le ++ ps.flatMap (fun p => u32le p.length) ++ laid.2

/-- The bytes of an extent as read: padded with zeros to whole pages. -/
def padded (b : Bytes) : Bytes := b ++ List.replicate (pagesFor b.length * kPageSize - b.length) 0

/-- Word `i` of a buffer. -/
def u32At (b : Bytes) (i : ℕ) : Option ℕ :=
  match (b.drop (4 * i)).take 4 with
  | [x0, x1, x2, x3] =>
    some (x0.toNat + x1.toNat * 2 ^ 8 + x2.toNat * 2 ^ 16 + x3.toNat * 2 ^ 24)
  | _ => none

/-- The bytes from `pos` to `pos + len` of a buffer that has them. -/
def slice (b : Bytes) (pos len : ℕ) : Option Bytes :=
  if pos + len ≤ b.length then some ((b.drop pos).take len) else none

/-! ### Coders -/

inductive CoderFamily
  | globalPq | localPq | scalarLm | localScalar
deriving DecidableEq, Repr

/-- The families whose codes depend on state kept in the leaf. -/
def CoderFamily.isLocal : CoderFamily → Bool
  | localPq | localScalar => true
  | _ => false

/-- The coder of a quantizer family as the tree uses it. Which codes it picks is its own
business; the tree relies on there being one code a vector, on `extent_bytes` growing with
the rows, and on the families with a global codebook moving codes unchanged. -/
structure LeafCoder where
  family : CoderFamily
  familyName : String
  /-- `extent_bytes` of that many rows, the summary included and the filter columns not. -/
  extentBytes : ℕ → ℕ
  extentBytes_pos : ∀ n, 0 < extentBytes n
  extentBytes_mono : Monotone extentBytes
  /-- `flush_leaf`: the per-leaf state and the codes of a new leaf. -/
  flushLeaf : List Vec → Bytes × List Code
  length_flushLeaf : ∀ vs, (flushLeaf vs).2.length = vs.length
  /-- `append_encode` of one vector, the state frozen. -/
  appendEncode : Bytes → Vec → Code
  /-- `plan_split`: whether a row of the leaf with that id goes to the second group. -/
  splitAssign : Bytes → List Code → ℕ → ℕ → Bool
  /-- The centroid `plan_split` gives a group. -/
  splitCentroid : Bytes → List Code → ℕ → Bool → Vec
  /-- `encode_group`: state and codes of a group of rows of a split leaf. -/
  encodeGroup : Bytes → List Code → Bytes × List Code
  length_encodeGroup : ∀ st cs, (encodeGroup st cs).2.length = cs.length
  encodeGroup_global : family.isLocal = false → ∀ st cs, (encodeGroup st cs).2 = cs
  /-- `serialize_global`, for the families with a global state. -/
  serializeGlobal : Option Bytes

end SextantTree
