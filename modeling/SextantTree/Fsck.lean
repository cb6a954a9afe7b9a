import SextantTree.FileBytes
import SextantTree.StackWalk

/-!
`fsck` over the bytes of a tree file: the walk from the root, the page accounting against the
bitmap, and the repair that rebuilds bitmap and free list. A read outside a loaded buffer is a
fault of its own, distinct from an exception. Parsing the configuration blob rests on a TOML
library and is a parameter.
-/

namespace SextantTree.Fsck

open ByteMem Pages FileBytes

def kTreeNodeMagic : ℕ := 0x54524E4F
def kTreeLeafMagic : ℕ := 0x544C4546

/-- What the walk needs of `TreeManifest`. -/
structure Manifest where
  dim : ℕ := 0
  summarySize : ℕ := 0

/-- `child_entry_size`: the dimension is passed in 16 bits, the size is held in 32. -/
def childEntrySize (dim summarySize : ℕ) : ℕ :=
  let raw := (24 + dim % 2 ^ 16 * 2 + summarySize) % 2 ^ 32
  (raw + 7) % 2 ^ 32 / 8 * 8

/-! ### Checksum -/

def crcStep (c : UInt32) : UInt32 :=
  if c &&& 1 = 1 then (0xEDB88320 : UInt32) ^^^ (c >>> 1) else c >>> 1

/-- An entry of the table `compute_crc32` builds once. -/
def crcTable (i : UInt32) : UInt32 := crcStep^[8] i

def computeCrc32 (b : List UInt8) : UInt32 :=
  (b.foldl (fun crc x => crcTable ((crc ^^^ x.toUInt32) &&& 0xFF) ^^^ (crc >>> 8))
    0xFFFFFFFF : UInt32) ^^^ 0xFFFFFFFF

/-- The checksum stored at `off` is that of the bytes before it. -/
def crcOk (b : Buf) (off : ℕ) : Except Fault Bool := do
  let head ← b.bytes 0 off
  let stored ← b.word 4 off
  .ok (stored == (computeCrc32 head).toNat)

/-! ### Walk -/

structure PageRange where
  start : ℕ
  count : ℕ

structure TreeWalkResult where
  nodeRanges : List PageRange := []
  leafRanges : List PageRange := []
  payloadRanges : List PageRange := []
  nNodes : ℕ := 0
  nLeaves : ℕ := 0
  totalLeafCount : ℕ := 0
  totalLeafBlocks : ℕ := 0
  planeV2Leaves : ℕ := 0
  planeOffsetBad : ℕ := 0
  maxDepth : ℕ := 0
  magicFailures : ℕ := 0
  crcFailures : ℕ := 0
  pointersOk : Bool := true

/-- The leaf extent table in memory: entry `i` is 12 bytes from `8 + 12 * i` on. -/
structure LeafTable where
  size : ℕ
  blob : Mem

/-- The most 12-byte entries a vector may have, `(2 ^ 63 - 1) / 12`. -/
def maxEntries : ℕ := 768614336404564650

/-- The table is sized by the count in the blob; the `memcpy` of its entries is not checked
against the blob. -/
def copyLeafTable (blob : Buf) : Except Fault LeafTable := do
  let nEntries ← blob.word 8 0
  if maxEntries < nEntries then .error (.thrown .lengthError)
  else if 8 + nEntries * 12 ≤ blob.size then .ok ⟨nEntries, blob.data⟩
  else .error .outOfBounds

def loadLeafTable (f : ByteFile) (sb : Superblock) : Except Fault LeafTable :=
  if sb.leafTablePage = kInvalidPage ∨ sb.leafTablePages = 0 then
    .error (.thrown .missingLeafTable)
  else do
    let blob ← f.readPages sb.leafTablePage sb.leafTablePages
    copyLeafTable blob

/-- Where a leaf child is: through the table, or the entry's own words if the table is short. -/
def LeafTable.resolve (t : LeafTable) (leafId pages : ℕ) : PageRange :=
  if leafId < t.size then ⟨word t.blob 8 (8 + leafId * 12), word t.blob 4 (8 + leafId * 12 + 8)⟩
  else ⟨leafId, pages⟩

/-- What `validate_leaf` adds for a leaf whose magic is right. -/
def countLeaf (b : Buf) (pages : ℕ) (r : TreeWalkResult) : Except Fault TreeWalkResult := do
  let ok ← crcOk b 104
  let count ← b.word 8 8
  let planeOffset ← b.word 4 100
  let payloadPage ← b.word 8 64
  let payloadPages ← b.word 4 72
  .ok
    { r with
      crcFailures := if ok then r.crcFailures else r.crcFailures + 1
      totalLeafCount := (r.totalLeafCount + count) % 2 ^ 64
      totalLeafBlocks := (r.totalLeafBlocks + (count + 31) % 2 ^ 64 / 32) % 2 ^ 64
      planeV2Leaves := if planeOffset = 0 then r.planeV2Leaves else r.planeV2Leaves + 1
      planeOffsetBad :=
        if planeOffset ≠ 0 ∧ pages * kPageSize ≤ planeOffset then r.planeOffsetBad + 1
        else r.planeOffsetBad
      payloadRanges :=
        if payloadPage ≠ kInvalidPage ∧ 0 < payloadPages then
          r.payloadRanges ++ [⟨payloadPage, payloadPages⟩]
        else r.payloadRanges }

/-- `validate_leaf`. -/
def validateLeaf (f : ByteFile) (l : PageRange) (r : TreeWalkResult) :
    Except Fault TreeWalkResult := do
  let r := { r with leafRanges := r.leafRanges ++ [l], nLeaves := r.nLeaves + 1 }
  if l.start = kInvalidPage ∨ l.count = 0 then
    .ok { r with magicFailures := r.magicFailures + 1, pointersOk := false }
  else
    let b ← f.readPages l.start l.count
    let magic ← b.word 4 0
    if magic ≠ kTreeLeafMagic then .ok { r with magicFailures := r.magicFailures + 1 }
    else countLeaf b l.count r

structure StackEntry where
  page : ℕ
  pages : ℕ
  depth : ℕ

/-- One child entry, at position `p` of the node's buffer. Pushed entries are kept in front. -/
def walkChild (f : ByteFile) (t : LeafTable) (b : Buf) (depth p : ℕ)
    (acc : List StackEntry × TreeWalkResult) : Except Fault (List StackEntry × TreeWalkResult) := do
  let childPage ← b.word 8 p
  if childPage = kInvalidPage then .ok acc
  else
    let isLeaf ← b.word 2 (p + 16)
    let childPages ← b.word 8 (p + 8)
    if isLeaf ≠ 0 then
      let r ← validateLeaf f (t.resolve childPage (childPages % 2 ^ 32)) acc.2
      .ok (acc.1, r)
    else
      .ok (⟨childPage, childPages % 2 ^ 32, (depth + 1) % 2 ^ 32⟩ :: acc.1,
        { acc.2 with nNodes := acc.2.nNodes + 1 })

/-- The loop over `n` entries from position `p` on. -/
def walkChildren (f : ByteFile) (t : LeafTable) (cesize : ℕ) (b : Buf) (depth : ℕ) :
    ℕ → ℕ → List StackEntry × TreeWalkResult → Except Fault (List StackEntry × TreeWalkResult)
  | 0, _, acc => .ok acc
  | n + 1, p, acc => do
    let acc ← walkChild f t b depth p acc
    walkChildren f t cesize b depth n (p + cesize) acc

/-- The bounds check: the entry's pages are in the file. The sum is taken in 64 bits. -/
def inFile (f : ByteFile) (page pages : ℕ) : Bool :=
  decide (page < f.numPages) && decide ((page + pages) % 2 ^ 64 ≤ f.numPages)

/-- A node with the right magic: its checksum is only counted, its entries are walked. -/
def walkNode (f : ByteFile) (t : LeafTable) (cesize depth : ℕ) (b : Buf) (r : TreeWalkResult) :
    Except Fault (List StackEntry × TreeWalkResult) := do
  let ok ← crcOk b 28
  let nChildren ← b.word 8 8
  walkChildren f t cesize b depth nChildren 32
    ([], { r with crcFailures := if ok then r.crcFailures else r.crcFailures + 1 })

def loadNode (f : ByteFile) (t : LeafTable) (cesize : ℕ) (e : StackEntry) (r : TreeWalkResult) :
    Except Fault (List StackEntry × TreeWalkResult) := do
  let b ← f.readPages e.page e.pages
  let magic ← b.word 4 0
  if magic ≠ kTreeNodeMagic then .ok ([], { r with magicFailures := r.magicFailures + 1 })
  else walkNode f t cesize e.depth b r

/-- One round of the loop of `walk_tree`: the entries it pushes, and the result. -/
def visit (f : ByteFile) (t : LeafTable) (cesize : ℕ) (e : StackEntry) (r : TreeWalkResult) :
    Except Fault (List StackEntry × TreeWalkResult) :=
  if e.page = kInvalidPage then .ok ([], r)
  else if inFile f e.page e.pages = false then
    .ok ([], { r with magicFailures := r.magicFailures + 1, pointersOk := false })
  else
    loadNode f t cesize e
      { r with nodeRanges := r.nodeRanges ++ [⟨e.page, e.pages⟩]
               maxDepth := max r.maxDepth e.depth }

/-- `walk_tree`, with at most `fuel` rounds of its loop. -/
def walkTree (fuel : ℕ) (f : ByteFile) (sb : Superblock) (m : Manifest) :
    Option (Except Fault TreeWalkResult) :=
  match loadLeafTable f sb with
  | .error e => some (.error e)
  | .ok t =>
    StackWalk.run (visit f t (childEntrySize m.dim m.summarySize)) fuel
      [⟨sb.rootNodePage, sb.rootNodePages, 0⟩] {}

/-! ### Page accounting -/

structure FsckResult where
  superblockOk : Bool := false
  commitSeq : ℕ := 0
  rootPage : ℕ := 0
  treeWalkOk : Bool := false
  nNodes : ℕ := 0
  nLeaves : ℕ := 0
  totalLeafCount : ℕ := 0
  maxDepthReached : ℕ := 0
  pageAccountingOk : Bool := false
  totalAllocated : ℕ := 0
  totalFree : ℕ := 0
  totalPages : ℕ := 0
  leakedPages : ℕ := 0
  orphanPages : ℕ := 0
  leafInternalsOk : Bool := false
  crcFailures : ℕ := 0
  magicFailures : ℕ := 0
  payloadOk : Bool := false
  payloadExtents : ℕ := 0
  referentialOk : Bool := false
  duplicateRowIds : ℕ := 0

/-- A range registered unless its page is invalid. -/
def auxRange (page pages : ℕ) : List PageRange := if page = kInvalidPage then [] else [⟨page, pages⟩]

/-- The plane has an extent to register and to check. -/
def hasPlane (sb : Superblock) : Bool :=
  decide (sb.planePage ≠ kInvalidPage) && decide (0 < sb.planePages)

/-- The ranges of the tree and of the blobs beside it. -/
def treeRanges (walk : TreeWalkResult) : List PageRange :=
  walk.nodeRanges ++ walk.leafRanges ++ walk.payloadRanges

def blobRanges (sb : Superblock) : List PageRange :=
  auxRange sb.codebookPage sb.codebookPages ++ auxRange sb.configPage sb.configPages ++
    auxRange sb.pcaPage sb.pcaPages ++ auxRange sb.cardinalityPage sb.cardinalityPages ++
    (if hasPlane sb then [⟨sb.planePage, sb.planePages⟩] else []) ++
    [⟨sb.leafTablePage, sb.leafTablePages⟩]

/-- `all_allocated`. -/
def allAllocated (sb : Superblock) (walk : TreeWalkResult) : List PageRange :=
  treeRanges walk ++ [⟨0, 2⟩] ++ auxRange sb.allocBitmapPage sb.allocBitmapPages ++ blobRanges sb

def PageRange.pages (r : PageRange) : List ℕ :=
  (List.range r.count).map fun i => (r.start + i) % 2 ^ 64

/-- `allocated`, the pages some range claims. -/
def claimed (rs : List PageRange) (p : ℕ) : Bool := rs.any fun r => r.pages.contains p

/-- `parse_plane_header` and the check of the plane's sizes against the walk. -/
def planeSized (b : Buf) (walk : TreeWalkResult) : Except Fault Bool := do
  if b.size < 128 then .ok false
  else
    let magic ← b.word 4 0
    let version ← b.word 4 4
    let encoding ← b.word 1 8
    let flags ← b.word 1 9
    let rank ← b.word 2 10
    let alphaBytes ← b.word 8 72
    let blocksBytes ← b.word 8 88
    if magic ≠ 0x314C5053 ∨ version ≠ 1 ∨ encoding = 0 ∨ 3 < encoding ∨ rank = 0 then .ok false
    else
      let bb := if encoding = 2 then rank * 4 else rank * 16
      if flags.testBit 1 then
        .ok (walk.planeV2Leaves == walk.nLeaves && walk.planeOffsetBad == 0)
      else
        .ok (blocksBytes == walk.totalLeafBlocks * bb % 2 ^ 64 &&
          (encoding != 3 || alphaBytes == walk.totalLeafCount * 2 % 2 ^ 64))

def checkPlane (f : ByteFile) (sb : Superblock) (walk : TreeWalkResult) : Except Fault Bool := do
  if hasPlane sb then
    let b ← f.readPages sb.planePage (min sb.planePages 1)
    planeSized b walk
  else .ok true

/-- `bitmap`: empty unless the superblock names a region. -/
def readBitmap (f : ByteFile) (sb : Superblock) : Except Fault Buf :=
  if sb.allocBitmapPage ≠ kInvalidPage ∧ 0 < sb.allocBitmapPages then
    f.readPages sb.allocBitmapPage sb.allocBitmapPages
  else .ok ⟨0, fun _ => 0⟩

def isBitSet (bitmap : Buf) (p : ℕ) : Bool :=
  if bitmap.size ≤ p / 8 then false else (bitmap.data (p / 8)).toNat.testBit (p % 8)

def account (f : ByteFile) (rs : List PageRange) (bitmap : Buf) (r : FsckResult) : FsckResult :=
  let count (q : ℕ → Bool) := (List.range f.numPages).countP q
  let leaked := count fun p => isBitSet bitmap p && !claimed rs p
  let orphan := count fun p => claimed rs p && !isBitSet bitmap p
  { r with
    totalPages := f.numPages
    totalAllocated := count fun p => claimed rs p
    leakedPages := leaked
    orphanPages := orphan
    totalFree := count fun p => !isBitSet bitmap p && !claimed rs p
    pageAccountingOk := leaked == 0 && orphan == 0 }

/-! ### Repair -/

/-- The bitmap under construction, `rebuilt` and `alloc2`. -/
structure Rebuilt where
  bitmap : Mem
  alloc : ℕ → Bool

def Rebuilt.mark (r : Rebuilt) (p : ℕ) : Rebuilt :=
  { bitmap := Function.update r.bitmap (p / 8) (r.bitmap (p / 8) ||| UInt8.ofNat (2 ^ (p % 8)))
    alloc := Function.update r.alloc p true }

/-- A page of a claimed range. The byte is checked against the bitmap, the page against nothing. -/
def markClaimed (size numPages : ℕ) (r : Rebuilt) (p : ℕ) : Except Fault Rebuilt :=
  if p / 8 < size then
    if p < numPages then .ok (r.mark p) else .error .outOfBounds
  else .ok r

def markOwn (size numPages : ℕ) (r : Rebuilt) (p : ℕ) : Except Fault Rebuilt :=
  if p / 8 < size ∧ p < numPages then .ok (r.mark p) else .error .outOfBounds

/-- `write_free_next`. -/
def writeFreeNext (f : ByteFile) (page next : ℕ) : ByteFile :=
  f.writePages page (leBytes 8 next ++ List.replicate (kPageSize - 8) 0)

structure FreeList where
  file : ByteFile
  head : ℕ
  total : ℕ

/-- The pages below `n` that are not allocated, pushed from the highest down. -/
def pushFree (alloc : ℕ → Bool) : ℕ → FreeList → FreeList
  | 0, l => l
  | p + 1, l =>
    pushFree alloc p
      (if alloc p then l else ⟨writeFreeNext l.file p l.head, p, l.total + 1⟩)

/-- The bitmap region the repair writes to: `bmp`, `nbm` and whether it moved. -/
structure Region where
  file : ByteFile
  bmp : ℕ
  nbm : ℕ
  relocated : Bool

/-- The old region if it has a bit for every page, else a new one behind the end of the file. -/
def chooseRegion (f : ByteFile) (sb : Superblock) : Region :=
  if sb.allocBitmapPages * kPageSize < (f.numPages + 7) / 8 then
    let nbm := (f.numPages / (kPageSize * 8) + 2) % 2 ^ 32
    ⟨f.truncate (f.numPages + nbm), f.numPages, nbm, true⟩
  else ⟨f, sb.allocBitmapPage, sb.allocBitmapPages, false⟩

/-- The pages the repair marks, the relocated bitmap apart. -/
def keptPages (g : Region) (old : ℕ) (rs : List PageRange) : List ℕ :=
  (rs.filter fun r => !(g.relocated && r.start == old)).flatMap PageRange.pages

def rebuild (g : Region) (old : ℕ) (rs : List PageRange) : Except Fault Rebuilt := do
  let size := g.nbm * kPageSize
  let r ← (keptPages g old rs).foldlM (markClaimed size g.file.numPages) ⟨fun _ => 0, fun _ => false⟩
  if g.relocated then
    ((List.range g.nbm).map (g.bmp + ·)).foldlM (markOwn size g.file.numPages) r
  else .ok r

/-- The file with the rebuilt bitmap in its region. -/
def writeBitmap (g : Region) (b : Rebuilt) : ByteFile :=
  g.file.writePages g.bmp (peek b.bitmap 0 (g.nbm * kPageSize))

def repairPages (f : ByteFile) (sb : Superblock) (rs : List PageRange) (r : FsckResult) :
    Except Fault (FsckResult × ByteFile) := do
  let g := chooseRegion f sb
  let b ← rebuild g sb.allocBitmapPage rs
  let f := writeBitmap g b
  let l := pushFree b.alloc f.numPages ⟨f, kInvalidPage, 0⟩
  let sb := ((sb.setBitmap g.bmp g.nbm).setNPages f.numPages).setFreeList l.head l.total
  .ok ({ r with totalFree := l.total, leakedPages := 0, orphanPages := 0, pageAccountingOk := true },
    sb.commit l.file)

/-! ### The whole check -/

/-- The levels the walk settles; `planeOk` is the check of the plane's sizes. -/
def FsckResult.withWalk (r : FsckResult) (walk : TreeWalkResult) (planeOk : Bool) : FsckResult :=
  { r with
    nNodes := walk.nNodes
    nLeaves := walk.nLeaves
    totalLeafCount := walk.totalLeafCount
    maxDepthReached := walk.maxDepth
    magicFailures := if planeOk then walk.magicFailures else walk.magicFailures + 1
    crcFailures := walk.crcFailures
    treeWalkOk := walk.magicFailures == 0 && walk.pointersOk
    leafInternalsOk := walk.magicFailures == 0 && walk.crcFailures == 0
    payloadExtents := walk.payloadRanges.length
    payloadOk := true
    referentialOk := true }

def checkPages (f : ByteFile) (sb : Superblock) (repair : Bool) (walk : TreeWalkResult)
    (r : FsckResult) : Except Fault (FsckResult × ByteFile) := do
  let rs := allAllocated sb walk
  let planeOk ← checkPlane f sb walk
  let bitmap ← readBitmap f sb
  let r := account f rs bitmap (r.withWalk walk planeOk)
  if repair && !r.pageAccountingOk && decide (sb.allocBitmapPage ≠ kInvalidPage) &&
      decide (0 < sb.allocBitmapPages) then
    repairPages f sb rs r
  else .ok (r, f)

def trimNul (b : List UInt8) : List UInt8 := b.takeWhile (· != 0)

/-- The manifest; one that does not parse leaves the default. -/
def loadManifest (parse : List UInt8 → Option Manifest) (f : ByteFile) (sb : Superblock) :
    Except Fault Manifest :=
  if sb.configPage ≠ kInvalidPage ∧ 0 < sb.configPages then do
    let b ← f.readPages sb.configPage sb.configPages
    .ok ((parse (trimNul (peek b.data 0 b.size))).getD {})
  else .ok {}

def superblockResult (f : ByteFile) (sb : Superblock) : FsckResult :=
  { commitSeq := sb.commitSeq
    rootPage := sb.rootNodePage
    superblockOk := decide (0 < sb.commitSeq) &&
      (sb.rootNodePage == kInvalidPage || decide (sb.rootNodePage < f.numPages)) }

/-- The superblock claims more pages than its bitmap region has bits. -/
def underProvisioned (sb : Superblock) : Bool :=
  decide (0 < sb.allocBitmapPages) && decide (sb.allocBitmapPages * kPageSize * 8 < sb.nPages)

/-- `fsck`, with at most `fuel` rounds of the walk. -/
def fsck (parse : List UInt8 → Option Manifest) (fuel : ℕ) (f : ByteFile) (repair : Bool) :
    Option (Except Fault (FsckResult × ByteFile)) :=
  match Superblock.load f with
  -- an exception of `load` is caught and reported
  | .error (.thrown _) => some (.ok ({}, f))
  | .error .outOfBounds => some (.error .outOfBounds)
  | .ok sb =>
    if underProvisioned sb then
      some (.ok ({ superblockResult f sb with superblockOk := false }, f))
    else
      match loadManifest parse f sb with
      | .error e => some (.error e)
      | .ok m =>
        (walkTree fuel f sb m).map fun walk => do
          let walk ← walk
          checkPages f sb repair walk (superblockResult f sb)

end SextantTree.Fsck
