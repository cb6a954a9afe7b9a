import SextantTree.TreeShape

/-!
A committed file. `Contents` is what an index file means: the tree, the leaves with their
payloads and the blobs. `Committed` ties it to the pages: the current superblock copy names
the extents, the allocator loads, and the heap of the file is exactly the extents of the
contents.
-/

namespace SextantTree

open Pages Alloc AllocInv AllocRun Heap FilterHash

variable {s : Schema}

/-- A leaf with its page and, on an index with payloads, the page of its payload extent and
the payloads of its rows. -/
structure StoredLeaf (s : Schema) where
  page : ℕ
  leaf : Leaf s
  payPage : ℕ
  payloads : List Bytes

namespace StoredLeaf

def extent (l : StoredLeaf s) : LeafTableEntry := ⟨some l.page, l.leaf.extentPages⟩

def pay (l : StoredLeaf s) : Option (ℕ × Bytes) :=
  if s.hasPayload then some (l.payPage, payloadImage l.payloads) else none

def payExtent (l : StoredLeaf s) : Extent :=
  l.pay.elim Extent.invalid fun x => ⟨some x.1, pagesFor x.2.length⟩

def leafExt (l : StoredLeaf s) : Ext (Obj s) := ⟨l.page, l.leaf.extentPages, some (.leaf l.leaf)⟩

def payExts (l : StoredLeaf s) : List (Ext (Obj s)) :=
  l.pay.toList.map fun x => ⟨x.1, pagesFor x.2.length, some (.payload x.2)⟩

def exts (l : StoredLeaf s) : List (Ext (Obj s)) := l.leafExt :: l.payExts

/-- The header agrees with the extents, and there is one payload a row. -/
structure Ok (l : StoredLeaf s) : Prop where
  pages_pos : 0 < l.leaf.extentPages
  payload : l.leaf.payload = l.payExtent
  paid : s.hasPayload = true → l.payloads.length = l.leaf.count ∧ 0 < l.leaf.count

end StoredLeaf

/-- A blob the superblock may name: its page and what is there. -/
abbrev Slot (s : Schema) : Type := Option (ℕ × Obj s)

namespace Slot

def exts (x : Slot s) : List (Ext (Obj s)) := x.toList.map fun y => ⟨y.1, y.2.pages, some y.2⟩

/-- The extent in the superblock is that of the blob, or has no pages. -/
def Names (x : Slot s) (e : Extent) : Prop :=
  match x with
  | none => e.pages = 0
  | some (p, o) => e = ⟨some p, o.pages⟩ ∧ 0 < o.pages

end Slot

/-- The meaning of an index file. -/
structure Contents (s : Schema) where
  /-- One less than the depth of the tree. -/
  below : ℕ
  tree : Tree (below + 1)
  leaves : List (StoredLeaf s)
  tablePage : ℕ
  manifest : Manifest
  configPage : ℕ
  configBytes : ℕ
  codebook : Slot s
  pca : Slot s
  cardinality : Slot s
  plane : Slot s

namespace Contents

variable (c : Contents s)

def table : List LeafTableEntry := c.leaves.map StoredLeaf.extent

def tableExt : Ext (Obj s) :=
  ⟨c.tablePage, (Obj.leafTable (s := s) c.table).pages, some (.leafTable c.table)⟩

def configExt : Ext (Obj s) :=
  ⟨c.configPage, pagesFor c.configBytes, some (.config c.manifest c.configBytes)⟩

def heap : List (Ext (Obj s)) :=
  c.tree.exts s c.manifest.dim ++ c.leaves.flatMap StoredLeaf.exts ++
    (c.tableExt :: c.configExt ::
      (Slot.exts c.codebook ++ Slot.exts c.pca ++ Slot.exts c.cardinality ++ Slot.exts c.plane))

/-- What the superblock says of them. -/
structure Named (sb : SuperblockDisk) : Prop where
  root : sb.root = Inner.extent s c.manifest.dim c.tree
  depth : sb.depth = c.below + 1
  nLeaves : sb.nLeaves = c.leaves.length
  table : sb.leafTable = ⟨some c.tablePage, (Obj.leafTable (s := s) c.table).pages⟩
  config : sb.config = ⟨some c.configPage, pagesFor c.configBytes⟩
  codebook : Slot.Names c.codebook sb.codebook
  pca : Slot.Names c.pca sb.pca
  cardinality : Slot.Names c.cardinality sb.cardinality
  plane : Slot.Names c.plane sb.plane

/-- The objects fill their extents. -/
structure Sound : Prop where
  leaf : ∀ l ∈ c.leaves, l.Ok
  config : 0 < c.configBytes
  depth : c.manifest.depth = c.below + 1

end Contents

/-! ### The superblock copies -/

/-- `sb` is the last committed superblock: in its place, and newer than the other copy. -/
structure Current (file : TreeFile s) (sb : SuperblockDisk) : Prop where
  copy : readCopy file (shadowPage sb.commitSeq) = some sb
  newer : ∀ old, readCopy file (shadowPage (sb.commitSeq + 1)) = some old →
    old.commitSeq < sb.commitSeq

lemma shadowPage_cases (n : ℕ) :
    (shadowPage n = 0 ∧ shadowPage (n + 1) = 1) ∨ (shadowPage n = 1 ∧ shadowPage (n + 1) = 0) := by
  simp only [shadowPage, kSuperblockPage, kSuperblockShadowPage]
  rcases Nat.mod_two_eq_zero_or_one n with h | h
  · left
    simp [h, Nat.add_mod]
  · right
    simp [h, Nat.add_mod]

lemma shadowPage_lt (n : ℕ) : shadowPage n < 2 := by
  rcases shadowPage_cases n with h | h <;> omega

lemma shadowPage_add_two (n : ℕ) : shadowPage (n + 2) = shadowPage n := by
  simp [shadowPage]

namespace Current

variable {file : TreeFile s} {sb : SuperblockDisk}

lemma load (h : Current file sb) : loadSuperblock file = some sb := by
  have hc := h.copy
  have hn := h.newer
  unfold loadSuperblock
  rcases shadowPage_cases sb.commitSeq with ⟨h0, h1⟩ | ⟨h1, h0⟩
  · rw [h0] at hc
    rw [h1] at hn
    simp only [kSuperblockPage, kSuperblockShadowPage, hc]
    cases hs : readCopy file 1 with
    | none => rfl
    | some old =>
      have := hn old hs
      simp only
      rw [if_pos (by omega)]
  · rw [h1] at hc
    rw [h0] at hn
    simp only [kSuperblockPage, kSuperblockShadowPage, hc]
    cases hs : readCopy file 0 with
    | none => rfl
    | some old =>
      have := hn old hs
      simp only
      rw [if_neg (by omega)]

lemma congr {file' : TreeFile s} (h : Current file sb)
    (hp : ∀ p < 2, file'.pages p = file.pages p) : Current file' sb where
  copy := by
    rw [← h.copy]
    simp only [readCopy, hp _ (shadowPage_lt _)]
  newer old hold := by
    refine h.newer old ?_
    rw [← hold]
    simp only [readCopy, hp _ (shadowPage_lt _)]

lemma of_commit {sb' : SuperblockDisk}
    (h : ∀ old, readCopy file (shadowPage sb'.commitSeq) = some old →
      old.commitSeq ≤ sb'.commitSeq) :
    Current (commitSuperblock file sb').1 (commitSuperblock file sb').2 := by
  have hne : shadowPage sb'.commitSeq ≠ shadowPage (sb'.commitSeq + 1) := by
    rcases shadowPage_cases sb'.commitSeq with h | h <;> omega
  constructor
  · simp [commitSuperblock, readCopy]
  · intro old hold
    simp only [commitSuperblock, shadowPage_add_two] at hold ⊢
    simp only [readCopy, PageFile.writePage_pages, Function.update_of_ne hne] at hold
    exact Nat.lt_succ_of_le (h old hold)

lemma older (h : Current file sb) :
    ∀ old, readCopy file (shadowPage sb.commitSeq) = some old → old.commitSeq ≤ sb.commitSeq := by
  intro old hold
  rw [h.copy] at hold
  cases hold
  exact le_rfl

end Current

/-! ### Committed files -/

/-- The file holds the contents and its superblock names them. -/
structure Committed (file : TreeFile s) (sb : SuperblockDisk) (c : Contents s) : Prop where
  current : Current file sb
  bitmapPage : sb.bitmapPage = 2
  bitmapPages : Region sb.bitmapPages
  nPages : sb.nPages = file.numPages
  alloc : ∃ a, load file sb.bitmapPage sb.bitmapPages sb.nPages sb.freeListHead sb.nFreePages =
    .ok a ∧ Holds Obj.image ⟨file, a⟩ c.heap
  named : c.Named sb
  sound : c.Sound

lemma Committed.holds {file : TreeFile s} {sb : SuperblockDisk} {c : Contents s}
    (h : Committed file sb c) : ∃ a, Holds Obj.image ⟨file, a⟩ c.heap := by
  obtain ⟨a, -, ha⟩ := h.alloc
  exact ⟨a, ha⟩

/-- **A commit.** Flushing the bitmap of a volume that holds the contents and committing a
superblock that names them leaves a committed file. -/
theorem Committed.of_flush {v : TreeVol s} {c : Contents s} {file : TreeFile s}
    {sb : SuperblockDisk} (h : Holds Obj.image v c.heap) (hpage : v.alloc.bitmapPage = 2)
    (hpos : 0 < v.alloc.bitmapPages) (hflush : flushBitmap v = some (.ok file))
    (hold : ∀ old, readCopy v.file (shadowPage sb.commitSeq) = some old →
      old.commitSeq ≤ sb.commitSeq)
    (hbp : sb.bitmapPage = v.alloc.bitmapPage) (hbps : sb.bitmapPages = v.alloc.bitmapPages)
    (hn : sb.nPages = file.numPages) (hhead : sb.freeListHead = v.alloc.freeListHead)
    (hfree : sb.nFreePages = v.alloc.nFreePages) (hnamed : c.Named sb) (hsound : c.Sound) :
    Committed (commitSuperblock file sb).1 (commitSuperblock file sb).2 c := by
  obtain ⟨-, a, hload, ha, hap, haps⟩ := h.flush hpos hflush
  obtain ⟨hregion, -, hfile⟩ := (flushBitmap_eq_some hpos).mp hflush
  have hlow : shadowPage (sb.commitSeq + 1) < 2 := shadowPage_lt _
  have hsuper : ∀ p < 2, file.pages p = v.file.pages p := by
    intro p hp
    rw [hfile, PageFile.writePages_pages, if_neg (by omega)]
  constructor
  · refine Current.of_commit fun old ho => hold old ?_
    rw [← ho]
    simp only [readCopy, hsuper _ (shadowPage_lt _)]
  · exact hbp.trans hpage
  · exact hbps ▸ hregion
  · simpa [commitSuperblock] using hn
  · refine ⟨a, ?_, ?_⟩
    · have hbits : readBits (commitSuperblock file sb).1 v.alloc.bitmapPage v.alloc.bitmapPages =
          readBits file v.alloc.bitmapPage v.alloc.bitmapPages := by
        refine readBits_congr fun p h1 _ => ?_
        simp only [commitSuperblock]
        rw [PageFile.writePage_pages, Function.update_of_ne (by omega)]
      rw [← hload]
      simp only [load, ← hbits]
      simp only [commitSuperblock, hbp, hbps, hn, hhead, hfree]
    · exact ha.writeReserved (by simp only [PageAllocator.firstFree]; omega) _
  · exact ⟨hnamed.root, hnamed.depth, hnamed.nLeaves, hnamed.table, hnamed.config, hnamed.codebook,
      hnamed.pca, hnamed.cardinality, hnamed.plane⟩
  · exact hsound

/-! ### What is read from the pages -/

section

variable {v : TreeVol s} {c : Contents s}

lemma readAs_of_holds {α : Type} {sel : Obj s → Option α} {H : List (Ext (Obj s))} {p : ℕ}
    {o : Obj s} {x : α} (h : Holds Obj.image v H) (hmem : (⟨p, o.pages, some o⟩ : Ext (Obj s)) ∈ H)
    (hpos : 0 < o.pages) (hsel : sel o = some x) : readAs sel v.file ⟨some p, o.pages⟩ = some x := by
  simp [readAs, readObj_of_holds h hmem hpos le_rfl, hsel]

lemma readLeafTable_of_holds (h : Holds Obj.image v c.heap) :
    readLeafTable v.file ⟨some c.tablePage, (Obj.leafTable (s := s) c.table).pages⟩ =
      some c.table :=
  readAs_of_holds (o := .leafTable c.table) h (by simp [Contents.heap, Contents.tableExt])
    (pagesFor_pos (by omega)) rfl

lemma readConfig_of_holds (h : Holds Obj.image v c.heap) (hpos : 0 < c.configBytes) :
    readConfig v.file ⟨some c.configPage, pagesFor c.configBytes⟩ = some c.manifest :=
  readAs_of_holds (o := .config c.manifest c.configBytes) h
    (by simp [Contents.heap, Contents.configExt, Obj.pages]) (pagesFor_pos hpos) rfl

lemma readLeaf_of_holds {H : List (Ext (Obj s))} {l : StoredLeaf s} (h : Holds Obj.image v H)
    (hmem : ∀ e ∈ l.exts, e ∈ H) (hok : l.Ok) :
    readLeafExtent v.file l.extent = some l.leaf :=
  readAs_of_holds (o := .leaf l.leaf) h (hmem _ List.mem_cons_self) hok.pages_pos rfl

lemma payloadImage_pos {ps : List Bytes} (h : 0 < ps.length) : 0 < (payloadImage ps).length := by
  obtain ⟨p, ps, rfl⟩ := List.exists_cons_of_length_pos h
  simp [payloadImage, u32le]

lemma readPayload_of_holds {H : List (Ext (Obj s))} {l : StoredLeaf s}
    (h : Holds Obj.image v H) (hmem : ∀ e ∈ l.exts, e ∈ H) (hok : l.Ok) (hpay : s.hasPayload = true) :
    readPayload v.file l.leaf.payload = some (payloadImage l.payloads) := by
  obtain ⟨hlen, hpos⟩ := hok.paid hpay
  rw [hok.payload, StoredLeaf.payExtent, StoredLeaf.pay, if_pos hpay]
  refine readAs_of_holds (o := .payload (payloadImage l.payloads)) h (hmem _ ?_)
    (pagesFor_pos (payloadImage_pos (by omega))) rfl
  simp [StoredLeaf.exts, StoredLeaf.payExts, StoredLeaf.pay, hpay, Obj.pages]

lemma Contents.leaf_exts_mem {l : StoredLeaf s} (hl : l ∈ c.leaves) : ∀ e ∈ l.exts, e ∈ c.heap := by
  intro e he
  have : e ∈ c.leaves.flatMap StoredLeaf.exts := List.mem_flatMap.mpr ⟨l, hl, he⟩
  simp only [Contents.heap, List.mem_append]
  exact .inl (.inr this)

lemma leafRefs_of_contents (h : Holds Obj.image v c.heap) :
    leafRefs v.file (c.below + 1) (Inner.extent s c.manifest.dim c.tree) = some c.tree.refs :=
  leafRefs_of_holds h c.tree fun e he => by simp [Contents.heap, he]

end

/-! ### The whole file -/

/-- The leaf table the current superblock names. -/
def fileLeafTable (file : TreeFile s) : Option (List LeafTableEntry) := do
  let sb ← loadSuperblock file
  readLeafTable file sb.leafTable

/-- The leaf entries reachable from the root the current superblock names. -/
def fileRefs (file : TreeFile s) : Option (List (List Summary × ℕ)) := do
  let sb ← loadSuperblock file
  leafRefs file sb.depth sb.root

def leafAt (file : TreeFile s) (id : ℕ) : Option (Leaf s) := do
  let table ← fileLeafTable file
  let e ← table[id]?
  readLeafExtent file e

/-- The leaves behind the reachable entries, one for each entry. -/
def reachableLeaves (file : TreeFile s) : Option (List (Leaf s)) := do
  let refs ← fileRefs file
  refs.mapM fun x => leafAt file x.2

namespace Committed

variable {file : TreeFile s} {sb : SuperblockDisk} {c : Contents s}

lemma fileLeafTable_eq (h : Committed file sb c) : fileLeafTable file = some c.table := by
  obtain ⟨a, ha⟩ := h.holds
  have := readLeafTable_of_holds ha
  simp [fileLeafTable, h.current.load, h.named.table, this]

lemma fileRefs_eq (h : Committed file sb c) : fileRefs file = some c.tree.refs := by
  obtain ⟨a, ha⟩ := h.holds
  have := leafRefs_of_contents ha
  simp only at this
  simp [fileRefs, h.current.load, h.named.depth, h.named.root, this]

lemma leafAt_eq (h : Committed file sb c) {i : ℕ} {l : StoredLeaf s} (hl : c.leaves[i]? = some l) :
    leafAt file i = some l.leaf := by
  obtain ⟨a, ha⟩ := h.holds
  have hmem := List.mem_of_getElem? hl
  have := readLeaf_of_holds ha (Contents.leaf_exts_mem hmem) (h.sound.leaf l hmem)
  simp [leafAt, h.fileLeafTable_eq, Contents.table, hl, this]

end Committed

end SextantTree
