import SextantTree.Fsck

/-!
When the walk of `fsck` ends and stays inside the buffers it has loaded. The walk remembers no
node it has visited and trusts every count it reads, so what it needs is a property of the file:
no cycle of child links below the root, and counts that fit their extents.
-/

namespace SextantTree.Fsck

open ByteMem Pages FileBytes Outcome StackWalk

section

-- a word is a symbol here: unfolded, it sends every comparison through the bytes
attribute [local irreducible] ByteMem.word

/-- A failure the caller gets to see: an exception, and not a read outside a buffer. -/
def Reported : Fault → Prop
  | .thrown _ => True
  | .outOfBounds => False

/-! ### Links -/

/-- A child of a node, by its page and its number of pages. -/
abbrev Link := ℕ × ℕ

/-- The link in the child entry at position `p`, if it is to an inner node. -/
def link (m : Mem) (p : ℕ) : Option Link :=
  if word m 8 p = kInvalidPage ∨ word m 2 (p + 16) ≠ 0 then none
  else some (word m 8 p, word m 8 (p + 8) % 2 ^ 32)

/-- The links in `n` entries from `p` on, the last one first. -/
def linksFrom (m : Mem) (cesize : ℕ) : ℕ → ℕ → List Link
  | 0, _ => []
  | n + 1, p => linksFrom m cesize n (p + cesize) ++ (link m p).toList

/-- The walk goes through the entries of this node. -/
def opened (f : ByteFile) (l : Link) : Bool :=
  l.1 != kInvalidPage && inFile f l.1 l.2 && l.2 != 0 &&
    decide (ByteFile.offset l.1 + l.2 * kPageSize ≤ f.size) &&
    word f.data 4 (ByteFile.offset l.1) == kTreeNodeMagic

/-- `n_children` of a node. -/
def nChildren (f : ByteFile) (l : Link) : ℕ := word f.data 8 (ByteFile.offset l.1 + 8)

/-- The inner nodes the walk goes to from a node. -/
def links (f : ByteFile) (cesize : ℕ) (l : Link) : List Link :=
  if opened f l then
    linksFrom f.data cesize (nChildren f l) (ByteFile.offset l.1 + 32)
  else []

/-- The child entry at position `p` of an extent that ends at `stop` is inside it, as far as it
is read: the rest of an entry that links to nothing is skipped. -/
def EntryFits (m : Mem) (stop p : ℕ) : Prop :=
  p + 8 ≤ stop ∧ (word m 8 p ≠ kInvalidPage → p + 18 ≤ stop)

/-- A node the walk comes to has a page, and all its entries are inside its extent. -/
structure NodeSound (f : ByteFile) (cesize : ℕ) (l : Link) : Prop where
  pos : l.1 ≠ kInvalidPage → inFile f l.1 l.2 = true → 0 < l.2
  fits : opened f l = true → ∀ j < nChildren f l,
    EntryFits f.data (ByteFile.offset l.1 + l.2 * kPageSize) (ByteFile.offset l.1 + 32 + j * cesize)

/-- The leaf table has no more entries than its extent holds. A table that is missing, not in
the file, or too long for a vector is reported. -/
def TableSound (f : ByteFile) (sb : Superblock) : Prop :=
  sb.leafTablePage ≠ kInvalidPage → 0 < sb.leafTablePages →
    ByteFile.offset sb.leafTablePage + sb.leafTablePages * kPageSize ≤ f.size →
    word f.data 8 (ByteFile.offset sb.leafTablePage) ≤ maxEntries →
    8 + word f.data 8 (ByteFile.offset sb.leafTablePage) * 12 ≤ sb.leafTablePages * kPageSize

structure WalkSound (f : ByteFile) (sb : Superblock) (m : Manifest) : Prop where
  table : TableSound f sb
  node : ∀ l, From (links f (childEntrySize m.dim m.summarySize)) (sb.rootNodePage, sb.rootNodePages) l →
    NodeSound f (childEntrySize m.dim m.summarySize) l
  acyclic : Acc (Child (links f (childEntrySize m.dim m.summarySize)))
    (sb.rootNodePage, sb.rootNodePages)

/-- The walk ends, and if it stops early then with an exception. -/
def WalkSafe (f : ByteFile) (sb : Superblock) (m : Manifest) : Prop :=
  ∃ fuel r, walkTree fuel f sb m = some r ∧ Meets Reported r fun _ => True

/-! ### Reads -/

lemma word_shift (m : Mem) (off w p : ℕ) : word (fun i => m (off + i)) w p = word m w (off + p) := by
  unfold word
  simp [peek, Nat.add_assoc]

lemma Buf.word_eq_ok {b : Buf} {w off : ℕ} (h : off + w ≤ b.size) :
    b.word w off = .ok (ByteMem.word b.data w off) := by
  rw [FileBytes.Buf.word, if_pos h]

lemma Buf.word_ok_iff {b : Buf} {w off x : ℕ} :
    b.word w off = .ok x ↔ off + w ≤ b.size ∧ ByteMem.word b.data w off = x := by
  unfold FileBytes.Buf.word
  split
  · simp [*]
  · simp [*]

lemma Buf.bytes_eq_ok {b : Buf} {off n : ℕ} (h : off + n ≤ b.size) :
    b.bytes off n = .ok (peek b.data off n) := by
  rw [FileBytes.Buf.bytes, if_pos h]

lemma readPages_ok {f : ByteFile} {page n : ℕ} (hn : 0 < n)
    (h : ByteFile.offset page + n * kPageSize ≤ f.size) :
    f.readPages page n = .ok ⟨n * kPageSize, fun i => f.data (ByteFile.offset page + i)⟩ := by
  rw [ByteFile.readPages, if_neg (by omega), if_pos h]

lemma readPages_meets (f : ByteFile) {page n : ℕ} (hn : 0 < n) :
    Meets Reported (f.readPages page n) fun b =>
      b = ⟨n * kPageSize, fun i => f.data (ByteFile.offset page + i)⟩ ∧
        ByteFile.offset page + n * kPageSize ≤ f.size := by
  rw [ByteFile.readPages, if_neg (by omega)]
  split
  · exact ⟨rfl, ‹_›⟩
  · trivial

lemma crcOk_eq_ok {b : Buf} {off : ℕ} (h : off + 4 ≤ b.size) : ∃ ok, crcOk b off = .ok ok := by
  rw [crcOk, Buf.bytes_eq_ok (by omega), Buf.word_eq_ok h]
  exact ⟨_, rfl⟩

lemma link_shift (m : Mem) (off p : ℕ) : link (fun i => m (off + i)) p = link m (off + p) := by
  simp [link, word_shift, Nat.add_assoc]

lemma linksFrom_shift (m : Mem) (off cesize n p : ℕ) :
    linksFrom (fun i => m (off + i)) cesize n p = linksFrom m cesize n (off + p) := by
  induction n generalizing p with
  | zero => rfl
  | succ n ih => rw [linksFrom, linksFrom, ih, link_shift, Nat.add_assoc]

lemma entryFits_shift {m : Mem} {off size p : ℕ} :
    EntryFits (fun i => m (off + i)) size p ↔ EntryFits m (off + size) (off + p) := by
  simp [EntryFits, word_shift, Nat.add_assoc]

/-! ### One node -/

lemma countLeaf_meets {b : Buf} (h : 112 ≤ b.size) (pages : ℕ) (r : TreeWalkResult) :
    Meets Reported (countLeaf b pages r) fun _ => True := by
  obtain ⟨ok, hok⟩ := crcOk_eq_ok (show 104 + 4 ≤ b.size by omega)
  rw [countLeaf, hok, Buf.word_eq_ok (by omega), Buf.word_eq_ok (by omega), Buf.word_eq_ok (by omega),
    Buf.word_eq_ok (by omega)]
  trivial

lemma validateLeaf_meets (f : ByteFile) (l : PageRange) (r : TreeWalkResult) :
    Meets Reported (validateLeaf f l r) fun _ => True := by
  rcases em (l.start = kInvalidPage ∨ l.count = 0) with hbad | hbad
  · rw [validateLeaf, if_pos hbad]
    exact True.intro
  · rw [validateLeaf, if_neg hbad]
    have hn : 0 < l.count := by omega
    apply (readPages_meets f hn).bind
    intro b hb
    have hsize : 4096 ≤ b.size := by
      rw [hb.1]
      simp only [kPageSize]
      omega
    rw [Buf.word_eq_ok (by omega), ok_bind]
    split
    · trivial
    · exact countLeaf_meets (by omega) _ _

/-- The stack entries for some links, one level down. -/
def entries (depth : ℕ) (ls : List Link) : List StackEntry :=
  ls.map fun l => ⟨l.1, l.2, (depth + 1) % 2 ^ 32⟩

lemma entries_append (depth : ℕ) (ls ls' : List Link) :
    entries depth (ls ++ ls') = entries depth ls ++ entries depth ls' := List.map_append

lemma walkChild_meets {f : ByteFile} {t : LeafTable} {b : Buf} {depth p : ℕ}
    (h : EntryFits b.data b.size p) (acc : List StackEntry × TreeWalkResult) :
    Meets Reported (walkChild f t b depth p acc) fun r =>
      r.1 = entries depth (link b.data p).toList ++ acc.1 := by
  rw [walkChild, Buf.word_eq_ok h.1, ok_bind]
  split
  · rename_i hinv
    simp [link, hinv, entries]
  · rename_i hinv
    have h18 := h.2 hinv
    rw [Buf.word_eq_ok (by omega), ok_bind, Buf.word_eq_ok (by omega), ok_bind]
    split
    · rename_i hleaf
      refine (validateLeaf_meets f _ _).bind fun r _ => ?_
      simp [link, hleaf, entries]
    · rename_i hleaf
      simp [link, hleaf, hinv, entries]

lemma walkChildren_meets {f : ByteFile} {t : LeafTable} {cesize : ℕ} {b : Buf} {depth n p : ℕ}
    (h : ∀ j < n, EntryFits b.data b.size (p + j * cesize))
    (acc : List StackEntry × TreeWalkResult) :
    Meets Reported (walkChildren f t cesize b depth n p acc) fun r =>
      r.1 = entries depth (linksFrom b.data cesize n p) ++ acc.1 := by
  induction n generalizing p acc with
  | zero => simp [walkChildren, linksFrom, entries]
  | succ n ih =>
    have hhead : EntryFits b.data b.size p := by simpa using h 0 (by omega)
    have htail : ∀ j < n, EntryFits b.data b.size (p + cesize + j * cesize) := by
      intro j hj
      rw [show p + cesize + j * cesize = p + (j + 1) * cesize by ring]
      exact h (j + 1) (by omega)
    refine (walkChild_meets hhead acc).bind fun acc' hacc' => ?_
    refine (ih htail acc').mono fun r hr => ?_
    rw [hr, hacc', linksFrom, entries_append, List.append_assoc]

lemma fits_of_walkChildren {f : ByteFile} {t : LeafTable} {cesize : ℕ} {b : Buf} {depth n p : ℕ}
    {acc r : List StackEntry × TreeWalkResult}
    (h : walkChildren f t cesize b depth n p acc = .ok r) {j : ℕ} (hj : j < n) :
    EntryFits b.data b.size (p + j * cesize) := by
  induction n generalizing p acc j with
  | zero => omega
  | succ n ih =>
    obtain ⟨acc', hchild, hrest⟩ := bind_eq_ok.mp h
    cases j with
    | zero =>
      obtain ⟨x, hx, hchild⟩ := bind_eq_ok.mp hchild
      obtain ⟨h8, rfl⟩ := Buf.word_ok_iff.mp hx
      rw [Nat.zero_mul, Nat.add_zero]
      refine ⟨h8, fun hinv => ?_⟩
      rw [if_neg hinv] at hchild
      obtain ⟨y, hy, -⟩ := bind_eq_ok.mp hchild
      exact (Buf.word_ok_iff.mp hy).1
    | succ j =>
      rw [show p + (j + 1) * cesize = p + cesize + j * cesize by ring]
      exact ih hrest (by omega)

/-- The entries a node's stack entry leads to. -/
def kids (f : ByteFile) (cesize : ℕ) (e : StackEntry) : List StackEntry :=
  entries e.depth (links f cesize (e.page, e.pages))

lemma walkNode_meets {f : ByteFile} {t : LeafTable} {cesize depth : ℕ} {b : Buf}
    (hsize : 32 ≤ b.size) (h : ∀ j < word b.data 8 8, EntryFits b.data b.size (32 + j * cesize))
    (r : TreeWalkResult) :
    Meets Reported (walkNode f t cesize depth b r) fun r =>
      r.1 = entries depth (linksFrom b.data cesize (word b.data 8 8) 32) := by
  obtain ⟨ok, hok⟩ := crcOk_eq_ok (show 28 + 4 ≤ b.size by omega)
  rw [walkNode, hok, ok_bind, Buf.word_eq_ok (by omega), ok_bind]
  generalize word b.data 8 8 = n at h ⊢
  have hwalk := fun acc => @walkChildren_meets f t cesize b depth n 32 h acc
  refine (hwalk _).mono fun r hr => ?_
  rw [hr, List.append_nil]

lemma loadNode_meets {f : ByteFile} {t : LeafTable} {cesize : ℕ} {e : StackEntry}
    (hinv : e.page ≠ kInvalidPage) (hin : inFile f e.page e.pages = true)
    (h : NodeSound f cesize (e.page, e.pages)) (r : TreeWalkResult) :
    Meets Reported (loadNode f t cesize e r) fun r => r.1 = kids f cesize e := by
  have hpos := h.pos hinv hin
  apply (readPages_meets f hpos).bind
  rintro b ⟨rfl, hread⟩
  have hsize : 4096 ≤ e.pages * kPageSize := by
    simp only [kPageSize]
    omega
  rw [Buf.word_eq_ok (by simp only; omega), ok_bind, word_shift, Nat.add_zero]
  by_cases hmagic : word f.data 4 (ByteFile.offset e.page) = kTreeNodeMagic
  · have hopen : opened f (e.page, e.pages) = true := by
      simp [opened, hinv, hin, hread, hmagic]
      omega
    rw [if_neg (not_not.mpr hmagic)]
    refine (walkNode_meets (by simp only; omega) (fun j hj => ?_) r).mono fun r hr => ?_
    · rw [word_shift] at hj
      rw [entryFits_shift, ← Nat.add_assoc]
      exact h.fits hopen j hj
    · rw [hr, kids, links, if_pos hopen, linksFrom_shift, word_shift, nChildren]
  · rw [if_pos hmagic]
    simp [kids, links, opened, hmagic, entries]

lemma visit_meets {f : ByteFile} {t : LeafTable} {cesize : ℕ} {e : StackEntry}
    (h : NodeSound f cesize (e.page, e.pages)) (r : TreeWalkResult) :
    Meets Reported (visit f t cesize e r) fun r => r.1 = kids f cesize e := by
  unfold visit
  by_cases hinv : e.page = kInvalidPage
  · rw [if_pos hinv]
    simp [kids, links, opened, hinv, entries]
  rw [if_neg hinv]
  by_cases hin : inFile f e.page e.pages = false
  · rw [if_pos hin]
    simp [kids, links, opened, hin, entries]
  rw [if_neg hin]
  exact loadNode_meets hinv (Bool.not_eq_false _ ▸ hin) h _

lemma sound_of_loadNode {f : ByteFile} {t : LeafTable} {cesize : ℕ} {e : StackEntry}
    {r : TreeWalkResult} {x : List StackEntry × TreeWalkResult}
    (h : loadNode f t cesize e r = .ok x) :
    0 < e.pages ∧ (opened f (e.page, e.pages) = true → ∀ j < nChildren f (e.page, e.pages),
      EntryFits f.data (ByteFile.offset e.page + e.pages * kPageSize)
        (ByteFile.offset e.page + 32 + j * cesize)) := by
  obtain ⟨b, hb, h⟩ := bind_eq_ok.mp h
  obtain ⟨magic, hmagic, h⟩ := bind_eq_ok.mp h
  have hpos : 0 < e.pages := by
    by_contra hzero
    rw [ByteFile.readPages, if_pos (by omega)] at hb
    cases hb
    have := (Buf.word_ok_iff.mp hmagic).1
    simp at this
  refine ⟨hpos, fun hopen j hj => ?_⟩
  simp only [opened, Bool.and_eq_true, decide_eq_true_eq, beq_iff_eq] at hopen
  rw [readPages_ok hpos hopen.1.2] at hb
  cases hb
  obtain ⟨-, rfl⟩ := Buf.word_ok_iff.mp hmagic
  rw [if_neg (by rw [not_not, word_shift]; exact hopen.2)] at h
  obtain ⟨ok, -, h⟩ := bind_eq_ok.mp h
  obtain ⟨n, hn, h⟩ := bind_eq_ok.mp h
  obtain ⟨-, rfl⟩ := Buf.word_ok_iff.mp hn
  rw [word_shift] at h
  have := fits_of_walkChildren h hj
  rwa [entryFits_shift, ← Nat.add_assoc] at this

lemma nodeSound_of_visit {f : ByteFile} {t : LeafTable} {cesize : ℕ} {e : StackEntry}
    {r : TreeWalkResult} {x : List StackEntry × TreeWalkResult}
    (h : visit f t cesize e r = .ok x) : NodeSound f cesize (e.page, e.pages) := by
  refine ⟨fun hinv hin => ?_, fun hopen => ?_⟩
  · rw [visit, if_neg hinv, if_neg (by simp [hin])] at h
    exact (sound_of_loadNode h).1
  · have hopen' := hopen
    simp only [opened, Bool.and_eq_true, bne_iff_ne] at hopen'
    rw [visit, if_neg hopen'.1.1.1.1, if_neg (by simp [hopen'.1.1.1.2])] at h
    exact (sound_of_loadNode h).2 hopen

lemma kids_of_visit {f : ByteFile} {t : LeafTable} {cesize : ℕ} {e : StackEntry}
    {r : TreeWalkResult} {x : List StackEntry × TreeWalkResult}
    (h : visit f t cesize e r = .ok x) : x.1 = kids f cesize e :=
  (visit_meets (nodeSound_of_visit h) r).result h

/-! ### The walk -/

section Links

variable {f : ByteFile} {cesize : ℕ}

/-- The link of a stack entry, its depth forgotten. -/
def StackEntry.link (e : StackEntry) : Link := (e.page, e.pages)

lemma mem_kids {e c : StackEntry} :
    c ∈ kids f cesize e ↔ c.link ∈ links f cesize e.link ∧ c.depth = (e.depth + 1) % 2 ^ 32 := by
  simp only [kids, entries, List.mem_map, StackEntry.link]
  constructor
  · rintro ⟨l, hl, rfl⟩
    exact ⟨hl, rfl⟩
  · rintro ⟨hl, hd⟩
    exact ⟨_, hl, by rw [← hd]⟩

lemma from_link {a b : StackEntry} (h : From (kids f cesize) a b) :
    From (links f cesize) a.link b.link :=
  h.lift StackEntry.link fun _ _ hc => (mem_kids.mp hc).1

lemma from_entry {a : StackEntry} {l : Link} (h : From (links f cesize) a.link l) :
    ∃ b, From (kids f cesize) a b ∧ b.link = l := by
  induction h with
  | refl => exact ⟨a, .refl, rfl⟩
  | @tail _ l _ hc ih =>
    obtain ⟨b, hb, rfl⟩ := ih
    exact ⟨⟨l.1, l.2, (b.depth + 1) % 2 ^ 32⟩, hb.tail (mem_kids.mpr ⟨hc, rfl⟩), rfl⟩

lemma acc_entry {a : StackEntry} (h : Acc (Child (links f cesize)) a.link) :
    Acc (Child (kids f cesize)) a :=
  Subrelation.accessible (fun hc => (mem_kids.mp hc).1) (InvImage.accessible StackEntry.link h)

lemma acc_link {a : StackEntry} (h : Acc (Child (kids f cesize)) a) :
    Acc (Child (links f cesize)) a.link := by
  induction h with
  | intro a _ ih =>
    refine .intro _ fun l hl => ?_
    exact ih ⟨l.1, l.2, (a.depth + 1) % 2 ^ 32⟩ (mem_kids.mpr ⟨hl, rfl⟩)

end Links

variable {f : ByteFile} {sb : Superblock} {m : Manifest}

lemma copyLeafTable_meets {b : Buf} (hb : 8 ≤ b.size)
    (h : word b.data 8 0 ≤ maxEntries → 8 + word b.data 8 0 * 12 ≤ b.size) :
    Meets Reported (copyLeafTable b) fun _ => True := by
  rw [copyLeafTable, Buf.word_eq_ok (by omega), ok_bind]
  rcases Nat.lt_or_ge maxEntries (word b.data 8 0) with hmax | hmax
  · rw [if_pos hmax]
    exact True.intro
  · rw [if_neg (Nat.not_lt.mpr hmax), if_pos (h hmax)]
    exact True.intro

lemma loadLeafTable_meets (h : TableSound f sb) :
    Meets Reported (loadLeafTable f sb) fun _ => True := by
  rcases em (sb.leafTablePage = kInvalidPage ∨ sb.leafTablePages = 0) with hmiss | hmiss
  · rw [loadLeafTable, if_pos hmiss]
    exact True.intro
  · rw [loadLeafTable, if_neg hmiss]
    rw [not_or] at hmiss
    have hpos : 0 < sb.leafTablePages := Nat.pos_of_ne_zero hmiss.2
    apply (readPages_meets f hpos).bind
    rintro b ⟨rfl, hread⟩
    refine copyLeafTable_meets ?_ fun hmax => ?_
    · simp only [kPageSize]
      omega
    · rw [word_shift, Nat.add_zero] at hmax ⊢
      exact h hmiss.1 hpos hread hmax

lemma tableSound_of_load {t : LeafTable} (h : loadLeafTable f sb = .ok t) : TableSound f sb := by
  intro hpage hpos hread hmax
  rw [loadLeafTable, if_neg (by rw [not_or]; exact ⟨hpage, hpos.ne'⟩), readPages_ok hpos hread,
    ok_bind] at h
  obtain ⟨n, hn, h⟩ := bind_eq_ok.mp h
  obtain ⟨-, rfl⟩ := Buf.word_ok_iff.mp hn
  rw [word_shift, Nat.add_zero, if_neg (Nat.not_lt.mpr hmax)] at h
  by_contra hfit
  rw [if_neg hfit] at h
  cases h

def rootEntry (sb : Superblock) : StackEntry := ⟨sb.rootNodePage, sb.rootNodePages, 0⟩

lemma walkTree_eq_of_load {t : LeafTable} (ht : loadLeafTable f sb = .ok t) (fuel : ℕ) :
    walkTree fuel f sb m =
      run (visit f t (childEntrySize m.dim m.summarySize)) fuel [rootEntry sb] {} := by
  rw [walkTree, ht]
  rfl

lemma walkSafe_of_sound (h : WalkSound f sb m) : WalkSafe f sb m := by
  cases ht : loadLeafTable f sb with
  | error e =>
    exact ⟨0, .error e, by rw [walkTree, ht], (loadLeafTable_meets h.table).failure ht⟩
  | ok t =>
    have hend : Halts (visit f t (childEntrySize m.dim m.summarySize)) Reported [rootEntry sb] :=
      halts_cons (acc_entry h.acyclic) (fun b hb r => visit_meets (h.node _ (from_link hb)) r)
        halts_nil
    obtain ⟨fuel, r, hr, hsafe⟩ := hend {}
    exact ⟨fuel, r, by rw [walkTree_eq_of_load ht, hr], hsafe⟩

lemma walkSound_of_ok {fuel : ℕ} {r : TreeWalkResult} (h : walkTree fuel f sb m = some (.ok r)) :
    WalkSound f sb m := by
  cases ht : loadLeafTable f sb with
  | error e =>
    rw [walkTree, ht] at h
    cases h
  | ok t =>
    rw [walkTree_eq_of_load ht] at h
    have hkids : ∀ (a : StackEntry) s x,
        visit f t (childEntrySize m.dim m.summarySize) a s = .ok x → x.1 = kids f _ a :=
      fun _ _ _ => kids_of_visit
    obtain ⟨hacc, hvisit⟩ := of_run_eq_ok hkids h List.mem_cons_self
    refine ⟨tableSound_of_load ht, fun l hl => ?_, acc_link hacc⟩
    obtain ⟨b, hb, rfl⟩ := from_entry (a := rootEntry sb) hl
    obtain ⟨s, x, hx⟩ := hvisit b hb
    exact nodeSound_of_visit hx

/-- A file with no cycle below its root and counts that fit is walked to the end and within
bounds; and if no exception stops the walk, no other file is. -/
theorem walk_safe_iff_sound (f : ByteFile) (sb : Superblock) (m : Manifest) :
    (WalkSound f sb m → WalkSafe f sb m) ∧
      ((∀ fuel e, walkTree fuel f sb m ≠ some (.error (.thrown e))) →
        (WalkSafe f sb m ↔ WalkSound f sb m)) := by
  refine ⟨walkSafe_of_sound, fun hquiet => ⟨fun h => ?_, walkSafe_of_sound⟩⟩
  obtain ⟨fuel, r, hr, hsafe⟩ := h
  cases r with
  | ok r => exact walkSound_of_ok hr
  | error e =>
    cases e with
    | thrown e => exact absurd hr (hquiet fuel e)
    | outOfBounds => exact hsafe.elim

end

/-! ### Two files -/

/-- A file of five pages: an empty leaf table in page 2, and inner nodes in pages 3 and 4, the
first with one child. -/
def twoNodes (child : ℕ) : ByteFile :=
  { size := 5 * 4096
    data := [(0, leBytes 8 kSuperblockMagic), (8, leBytes 8 1), (16, leBytes 8 3), (24, leBytes 4 1),
      (144, leBytes 8 2), (152, leBytes 4 1),
      (3 * 4096, leBytes 4 kTreeNodeMagic), (3 * 4096 + 8, leBytes 8 1),
      (3 * 4096 + 32, leBytes 8 child), (3 * 4096 + 40, leBytes 8 1),
      (4 * 4096, leBytes 4 kTreeNodeMagic)].foldl (fun m w => poke m w.1 w.2) fun _ => 0 }

def twoNodesSuperblock (child : ℕ) : Superblock :=
  ⟨fun i => (twoNodes child).data (ByteFile.offset 0 + i)⟩

lemma load_twoNodes_self : Superblock.load (twoNodes 3) = .ok (twoNodesSuperblock 3) := by rfl

section

variable {c : ℕ} (hc : c = 3 ∨ c = 4)
include hc

lemma loadLeafTable_twoNodes :
    ∃ t, loadLeafTable (twoNodes c) (twoNodesSuperblock c) = .ok t := by
  have hread : (twoNodes c).readPages 2 1 =
      .ok ⟨1 * kPageSize, fun i => (twoNodes c).data (ByteFile.offset 2 + i)⟩ :=
    readPages_ok (by decide) (by simp only [twoNodes]; decide)
  have hpage : (twoNodesSuperblock c).leafTablePage = 2 := by rcases hc with rfl | rfl <;> decide
  have hpages : (twoNodesSuperblock c).leafTablePages = 1 := by rcases hc with rfl | rfl <;> decide
  rw [loadLeafTable, hpage, hpages, if_neg (by decide), hread, ok_bind, copyLeafTable,
    Buf.word_eq_ok (by simp only [kPageSize]; omega), ok_bind, if_neg, if_pos]
  · exact ⟨_, rfl⟩
  · rcases hc with rfl | rfl <;> decide
  · rcases hc with rfl | rfl <;> decide

/-- The page of the first node, as the walk loads it. -/
def firstNode (c : ℕ) : Buf := ⟨1 * kPageSize, fun i => (twoNodes c).data (ByteFile.offset 3 + i)⟩

lemma walkChild_firstNode (t : LeafTable) (d : ℕ) (acc : List StackEntry × TreeWalkResult) :
    walkChild (twoNodes c) t (firstNode c) d 32 acc = .ok (⟨c, 1, (d + 1) % 2 ^ 32⟩ :: acc.1,
      { acc.2 with nNodes := acc.2.nNodes + 1 }) := by
  have hsize : (firstNode c).size = 4096 := rfl
  have hchild : word (firstNode c).data 8 32 = c := by rcases hc with rfl | rfl <;> decide
  have hpages : word (firstNode c).data 8 (32 + 8) = 1 := by rcases hc with rfl | rfl <;> decide
  have hleaf : word (firstNode c).data 2 (32 + 16) = 0 := by rcases hc with rfl | rfl <;> decide
  rw [walkChild, Buf.word_eq_ok (by omega), ok_bind, hchild,
    if_neg (by simp only [kInvalidPage]; omega), Buf.word_eq_ok (by omega), ok_bind,
    Buf.word_eq_ok (by omega), ok_bind, hleaf, if_neg (by simp), hpages,
    show 1 % 2 ^ 32 = 1 by norm_num]

lemma visit_firstNode (t : LeafTable) (d : ℕ) (r : TreeWalkResult) :
    ∃ d' r', visit (twoNodes c) t 24 ⟨3, 1, d⟩ r = .ok ([⟨c, 1, d'⟩], r') := by
  have hread : (twoNodes c).readPages 3 1 = .ok (firstNode c) :=
    readPages_ok (by decide) (by simp only [twoNodes]; decide)
  have hsize : (firstNode c).size = 4096 := rfl
  have hin : inFile (twoNodes c) 3 1 = true := by rcases hc with rfl | rfl <;> decide
  have hmagic : word (firstNode c).data 4 0 = kTreeNodeMagic := by
    rcases hc with rfl | rfl <;> decide
  have hcount : word (firstNode c).data 8 8 = 1 := by rcases hc with rfl | rfl <;> decide
  obtain ⟨ok, hok⟩ := crcOk_eq_ok (show 28 + 4 ≤ (firstNode c).size by omega)
  rw [visit]
  dsimp only
  rw [if_neg (by decide), if_neg (by simp [hin]), loadNode]
  dsimp only
  rw [hread, ok_bind, Buf.word_eq_ok (by omega), ok_bind, if_neg (by simpa using hmagic), walkNode,
    hok, ok_bind, Buf.word_eq_ok (by omega), ok_bind, hcount, walkChildren,
    walkChild_firstNode hc, ok_bind, walkChildren]
  exact ⟨_, _, rfl⟩

end

/-- A child pointer back to its own node: no number of rounds is enough. -/
theorem walk_loops_on_cycle : ∃ f sb m, Superblock.load f = .ok sb ∧ ¬ WalkSafe f sb m := by
  refine ⟨twoNodes 3, twoNodesSuperblock 3, {}, load_twoNodes_self, ?_⟩
  rintro ⟨fuel, r, hr, -⟩
  obtain ⟨t, ht⟩ := loadLeafTable_twoNodes (.inl rfl)
  have hloop : ∀ a s, StackEntry.link a = (3, 1) → ∃ b s', StackEntry.link b = (3, 1) ∧
      visit (twoNodes 3) t 24 a s = .ok ([b], s') := by
    rintro ⟨page, pages, d⟩ s ha
    obtain ⟨rfl, rfl⟩ := Prod.mk.inj ha
    obtain ⟨d', r', h⟩ := visit_firstNode (.inl rfl) t d s
    exact ⟨_, r', rfl, h⟩
  rw [walkTree_eq_of_load ht] at hr
  have hnone := run_eq_none_of_loop hloop fuel (a := rootEntry (twoNodesSuperblock 3)) rfl {}
  rw [show childEntrySize _ _ = 24 from rfl, hnone] at hr
  cases hr

lemma visit_secondNode (t : LeafTable) (d : ℕ) (r : TreeWalkResult) :
    ∃ r', visit (twoNodes 4) t 24 ⟨4, 1, d⟩ r = .ok ([], r') := by
  have hread : (twoNodes 4).readPages 4 1 =
      .ok ⟨1 * kPageSize, fun i => (twoNodes 4).data (ByteFile.offset 4 + i)⟩ :=
    readPages_ok (by decide) (by decide)
  obtain ⟨ok, hok⟩ := crcOk_eq_ok (show 28 + 4 ≤
    Buf.size ⟨1 * kPageSize, fun i => (twoNodes 4).data (ByteFile.offset 4 + i)⟩ by decide)
  rw [visit]
  dsimp only
  rw [if_neg (by decide), if_neg (by decide), loadNode]
  dsimp only
  rw [hread, ok_bind, Buf.word_eq_ok (by decide), ok_bind, if_neg (by decide), walkNode, hok, ok_bind,
    Buf.word_eq_ok (by decide), ok_bind,
    show word (fun i => (twoNodes 4).data (ByteFile.offset 4 + i)) 8 8 = 0 by decide, walkChildren]
  exact ⟨_, rfl⟩

lemma walkTree_twoNodes : ∃ r, walkTree 2 (twoNodes 4) (twoNodesSuperblock 4) {} = some (.ok r) := by
  obtain ⟨t, ht⟩ := loadLeafTable_twoNodes (.inr rfl)
  obtain ⟨d, r₁, h₁⟩ := visit_firstNode (.inr rfl) t 0 {}
  obtain ⟨r₂, h₂⟩ := visit_secondNode t d r₁
  refine ⟨r₂, ?_⟩
  rw [walkTree_eq_of_load ht, show childEntrySize _ _ = 24 from rfl,
    show rootEntry (twoNodesSuperblock 4) = ⟨3, 1, 0⟩ from rfl, run, h₁]
  simp only [List.singleton_append, run, h₂, List.nil_append]

/-- A node with one inner child: the file is sound and the walk is safe. -/
theorem walk_safe_iff_sound_twoNodes :
    WalkSafe (twoNodes 4) (twoNodesSuperblock 4) {} ∧
      WalkSound (twoNodes 4) (twoNodesSuperblock 4) {} := by
  obtain ⟨r, hr⟩ := walkTree_twoNodes
  have hsound := walkSound_of_ok hr
  have hquiet : ∀ fuel e, walkTree fuel (twoNodes 4) (twoNodesSuperblock 4) {} ≠
      some (.error (.thrown e)) := by
    intro fuel e he
    obtain ⟨t, ht⟩ := loadLeafTable_twoNodes (.inr rfl)
    rw [walkTree_eq_of_load ht] at he hr
    exact nomatch run_unique he hr
  have hboth := walk_safe_iff_sound (twoNodes 4) (twoNodesSuperblock 4) {}
  exact ⟨hboth.1 hsound, (hboth.2 hquiet).mp (hboth.1 hsound)⟩

end SextantTree.Fsck
