import SextantTree.FsckFrame

/-!
The repair of `fsck`: the bitmap it rebuilds, the free list it links through the free pages, and
what it leaves alone.
-/

namespace SextantTree.Fsck

open ByteMem Pages FileBytes Outcome StackWalk

/-! ### What a right allocator looks like -/

/-- Every page of the tree and of the blobs beside it. -/
def reachable (sb : Superblock) (walk : TreeWalkResult) : List PageRange :=
  treeRanges walk ++ blobRanges sb

def InRegion (sb : Superblock) (p : ℕ) : Prop :=
  sb.allocBitmapPage ≤ p ∧ p < sb.allocBitmapPage + sb.allocBitmapPages

def InUse (sb : Superblock) (reach : List PageRange) (p : ℕ) : Prop :=
  p < 2 ∨ InRegion sb p ∨ claimed reach p = true

/-- Bit `p` of a bitmap. -/
def bitAt (m : Mem) (p : ℕ) : Bool := (m (p / 8)).toNat.testBit (p % 8)

/-- The bitmap in the file marks a page as allocated. -/
def marked (f : ByteFile) (sb : Superblock) (p : ℕ) : Bool :=
  decide (p / 8 < sb.allocBitmapPages * kPageSize) &&
    bitAt (fun i => f.data (sb.allocBitmapPage * kPageSize + i)) p

/-- The free list from `head` on runs through these pages. -/
def FreeChain (f : ByteFile) : ℕ → List ℕ → Prop
  | head, [] => head = kInvalidPage
  | head, p :: l => head = p ∧ FreeChain f (word f.data 8 (p * kPageSize)) l

structure AllocatorExact (f : ByteFile) (sb : Superblock) (reach : List PageRange) : Prop where
  nPages : sb.nPages = f.numPages
  region : sb.allocBitmapPage + sb.allocBitmapPages ≤ f.numPages
  covers : f.numPages ≤ sb.allocBitmapPages * kPageSize * 8
  bits : ∀ p < f.numPages, marked f sb p = true ↔ InUse sb reach p
  freeList : ∃ l, FreeChain f sb.freeListHead l ∧ l.Nodup ∧ l.length = sb.nFreePages ∧
    ∀ p, p ∈ l ↔ p < sb.nPages ∧ ¬ InUse sb reach p

/-! ### Files -/

section

attribute [local irreducible] ByteMem.word

lemma offset_eq {p : ℕ} (h : p < 2 ^ 52) : ByteFile.offset p = p * kPageSize := by
  simp only [ByteFile.offset, kPageSize]
  omega

namespace ByteFile

variable {f : ByteFile}

lemma size_le : f.size ≤ f.numPages * kPageSize := by
  simp only [ByteFile.numPages, kPageSize]
  omega

lemma numPages_eq {n : ℕ} (h₁ : f.size ≤ n * kPageSize) (h₂ : n * kPageSize < f.size + kPageSize) :
    f.numPages = n := by
  simp only [ByteFile.numPages, kPageSize] at *
  omega

end ByteFile

/-- `f'` is `f` with some bytes changed and perhaps the last page filled up. -/
structure Edited (f f' : ByteFile) (touched : ℕ → Prop) : Prop where
  size : f.size ≤ f'.size
  numPages : f'.numPages = f.numPages
  data : ∀ p, ¬ touched p → ∀ i < kPageSize, p * kPageSize + i < f.size →
    f'.data (p * kPageSize + i) = f.data (p * kPageSize + i)

namespace Edited

variable {f f' f'' : ByteFile} {touched touched' : ℕ → Prop}

lemma refl : Edited f f touched := ⟨le_rfl, rfl, fun _ _ _ _ _ => rfl⟩

lemma mono (h : Edited f f' touched) (hle : ∀ p, touched p → touched' p) : Edited f f' touched' :=
  ⟨h.size, h.numPages, fun p hp => h.data p fun ht => hp (hle p ht)⟩

lemma trans (h : Edited f f' touched) (h' : Edited f' f'' touched) : Edited f f'' touched := by
  refine ⟨h.size.trans h'.size, h'.numPages.trans h.numPages, fun p hp i hi hs => ?_⟩
  rw [h'.data p hp i hi (hs.trans_le h.size), h.data p hp i hi hs]

lemma word (h : Edited f f' touched) {p off w : ℕ} (hp : ¬ touched p) (hw : off + w ≤ kPageSize)
    (hs : p * kPageSize + off + w ≤ f.size) :
    ByteMem.word f'.data w (p * kPageSize + off) = ByteMem.word f.data w (p * kPageSize + off) := by
  refine word_congr fun i h₁ h₂ => ?_
  have := h.data p hp (i - p * kPageSize) (by omega) (by omega)
  rwa [Nat.add_sub_cancel' (by omega)] at this

end Edited

lemma edited_writePages {f : ByteFile} {page n : ℕ} {b : List UInt8} (hb : b.length = n * kPageSize)
    (hpage : page + n ≤ f.numPages) (hsmall : f.numPages < 2 ^ 47) :
    Edited f (f.writePages page b) (fun p => page ≤ p ∧ p < page + n) ∧
      Holds (f.writePages page b).data (page * kPageSize) b ∧
      (page + n) * kPageSize ≤ (f.writePages page b).size := by
  have hoff : ByteFile.offset page = page * kPageSize := offset_eq (by omega)
  have hend : page * kPageSize + n * kPageSize = (page + n) * kPageSize := by ring
  have hle : (page + n) * kPageSize ≤ f.numPages * kPageSize := Nat.mul_le_mul_right _ hpage
  refine ⟨⟨Nat.le_max_left _ _, ?_, fun p hp i hi hs => ?_⟩, ?_, ?_⟩
  · have hsize := ByteFile.size_le (f := f)
    apply ByteFile.numPages_eq
    · simp only [ByteFile.writePages, hoff, hb, hend]
      omega
    · simp only [ByteFile.writePages, ByteFile.numPages, kPageSize] at hsize ⊢
      omega
  · have hout : p * kPageSize + i < page * kPageSize ∨
        page * kPageSize + n * kPageSize ≤ p * kPageSize + i := by
      rw [not_and_or, Nat.not_le, Nat.not_lt] at hp
      simp only [kPageSize] at *
      omega
    simp only [ByteFile.writePages, hoff]
    rcases hout with hout | hout
    · rw [poke_apply_of_lt hout, ByteFile.contents, if_pos hs]
    · rw [poke_apply_of_le (by omega), ByteFile.contents, if_pos hs]
  · simp only [ByteFile.writePages, hoff]
    exact holds_poke_self _ _ _
  · simp only [ByteFile.writePages, hoff, hb, hend]
    exact Nat.le_max_right _ _

/-! ### The rebuilt bitmap -/

lemma testBit_mask {j k : ℕ} (hj : j < 8) :
    (UInt8.ofNat (2 ^ j)).toNat.testBit k = decide (k = j) := by
  have hlt : 2 ^ j < 256 := Nat.pow_lt_pow_right (by norm_num) (show j < 8 from hj)
  rw [UInt8.toNat_ofNat', Nat.mod_eq_of_lt hlt, Nat.testBit_two_pow]
  exact decide_eq_decide.mpr eq_comm

lemma bitAt_mark (r : Rebuilt) (p q : ℕ) :
    bitAt (r.mark p).bitmap q = (bitAt r.bitmap q || decide (q = p)) := by
  by_cases hbyte : q / 8 = p / 8
  · have heq : (q % 8 = p % 8) ↔ q = p := by omega
    simp only [bitAt, Rebuilt.mark, hbyte, Function.update_self, UInt8.toNat_or, Nat.testBit_or,
      testBit_mask (Nat.mod_lt p (show 0 < 8 by norm_num)), heq]
  · have hne : q ≠ p := fun h => hbyte (by rw [h])
    simp [bitAt, Rebuilt.mark, Function.update_of_ne hbyte, hne]

/-- The bitmap and the flags mark the same pages. -/
def Rebuilt.Marks (r : Rebuilt) (l : List ℕ) : Prop :=
  ∀ q, (bitAt r.bitmap q = true ↔ q ∈ l) ∧ (r.alloc q = true ↔ q ∈ l)

lemma Rebuilt.Marks.mark {r : Rebuilt} {l : List ℕ} (h : r.Marks l) (p : ℕ) :
    (r.mark p).Marks (l ++ [p]) := by
  intro q
  constructor
  · rw [bitAt_mark, Bool.or_eq_true, (h q).1, decide_eq_true_eq, List.mem_append, List.mem_singleton]
  · rw [List.mem_append, List.mem_singleton, ← (h q).2]
    by_cases hq : q = p
    · simp [Rebuilt.mark, hq]
    · simp [Rebuilt.mark, hq]

lemma foldlM_mark {f : Rebuilt → ℕ → Except Fault Rebuilt} {l : List ℕ}
    (hf : ∀ r, ∀ p ∈ l, f r p = .ok (r.mark p)) {r : Rebuilt} {l₀ : List ℕ} (hr : r.Marks l₀) :
    ∃ r', l.foldlM f r = .ok r' ∧ r'.Marks (l₀ ++ l) := by
  induction l generalizing r l₀ with
  | nil => exact ⟨r, rfl, by simpa using hr⟩
  | cons p l ih =>
    obtain ⟨r', hr', hm⟩ := ih (fun r q hq => hf r q (List.mem_cons_of_mem _ hq)) (hr.mark p)
    refine ⟨r', ?_, by simpa using hm⟩
    rw [List.foldlM_cons, hf r p List.mem_cons_self, ok_bind, hr']

def markedPages (g : Region) (old : ℕ) (rs : List PageRange) : List ℕ :=
  keptPages g old rs ++ if g.relocated then (List.range g.nbm).map (g.bmp + ·) else []

lemma rebuild_spec {g : Region} (old : ℕ) (rs : List PageRange)
    (hcover : g.file.numPages ≤ g.nbm * kPageSize * 8)
    (hin : ∀ p ∈ markedPages g old rs, p < g.file.numPages) :
    ∃ b, rebuild g old rs = .ok b ∧ b.Marks (markedPages g old rs) := by
  have hbyte : ∀ p < g.file.numPages, p / 8 < g.nbm * kPageSize := fun p hp => by omega
  have hkept : ∀ (r : Rebuilt), ∀ p ∈ keptPages g old rs,
      markClaimed (g.nbm * kPageSize) g.file.numPages r p = .ok (r.mark p) := by
    intro r p hp
    have hp' := hin p (List.mem_append_left _ hp)
    rw [markClaimed, if_pos (hbyte p hp'), if_pos hp']
  have hempty : Rebuilt.Marks ⟨fun _ => 0, fun _ => false⟩ [] := by
    intro q
    simp [bitAt]
  obtain ⟨b, hb, hmarks⟩ := foldlM_mark hkept hempty
  rw [List.nil_append] at hmarks
  simp only [rebuild]
  rw [hb, ok_bind]
  unfold markedPages at hin ⊢
  by_cases hrel : g.relocated = true
  · rw [if_pos hrel] at hin ⊢
    rw [if_pos hrel]
    refine foldlM_mark (fun r p hp => ?_) hmarks
    have hp' := hin p (List.mem_append_right _ hp)
    rw [markOwn, if_pos ⟨hbyte p hp', hp'⟩]
  · rw [if_neg hrel, if_neg hrel, List.append_nil]
    exact ⟨b, rfl, hmarks⟩

/-! ### The rebuilt free list -/

lemma FreeChain.congr {f f' : ByteFile} {head : ℕ} {l : List ℕ} (h : FreeChain f head l)
    (heq : ∀ p ∈ l, word f'.data 8 (p * kPageSize) = word f.data 8 (p * kPageSize)) :
    FreeChain f' head l := by
  induction l generalizing head with
  | nil => exact h
  | cons p l ih =>
    refine ⟨h.1, ?_⟩
    rw [heq p List.mem_cons_self]
    exact ih h.2 fun q hq => heq q (List.mem_cons_of_mem _ hq)

/-- The pages below `n` that are free, in order. -/
def freeBelow (alloc : ℕ → Bool) (n : ℕ) : List ℕ := (List.range n).filter fun p => !alloc p

lemma mem_freeBelow {alloc : ℕ → Bool} {n p : ℕ} :
    p ∈ freeBelow alloc n ↔ p < n ∧ alloc p = false := by
  simp [freeBelow]

lemma nodup_freeBelow (alloc : ℕ → Bool) (n : ℕ) : (freeBelow alloc n).Nodup :=
  List.nodup_range.filter _

/-- The free list so far: a chain through `pages`, counted. -/
structure FreeList.Linked (l : FreeList) (pages : List ℕ) : Prop where
  chain : FreeChain l.file l.head pages
  total : l.total = pages.length
  /-- The link word of each page is in the file. -/
  fits : ∀ p ∈ pages, p * kPageSize + 8 ≤ l.file.size

lemma writeFreeNext_spec {f : ByteFile} {p next : ℕ} (hp : p < f.numPages)
    (hsmall : f.numPages < 2 ^ 47) (hnext : next < 2 ^ 64) :
    Edited f (writeFreeNext f p next) (fun q => q = p) ∧
      word (writeFreeNext f p next).data 8 (p * kPageSize) = next ∧
      p * kPageSize + 8 ≤ (writeFreeNext f p next).size := by
  have hlen : (leBytes 8 next ++ List.replicate (kPageSize - 8) 0).length = 1 * kPageSize := by
    rw [List.length_append, length_leBytes, List.length_replicate]
    simp only [kPageSize]
  obtain ⟨hedit, hholds, hsize⟩ := edited_writePages hlen (show p + 1 ≤ _ from hp) hsmall
  refine ⟨hedit.mono fun q hq => by omega, hholds.left.word (by simpa using hnext), ?_⟩
  unfold writeFreeNext
  simp only [kPageSize] at hsize ⊢
  omega

lemma pushFree_spec (alloc : ℕ → Bool) {n : ℕ} {l : FreeList} {pages : List ℕ}
    (hl : l.Linked pages) (hge : ∀ p ∈ pages, n ≤ p) (hn : n ≤ l.file.numPages)
    (hsmall : l.file.numPages < 2 ^ 47) (hhead : l.head < 2 ^ 64) :
    Edited l.file (pushFree alloc n l).file (fun p => p < n ∧ alloc p = false) ∧
      (pushFree alloc n l).Linked (freeBelow alloc n ++ pages) ∧ (pushFree alloc n l).head < 2 ^ 64 := by
  induction n generalizing l pages with
  | zero =>
    rw [pushFree]
    exact ⟨.refl, by simpa [freeBelow] using hl, hhead⟩
  | succ p ih =>
    rw [pushFree]
    by_cases ha : alloc p = true
    · rw [if_pos ha]
      obtain ⟨hedit, hlinked, hhead'⟩ := ih hl (fun q hq => (Nat.lt_succ_self p).le.trans (hge q hq))
        (by omega) hsmall hhead
      refine ⟨hedit.mono fun q hq => ⟨by omega, hq.2⟩, ?_, hhead'⟩
      have hsame : freeBelow alloc (p + 1) = freeBelow alloc p := by
        simp [freeBelow, List.range_succ, List.filter_append, ha]
      rwa [hsame]
    · rw [Bool.not_eq_true] at ha
      rw [if_neg (by simp [ha])]
      obtain ⟨hedit₁, hword, hfit⟩ := writeFreeNext_spec (show p < _ by omega) hsmall hhead
      have hlinked₁ : FreeList.Linked ⟨writeFreeNext l.file p l.head, p, l.total + 1⟩ (p :: pages) := by
        refine ⟨⟨rfl, ?_⟩, by simp [hl.total], fun q hq => ?_⟩
        · rw [hword]
          refine hl.chain.congr fun q hq => ?_
          have hq' := hge q hq
          have hkeep := @Edited.word _ _ _ hedit₁ q 0 8 (by omega) (by simp only [kPageSize]; omega)
            (by rw [Nat.add_zero]; exact hl.fits q hq)
          rwa [Nat.add_zero] at hkeep
        · rcases List.mem_cons.mp hq with rfl | hq
          · exact hfit
          · exact (hl.fits q hq).trans hedit₁.size
      obtain ⟨hedit, hlinked, hhead'⟩ := ih hlinked₁
        (fun q hq => by
          rcases List.mem_cons.mp hq with rfl | hq
          · exact le_rfl
          · exact (Nat.lt_succ_self p).le.trans (hge q hq))
        (by rw [hedit₁.numPages]; omega) (by rw [hedit₁.numPages]; exact hsmall)
        (show p < 2 ^ 64 by omega)
      refine ⟨?_, ?_, hhead'⟩
      · refine (hedit₁.mono fun q hq => ?_).trans (hedit.mono fun q hq => ⟨by omega, hq.2⟩)
        subst hq
        exact ⟨by omega, ha⟩
      · have hsnoc : freeBelow alloc (p + 1) = freeBelow alloc p ++ [p] := by
          simp [freeBelow, List.range_succ, List.filter_append, ha]
        rwa [hsnoc, List.append_assoc, List.singleton_append]

/-! ### The superblock -/

/-- The copy in page `k`. -/
def copyIn (f : ByteFile) (k : ℕ) : Superblock := ⟨fun i => f.data (k * kPageSize + i)⟩

def Superblock.Valid (sb : Superblock) : Prop := word sb.disk 8 0 = kSuperblockMagic

lemma load_eq_ok_iff {f : ByteFile} {sb : Superblock} :
    Superblock.load f = .ok sb ↔ 2 * kPageSize ≤ f.size ∧
      ((Superblock.Valid (copyIn f 0) ∧ sb = copyIn f 0 ∧
          (Superblock.Valid (copyIn f 1) → (copyIn f 1).commitSeq ≤ (copyIn f 0).commitSeq)) ∨
        (Superblock.Valid (copyIn f 1) ∧ sb = copyIn f 1 ∧
          (Superblock.Valid (copyIn f 0) → (copyIn f 0).commitSeq < (copyIn f 1).commitSeq))) := by
  by_cases hsize : 2 * kPageSize ≤ f.size
  · have h₀ : f.readPages 0 1 = .ok ⟨1 * kPageSize, (copyIn f 0).disk⟩ := by
      rw [readPages_ok one_pos (by rw [offset_eq (by norm_num)]; omega), offset_eq (by norm_num)]
      rfl
    have h₁ : f.readPages 1 1 = .ok ⟨1 * kPageSize, (copyIn f 1).disk⟩ := by
      rw [readPages_ok one_pos (by rw [offset_eq (by norm_num)]; omega), offset_eq (by norm_num)]
      rfl
    rw [Superblock.load, h₀, ok_bind, h₁, ok_bind]
    simp only [Superblock.valid, Superblock.Valid, hsize, true_and]
    by_cases hv₀ : word (copyIn f 0).disk 8 0 = kSuperblockMagic <;>
      by_cases hv₁ : word (copyIn f 1).disk 8 0 = kSuperblockMagic
    · simp only [hv₀, hv₁, beq_self_eq_true, true_and, forall_const, Except.ok.injEq]
      by_cases hle : (copyIn f 1).commitSeq ≤ (copyIn f 0).commitSeq
      · rw [if_pos hle]
        simp [hle, Nat.not_lt.mpr hle, eq_comm]
      · rw [if_neg hle]
        simp [hle, Nat.lt_of_not_le hle, eq_comm]
    · simp [hv₀, hv₁, beq_false_of_ne hv₁, eq_comm]
    · simp [hv₀, hv₁, beq_false_of_ne hv₀, eq_comm]
    · simp [hv₀, hv₁, beq_false_of_ne hv₀, beq_false_of_ne hv₁]
  · simp only [hsize, false_and, iff_false]
    intro h
    obtain ⟨a, ha, h⟩ := bind_eq_ok.mp h
    obtain ⟨b, hb, -⟩ := bind_eq_ok.mp h
    rw [ByteFile.readPages, if_neg one_ne_zero,
      if_neg (by rw [offset_eq (by norm_num)]; omega)] at hb
    cases hb

def SameDisk (sb sb' : Superblock) : Prop := ∀ i < kPageSize, sb'.disk i = sb.disk i

lemma SameDisk.word {sb sb' : Superblock} (h : SameDisk sb sb') {w off : ℕ} (hw : off + w ≤ kPageSize) :
    word sb'.disk w off = word sb.disk w off :=
  word_congr fun i _ h₂ => h i (by omega)

lemma next_commitSeq {s : Superblock} (h : s.commitSeq + 1 < 2 ^ 64) :
    s.next.commitSeq = s.commitSeq + 1 := by
  rw [Superblock.next, Superblock.commitSeq, word_poke_self, Nat.mod_eq_of_lt h]
  rw [Nat.mod_eq_of_lt h]
  exact h

lemma load_commit {f f₁ : ByteFile} {sb s : Superblock} (hload : Superblock.load f = .ok sb)
    (hgrow : f.size ≤ f₁.size) (hkeep : ∀ k < 2, SameDisk (copyIn f k) (copyIn f₁ k))
    (hs : s.commitSeq = sb.commitSeq) (hvalid : Superblock.Valid s)
    (hseq : sb.commitSeq + 1 < 2 ^ 64) (hsmall : f₁.numPages < 2 ^ 47) :
    Edited f₁ (s.commit f₁) (fun p => p < 2) ∧
      ∃ sb', Superblock.load (s.commit f₁) = .ok sb' ∧ SameDisk s.next sb' := by
  obtain ⟨hsize, hpick⟩ := load_eq_ok_iff.mp hload
  have hpages : 2 ≤ f₁.numPages := by
    have := hsize.trans (hgrow.trans ByteFile.size_le)
    simp only [kPageSize] at this
    omega
  have hnext := next_commitSeq (hs ▸ hseq)
  have hmagic : word s.next.disk 8 0 = kSuperblockMagic := by
    rw [Superblock.next, word_poke (.inl (by norm_num))]
    exact hvalid
  -- an old copy that is still there, and the sequence number it has
  have hold : ∀ k < 2, Superblock.Valid (copyIn f k) →
      (copyIn f k).commitSeq ≤ sb.commitSeq := by
    intro k hk hv
    rcases hpick with ⟨-, rfl, hle⟩ | ⟨-, rfl, hlt⟩
    · interval_cases k
      · exact le_rfl
      · exact hle hv
    · interval_cases k
      · exact (hlt hv).le
      · exact le_rfl
  have hwrite : ∀ k < 2, Edited f₁ (f₁.writePages k (peek s.next.disk 0 kPageSize)) (fun p => p = k) ∧
      SameDisk s.next (copyIn (f₁.writePages k (peek s.next.disk 0 kPageSize)) k) := by
    intro k hk
    have hlen : (peek s.next.disk 0 kPageSize).length = 1 * kPageSize := by simp
    obtain ⟨he, hholds, -⟩ := edited_writePages hlen (show k + 1 ≤ f₁.numPages by omega) hsmall
    refine ⟨he.mono fun p hp => by omega, fun i hi => ?_⟩
    refine hholds i _ ?_
    simp [peek, hi]
  have hother : ∀ {f' : ByteFile} {k j : ℕ}, j < 2 → j ≠ k →
      Edited f₁ f' (fun p => p = k) → SameDisk (copyIn f j) (copyIn f' j) := by
    intro f' k j hj hne he i hi
    have hin : j * kPageSize + i < f.size := by
      refine lt_of_lt_of_le ?_ hsize
      simp only [kPageSize] at hi ⊢
      omega
    exact (he.data j hne i hi (hin.trans_le hgrow)).trans (hkeep j hj i hi)
  have hbound : ∀ {f' : ByteFile} {k : ℕ}, Edited f₁ f' (fun p => p = k) → 2 * kPageSize ≤ f'.size :=
    fun he => hsize.trans (hgrow.trans he.size)
  rw [Superblock.commit]
  by_cases heven : s.next.commitSeq % 2 = 0
  · rw [if_pos heven]
    obtain ⟨he, hsame⟩ := hwrite 0 (by norm_num)
    refine ⟨he.mono fun p hp => by omega, _, load_eq_ok_iff.mpr ⟨hbound he, .inl ⟨?_, rfl, ?_⟩⟩, hsame⟩
    · rw [Superblock.Valid, hsame.word (by simp only [kPageSize]; omega)]
      exact hmagic
    · intro hv
      have hj := hother (j := 1) (by norm_num) one_ne_zero he
      rw [Superblock.Valid, hj.word (by simp only [kPageSize]; omega)] at hv
      have := hold 1 (by norm_num) hv
      rw [Superblock.commitSeq, hj.word (by simp only [kPageSize]; omega),
        Superblock.commitSeq, hsame.word (by simp only [kPageSize]; omega)]
      rw [Superblock.commitSeq] at hnext this
      omega
  · rw [if_neg heven]
    obtain ⟨he, hsame⟩ := hwrite 1 (by norm_num)
    refine ⟨he.mono fun p hp => by omega, _, load_eq_ok_iff.mpr ⟨hbound he, .inr ⟨?_, rfl, ?_⟩⟩, hsame⟩
    · rw [Superblock.Valid, hsame.word (by simp only [kPageSize]; omega)]
      exact hmagic
    · intro hv
      have hj := hother (j := 0) (by norm_num) zero_ne_one he
      rw [Superblock.Valid, hj.word (by simp only [kPageSize]; omega)] at hv
      have := hold 0 (by norm_num) hv
      rw [Superblock.commitSeq, hj.word (by simp only [kPageSize]; omega),
        Superblock.commitSeq, hsame.word (by simp only [kPageSize]; omega)]
      rw [Superblock.commitSeq] at hnext this
      omega

end

end SextantTree.Fsck
