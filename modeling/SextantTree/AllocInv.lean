import Mathlib.Data.Finset.Card
import SextantTree.Alloc

/-!
What one call of the allocator does, and the invariant every call keeps.

The invariant speaks of a set `S` of pages that have been freed at least once. A page of
`S` that is free now still carries the link the allocator wrote when it freed it, because
clients write to allocated pages only; so following a link from a free page of `S` stays
inside `S`. Pages of `S` that have been handed out again hold client data, and the bitmap
tells them apart.
-/

namespace SextantTree.AllocInv

open SextantTree.Pages SextantTree.Alloc

/-! ### Bits -/

@[simp] lemma bitGet_bitSet (bm : Bitmap) (i j : ℕ) :
    bitGet (bitSet bm i) j = (bitGet bm j || decide (j = i)) := by
  simp only [bitGet, bitSet, Nat.testBit_or, Nat.one_shiftLeft, Nat.testBit_two_pow]
  congr 1
  simp [eq_comm]

@[simp] lemma bitGet_bitClear (bm : Bitmap) (i j : ℕ) :
    bitGet (bitClear bm i) j = (bitGet bm j && !decide (j = i)) := by
  simp only [bitGet, bitClear, Nat.testBit_xor, Nat.testBit_and, Nat.one_shiftLeft,
    Nat.testBit_two_pow]
  by_cases h : j = i
  · subst h; cases bm.bits.testBit j <;> simp
  · have h' : ¬ i = j := fun e => h e.symm
    simp [h, h']

@[simp] lemma bitGet_growBitmap (bm : Bitmap) (n j : ℕ) :
    bitGet (growBitmap bm n) j = bitGet bm j := rfl

@[simp] lemma bitSet_size (bm : Bitmap) (i : ℕ) : (bitSet bm i).size = bm.size := rfl
@[simp] lemma bitClear_size (bm : Bitmap) (i : ℕ) : (bitClear bm i).size = bm.size := rfl

/-- The clear bits below `n`, as a set. -/
def freeSet (bm : Bitmap) (n : ℕ) : Finset ℕ := (Finset.range n).filter fun p => bitGet bm p = false

lemma mem_freeSet {bm : Bitmap} {n p : ℕ} :
    p ∈ freeSet bm n ↔ p < n ∧ bitGet bm p = false := by
  simp [freeSet]

lemma countFree_eq (bm : Bitmap) (n : ℕ) : countFree bm n = (freeSet bm n).card := by
  induction n with
  | zero => rfl
  | succ n ih =>
    have hc : countFree bm (n + 1) = countFree bm n + if bitGet bm n then 0 else 1 := by
      unfold countFree
      rw [List.range_succ, List.countP_append]
      cases hb : bitGet bm n <;> simp [hb]
    rw [hc, ih]
    cases hb : bitGet bm n
    · have : freeSet bm (n + 1) = insert n (freeSet bm n) := by
        ext p
        simp only [mem_freeSet, Finset.mem_insert]
        constructor
        · rintro ⟨h1, h2⟩
          by_cases h : p = n
          · exact .inl h
          · exact .inr ⟨by omega, h2⟩
        · rintro (rfl | ⟨h1, h2⟩)
          · exact ⟨by omega, hb⟩
          · exact ⟨by omega, h2⟩
      rw [this, Finset.card_insert_of_notMem (by simp [mem_freeSet])]
      simp
    · have : freeSet bm (n + 1) = freeSet bm n := by
        ext p
        simp only [mem_freeSet]
        constructor
        · rintro ⟨h1, h2⟩
          refine ⟨?_, h2⟩
          by_contra h
          have : p = n := by omega
          subst this; rw [hb] at h2; cases h2
        · rintro ⟨h1, h2⟩
          exact ⟨by omega, h2⟩
      rw [this]; simp

lemma freeSet_bitSet (bm : Bitmap) (n p : ℕ) :
    freeSet (bitSet bm p) n = (freeSet bm n).erase p := by
  ext q
  simp only [mem_freeSet, Finset.mem_erase, bitGet_bitSet, Bool.or_eq_false_iff,
    decide_eq_false_iff_not]
  tauto

lemma freeSet_bitClear {bm : Bitmap} {n p : ℕ} (hp : p < n) :
    freeSet (bitClear bm p) n = insert p (freeSet bm n) := by
  ext q
  simp only [mem_freeSet, Finset.mem_insert, bitGet_bitClear, Bool.and_eq_false_iff,
    Bool.not_eq_false', decide_eq_true_eq]
  constructor
  · rintro ⟨h1, h2 | h2⟩
    · exact .inr ⟨h1, h2⟩
    · exact .inl h2
  · rintro (rfl | ⟨h1, h2⟩)
    · exact ⟨hp, .inr rfl⟩
    · exact ⟨h1, .inl h2⟩

/-! ### The scan for a run of free pages -/

lemma findFreeRunFrom_sound {bm : Bitmap} {count : ℕ} (hc : 0 < count) :
    ∀ (fuel i runStart runLen r : ℕ), runStart + runLen = i → runLen < count →
      (∀ p, runStart ≤ p → p < i → bitGet bm p = false) →
      findFreeRunFrom bm count fuel i runStart runLen = some r →
      r + count ≤ i + fuel ∧ ∀ p, r ≤ p → p < r + count → bitGet bm p = false
  | 0, _, _, _, _, _, _, _, h => by simp [findFreeRunFrom] at h
  | fuel + 1, i, runStart, runLen, r, hi, hl, hfree, h => by
    rw [findFreeRunFrom] at h
    by_cases hb : bitGet bm i
    · rw [if_pos hb] at h
      have := findFreeRunFrom_sound hc fuel (i + 1) (i + 1) 0 r (by omega) hc
        (fun p h1 h2 => by omega) h
      exact ⟨by omega, this.2⟩
    · have hi0 : bitGet bm i = false := by simpa using hb
      have hfree' : ∀ p, runStart ≤ p → p < i + 1 → bitGet bm p = false := by
        intro p h1 h2
        by_cases hp : p = i
        · rw [hp]; exact hi0
        · exact hfree p h1 (by omega)
      rw [if_neg hb] at h
      by_cases hlen : count ≤ runLen + 1
      · rw [if_pos hlen] at h
        cases h
        exact ⟨by omega, fun p h1 h2 => hfree' p h1 (by omega)⟩
      · rw [if_neg hlen] at h
        have := findFreeRunFrom_sound hc fuel (i + 1) runStart (runLen + 1) r (by omega)
          (by omega) hfree' h
        exact ⟨by omega, this.2⟩

lemma findFreeRun_sound {bm : Bitmap} {n count r : ℕ} (hc : 0 < count)
    (h : findFreeRun bm 0 n count = some r) :
    r + count ≤ n ∧ ∀ p, r ≤ p → p < r + count → bitGet bm p = false := by
  have := findFreeRunFrom_sound hc (n - 0) 0 0 0 r rfl hc (fun p _ h => by omega) h
  exact ⟨by omega, this.2⟩

lemma findFreeRunFrom_complete {bm : Bitmap} {count : ℕ} (hc : 0 < count) (a : ℕ) :
    ∀ (fuel i runStart runLen : ℕ), runStart + runLen = i → a + count ≤ i + fuel →
      0 < fuel → (∀ p, a ≤ p → p < i + fuel → bitGet bm p = false) →
      (a ≤ i → runStart ≤ a) →
      (findFreeRunFrom bm count fuel i runStart runLen).isSome
  | 0, _, _, _, _, _, h0, _, _ => by omega
  | fuel + 1, i, runStart, runLen, hi, hac, _, hfree, hrs => by
    rw [findFreeRunFrom]
    by_cases hb : bitGet bm i
    · rw [if_pos hb]
      have hai : i < a := by
        by_contra h
        have := hfree i (by omega) (by omega)
        rw [this] at hb; cases hb
      by_cases hf : fuel = 0
      · omega
      · exact findFreeRunFrom_complete hc a fuel (i + 1) (i + 1) 0 rfl (by omega) (by omega)
          (fun p h1 h2 => hfree p h1 (by omega)) (fun h => by omega)
    · rw [if_neg hb]
      by_cases hlen : count ≤ runLen + 1
      · rw [if_pos hlen]; rfl
      · rw [if_neg hlen]
        by_cases hf : fuel = 0
        · by_cases hai : a ≤ i
          · have := hrs hai; omega
          · omega
        · refine findFreeRunFrom_complete hc a fuel (i + 1) runStart (runLen + 1) (by omega)
            (by omega) (by omega) (fun p h1 h2 => hfree p h1 (by omega)) (fun h => ?_)
          by_cases hai : a ≤ i
          · exact hrs hai
          · omega

/-! ### The invariant -/

variable {P : Type} [PageImage P]

/-- The allocator's picture of the file is right, `S` being the pages ever freed. -/
structure Ok (v : Vol P) (S : Set ℕ) : Prop where
  reserved : ∀ p < v.alloc.firstFree, bitGet v.alloc.bitmap p = true
  room : v.alloc.firstFree ≤ v.alloc.nPages
  high : ∀ p, v.alloc.nPages ≤ p → bitGet v.alloc.bitmap p = false
  covers : v.alloc.nPages ≤ 8 * v.alloc.bitmap.size
  counted : v.alloc.nFreePages = (freeSet v.alloc.bitmap v.alloc.nPages).card % 2 ^ 64
  fileSize : v.file.numPages = v.alloc.nPages
  head : ∀ p, v.alloc.freeListHead = some p → p ∈ S
  range : ∀ p ∈ S, v.alloc.firstFree ≤ p ∧ p < v.alloc.nPages
  chain : ∀ p ∈ S, bitGet v.alloc.bitmap p = false →
    ∀ q, PageImage.next (v.file.pages p) = some q → q ∈ S

/-- `n` pages from `r` on have been handed out and nothing else has changed. -/
structure Alloced (v v' : Vol P) (r n : ℕ) : Prop where
  fresh : ∀ p, r ≤ p → p < r + n → bitGet v.alloc.bitmap p = false
  data : v.alloc.firstFree ≤ r
  inFile : r + n ≤ v'.alloc.nPages
  bits : ∀ p, bitGet v'.alloc.bitmap p =
    (bitGet v.alloc.bitmap p || decide (r ≤ p ∧ p < r + n))
  pages : ∀ p < v.alloc.nPages, v'.file.pages p = v.file.pages p
  mono : v.alloc.nPages ≤ v'.alloc.nPages
  bitmapPage : v'.alloc.bitmapPage = v.alloc.bitmapPage
  bitmapPages : v'.alloc.bitmapPages = v.alloc.bitmapPages
  later : v.file.Extends v'.file

lemma Ok.clearFreeList {v : Vol P} {S : Set ℕ} (h : Ok v S) :
    Ok { v with alloc := clearFreeList v.alloc } S where
  reserved := h.reserved
  room := h.room
  high := h.high
  covers := h.covers
  counted := by simp [Alloc.clearFreeList, countFree_eq]
  fileSize := h.fileSize
  head := by intro p hp; simp [Alloc.clearFreeList] at hp
  range := h.range
  chain := h.chain

lemma Ok.grow {v : Vol P} {S : Set ℕ} (h : Ok v S) (k : ℕ) : Ok (grow v k) S where
  reserved := h.reserved
  room := le_trans h.room (Nat.le_add_right _ _)
  high p hp := h.high p (le_trans (Nat.le_add_right _ _) hp)
  covers := by simp only [Alloc.grow, growBitmap]; omega
  counted := by
    have hset : freeSet v.alloc.bitmap (v.alloc.nPages + k) =
        freeSet v.alloc.bitmap v.alloc.nPages ∪ Finset.Ico v.alloc.nPages (v.alloc.nPages + k) := by
      ext p
      simp only [mem_freeSet, Finset.mem_union, Finset.mem_Ico]
      constructor
      · rintro ⟨h1, h2⟩
        by_cases hp : p < v.alloc.nPages
        · exact .inl ⟨hp, h2⟩
        · exact .inr ⟨by omega, h1⟩
      · rintro (⟨h1, h2⟩ | ⟨h1, h2⟩)
        · exact ⟨by omega, h2⟩
        · exact ⟨h2, h.high p h1⟩
    have hdisj : Disjoint (freeSet v.alloc.bitmap v.alloc.nPages)
        (Finset.Ico v.alloc.nPages (v.alloc.nPages + k)) := by
      rw [Finset.disjoint_left]
      intro p h1 h2
      rw [mem_freeSet] at h1
      rw [Finset.mem_Ico] at h2
      omega
    show (v.alloc.nFreePages + k) % 2 ^ 64 =
      (freeSet v.alloc.bitmap (v.alloc.nPages + k)).card % 2 ^ 64
    rw [hset, Finset.card_union_of_disjoint hdisj, Nat.card_Ico, h.counted]
    omega
  fileSize := rfl
  head := h.head
  range p hp := ⟨(h.range p hp).1, lt_of_lt_of_le (h.range p hp).2 (Nat.le_add_right _ _)⟩
  chain p hp hb q hq := by
    have hlt := (h.range p hp).2
    have hpg : (Alloc.grow v k).file.pages p = v.file.pages p := by
      simp only [Alloc.grow, PageFile.truncate_pages]
      rw [if_pos (by rw [h.fileSize]; omega)]
    rw [hpg] at hq
    exact h.chain p hp hb q hq

lemma grow_pages {v : Vol P} {S : Set ℕ} (h : Ok v S) (k : ℕ) {p : ℕ} (hp : p < v.alloc.nPages) :
    (grow v k).file.pages p = v.file.pages p := by
  simp only [Alloc.grow, PageFile.truncate_pages]
  rw [if_pos (by rw [h.fileSize]; omega)]

lemma Ok.take {v : Vol P} {S : Set ℕ} (h : Ok v S) {p : ℕ} (hp : p < v.alloc.nPages)
    (hb : bitGet v.alloc.bitmap p = false) : Ok (take v p) S where
  reserved q hq := by simp [Alloc.take, h.reserved q hq]
  room := h.room
  high q hq := by
    have hq' : v.alloc.nPages ≤ q := hq
    simp only [Alloc.take, bitGet_bitSet, h.high q hq', Bool.false_or, decide_eq_false_iff_not]
    omega
  covers := h.covers
  counted := by
    show countDown v.alloc.nFreePages =
      (freeSet (bitSet v.alloc.bitmap p) v.alloc.nPages).card % 2 ^ 64
    have hmem := mem_freeSet.mpr ⟨hp, hb⟩
    have hpos := Finset.card_pos.mpr ⟨p, hmem⟩
    rw [freeSet_bitSet, Finset.card_erase_of_mem hmem, countDown, h.counted]
    split_ifs <;> omega
  fileSize := h.fileSize
  head := h.head
  range := h.range
  chain q hq hqb r hr := by
    simp only [Alloc.take, bitGet_bitSet, Bool.or_eq_false_iff] at hqb
    exact h.chain q hq hqb.1 r hr

lemma free_ge_firstFree {v : Vol P} {S : Set ℕ} (h : Ok v S) {p : ℕ}
    (hb : bitGet v.alloc.bitmap p = false) : v.alloc.firstFree ≤ p := by
  by_contra hlt
  rw [h.reserved p (by omega)] at hb
  cases hb

lemma alloced_take {v : Vol P} {S : Set ℕ} (h : Ok v S) {p : ℕ} (hp : p < v.alloc.nPages)
    (hb : bitGet v.alloc.bitmap p = false) : Alloced v (take v p) p 1 where
  fresh q h1 h2 := by
    have : q = p := by omega
    rw [this]; exact hb
  data := free_ge_firstFree h hb
  inFile := hp
  bits q := by
    simp only [Alloc.take, bitGet_bitSet]
    congr 1
    simp only [decide_eq_decide]; omega
  pages q _ := rfl
  mono := le_refl _
  bitmapPage := rfl
  bitmapPages := rfl
  later := .refl _

lemma Alloced.of_grow {v v' : Vol P} {S : Set ℕ} (h : Ok v S) {k r n : ℕ}
    (ha : Alloced (grow v k) v' r n) : Alloced v v' r n where
  fresh := ha.fresh
  data := ha.data
  inFile := ha.inFile
  bits := ha.bits
  pages p hp := by
    rw [ha.pages p (lt_of_lt_of_le hp (Nat.le_add_right _ _)), grow_pages h k hp]
  mono := le_trans (Nat.le_add_right _ _) ha.mono
  bitmapPage := ha.bitmapPage
  bitmapPages := ha.bitmapPages
  later := .trans (PageFile.extends_issue _ _) ha.later

lemma allocByScan_spec {v : Vol P} {S : Set ℕ} (h : Ok v S) :
    Ok (allocByScan v).2 S ∧ Alloced v (allocByScan v).2 (allocByScan v).1 1 := by
  unfold allocByScan
  rcases hf : findFreeRun v.alloc.bitmap 0 v.alloc.nPages 1 with _ | r
  · -- the bitmap is full: the one new page is taken
    have hg := h.grow 1
    have hp : (grow v 1).alloc.nPages - 1 < (grow v 1).alloc.nPages := by
      simp only [Alloc.grow]; omega
    have hb : bitGet (grow v 1).alloc.bitmap ((grow v 1).alloc.nPages - 1) = false :=
      h.high _ (by simp only [Alloc.grow]; omega)
    exact ⟨hg.take hp hb, (alloced_take hg hp hb).of_grow h⟩
  · obtain ⟨h1, h2⟩ := findFreeRun_sound (by omega) hf
    have hb := h2 r (le_refl _) (by omega)
    exact ⟨h.take (by omega) hb, alloced_take h (by omega) hb⟩

lemma allocPage_spec {v : Vol P} {S : Set ℕ} (h : Ok v S) :
    Ok (allocPage v).2 S ∧ Alloced v (allocPage v).2 (allocPage v).1 1 := by
  unfold allocPage
  rcases hh : v.alloc.freeListHead with _ | page
  · exact allocByScan_spec h
  · simp only
    by_cases hb : bitGet v.alloc.bitmap page
    · -- a stale entry: the list is dropped and the bitmap decides
      rw [if_pos hb]
      obtain ⟨h1, h2⟩ := allocByScan_spec h.clearFreeList
      exact ⟨h1, ⟨h2.fresh, h2.data, h2.inFile, h2.bits, h2.pages, h2.mono, h2.bitmapPage,
        h2.bitmapPages, h2.later⟩⟩
    · rw [if_neg hb]
      have hb' : bitGet v.alloc.bitmap page = false := by simpa using hb
      have hS := h.head page hh
      have hlt := (h.range page hS).2
      have hpop : Ok { v with alloc :=
          { v.alloc with freeListHead := PageImage.next (v.file.pages page) } } S :=
        { reserved := h.reserved, room := h.room, high := h.high, covers := h.covers
          counted := h.counted, fileSize := h.fileSize
          head := fun q hq => h.chain page hS hb' q hq
          range := h.range, chain := h.chain }
      have ha := alloced_take hpop hlt hb'
      exact ⟨hpop.take hlt hb', ⟨ha.fresh, ha.data, ha.inFile, ha.bits, ha.pages, ha.mono,
        ha.bitmapPage, ha.bitmapPages, ha.later⟩⟩

/-! ### Extents -/

lemma markAllocated_succ (a : PageAllocator) (start n : ℕ) :
    markAllocated a start (n + 1) = markOne (markAllocated a start n) (start + n) := by
  simp [markAllocated, List.range_succ]

lemma markAllocated_spec {v : Vol P} {S : Set ℕ} (h : Ok v S) (r : ℕ) :
    ∀ n, r + n ≤ v.alloc.nPages →
      (∀ p, r ≤ p → p < r + n → bitGet v.alloc.bitmap p = false) →
      Ok { v with alloc := markAllocated v.alloc r n } S ∧
      (∀ p, bitGet (markAllocated v.alloc r n).bitmap p =
        (bitGet v.alloc.bitmap p || decide (r ≤ p ∧ p < r + n))) ∧
      (markAllocated v.alloc r n).nPages = v.alloc.nPages ∧
      (markAllocated v.alloc r n).bitmapPage = v.alloc.bitmapPage ∧
      (markAllocated v.alloc r n).bitmapPages = v.alloc.bitmapPages
  | 0, _, _ => by
    refine ⟨h, fun p => ?_, rfl, rfl, rfl⟩
    simp [markAllocated]
  | n + 1, hn, hfree => by
    obtain ⟨hok, hbits, hnp, hbp, hbps⟩ := markAllocated_spec h r n (by omega)
      (fun p h1 h2 => hfree p h1 (by omega))
    have hb : bitGet (markAllocated v.alloc r n).bitmap (r + n) = false := by
      rw [hbits, hfree (r + n) (by omega) (by omega)]
      simp
    have hstep : markAllocated v.alloc r (n + 1) =
        (take { v with alloc := markAllocated v.alloc r n } (r + n)).alloc := by
      rw [markAllocated_succ]
      simp only [markOne, Alloc.take, hb]
      rfl
    rw [hstep]
    refine ⟨hok.take (by rw [hnp]; omega) hb, fun p => ?_, hnp, hbp, hbps⟩
    simp only [Alloc.take, bitGet_bitSet, hbits, Bool.or_assoc]
    congr 1
    rw [← Bool.decide_or, decide_eq_decide]
    omega

lemma alloced_mark {v : Vol P} {S : Set ℕ} (h : Ok v S) {r n : ℕ} (hn : 0 < n)
    (hf : findFreeRun v.alloc.bitmap 0 v.alloc.nPages n = some r) :
    Ok { v with alloc := markAllocated v.alloc r n } S ∧
    Alloced v { v with alloc := markAllocated v.alloc r n } r n := by
  obtain ⟨h1, h2⟩ := findFreeRun_sound hn hf
  obtain ⟨hok, hbits, hnp, hbp, hbps⟩ := markAllocated_spec h r n h1 h2
  refine ⟨hok, h2, free_ge_firstFree h (h2 r (le_refl _) (by omega)), ?_, hbits,
    fun p _ => rfl, ?_, hbp, hbps, .refl _⟩
  · rw [hnp]; exact h1
  · rw [hnp]

/-- **One call of `alloc_extent`**: it returns an extent of free pages and takes them. -/
theorem allocExtent_spec {v : Vol P} {S : Set ℕ} (h : Ok v S) {n : ℕ} (hn : 0 < n) :
    ∃ r v', allocExtent v n = (some r, v') ∧ Ok v' S ∧ Alloced v v' r n := by
  unfold allocExtent
  rw [if_neg (by omega)]
  by_cases h1 : n = 1
  · subst h1
    rw [if_pos rfl]
    exact ⟨_, _, rfl, (allocPage_spec h).1, (allocPage_spec h).2⟩
  · rw [if_neg h1]
    rcases hf : findFreeRun v.alloc.bitmap 0 v.alloc.nPages n with _ | r
    · -- no run: the file grows by `n` free pages, and the last `n` bits are a run
      have hg := h.grow n
      have hsome : (findFreeRun (grow v n).alloc.bitmap 0 (grow v n).alloc.nPages n).isSome :=
        findFreeRunFrom_complete hn v.alloc.nPages _ _ _ _ rfl (by simp [Alloc.grow])
          (by simp only [Alloc.grow]; omega)
          (fun p hp _ => h.high p hp) (fun hle => by omega)
      obtain ⟨r, hr⟩ := Option.isSome_iff_exists.mp hsome
      simp only [hr]
      obtain ⟨hok, ha⟩ := alloced_mark hg hn hr
      exact ⟨r, _, rfl, hok, ha.of_grow h⟩
    · obtain ⟨hok, ha⟩ := alloced_mark h hn hf
      exact ⟨r, _, rfl, hok, ha⟩

/-! ### Flushing the bitmap -/

/-- A bitmap region: it has pages, and its bytes are counted in 32 bits. -/
def Region (n : ℕ) : Prop := 0 < n ∧ n * kPageSize < 2 ^ 32

lemma flushBitmap_eq_some {v : Vol P} {file : PageFile P} (hpos : 0 < v.alloc.bitmapPages) :
    flushBitmap v = some (.ok file) ↔ Region v.alloc.bitmapPages ∧
      v.alloc.bitmap.size ≤ v.alloc.bitmapPages * kPageSize ∧
      file = v.file.writePages v.alloc.bitmapPage v.alloc.bitmapPages
        (bitmapImage v.alloc.bitmap) := by
  unfold flushBitmap
  dsimp only
  rw [if_neg (by omega)]
  constructor
  · intro h
    split_ifs at h with hshort hwrap
    · cases h
    · have hsame : v.alloc.bitmapPages * kPageSize % 2 ^ 32 = v.alloc.bitmapPages * kPageSize :=
        le_antisymm (Nat.mod_le _ _) (not_lt.mp hwrap)
      have hlt := Nat.mod_lt (v.alloc.bitmapPages * kPageSize) (Nat.two_pow_pos 32)
      exact ⟨⟨hpos, hsame ▸ hlt⟩, hsame ▸ not_lt.mp hshort, (Except.ok.inj (Option.some.inj h)).symm⟩
  · rintro ⟨⟨-, hword⟩, hfit, rfl⟩
    rw [Nat.mod_eq_of_lt hword, if_neg (not_lt.mpr hfit), if_neg (lt_irrefl _)]

/-- The buffer of a region is as long as the region. -/
lemma Region.flushBitmap_ne_none {v : Vol P} (h : Region v.alloc.bitmapPages) :
    flushBitmap v ≠ none := by
  unfold flushBitmap
  dsimp only
  rw [Nat.mod_eq_of_lt h.2, if_neg (lt_irrefl _)]
  split_ifs <;> exact Option.some_ne_none _

/-! ### Frees and client writes -/

lemma freeOne_spec {v : Vol P} {S : Set ℕ} (h : Ok v S) {p : ℕ} (hp : v.alloc.firstFree ≤ p)
    (hlt : p < v.alloc.nPages) (hb : bitGet v.alloc.bitmap p = true) :
    Ok (freeOne v p) (insert p S) := by
  unfold freeOne
  rw [if_pos hb]
  have hrange : ∀ q ∈ insert p S, v.alloc.firstFree ≤ q ∧ q < v.alloc.nPages := by
    rintro q (rfl | hq)
    · exact ⟨hp, hlt⟩
    · exact h.range q hq
  refine
    { reserved := fun q hq => ?_, room := h.room, high := fun q hq => ?_, covers := h.covers
      counted := ?_, fileSize := h.fileSize, head := fun q hq => ?_, range := hrange
      chain := fun q hq hqb r hr => ?_ }
  · have hq' : q < v.alloc.firstFree := hq
    simp only [bitGet_bitClear, h.reserved q hq', Bool.true_and, Bool.not_eq_true',
      decide_eq_false_iff_not]
    omega
  · have hq' : v.alloc.nPages ≤ q := hq
    simp [h.high q hq']
  · show (v.alloc.nFreePages + 1) % 2 ^ 64 =
      (freeSet (bitClear v.alloc.bitmap p) v.alloc.nPages).card % 2 ^ 64
    rw [freeSet_bitClear hlt, Finset.card_insert_of_notMem (by simp [mem_freeSet, hb]), h.counted]
    omega
  · cases hq; exact .inl rfl
  · by_cases hqp : q = p
    · subst hqp
      simp only [PageFile.writePage_pages, Function.update_self, PageImage.next_link] at hr
      exact .inr (h.head r hr)
    · simp only [PageFile.writePage_pages, Function.update_of_ne hqp] at hr
      simp only [bitGet_bitClear, Bool.and_eq_false_iff, Bool.not_eq_false',
        decide_eq_true_eq] at hqb
      rcases hq with hq | hq
      · exact absurd hq hqp
      · exact .inr (h.chain q hq (hqb.resolve_right hqp) r hr)

lemma Ok.writePage {v : Vol P} {S : Set ℕ} (h : Ok v S) {p : ℕ} (img : P)
    (hb : bitGet v.alloc.bitmap p = true) :
    Ok { v with file := v.file.writePage p img } S where
  reserved := h.reserved
  room := h.room
  high := h.high
  covers := h.covers
  counted := h.counted
  fileSize := h.fileSize
  head := h.head
  range := h.range
  chain q hq hqb r hr := by
    by_cases hqp : q = p
    · subst hqp; rw [hb] at hqb; cases hqb
    · simp only [PageFile.writePage_pages, Function.update_of_ne hqp] at hr
      exact h.chain q hq hqb r hr

end SextantTree.AllocInv
