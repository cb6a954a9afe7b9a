import SextantTree.FsckRepair

/-!
When `fsck` in repair mode leaves an exact allocator behind. The repair is only started by a bitmap
that disagrees with the walk, and then needs the ranges it marks to be inside the file and apart from
what it overwrites. Beside a right bitmap nothing is written: an exact allocator stays exact, a free
list that is wrong stays wrong.
-/

namespace SextantTree.Fsck

open ByteMem Pages FileBytes Outcome StackWalk

section

attribute [local irreducible] ByteMem.word

/-- The levels behind the walk are reached, and what they read is in the file. -/
structure Checkable (f : ByteFile) (sb : Superblock) : Prop where
  provisioned : underProvisioned sb = false
  bitmap : sb.allocBitmapPage ≠ kInvalidPage → 0 < sb.allocBitmapPages →
    ByteFile.offset sb.allocBitmapPage + sb.allocBitmapPages * kPageSize ≤ f.size
  plane : hasPlane sb = true → ByteFile.offset sb.planePage + 1 * kPageSize ≤ f.size

/-- The pointers of a file are such that the repair can rebuild its allocator. -/
structure Repairable (f : ByteFile) (sb : Superblock) (walk : TreeWalkResult) : Prop where
  pages : 0 < sb.allocBitmapPages
  region : (sb.allocBitmapPage + sb.allocBitmapPages) * kPageSize ≤ f.size
  regionApart : 2 ≤ sb.allocBitmapPage
  inside : ∀ r ∈ reachable sb walk, 0 < r.count → r.start + r.count ≤ f.numPages
  apart : ∀ p, claimed (reachable sb walk) p = true → 2 ≤ p ∧ ¬ InRegion sb p
  seq : sb.commitSeq + 1 < 2 ^ 64
  /-- A bitmap that has to move gets a region that also addresses its own pages. -/
  room : sb.allocBitmapPages * kPageSize * 8 < f.numPages →
    f.numPages % (kPageSize * 8) + f.numPages / (kPageSize * 8) + 2 ≤ 2 * (kPageSize * 8)

/-- The bitmap is in the file, and agrees with the walk on every page of it. -/
def Matches (f : ByteFile) (sb : Superblock) (reach : List PageRange) : Prop :=
  sb.allocBitmapPage + sb.allocBitmapPages ≤ f.numPages ∧
    ∀ p < f.numPages, marked f sb p = true ↔ InUse sb reach p

/-- The allocator is exact already, or the bitmap is wrong and the repair can rebuild it. -/
def Restores (f : ByteFile) (sb : Superblock) (walk : TreeWalkResult) : Prop :=
  Checkable f sb ∧ (AllocatorExact f sb (reachable sb walk) ∨
    Repairable f sb walk ∧ ¬ Matches f sb (reachable sb walk))

/-! ### Claimed pages -/

lemma claimed_append (rs rs' : List PageRange) (p : ℕ) :
    claimed (rs ++ rs') p = (claimed rs p || claimed rs' p) := List.any_append

lemma claimed_iff {rs : List PageRange} {p : ℕ} :
    claimed rs p = true ↔ ∃ r ∈ rs, p ∈ r.pages := by
  simp [claimed]

lemma mem_pages {r : PageRange} (h : r.start + r.count ≤ 2 ^ 64) {p : ℕ} :
    p ∈ r.pages ↔ r.start ≤ p ∧ p < r.start + r.count := by
  simp only [PageRange.pages, List.mem_map, List.mem_range]
  constructor
  · rintro ⟨i, hi, rfl⟩
    rw [Nat.mod_eq_of_lt (by omega)]
    omega
  · rintro ⟨h₁, h₂⟩
    exact ⟨p - r.start, by omega, by rw [Nat.mod_eq_of_lt (by omega)]; omega⟩

lemma claimed_allAllocated {sb : Superblock} {walk : TreeWalkResult}
    (h : sb.allocBitmapPage + sb.allocBitmapPages < 2 ^ 63) (p : ℕ) :
    claimed (allAllocated sb walk) p = true ↔ InUse sb (reachable sb walk) p := by
  have hinv : sb.allocBitmapPage ≠ kInvalidPage := by
    simp only [kInvalidPage]
    omega
  have hsb : claimed [⟨0, 2⟩] p = true ↔ p < 2 := by
    rw [claimed_iff]
    simp only [List.mem_singleton, exists_eq_left]
    rw [mem_pages (by norm_num)]
    simp
  have hbm : claimed (auxRange sb.allocBitmapPage sb.allocBitmapPages) p = true ↔ InRegion sb p := by
    rw [claimed_iff, auxRange, if_neg hinv]
    simp only [List.mem_singleton, exists_eq_left]
    rw [mem_pages (by simp only; omega)]
    rfl
  simp only [allAllocated, InUse, reachable, claimed_append, Bool.or_eq_true, hsb, hbm]
  tauto

namespace Repairable

variable {f : ByteFile} {sb : Superblock} {walk : TreeWalkResult} (h : Repairable f sb walk)
include h

lemma numPages_lt : f.numPages < 2 ^ 47 := by
  have hroom := h.room
  have hpages : sb.allocBitmapPages < 256 ^ 4 := word_lt _ _ _
  simp only [kPageSize] at hroom
  rcases Nat.lt_or_ge (sb.allocBitmapPages * 4096 * 8) f.numPages with hlt | hge
  · have := hroom hlt
    omega
  · omega

lemma region_le : sb.allocBitmapPage + sb.allocBitmapPages ≤ f.numPages :=
  Nat.le_of_mul_le_mul_right (h.region.trans ByteFile.size_le) (by simp only [kPageSize]; omega)

lemma claimed_reachable {p : ℕ} : claimed (reachable sb walk) p = true ↔
    ∃ r ∈ reachable sb walk, r.start ≤ p ∧ p < r.start + r.count := by
  have hsmall := h.numPages_lt
  rw [claimed_iff]
  refine exists_congr fun r => and_congr_right fun hr => ?_
  rcases Nat.eq_zero_or_pos r.count with hz | hpos
  · simp only [PageRange.pages, hz, List.range_zero, List.map_nil, List.not_mem_nil, false_iff]
    omega
  · exact mem_pages (by have := h.inside r hr hpos; omega)

lemma lt_of_claimed {p : ℕ} (hp : claimed (reachable sb walk) p = true) : p < f.numPages := by
  obtain ⟨r, hr, h₁, h₂⟩ := h.claimed_reachable.mp hp
  have := h.inside r hr (by omega)
  omega

lemma claimed_all (p : ℕ) :
    claimed (allAllocated sb walk) p = true ↔ InUse sb (reachable sb walk) p := by
  have h₁ := h.region_le
  have h₂ := h.numPages_lt
  exact claimed_allAllocated (by omega) p

lemma bitmapPage_ne : sb.allocBitmapPage ≠ kInvalidPage := by
  have h₁ := h.region_le
  have h₂ := h.numPages_lt
  simp only [kInvalidPage]
  omega

end Repairable

/-! ### The region of the new bitmap -/

structure RegionOk (f : ByteFile) (sb : Superblock) (walk : TreeWalkResult) (g : Region) : Prop where
  size : f.size ≤ g.file.size
  data : ∀ i < f.size, g.file.data i = f.data i
  small : g.file.numPages < 2 ^ 47
  covers : g.file.numPages ≤ g.nbm * kPageSize * 8
  inside : g.bmp + g.nbm ≤ g.file.numPages
  apart : 2 ≤ g.bmp
  nbm_lt : g.nbm < 2 ^ 32
  reach : ∀ p, claimed (reachable sb walk) p = true →
    p < g.file.numPages ∧ ¬ (g.bmp ≤ p ∧ p < g.bmp + g.nbm)
  marks : ∀ p, p ∈ markedPages g sb.allocBitmapPage (allAllocated sb walk) ↔
    p < 2 ∨ (g.bmp ≤ p ∧ p < g.bmp + g.nbm) ∨ claimed (reachable sb walk) p = true

lemma mem_keptPages {g : Region} {old : ℕ} {rs : List PageRange} {p : ℕ} :
    p ∈ keptPages g old rs ↔ ∃ r ∈ rs, ¬ (g.relocated = true ∧ r.start = old) ∧ p ∈ r.pages := by
  simp only [keptPages, List.mem_flatMap, List.mem_filter, Bool.not_eq_true', Bool.and_eq_false_imp,
    beq_eq_false_iff_ne, not_and, and_assoc]

lemma regionOk_stay {f : ByteFile} {sb : Superblock} {walk : TreeWalkResult}
    (h : Repairable f sb walk) (hcov : f.numPages ≤ sb.allocBitmapPages * kPageSize * 8) :
    RegionOk f sb walk ⟨f, sb.allocBitmapPage, sb.allocBitmapPages, false⟩ := by
  refine ⟨le_rfl, fun _ _ => rfl, h.numPages_lt, hcov, h.region_le, h.regionApart, word_lt _ _ _,
    fun p hp => ⟨h.lt_of_claimed hp, (h.apart p hp).2⟩, fun p => ?_⟩
  have hall := h.claimed_all p
  rw [claimed_iff] at hall
  rw [markedPages, if_neg (by simp), List.append_nil, mem_keptPages]
  simp only [Bool.false_eq_true, false_and, not_false_eq_true, true_and]
  exact hall

lemma numPages_truncate {f : ByteFile} {n : ℕ} (hn : n < 2 ^ 47) : (f.truncate n).numPages = n := by
  have hoff : ByteFile.offset n = n * kPageSize := offset_eq (by omega)
  apply ByteFile.numPages_eq
  · rw [ByteFile.truncate, hoff]
  · rw [ByteFile.truncate, hoff]
    simp only [kPageSize]
    omega

lemma mem_keptPages_move {f : ByteFile} {sb : Superblock} {walk : TreeWalkResult} {g : Region}
    (h : Repairable f sb walk) (hg : g.relocated = true) {p : ℕ} :
    p ∈ keptPages g sb.allocBitmapPage (allAllocated sb walk) ↔
      p < 2 ∨ claimed (reachable sb walk) p = true := by
  have hap := h.regionApart
  have hsb : p ∈ PageRange.pages ⟨0, 2⟩ ↔ p < 2 := by
    rw [mem_pages (by norm_num)]
    simp
  -- a range that starts where the bitmap does would overlap it
  have hother : ∀ r ∈ reachable sb walk, p ∈ r.pages → r.start ≠ sb.allocBitmapPage := by
    intro r hr hp hstart
    have hpos : 0 < r.count := by
      by_contra hz
      simp [PageRange.pages, Nat.eq_zero_of_not_pos hz] at hp
    have hself : claimed (reachable sb walk) sb.allocBitmapPage = true :=
      h.claimed_reachable.mpr ⟨r, hr, by omega, by omega⟩
    exact (h.apart _ hself).2 ⟨le_rfl, by have := h.pages; omega⟩
  rw [mem_keptPages, claimed_iff]
  constructor
  · rintro ⟨r, hr, hskip, hp⟩
    simp only [allAllocated, List.mem_append, List.mem_singleton] at hr
    rcases hr with ((hr | rfl) | hr) | hr
    · exact .inr ⟨r, List.mem_append_left _ hr, hp⟩
    · exact .inl (hsb.mp hp)
    · rw [auxRange, if_neg h.bitmapPage_ne, List.mem_singleton] at hr
      exact absurd ⟨hg, by rw [hr]⟩ hskip
    · exact .inr ⟨r, List.mem_append_right _ hr, hp⟩
  · rintro (hp | ⟨r, hr, hp⟩)
    · refine ⟨⟨0, 2⟩, by simp [allAllocated], fun hcon => ?_, hsb.mpr hp⟩
      have := hcon.2
      simp only at this
      omega
    · refine ⟨r, ?_, fun hcon => hother r hr hp hcon.2, hp⟩
      simp only [reachable, allAllocated, List.mem_append] at hr ⊢
      tauto

lemma regionOk_move {f : ByteFile} {sb : Superblock} {walk : TreeWalkResult}
    (h : Repairable f sb walk) (hcov : sb.allocBitmapPages * kPageSize * 8 < f.numPages) {nbm : ℕ}
    (hnbm : nbm = f.numPages / (kPageSize * 8) + 2) :
    RegionOk f sb walk ⟨f.truncate (f.numPages + nbm), f.numPages, nbm, true⟩ := by
  have hroom := h.room hcov
  have hreg := h.region_le
  have hap := h.regionApart
  have hsize := ByteFile.size_le (f := f)
  simp only [kPageSize] at hroom hnbm
  have hsmall : f.numPages + nbm < 2 ^ 47 := by omega
  have hpages := numPages_truncate (f := f) hsmall
  have hle : f.numPages * kPageSize ≤ (f.numPages + nbm) * kPageSize :=
    Nat.mul_le_mul_right _ (Nat.le_add_right _ _)
  refine ⟨?_, fun i hi => ?_, ?_, ?_, ?_, ?_, ?_, fun p hp => ?_, fun p => ?_⟩
  · dsimp only [ByteFile.truncate]
    rw [offset_eq (by omega)]
    exact hsize.trans hle
  · dsimp only [ByteFile.truncate, ByteFile.contents]
    rw [if_pos hi]
  · rw [hpages]
    exact hsmall
  · rw [hpages]
    dsimp only [kPageSize]
    omega
  · rw [hpages]
  · dsimp only
    omega
  · dsimp only
    omega
  · have := h.lt_of_claimed hp
    rw [hpages]
    dsimp only
    omega
  · rw [markedPages, if_pos rfl, List.mem_append, mem_keptPages_move h rfl, List.mem_map]
    dsimp only
    constructor
    · rintro ((hp | hp) | ⟨i, hi, rfl⟩)
      · exact .inl hp
      · exact .inr (.inr hp)
      · rw [List.mem_range] at hi
        exact .inr (.inl (by omega))
    · rintro (hp | hp | hp)
      · exact .inl (.inl hp)
      · exact .inr ⟨p - f.numPages, by rw [List.mem_range]; omega, by omega⟩
      · exact .inl (.inr hp)

lemma regionOk_choose {f : ByteFile} {sb : Superblock} {walk : TreeWalkResult}
    (h : Repairable f sb walk) : RegionOk f sb walk (chooseRegion f sb) := by
  have hroom := h.room
  simp only [kPageSize] at hroom
  rw [chooseRegion]
  by_cases hmove : sb.allocBitmapPages * kPageSize < (f.numPages + 7) / 8
  · rw [if_pos hmove]
    refine regionOk_move h (by omega) (Nat.mod_eq_of_lt ?_)
    have := hroom (by simp only [kPageSize] at hmove; omega)
    simp only [kPageSize]
    omega
  · rw [if_neg hmove]
    exact regionOk_stay h (by omega)

/-! ### The committed superblock -/

/-- The superblock with a new bitmap region, page count and free list. -/
def updated (sb : Superblock) (bmp nbm nPages head total : ℕ) : Superblock :=
  ((sb.setBitmap bmp nbm).setNPages nPages).setFreeList head total

/-- The fields the repair does not set: everything but sequence number and allocator. -/
def SamePointers (sb sb' : Superblock) : Prop :=
  ∀ w off, off + w ≤ 8 ∨ (16 ≤ off ∧ off + w ≤ 40) ∨ 80 ≤ off → off + w ≤ kPageSize →
    word sb'.disk w off = word sb.disk w off

lemma word_poke_leBytes {m : Mem} {pos k n w off : ℕ} (h : off + w ≤ pos ∨ pos + k ≤ off) :
    word (poke m pos (leBytes k n)) w off = word m w off :=
  word_poke (by rwa [length_leBytes])

section Updated

variable {sb : Superblock} {bmp nbm nPages head total : ℕ}

lemma updated_word {w off : ℕ} (h : off + w ≤ 40 ∨ 80 ≤ off) :
    word (updated sb bmp nbm nPages head total).disk w off = word sb.disk w off := by
  simp only [updated, Superblock.setFreeList, Superblock.setNPages, Superblock.setBitmap]
  rw [word_poke_leBytes (by omega), word_poke_leBytes (by omega), word_poke_leBytes (by omega),
    word_poke_leBytes (by omega), word_poke_leBytes (by omega)]

lemma next_word {s : Superblock} {w off : ℕ} (h : off + w ≤ 8 ∨ 16 ≤ off) :
    word s.next.disk w off = word s.disk w off := by
  rw [Superblock.next]
  exact word_poke_leBytes h

lemma samePointers_updated :
    SamePointers sb (updated sb bmp nbm nPages head total).next := by
  intro w off h _
  rw [next_word (by omega), updated_word (by omega)]

lemma updated_nPages (h : nPages < 2 ^ 64) :
    word (updated sb bmp nbm nPages head total).disk 8 40 = nPages := by
  simp only [updated, Superblock.setFreeList, Superblock.setNPages, Superblock.setBitmap]
  rw [word_poke_leBytes (by omega), word_poke_leBytes (by omega), word_poke_self (by omega)]

lemma updated_freeListHead (h : head < 2 ^ 64) :
    word (updated sb bmp nbm nPages head total).disk 8 48 = head := by
  simp only [updated, Superblock.setFreeList, Superblock.setNPages, Superblock.setBitmap]
  rw [word_poke_leBytes (by omega), word_poke_self (by omega)]

lemma updated_nFreePages (h : total < 2 ^ 64) :
    word (updated sb bmp nbm nPages head total).disk 8 56 = total := by
  simp only [updated, Superblock.setFreeList, Superblock.setNPages, Superblock.setBitmap]
  rw [word_poke_self (by omega)]

lemma updated_allocBitmapPage (h : bmp < 2 ^ 64) :
    word (updated sb bmp nbm nPages head total).disk 8 64 = bmp := by
  simp only [updated, Superblock.setFreeList, Superblock.setNPages, Superblock.setBitmap]
  rw [word_poke_leBytes (by omega), word_poke_leBytes (by omega), word_poke_leBytes (by omega),
    word_poke_leBytes (by omega), word_poke_self (by omega)]

lemma updated_allocBitmapPages (h : nbm < 2 ^ 32) :
    word (updated sb bmp nbm nPages head total).disk 4 72 = nbm := by
  simp only [updated, Superblock.setFreeList, Superblock.setNPages, Superblock.setBitmap]
  rw [word_poke_leBytes (by omega), word_poke_leBytes (by omega), word_poke_leBytes (by omega),
    word_poke_self (by omega)]

end Updated

lemma valid_of_load {f : ByteFile} {sb : Superblock} (h : Superblock.load f = .ok sb) :
    Superblock.Valid sb := by
  obtain ⟨-, ⟨hv, rfl, -⟩ | ⟨hv, rfl, -⟩⟩ := load_eq_ok_iff.mp h
  · exact hv
  · exact hv

/-! ### The repaired file -/

structure Repaired (f f' : ByteFile) (sb sb' : Superblock) (walk : TreeWalkResult) : Prop where
  load : Superblock.load f' = .ok sb'
  size : f.size ≤ f'.size
  small : f'.numPages < 2 ^ 47
  pointers : SamePointers sb sb'
  region : (sb'.allocBitmapPage + sb'.allocBitmapPages) * kPageSize ≤ f'.size
  exact : AllocatorExact f' sb' (reachable sb walk)
  kept : ∀ p, claimed (reachable sb walk) p = true → ∀ i < kPageSize, p * kPageSize + i < f.size →
    f'.data (p * kPageSize + i) = f.data (p * kPageSize + i)

lemma Edited.bitmap_byte {f f' : ByteFile} {touched : ℕ → Prop} {bmp nbm i : ℕ}
    (h : Edited f f' touched) (hreg : ∀ p, bmp ≤ p → p < bmp + nbm → ¬ touched p)
    (hi : i < nbm * kPageSize) (hs : (bmp + nbm) * kPageSize ≤ f.size) :
    f'.data (bmp * kPageSize + i) = f.data (bmp * kPageSize + i) := by
  have hpos : bmp * kPageSize + i = (bmp + i / kPageSize) * kPageSize + i % kPageSize := by
    have := Nat.div_add_mod i kPageSize
    rw [Nat.add_mul, Nat.mul_comm (i / kPageSize)]
    omega
  have hdiv : i / kPageSize < nbm := Nat.div_lt_of_lt_mul (by rwa [Nat.mul_comm] at hi)
  have hin : bmp * kPageSize + i < f.size := by
    rw [Nat.add_mul] at hs
    omega
  rw [hpos] at hin ⊢
  exact h.data _ (hreg (bmp + i / kPageSize) (Nat.le_add_right _ _) (by omega)) _ (Nat.mod_lt _ (by simp only [kPageSize]; omega)) hin

/-- The pages the repair marks, as the superblock it commits sees them. -/
def Used (g : Region) (reach : List PageRange) (p : ℕ) : Prop :=
  p < 2 ∨ (g.bmp ≤ p ∧ p < g.bmp + g.nbm) ∨ claimed reach p = true

lemma allocatorExact_of_writes {g : Region} {b : Rebuilt} {reach : List PageRange}
    {f₁ f' : ByteFile} {l : FreeList} {sb' : Superblock}
    (hmarks : ∀ p, (bitAt b.bitmap p = true ↔ Used g reach p) ∧ (b.alloc p = true ↔ Used g reach p))
    (hinside : g.bmp + g.nbm ≤ f₁.numPages) (hcovers : f₁.numPages ≤ g.nbm * kPageSize * 8)
    (hapart : 2 ≤ g.bmp)
    (hholds : Holds f₁.data (g.bmp * kPageSize) (peek b.bitmap 0 (g.nbm * kPageSize)))
    (hsize : (g.bmp + g.nbm) * kPageSize ≤ f₁.size)
    (hedit₂ : Edited f₁ l.file (fun p => p < f₁.numPages ∧ b.alloc p = false))
    (hlinked : l.Linked (freeBelow b.alloc f₁.numPages))
    (hedit₃ : Edited l.file f' (fun p => p < 2))
    (hpage : sb'.allocBitmapPage = g.bmp) (hpages : sb'.allocBitmapPages = g.nbm)
    (hn : sb'.nPages = f₁.numPages) (hhead : sb'.freeListHead = l.head)
    (htotal : sb'.nFreePages = l.total) : AllocatorExact f' sb' reach := by
  have hnum : f'.numPages = f₁.numPages := hedit₃.numPages.trans hedit₂.numPages
  have huse : ∀ p, InUse sb' reach p ↔ Used g reach p := by
    intro p
    rw [InUse, InRegion, hpage, hpages]
    rfl
  have hregion : ∀ p, g.bmp ≤ p → p < g.bmp + g.nbm → b.alloc p = true :=
    fun p h₁ h₂ => (hmarks p).2.mpr (.inr (.inl ⟨h₁, h₂⟩))
  have hbyte : ∀ i < g.nbm * kPageSize, f'.data (g.bmp * kPageSize + i) = b.bitmap i := by
    intro i hi
    rw [hedit₃.bitmap_byte (fun p h₁ _ => by omega) hi (hsize.trans hedit₂.size),
      hedit₂.bitmap_byte (fun p h₁ h₂ ht => by simp [hregion p h₁ h₂] at ht) hi hsize]
    refine hholds i _ ?_
    simp [peek, hi]
  have hfree : ∀ p ∈ freeBelow b.alloc f₁.numPages, ¬ Used g reach p := by
    intro p hp hu
    rw [mem_freeBelow, ← Bool.not_eq_true, (hmarks p).2] at hp
    exact hp.2 hu
  refine ⟨by rw [hn, hnum], by rw [hpage, hpages, hnum]; exact hinside,
    by rw [hpages, hnum]; exact hcovers, fun p hp => ?_,
    freeBelow b.alloc f₁.numPages, ?_, nodup_freeBelow _ _, ?_, fun p => ?_⟩
  · rw [huse, ← (hmarks p).1, marked, hpage, hpages, Bool.and_eq_true, decide_eq_true_eq, bitAt, bitAt,
      hbyte (p / 8) (by omega)]
    exact and_iff_right (by omega)
  · rw [hhead]
    refine hlinked.chain.congr fun p hp => ?_
    have hge : ¬ p < 2 := fun hlt => hfree p hp (.inl hlt)
    have hkeep := @Edited.word _ _ _ hedit₃ p 0 8 hge (by simp only [kPageSize]; omega)
      (by rw [Nat.add_zero]; exact hlinked.fits p hp)
    rwa [Nat.add_zero] at hkeep
  · rw [htotal, hlinked.total]
  · rw [hn, mem_freeBelow, huse, ← Bool.not_eq_true, (hmarks p).2]

lemma repairPages_spec {f : ByteFile} {sb : Superblock} {walk : TreeWalkResult}
    (hload : Superblock.load f = .ok sb) (h : Repairable f sb walk) (r : FsckResult) :
    ∃ r' f' sb', repairPages f sb (allAllocated sb walk) r = .ok (r', f') ∧
      Repaired f f' sb sb' walk := by
  have hg : RegionOk f sb walk (chooseRegion f sb) := regionOk_choose h
  generalize hgdef : chooseRegion f sb = g at hg
  have hsmall := hg.small
  have hginside := hg.inside
  have hgapart := hg.apart
  -- the bitmap
  obtain ⟨b, hb, hmarked⟩ := rebuild_spec sb.allocBitmapPage (allAllocated sb walk) hg.covers
    (fun p hp => by
      rcases (hg.marks p).mp hp with hp | hp | hp
      · omega
      · omega
      · exact (hg.reach p hp).1)
  have hmarks : ∀ p, (bitAt b.bitmap p = true ↔ Used g (reachable sb walk) p) ∧
      (b.alloc p = true ↔ Used g (reachable sb walk) p) :=
    fun p => ⟨(hmarked p).1.trans (hg.marks p), (hmarked p).2.trans (hg.marks p)⟩
  have hlen : (peek b.bitmap 0 (g.nbm * kPageSize)).length = g.nbm * kPageSize := by simp
  obtain ⟨hedit₁, hholds, hsize₁⟩ := edited_writePages hlen hginside hsmall
  rw [repairPages]
  simp only [hgdef]
  rw [hb, ok_bind]
  generalize hf₁ : writeBitmap g b = f₁
  rw [writeBitmap] at hf₁
  rw [hf₁] at hedit₁ hholds hsize₁
  have hnum := hedit₁.numPages
  -- the free list
  have hempty : FreeList.Linked ⟨f₁, kInvalidPage, 0⟩ [] := ⟨rfl, rfl, fun p hp => nomatch hp⟩
  obtain ⟨hedit₂, hlinked, hhead⟩ := pushFree_spec b.alloc (n := f₁.numPages) hempty
    (fun p hp => nomatch hp) le_rfl (by rw [hnum]; exact hsmall) (by simp only [kInvalidPage]; omega)
  generalize pushFree b.alloc f₁.numPages ⟨f₁, kInvalidPage, 0⟩ = l at hedit₂ hlinked hhead ⊢
  rw [List.append_nil] at hlinked
  have htotal : l.total < 2 ^ 64 := by
    rw [hlinked.total]
    have := (List.length_filter_le (fun p => !b.alloc p) (List.range f₁.numPages))
    rw [List.length_range] at this
    rw [freeBelow]
    omega
  -- pages of the old file that are neither bitmap nor free
  have hkept : ∀ p, b.alloc p = true → ¬ (g.bmp ≤ p ∧ p < g.bmp + g.nbm) → ∀ i < kPageSize,
      p * kPageSize + i < f.size → l.file.data (p * kPageSize + i) = f.data (p * kPageSize + i) := by
    intro p ha hreg i hi hs
    have hs₁ := hs.trans_le hg.size
    rw [hedit₂.data p (fun ht => by simp [ha] at ht) i hi (hs₁.trans_le hedit₁.size),
      hedit₁.data p hreg i hi hs₁, hg.data _ hs]
  have hgrow : f.size ≤ l.file.size := hg.size.trans (hedit₁.size.trans hedit₂.size)
  -- the superblock
  have hvalid := valid_of_load hload
  obtain ⟨hsize₀, -⟩ := load_eq_ok_iff.mp hload
  have hcopies : ∀ k < 2, SameDisk (copyIn f k) (copyIn l.file k) := by
    intro k hk i hi
    refine hkept k ((hmarks k).2.mpr (.inl hk)) (fun hreg => by omega) i hi ?_
    refine lt_of_lt_of_le ?_ hsize₀
    simp only [kPageSize] at hi ⊢
    omega
  obtain ⟨hedit₃, sb', hload', hsame⟩ := load_commit
    (s := updated sb g.bmp g.nbm f₁.numPages l.head l.total) hload hgrow hcopies
    (updated_word (by norm_num)) (by rw [Superblock.Valid, updated_word (by norm_num)]; exact hvalid)
    h.seq (by rw [hedit₂.numPages, hnum]; exact hsmall)
  have hfield : ∀ {w off : ℕ}, 16 ≤ off → off + w ≤ 80 → word sb'.disk w off =
      word (updated sb g.bmp g.nbm f₁.numPages l.head l.total).disk w off :=
    fun hoff hw => by rw [hsame.word (by simp only [kPageSize]; omega), next_word (.inr hoff)]
  have hbmp : sb'.allocBitmapPage = g.bmp :=
    (hfield (by norm_num) (by norm_num)).trans (updated_allocBitmapPage (by omega))
  have hnbm : sb'.allocBitmapPages = g.nbm :=
    (hfield (by norm_num) (by norm_num)).trans (updated_allocBitmapPages hg.nbm_lt)
  refine ⟨_, _, sb', rfl, hload', hgrow.trans hedit₃.size, ?_, fun w off hoff hw => ?_, ?_, ?_,
    fun p hp i hi hs => ?_⟩
  · change (Superblock.commit (updated sb g.bmp g.nbm f₁.numPages l.head l.total) l.file).numPages < _
    rw [hedit₃.numPages, hedit₂.numPages, hnum]
    exact hsmall
  · rw [hsame.word hw, samePointers_updated w off hoff hw]
  · rw [hbmp, hnbm]
    exact hsize₁.trans (hedit₂.size.trans hedit₃.size)
  · exact allocatorExact_of_writes hmarks (hnum ▸ hginside) (hnum ▸ hg.covers) hgapart hholds hsize₁
      hedit₂ hlinked hedit₃ hbmp hnbm
      ((hfield (by norm_num) (by norm_num)).trans (updated_nPages (by omega)))
      ((hfield (by norm_num) (by norm_num)).trans (updated_freeListHead hhead))
      ((hfield (by norm_num) (by norm_num)).trans (updated_nFreePages htotal))
  · have hs' := hs.trans_le hgrow
    change (Superblock.commit (updated sb g.bmp g.nbm f₁.numPages l.head l.total) l.file).data _ = _
    rw [hedit₃.data p (fun hlt => by have := (h.apart p hp).1; omega) i hi hs',
      hkept p ((hmarks p).2.mpr (.inr (.inr hp))) (hg.reach p hp).2 i hi hs]

/-! ### The accounting -/

lemma planeSized_ok {b : Buf} (hb : 128 ≤ b.size) (walk : TreeWalkResult) :
    ∃ ok, planeSized b walk = .ok ok := by
  rw [planeSized, if_neg (by omega), Buf.word_eq_ok (by omega), ok_bind, Buf.word_eq_ok (by omega),
    ok_bind, Buf.word_eq_ok (by omega), ok_bind, Buf.word_eq_ok (by omega), ok_bind,
    Buf.word_eq_ok (by omega), ok_bind, Buf.word_eq_ok (by omega), ok_bind,
    Buf.word_eq_ok (by omega), ok_bind]
  split
  · exact ⟨_, rfl⟩
  · dsimp only
    split
    · exact ⟨_, rfl⟩
    · exact ⟨_, rfl⟩

lemma min_planePages {sb : Superblock} (hp : hasPlane sb = true) : min sb.planePages 1 = 1 := by
  simp only [hasPlane, Bool.and_eq_true, decide_eq_true_eq] at hp
  exact Nat.min_eq_right hp.2

lemma readPages_inside {f : ByteFile} {page n : ℕ} {b : Buf} (hn : 0 < n)
    (h : f.readPages page n = .ok b) : ByteFile.offset page + n * kPageSize ≤ f.size := by
  rw [ByteFile.readPages, if_neg hn.ne'] at h
  split at h
  case isTrue hle => exact hle
  case isFalse => cases h

/-- What the levels behind the walk need to be able to read. -/
structure Readable (f : ByteFile) (sb : Superblock) : Prop where
  small : f.numPages < 2 ^ 52
  pages : 0 < sb.allocBitmapPages
  region : (sb.allocBitmapPage + sb.allocBitmapPages) * kPageSize ≤ f.size
  plane : hasPlane sb = true → ByteFile.offset sb.planePage + 1 * kPageSize ≤ f.size

namespace Readable

variable {f : ByteFile} {sb : Superblock} (h : Readable f sb)
include h

lemma inside : sb.allocBitmapPage + sb.allocBitmapPages ≤ f.numPages :=
  Nat.le_of_mul_le_mul_right (h.region.trans ByteFile.size_le) (by simp only [kPageSize]; omega)

lemma region_lt : sb.allocBitmapPage + sb.allocBitmapPages < 2 ^ 52 := h.inside.trans_lt h.small

lemma checkPlane_ok (walk : TreeWalkResult) : ∃ ok, checkPlane f sb walk = .ok ok := by
  rw [checkPlane]
  by_cases hp : hasPlane sb = true
  · rw [if_pos hp, min_planePages hp, readPages_ok one_pos (h.plane hp), ok_bind]
    exact planeSized_ok (by simp only [kPageSize]; omega) walk
  · rw [if_neg hp]
    exact ⟨true, rfl⟩

lemma readBitmap_eq : readBitmap f sb = .ok ⟨sb.allocBitmapPages * kPageSize,
    fun i => f.data (sb.allocBitmapPage * kPageSize + i)⟩ := by
  have hlt := h.region_lt
  have hoff : ByteFile.offset sb.allocBitmapPage = sb.allocBitmapPage * kPageSize :=
    offset_eq (by omega)
  have hinv : sb.allocBitmapPage ≠ kInvalidPage := by
    simp only [kInvalidPage]
    omega
  rw [readBitmap, if_pos ⟨hinv, h.pages⟩, readPages_ok h.pages, hoff]
  rw [hoff, ← Nat.add_mul]
  exact h.region

end Readable

lemma isBitSet_eq_marked (f : ByteFile) (sb : Superblock) (p : ℕ) :
    isBitSet ⟨sb.allocBitmapPages * kPageSize, fun i => f.data (sb.allocBitmapPage * kPageSize + i)⟩ p =
      marked f sb p := by
  unfold isBitSet marked
  by_cases hp : sb.allocBitmapPages * kPageSize ≤ p / 8
  · simp [hp, Nat.not_lt.mpr hp]
  · simp [hp, Nat.lt_of_not_le hp, bitAt]

lemma account_ok_iff {f : ByteFile} {sb : Superblock} {walk : TreeWalkResult} (h : Readable f sb)
    {bitmap : Buf} (hb : ∀ p, isBitSet bitmap p = marked f sb p) (r : FsckResult) :
    ((account f (allAllocated sb walk) bitmap r).leakedPages = 0 ∧
      (account f (allAllocated sb walk) bitmap r).orphanPages = 0) ↔
      Matches f sb (reachable sb walk) := by
  have hlt := h.region_lt
  have hclaim : ∀ p, claimed (allAllocated sb walk) p = true ↔ InUse sb (reachable sb walk) p :=
    claimed_allAllocated (by omega)
  simp only [account, List.countP_eq_zero, List.mem_range, hb, Bool.and_eq_true, Bool.not_eq_true',
    not_and, Bool.not_eq_false, Matches]
  constructor
  · rintro ⟨h₁, h₂⟩
    exact ⟨h.inside, fun p hp => ⟨fun hm => (hclaim p).mp (h₁ p hp hm),
      fun hu => h₂ p hp ((hclaim p).mpr hu)⟩⟩
  · rintro ⟨-, hm⟩
    exact ⟨fun p hp h₁ => (hclaim p).mpr ((hm p hp).mp h₁),
      fun p hp h₂ => (hm p hp).mpr ((hclaim p).mp h₂)⟩

lemma checkPages_spec {f : ByteFile} {sb : Superblock} (walk : TreeWalkResult) (h : Readable f sb)
    (repair : Bool) (r₀ : FsckResult) :
    ∃ r : FsckResult, ((r.leakedPages = 0 ∧ r.orphanPages = 0) ↔ Matches f sb (reachable sb walk)) ∧
      (r.pageAccountingOk = true ↔ r.leakedPages = 0 ∧ r.orphanPages = 0) ∧
      checkPages f sb repair walk r₀ =
        if repair = true ∧ r.pageAccountingOk = false then repairPages f sb (allAllocated sb walk) r
        else .ok (r, f) := by
  have hlt := h.region_lt
  have hinv : sb.allocBitmapPage ≠ kInvalidPage := by
    simp only [kInvalidPage]
    omega
  obtain ⟨ok, hok⟩ := h.checkPlane_ok walk
  simp only [checkPages]
  rw [hok, ok_bind, h.readBitmap_eq, ok_bind]
  refine ⟨account f (allAllocated sb walk) _ (r₀.withWalk walk ok),
    account_ok_iff h (isBitSet_eq_marked f sb) _, ?_, ?_⟩
  · simp [account]
  · simp [hinv, h.pages]

lemma fsck_eq {parse : List UInt8 → Option Manifest} {fuel : ℕ} {f : ByteFile} {sb : Superblock}
    {m : Manifest} {walk : TreeWalkResult} (hload : Superblock.load f = .ok sb)
    (hprov : underProvisioned sb = false) (hman : loadManifest parse f sb = .ok m)
    (hwalk : walkTree fuel f sb m = some (.ok walk)) (repair : Bool) :
    fsck parse fuel f repair = some (checkPages f sb repair walk (superblockResult f sb)) := by
  rw [fsck, hload]
  simp only [hprov, Bool.false_eq_true, if_false, hman, hwalk, Option.map_some]
  rfl

/-! ### The second check -/

section Pointers

variable {sb sb' : Superblock} (h : SamePointers sb sb')
include h

lemma SamePointers.rootEntry : rootEntry sb' = rootEntry sb := by
  have h₁ : sb'.rootNodePage = sb.rootNodePage :=
    h 8 16 (by norm_num) (by simp only [kPageSize]; omega)
  have h₂ : sb'.rootNodePages = sb.rootNodePages :=
    h 4 24 (by norm_num) (by simp only [kPageSize]; omega)
  rw [Fsck.rootEntry, Fsck.rootEntry, h₁, h₂]

lemma SamePointers.blob {w off : ℕ} (hoff : 80 ≤ off) (hw : off + w ≤ 200) :
    word sb'.disk w off = word sb.disk w off :=
  h w off (by omega) (by simp only [kPageSize]; omega)

lemma SamePointers.hasPlane : hasPlane sb' = hasPlane sb := by
  have h₁ : sb'.planePage = sb.planePage := h.blob (by norm_num) (by norm_num)
  have h₂ : sb'.planePages = sb.planePages := h.blob (by norm_num) (by norm_num)
  rw [Fsck.hasPlane, Fsck.hasPlane, h₁, h₂]

lemma SamePointers.blobRanges : blobRanges sb' = blobRanges sb := by
  have hword : ∀ {w off : ℕ}, 80 ≤ off → off + w ≤ 200 →
      word sb'.disk w off = word sb.disk w off := fun h₁ h₂ => h.blob h₁ h₂
  simp only [Fsck.blobRanges, h.hasPlane, Superblock.codebookPage, Superblock.codebookPages,
    Superblock.configPage, Superblock.configPages, Superblock.pcaPage, Superblock.pcaPages,
    Superblock.cardinalityPage, Superblock.cardinalityPages, Superblock.planePage,
    Superblock.planePages, Superblock.leafTablePage, Superblock.leafTablePages]
  repeat rw [hword (by norm_num) (by norm_num)]

lemma SamePointers.reachable (walk : TreeWalkResult) :
    Fsck.reachable sb' walk = Fsck.reachable sb walk := by
  rw [Fsck.reachable, Fsck.reachable, h.blobRanges]

end Pointers

namespace Repaired

variable {f f' : ByteFile} {sb sb' : Superblock} {walk : TreeWalkResult}
  (hrep : Repaired f f' sb sb' walk) (h : Repairable f sb walk)
include hrep h

lemma keeps {r : PageRange} (hr : r ∈ reachable sb walk) : Keeps f f' r := by
  refine ⟨hrep.size, fun i hi hs => ?_⟩
  have hpos : 0 < r.count := by
    by_contra hz
    rw [Nat.eq_zero_of_not_pos hz, Nat.zero_mul] at hi
    omega
  have hin := h.inside r hr hpos
  have hsmall := h.numPages_lt
  rw [offset_eq (by omega)] at hs ⊢
  have hsplit : r.start * kPageSize + i = (r.start + i / kPageSize) * kPageSize + i % kPageSize := by
    have := Nat.div_add_mod i kPageSize
    rw [Nat.add_mul, Nat.mul_comm (i / kPageSize)]
    omega
  have hdiv : i / kPageSize < r.count := Nat.div_lt_of_lt_mul (by rwa [Nat.mul_comm] at hi)
  rw [hsplit] at hs ⊢
  have hclaim : claimed (reachable sb walk) (r.start + i / kPageSize) = true :=
    h.claimed_reachable.mpr ⟨r, hr, Nat.le_add_right _ _, by omega⟩
  exact hrep.kept _ hclaim _ (Nat.mod_lt _ (by simp only [kPageSize]; omega)) hs

lemma loadManifest_eq {parse : List UInt8 → Option Manifest} {m : Manifest}
    (hman : loadManifest parse f sb = .ok m) : loadManifest parse f' sb' = .ok m := by
  have hpage : sb'.configPage = sb.configPage := hrep.pointers.blob (by norm_num) (by norm_num)
  have hpages : sb'.configPages = sb.configPages := hrep.pointers.blob (by norm_num) (by norm_num)
  rw [loadManifest] at hman ⊢
  rw [hpage, hpages]
  by_cases hcfg : sb.configPage ≠ kInvalidPage ∧ 0 < sb.configPages
  · have hmem : (⟨sb.configPage, sb.configPages⟩ : PageRange) ∈ reachable sb walk := by
      simp [reachable, blobRanges, auxRange, hcfg.1]
    rw [if_pos hcfg] at hman ⊢
    obtain ⟨b, hb, hman⟩ := bind_eq_ok.mp hman
    obtain ⟨b', hb', hsame⟩ := (hrep.keeps h hmem).readPages hb
    rw [hb', ok_bind, hsame.size, hsame.peek (by omega)]
    exact hman
  · rwa [if_neg hcfg] at hman ⊢

lemma walkTree_eq {m : Manifest} {fuel : ℕ} (hfail : walk.magicFailures = 0)
    (hwalk : walkTree fuel f sb m = some (.ok walk)) : walkTree fuel f' sb' m = some (.ok walk) := by
  have hmem : ∀ {r}, r ∈ walk.nodeRanges ∨ r ∈ walk.leafRanges → r ∈ reachable sb walk := by
    intro r hr
    simp only [reachable, treeRanges, List.mem_append]
    tauto
  refine walkTree_frame hrep.size hrep.pointers.rootEntry
    (hrep.pointers.blob (by norm_num) (by norm_num)) (hrep.pointers.blob (by norm_num) (by norm_num))
    (hrep.keeps h ?_) (fun l hl => hrep.keeps h (hmem (.inl hl)))
    (fun l hl => hrep.keeps h (hmem (.inr hl))) hfail hwalk
  simp [reachable, blobRanges]

lemma readable (hc : Checkable f sb) : Readable f' sb' := by
  have hex := hrep.exact
  refine ⟨hrep.small.trans (by norm_num), ?_, hrep.region, fun hp => ?_⟩
  · by_contra hz
    have hcov := hex.covers
    rw [Nat.eq_zero_of_not_pos hz] at hcov
    have hpages := h.pages
    have hsize := h.region.trans (hrep.size.trans ByteFile.size_le)
    simp only [kPageSize] at hcov hsize
    omega
  · rw [hrep.pointers.hasPlane] at hp
    have hpage : sb'.planePage = sb.planePage := hrep.pointers.blob (by norm_num) (by norm_num)
    rw [hpage]
    exact (hc.plane hp).trans hrep.size

lemma second_check {parse : List UInt8 → Option Manifest} {m : Manifest} {fuel : ℕ}
    (hc : Checkable f sb) (hfail : walk.magicFailures = 0) (hman : loadManifest parse f sb = .ok m)
    (hwalk : walkTree fuel f sb m = some (.ok walk)) :
    ∃ r, fsck parse fuel f' false = some (.ok (r, f')) ∧ r.leakedPages = 0 ∧ r.orphanPages = 0 := by
  have hex := hrep.exact
  have hprov : underProvisioned sb' = false := by
    have hcov := hex.nPages ▸ hex.covers
    simp only [underProvisioned, Bool.and_eq_false_imp, decide_eq_true_eq, decide_eq_false_iff_not,
      Nat.not_lt]
    exact fun _ => hcov
  have hfsck := fsck_eq hrep.load hprov (hrep.loadManifest_eq h hman)
    (hrep.walkTree_eq h hfail hwalk) false
  obtain ⟨r, hcount, -, hcheck⟩ :=
    checkPages_spec walk (hrep.readable h hc) false (superblockResult f' sb')
  rw [hcheck, if_neg (by simp)] at hfsck
  have hclean := hcount.mpr (by rw [hrep.pointers.reachable]; exact ⟨hex.region, hex.bits⟩)
  exact ⟨r, hfsck, hclean⟩

end Repaired

/-! ### The whole run -/

/-- What a run in repair mode is to achieve: an exact allocator, every reachable byte as before,
and a second check without findings. -/
def Restored (parse : List UInt8 → Option Manifest) (fuel : ℕ) (f : ByteFile) (sb : Superblock)
    (walk : TreeWalkResult) : Prop :=
  ∃ r f' sb' r₂, fsck parse fuel f true = some (.ok (r, f')) ∧ Superblock.load f' = .ok sb' ∧
    AllocatorExact f' sb' (reachable sb walk) ∧
    (∀ p, claimed (reachable sb walk) p = true → ∀ i < kPageSize, p * kPageSize + i < f.size →
      f'.data (p * kPageSize + i) = f.data (p * kPageSize + i)) ∧
    fsck parse fuel f' false = some (.ok (r₂, f')) ∧ r₂.leakedPages = 0 ∧ r₂.orphanPages = 0

lemma Repairable.readable {f : ByteFile} {sb : Superblock} {walk : TreeWalkResult}
    (h : Repairable f sb walk) (hc : Checkable f sb) : Readable f sb :=
  ⟨h.numPages_lt.trans (by norm_num), h.pages, h.region, hc.plane⟩

section Run

variable {parse : List UInt8 → Option Manifest} {fuel : ℕ} {f : ByteFile} {sb : Superblock}
  {m : Manifest} {walk : TreeWalkResult} (hload : Superblock.load f = .ok sb)
  (hman : loadManifest parse f sb = .ok m) (hwalk : walkTree fuel f sb m = some (.ok walk))
include hload hman hwalk

lemma checkable_of_restored (hres : Restored parse fuel f sb walk) : Checkable f sb := by
  obtain ⟨r, f', sb', -, hrun, hload', hex, -⟩ := hres
  have hprov : underProvisioned sb = false := by
    by_contra hunder
    rw [Bool.not_eq_false] at hunder
    rw [fsck, hload] at hrun
    simp only [hunder, if_true, Option.some.injEq, Except.ok.injEq, Prod.mk.injEq] at hrun
    rw [← hrun.2, hload] at hload'
    cases hload'
    have hcov := hex.nPages ▸ hex.covers
    simp only [underProvisioned, Bool.and_eq_true, decide_eq_true_eq] at hunder
    omega
  rw [fsck_eq hload hprov hman hwalk] at hrun
  obtain ⟨ok, hplane, hrest⟩ := bind_eq_ok.mp (Option.some.inj hrun)
  obtain ⟨bitmap, hbitmap, -⟩ := bind_eq_ok.mp hrest
  refine ⟨hprov, fun hpage hpos => ?_, fun hp => ?_⟩
  · rw [readBitmap, if_pos ⟨hpage, hpos⟩] at hbitmap
    exact readPages_inside hpos hbitmap
  · rw [checkPlane, if_pos hp, min_planePages hp] at hplane
    obtain ⟨b, hb, -⟩ := bind_eq_ok.mp hplane
    exact readPages_inside one_pos hb

variable (hc : Checkable f sb)
include hc

lemma fsck_of_matches (h : Readable f sb) (hm : Matches f sb (reachable sb walk)) (repair : Bool) :
    ∃ r, fsck parse fuel f repair = some (.ok (r, f)) ∧ r.leakedPages = 0 ∧ r.orphanPages = 0 := by
  obtain ⟨r, hcount, hok, hcheck⟩ := checkPages_spec walk h repair (superblockResult f sb)
  have hclean := hcount.mpr hm
  refine ⟨r, ?_, hclean⟩
  rw [fsck_eq hload hc.provisioned hman hwalk, hcheck, if_neg]
  simp [hok.mpr hclean]

lemma restored_of_mismatch (h : Repairable f sb walk) (hfail : walk.magicFailures = 0)
    (hm : ¬ Matches f sb (reachable sb walk)) : Restored parse fuel f sb walk := by
  obtain ⟨r, hcount, hok, hcheck⟩ :=
    checkPages_spec walk (h.readable hc) true (superblockResult f sb)
  have hbad : r.pageAccountingOk = false := by
    rw [← Bool.not_eq_true, hok, hcount]
    exact hm
  obtain ⟨r', f', sb', hrun, hrep⟩ := repairPages_spec hload h r
  obtain ⟨r₂, hsecond, hclean⟩ := hrep.second_check h hc hfail hman hwalk
  refine ⟨r', f', sb', r₂, ?_, hrep.load, hrep.exact, hrep.kept, hsecond, hclean⟩
  rw [fsck_eq hload hc.provisioned hman hwalk, hcheck, if_pos ⟨rfl, hbad⟩, hrun]

lemma restored_iff_of_matches (h : Readable f sb) (hm : Matches f sb (reachable sb walk)) :
    Restored parse fuel f sb walk ↔ AllocatorExact f sb (reachable sb walk) := by
  obtain ⟨r, hr, -⟩ := fsck_of_matches hload hman hwalk hc h hm true
  obtain ⟨r₂, hr₂, hclean⟩ := fsck_of_matches hload hman hwalk hc h hm false
  constructor
  · rintro ⟨r', f', sb', -, hrun, hload', hex, -⟩
    rw [hr] at hrun
    cases hrun
    rw [hload] at hload'
    cases hload'
    exact hex
  · intro hex
    exact ⟨r, f, sb, r₂, hr, hload, hex, fun _ _ _ _ _ => rfl, hr₂, hclean⟩

end Run

lemma numPages_pos {f : ByteFile} {sb : Superblock} (hload : Superblock.load f = .ok sb) :
    0 < f.numPages := by
  have hsize := (load_eq_ok_iff.mp hload).1
  simp only [ByteFile.numPages, kPageSize] at hsize ⊢
  omega

/-- A bitmap in the file that marks the first page can be read. -/
lemma Checkable.readable {f : ByteFile} {sb : Superblock} (hc : Checkable f sb)
    (hsmall : f.numPages < 2 ^ 52) (hpages : 0 < sb.allocBitmapPages)
    (hin : sb.allocBitmapPage + sb.allocBitmapPages ≤ f.numPages) : Readable f sb := by
  have hinv : sb.allocBitmapPage ≠ kInvalidPage := by
    simp only [kInvalidPage]
    omega
  have hbytes := hc.bitmap hinv hpages
  rw [offset_eq (by omega), ← Nat.add_mul] at hbytes
  exact ⟨hsmall, hpages, hbytes, hc.plane⟩

lemma AllocatorExact.readable {f : ByteFile} {sb : Superblock} {reach : List PageRange}
    (hload : Superblock.load f = .ok sb) (hc : Checkable f sb) (hex : AllocatorExact f sb reach) :
    Readable f sb := by
  have hpos := numPages_pos hload
  have hcov := hex.covers
  have hpages : sb.allocBitmapPages < 256 ^ 4 := word_lt _ _ _
  simp only [kPageSize] at hcov
  exact hc.readable (by omega) (by omega) hex.region

lemma Matches.readable {f : ByteFile} {sb : Superblock} {reach : List PageRange}
    (hload : Superblock.load f = .ok sb) (hsize : f.size < 2 ^ 63) (hc : Checkable f sb)
    (hm : Matches f sb reach) : Readable f sb := by
  have hfirst := (hm.2 0 (numPages_pos hload)).mpr (.inl (by norm_num))
  have hpages : 0 < sb.allocBitmapPages := by
    simp only [marked, Nat.zero_div, Bool.and_eq_true, decide_eq_true_eq] at hfirst
    exact Nat.pos_of_mul_pos_right hfirst.1
  refine hc.readable ?_ hpages hm.1
  simp only [ByteFile.numPages, kPageSize]
  omega

/-- On a file whose walk succeeds, a run in repair mode restores the allocator if bitmap, page count
and free list were all right before, or if the bitmap disagrees with the walk and the ranges are
sound; and it does so in no other case, apart from a wrong bitmap beside ranges that are not. -/
theorem fsck_repair_restores_iff {parse : List UInt8 → Option Manifest} {fuel : ℕ} {f : ByteFile}
    {sb : Superblock} {m : Manifest} {walk : TreeWalkResult} (hsize : f.size < 2 ^ 63)
    (hload : Superblock.load f = .ok sb) (hman : loadManifest parse f sb = .ok m)
    (hwalk : walkTree fuel f sb m = some (.ok walk))
    (hok : walk.magicFailures = 0 ∧ walk.pointersOk = true) :
    (Restores f sb walk → Restored parse fuel f sb walk) ∧
      (Restored parse fuel f sb walk → Restores f sb walk ∨
        ¬ Matches f sb (reachable sb walk) ∧ ¬ Repairable f sb walk) := by
  constructor
  · rintro ⟨hc, hex | ⟨h, hm⟩⟩
    · exact (restored_iff_of_matches hload hman hwalk hc (hex.readable hload hc)
        ⟨hex.region, hex.bits⟩).mpr hex
    · exact restored_of_mismatch hload hman hwalk hc h hok.1 hm
  · intro hres
    have hc := checkable_of_restored hload hman hwalk hres
    by_cases hm : Matches f sb (reachable sb walk)
    · have hread := hm.readable hload hsize hc
      exact .inl ⟨hc, .inl ((restored_iff_of_matches hload hman hwalk hc hread hm).mp hres)⟩
    · by_cases h : Repairable f sb walk
      · exact .inl ⟨hc, .inr ⟨h, hm⟩⟩
      · exact .inr ⟨hm, h⟩

end

/-! ### A tree of one leaf -/

/-- A file of seven pages: bitmap, leaf table, root and leaf in pages 2 to 5, page 6 free, and an
empty free list. The first byte of the bitmap is a parameter. -/
def leafFile (bits : UInt8) : ByteFile :=
  { size := 7 * 4096
    data := [(0, leBytes 8 kSuperblockMagic), (8, leBytes 8 1), (16, leBytes 8 4), (24, leBytes 4 1),
      (40, leBytes 8 7), (48, leBytes 8 kInvalidPage), (64, leBytes 8 2), (72, leBytes 4 1),
      (80, leBytes 8 kInvalidPage), (96, leBytes 8 kInvalidPage), (112, leBytes 8 kInvalidPage),
      (128, leBytes 8 kInvalidPage), (144, leBytes 8 3), (152, leBytes 4 1),
      (160, leBytes 8 kInvalidPage),
      (2 * 4096, [bits]),
      (3 * 4096, leBytes 8 1), (3 * 4096 + 8, leBytes 8 5), (3 * 4096 + 16, leBytes 4 1),
      (4 * 4096, leBytes 4 kTreeNodeMagic), (4 * 4096 + 8, leBytes 8 1),
      (4 * 4096 + 40, leBytes 8 1), (4 * 4096 + 48, leBytes 2 1),
      (5 * 4096, leBytes 4 kTreeLeafMagic),
      (5 * 4096 + 64, leBytes 8 kInvalidPage)].foldl (fun m w => poke m w.1 w.2) fun _ => 0 }

def leafPage (bits : UInt8) (page : ℕ) : Buf :=
  ⟨1 * kPageSize, fun i => (leafFile bits).data (ByteFile.offset page + i)⟩

def leafSuperblock (bits : UInt8) : Superblock := ⟨(leafPage bits 0).data⟩

section LeafFile

variable {bits : UInt8} (hbits : bits = 0 ∨ bits = 0x3F)
include hbits

lemma load_leafFile : Superblock.load (leafFile bits) = .ok (leafSuperblock bits) := by
  rcases hbits with rfl | rfl
  · rfl
  · rfl

omit hbits in
lemma readPages_leafFile {page : ℕ} (h : page < 7) :
    (leafFile bits).readPages page 1 = .ok (leafPage bits page) := by
  refine readPages_ok one_pos ?_
  rw [offset_eq (by omega)]
  simp only [leafFile, kPageSize]
  omega

lemma loadLeafTable_leafFile : ∃ t, loadLeafTable (leafFile bits) (leafSuperblock bits) = .ok t ∧
    t.resolve 0 (1 % 2 ^ 32) = ⟨5, 1⟩ := by
  have hpage : (leafSuperblock bits).leafTablePage = 3 := by rcases hbits with rfl | rfl <;> decide
  have hpages : (leafSuperblock bits).leafTablePages = 1 := by rcases hbits with rfl | rfl <;> decide
  have hn : word (leafPage bits 3).data 8 0 = 1 := by rcases hbits with rfl | rfl <;> decide
  have hsize : (leafPage bits 3).size = 4096 := rfl
  rw [loadLeafTable, hpage, hpages, if_neg (by decide), readPages_leafFile (by norm_num), ok_bind,
    copyLeafTable, Buf.word_eq_ok (by omega), ok_bind, hn, if_neg (by decide), if_pos (by omega)]
  refine ⟨_, rfl, ?_⟩
  rcases hbits with rfl | rfl
  · rfl
  · rfl

lemma validateLeaf_leafFile (r : TreeWalkResult) :
    ∃ r', validateLeaf (leafFile bits) ⟨5, 1⟩ r = .ok r' ∧ r'.nodeRanges = r.nodeRanges ∧
      r'.leafRanges = r.leafRanges ++ [⟨5, 1⟩] ∧ r'.payloadRanges = r.payloadRanges ∧
      r'.magicFailures = r.magicFailures ∧ r'.pointersOk = r.pointersOk := by
  have hsize : (leafPage bits 5).size = 4096 := rfl
  have hmagic : word (leafPage bits 5).data 4 0 = kTreeLeafMagic := by
    rcases hbits with rfl | rfl <;> decide
  have hpayload : word (leafPage bits 5).data 8 64 = kInvalidPage := by
    rcases hbits with rfl | rfl <;> decide
  obtain ⟨ok, hok⟩ := crcOk_eq_ok (show 104 + 4 ≤ (leafPage bits 5).size by omega)
  rw [validateLeaf, if_neg (by decide)]
  dsimp only
  rw [readPages_leafFile (by norm_num), ok_bind, Buf.word_eq_ok (by omega), ok_bind, hmagic,
    if_neg (by simp), countLeaf, hok, ok_bind, Buf.word_eq_ok (by omega), ok_bind,
    Buf.word_eq_ok (by omega), ok_bind, Buf.word_eq_ok (by omega), ok_bind,
    Buf.word_eq_ok (by omega), ok_bind, hpayload]
  exact ⟨_, rfl, rfl, rfl, by simp, rfl, rfl⟩

lemma walkTree_leafFile : ∃ walk, walkTree 1 (leafFile bits) (leafSuperblock bits) {} = some (.ok walk) ∧
    treeRanges walk = [⟨4, 1⟩, ⟨5, 1⟩] ∧ walk.magicFailures = 0 ∧ walk.pointersOk = true := by
  obtain ⟨t, ht, hres⟩ := loadLeafTable_leafFile hbits
  have hroot : rootEntry (leafSuperblock bits) = ⟨4, 1, 0⟩ := by rcases hbits with rfl | rfl <;> rfl
  have hsize : (leafPage bits 4).size = 4096 := rfl
  have hin : inFile (leafFile bits) 4 1 = true := by rcases hbits with rfl | rfl <;> decide
  have hmagic : word (leafPage bits 4).data 4 0 = kTreeNodeMagic := by
    rcases hbits with rfl | rfl <;> decide
  have hcount : word (leafPage bits 4).data 8 8 = 1 := by rcases hbits with rfl | rfl <;> decide
  have hchild : word (leafPage bits 4).data 8 32 = 0 := by rcases hbits with rfl | rfl <;> decide
  have hpages : word (leafPage bits 4).data 8 (32 + 8) = 1 := by
    rcases hbits with rfl | rfl <;> decide
  have hleaf : word (leafPage bits 4).data 2 (32 + 16) = 1 := by
    rcases hbits with rfl | rfl <;> decide
  obtain ⟨ok, hok⟩ := crcOk_eq_ok (show 28 + 4 ≤ (leafPage bits 4).size by omega)
  obtain ⟨r, hr, hnode, hleaves, hpay, hfail, hptr⟩ := validateLeaf_leafFile hbits
    { nodeRanges := [⟨4, 1⟩], crcFailures := if ok then 0 else 0 + 1 }
  have hvisit : visit (leafFile bits) t 24 ⟨4, 1, 0⟩ {} = .ok ([], r) := by
    rw [visit]
    dsimp only
    rw [if_neg (by decide), if_neg (by simp [hin]), loadNode]
    dsimp only
    rw [readPages_leafFile (by norm_num), ok_bind, Buf.word_eq_ok (by omega), ok_bind, hmagic,
      if_neg (by simp), walkNode, hok, ok_bind, Buf.word_eq_ok (by omega), ok_bind, hcount,
      walkChildren, walkChild, Buf.word_eq_ok (by omega), ok_bind, hchild, if_neg (by decide),
      Buf.word_eq_ok (by omega), ok_bind, Buf.word_eq_ok (by omega), ok_bind, hleaf, hpages,
      if_pos one_ne_zero, hres]
    exact congrArg (fun x => (x >>= fun r => Except.ok (([] : List StackEntry), r)) >>= _) hr
  refine ⟨r, ?_, ?_, hfail, hptr⟩
  · rw [walkTree_eq_of_load ht, hroot, show childEntrySize _ _ = 24 from rfl, run, hvisit]
    rfl
  · rw [treeRanges, hnode, hleaves, hpay]
    rfl

lemma reachable_leafFile {walk : TreeWalkResult} (hw : treeRanges walk = [⟨4, 1⟩, ⟨5, 1⟩]) :
    reachable (leafSuperblock bits) walk = [⟨4, 1⟩, ⟨5, 1⟩, ⟨3, 1⟩] := by
  have hblobs : blobRanges (leafSuperblock bits) = [⟨3, 1⟩] := by
    rcases hbits with rfl | rfl
    · rfl
    · rfl
  rw [reachable, hw, hblobs]
  rfl

omit hbits in
lemma claimed_leafFile (p : ℕ) :
    claimed [⟨4, 1⟩, ⟨5, 1⟩, ⟨3, 1⟩] p = true ↔ p = 4 ∨ p = 5 ∨ p = 3 := by
  have hmem : ∀ n < 7, p ∈ PageRange.pages ⟨n, 1⟩ ↔ p = n := by
    intro n hn
    rw [mem_pages (by dsimp only; omega)]
    dsimp only
    omega
  rw [claimed_iff]
  simp only [List.mem_cons, List.not_mem_nil, or_false, exists_eq_or_imp, exists_eq_left]
  rw [hmem 4 (by norm_num), hmem 5 (by norm_num), hmem 3 (by norm_num)]

lemma inUse_leafFile {walk : TreeWalkResult} (hw : treeRanges walk = [⟨4, 1⟩, ⟨5, 1⟩]) (p : ℕ) :
    InUse (leafSuperblock bits) (reachable (leafSuperblock bits) walk) p ↔ p < 6 := by
  have hpage : (leafSuperblock bits).allocBitmapPage = 2 := by rcases hbits with rfl | rfl <;> decide
  have hpages : (leafSuperblock bits).allocBitmapPages = 1 := by
    rcases hbits with rfl | rfl <;> decide
  rw [reachable_leafFile hbits hw, InUse, InRegion, hpage, hpages, claimed_leafFile]
  omega

lemma repairable_leafFile {walk : TreeWalkResult} (hw : treeRanges walk = [⟨4, 1⟩, ⟨5, 1⟩]) :
    Repairable (leafFile bits) (leafSuperblock bits) walk := by
  have hpage : (leafSuperblock bits).allocBitmapPage = 2 := by rcases hbits with rfl | rfl <;> decide
  have hpages : (leafSuperblock bits).allocBitmapPages = 1 := by
    rcases hbits with rfl | rfl <;> decide
  have hnum : (leafFile bits).numPages = 7 := by rcases hbits with rfl | rfl <;> decide
  have hreach := reachable_leafFile hbits hw
  refine ⟨?_, ?_, ?_, fun r hr _ => ?_, fun p hp => ?_, ?_, fun hp => ?_⟩
  · rw [hpages]
    norm_num
  · rw [hpage, hpages]
    exact show (2 + 1) * 4096 ≤ 7 * 4096 by norm_num
  · rw [hpage]
  · rw [hreach] at hr
    rw [hnum]
    simp only [List.mem_cons, List.not_mem_nil, or_false] at hr
    rcases hr with rfl | rfl | rfl
    · norm_num
    · norm_num
    · norm_num
  · rw [hreach, claimed_leafFile] at hp
    rw [InRegion, hpage, hpages]
    omega
  · have hseq : (leafSuperblock bits).commitSeq = 1 := by rcases hbits with rfl | rfl <;> decide
    rw [hseq]
    norm_num
  · rw [hpages, hnum] at hp
    simp only [kPageSize] at hp
    omega

lemma checkable_leafFile : Checkable (leafFile bits) (leafSuperblock bits) := by
  have hno : hasPlane (leafSuperblock bits) = false := by rcases hbits with rfl | rfl <;> decide
  refine ⟨?_, fun _ _ => ?_, fun hp => ?_⟩
  · rcases hbits with rfl | rfl <;> decide
  · rcases hbits with rfl | rfl <;> decide
  · rw [hno] at hp
    cases hp

omit hbits in
lemma loadManifest_leafFile (hbits : bits = 0 ∨ bits = 0x3F) (parse : List UInt8 → Option Manifest) :
    loadManifest parse (leafFile bits) (leafSuperblock bits) = .ok {} := by
  have hcfg : (leafSuperblock bits).configPage = kInvalidPage := by
    rcases hbits with rfl | rfl <;> decide
  rw [loadManifest, if_neg (by simp [hcfg])]

end LeafFile

/-- A cleared bitmap is rebuilt. -/
theorem fsck_repair_restores_leafFile :
    ∃ walk, walkTree 1 (leafFile 0) (leafSuperblock 0) {} = some (.ok walk) ∧
      Restores (leafFile 0) (leafSuperblock 0) walk ∧
      Restored (fun _ => none) 1 (leafFile 0) (leafSuperblock 0) walk := by
  have hbits : (0 : UInt8) = 0 ∨ (0 : UInt8) = 0x3F := .inl rfl
  obtain ⟨walk, hwalk, hw, hok⟩ := walkTree_leafFile hbits
  have hmatch : ¬ Matches (leafFile 0) (leafSuperblock 0) (reachable (leafSuperblock 0) walk) := by
    intro hm
    have hfirst := (hm.2 0 (by decide)).mpr ((inUse_leafFile hbits hw 0).mpr (by norm_num))
    revert hfirst
    decide
  have hres : Restores (leafFile 0) (leafSuperblock 0) walk :=
    ⟨checkable_leafFile hbits, .inr ⟨repairable_leafFile hbits hw, hmatch⟩⟩
  exact ⟨walk, hwalk, hres, (fsck_repair_restores_iff (show 7 * 4096 < 2 ^ 63 by norm_num)
    (load_leafFile hbits) (loadManifest_leafFile hbits _) hwalk hok).1 hres⟩

/-- A right bitmap beside an empty free list: page 6 stays lost. -/
theorem fsck_repair_leaves_free_list :
    ∃ walk, walkTree 1 (leafFile 0x3F) (leafSuperblock 0x3F) {} = some (.ok walk) ∧
      walk.magicFailures = 0 ∧ walk.pointersOk = true ∧
      ¬ Restored (fun _ => none) 1 (leafFile 0x3F) (leafSuperblock 0x3F) walk := by
  have hbits : (0x3F : UInt8) = 0 ∨ (0x3F : UInt8) = 0x3F := .inr rfl
  obtain ⟨walk, hwalk, hw, hok⟩ := walkTree_leafFile hbits
  have hnum : (leafFile 0x3F).numPages = 7 := by decide
  have hmatch : Matches (leafFile 0x3F) (leafSuperblock 0x3F)
      (reachable (leafSuperblock 0x3F) walk) := by
    refine ⟨by decide, fun p hp => ?_⟩
    rw [inUse_leafFile hbits hw]
    rw [hnum] at hp
    interval_cases p <;> decide
  refine ⟨walk, hwalk, hok.1, hok.2, ?_⟩
  have hc := checkable_leafFile hbits
  rw [restored_iff_of_matches (load_leafFile hbits) (loadManifest_leafFile hbits _) hwalk hc
    ((repairable_leafFile hbits hw).readable hc) hmatch]
  intro hex
  obtain ⟨l, -, -, hlen, hmem⟩ := hex.freeList
  have hsix : 6 ∈ l := by
    rw [hmem, hex.nPages, hnum, inUse_leafFile hbits hw]
    norm_num
  have hzero : (leafSuperblock 0x3F).nFreePages = 0 := by decide
  rw [hzero] at hlen
  rw [List.eq_nil_of_length_eq_zero hlen] at hsix
  cases hsix

end SextantTree.Fsck
