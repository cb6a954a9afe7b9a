import SextantTree.AllocRun

/-!
The page file as a heap of extents. A client keeps a list of the extents it holds, each with
the object stored there; every operation of the allocator changes that list in one way and
leaves the rest of it as it is.

The list is a ghost: it is never computed, only tracked. Two of its extents never share a
page, and none of them touches the reserved pages, so a write to one extent is a change of
one entry.
-/

namespace SextantTree.Heap

open SextantTree.Pages SextantTree.Alloc SextantTree.AllocInv SextantTree.AllocRun

/-- A run of pages a client holds and what it stored there, if it has. -/
structure Ext (O : Type) where
  page : ℕ
  pages : ℕ
  obj : Option O

namespace Ext

variable {O : Type}

def Has (e : Ext O) (p : ℕ) : Prop := e.page ≤ p ∧ p < e.page + e.pages

def Apart (e f : Ext O) : Prop := ∀ p, e.Has p → ¬ f.Has p

lemma Apart.symm {e f : Ext O} (h : e.Apart f) : f.Apart e := fun p hf he => h p he hf

end Ext

variable {P O : Type} [PageImage P]

/-- The part of a volume an operation on extents leaves alone: the reserved pages. -/
structure Kept (v v' : Vol P) : Prop where
  bitmapPage : v'.alloc.bitmapPage = v.alloc.bitmapPage
  bitmapPages : v'.alloc.bitmapPages = v.alloc.bitmapPages
  pages : ∀ p < v.alloc.firstFree, v'.file.pages p = v.file.pages p
  later : v.file.Extends v'.file

namespace Kept

variable {v v' v'' : Vol P}

lemma firstFree (h : Kept v v') : v'.alloc.firstFree = v.alloc.firstFree := by
  simp only [PageAllocator.firstFree, h.bitmapPage, h.bitmapPages]

lemma refl (v : Vol P) : Kept v v := ⟨rfl, rfl, fun _ _ => rfl, .refl _⟩

lemma trans (h : Kept v v') (h' : Kept v' v'') : Kept v v'' where
  bitmapPage := h'.bitmapPage.trans h.bitmapPage
  bitmapPages := h'.bitmapPages.trans h.bitmapPages
  pages p hp := (h'.pages p (by rw [h.firstFree]; exact hp)).trans (h.pages p hp)
  later := h.later.trans h'.later

end Kept

structure Holds (img : O → ℕ → P) (v : Vol P) (H : List (Ext O)) : Prop where
  ok : ∃ S, Ok v S
  data : ∀ e ∈ H, v.alloc.firstFree ≤ e.page
  inFile : ∀ e ∈ H, e.page + e.pages ≤ v.alloc.nPages
  live : ∀ e ∈ H, ∀ p, e.Has p → bitGet v.alloc.bitmap p = true
  apart : H.Pairwise Ext.Apart
  stored : ∀ e ∈ H, ∀ o, e.obj = some o → ∀ i < e.pages, v.file.pages (e.page + i) = img o i

namespace Holds

variable {img : O → ℕ → P} {v v' : Vol P} {H H' : List (Ext O)} {e : Ext O}

lemma perm (h : Holds img v H) (hp : H.Perm H') : Holds img v H' where
  ok := h.ok
  data e he := h.data e (hp.mem_iff.mpr he)
  inFile e he := h.inFile e (hp.mem_iff.mpr he)
  live e he := h.live e (hp.mem_iff.mpr he)
  apart := (hp.pairwise_iff Ext.Apart.symm).mp h.apart
  stored e he := h.stored e (hp.mem_iff.mpr he)

lemma pull (A : List (Ext O)) (h : Holds img v (A ++ e :: H)) : Holds img v (e :: (A ++ H)) :=
  h.perm List.perm_middle

lemma tail (h : Holds img v (e :: H)) : Holds img v H where
  ok := h.ok
  data e he := h.data e (List.mem_cons_of_mem _ he)
  inFile e he := h.inFile e (List.mem_cons_of_mem _ he)
  live e he := h.live e (List.mem_cons_of_mem _ he)
  apart := h.apart.of_cons
  stored e he := h.stored e (List.mem_cons_of_mem _ he)

lemma apart_head (h : Holds img v (e :: H)) {f : Ext O} (hf : f ∈ H) {p : ℕ} (hp : f.Has p) :
    ¬ e.Has p := fun he => List.rel_of_pairwise_cons h.apart hf p he hp

lemma of_write {w : Vol P} {S : Set ℕ} (h : Holds img v H) (hok : Ok w S)
    (halloc : w.alloc = v.alloc)
    (hpages : ∀ e ∈ H, ∀ o, e.obj = some o → ∀ i < e.pages,
      w.file.pages (e.page + i) = v.file.pages (e.page + i)) : Holds img w H where
  ok := ⟨S, hok⟩
  data e he := by rw [halloc]; exact h.data e he
  inFile e he := by rw [halloc]; exact h.inFile e he
  live e he p hp := by rw [halloc]; exact h.live e he p hp
  apart := h.apart
  stored e he o ho i hi := (hpages e he o ho i hi).trans (h.stored e he o ho i hi)

/-! ### Allocation -/

theorem alloc (h : Holds img v H) {n : ℕ} (hn : 0 < n) :
    ∃ r v', allocExtent v n = (some r, v') ∧ Holds img v' (⟨r, n, none⟩ :: H) ∧ Kept v v' := by
  obtain ⟨S, hok⟩ := h.ok
  obtain ⟨r, v', heq, hok', ha⟩ := allocExtent_spec hok hn
  have hff : v'.alloc.firstFree = v.alloc.firstFree := by
    simp only [PageAllocator.firstFree, ha.bitmapPage, ha.bitmapPages]
  have hlive : ∀ f ∈ H, ∀ p, f.Has p → ¬ (r ≤ p ∧ p < r + n) := by
    intro f hf p hp hr
    have h₁ := h.live f hf p hp
    rw [ha.fresh p hr.1 hr.2] at h₁
    cases h₁
  refine ⟨r, v', heq, ⟨⟨S, hok'⟩, ?_, ?_, ?_, ?_, ?_⟩, ⟨ha.bitmapPage, ha.bitmapPages, ?_, ha.later⟩⟩
  · intro f hf
    rcases List.mem_cons.mp hf with rfl | hf
    · rw [hff]
      exact ha.data
    · rw [hff]
      exact h.data f hf
  · intro f hf
    rcases List.mem_cons.mp hf with rfl | hf
    · exact ha.inFile
    · exact (h.inFile f hf).trans ha.mono
  · intro f hf p hp
    rw [ha.bits]
    rcases List.mem_cons.mp hf with rfl | hf
    · have hp' : r ≤ p ∧ p < r + n := hp
      simp [hp']
    · simp [h.live f hf p hp]
  · exact List.pairwise_cons.mpr ⟨fun f hf p hp hf' => hlive f hf p hf' hp, h.apart⟩
  · intro f hf o ho i hi
    rcases List.mem_cons.mp hf with rfl | hf
    · cases ho
    · have := h.inFile f hf
      rw [ha.pages _ (by omega)]
      exact h.stored f hf o ho i hi
  · intro p hp
    exact ha.pages p (lt_of_lt_of_le hp hok.room)

/-! ### Writes -/

lemma ok_writePages {S : Set ℕ} (hok : Ok v S) {p : ℕ} (f : ℕ → P) :
    ∀ n, (∀ q, p ≤ q → q < p + n → bitGet v.alloc.bitmap q = true) →
      Ok { v with file := v.file.writePages p n f } S
  | 0, _ => hok
  | n + 1, hb => by
    have ih := ok_writePages hok f n fun q h1 h2 => hb q h1 (by omega)
    simp only [PageFile.writePages_succ]
    exact ih.writePage (f n) (hb (p + n) (by omega) (by omega))

lemma kept_writePages {p n : ℕ} (f : ℕ → P) (hp : v.alloc.firstFree ≤ p) :
    Kept v { v with file := v.file.writePages p n f } where
  bitmapPage := rfl
  bitmapPages := rfl
  pages q hq := by
    rw [PageFile.writePages_pages, if_neg (by omega)]
  later := PageFile.extends_writePages _ _ _ _

/-- Writing the front of an extent splits it into the part written and the rest. -/
theorem writeFront {p n m : ℕ} {x : Option O} (h : Holds img v (⟨p, n, x⟩ :: H)) (hm : m ≤ n)
    (o : O) :
    Holds img { v with file := v.file.writePages p m (img o) }
        (⟨p, m, some o⟩ :: ⟨p + m, n - m, none⟩ :: H) ∧
      Kept v { v with file := v.file.writePages p m (img o) } := by
  obtain ⟨S, hok⟩ := h.ok
  have hlive : ∀ q, p ≤ q → q < p + n → bitGet v.alloc.bitmap q = true := fun q h1 h2 =>
    h.live ⟨p, n, x⟩ (by simp) q ⟨h1, h2⟩
  have hdata : v.alloc.firstFree ≤ p := h.data ⟨p, n, x⟩ (by simp)
  have hin : p + n ≤ v.alloc.nPages := h.inFile ⟨p, n, x⟩ (by simp)
  have hok' := ok_writePages hok (img o) m fun q h1 h2 => hlive q h1 (by omega)
  refine ⟨⟨⟨S, hok'⟩, ?_, ?_, ?_, ?_, ?_⟩, kept_writePages _ hdata⟩
  · intro f hf
    simp only [List.mem_cons] at hf
    rcases hf with rfl | rfl | hf
    · exact hdata
    · exact hdata.trans (Nat.le_add_right _ _)
    · exact h.data f (List.mem_cons_of_mem _ hf)
  · intro f hf
    simp only [List.mem_cons] at hf
    rcases hf with rfl | rfl | hf
    · exact (Nat.add_le_add_left hm p).trans hin
    · have : p + m + (n - m) = p + n := by omega
      exact this.trans_le hin
    · exact h.inFile f (List.mem_cons_of_mem _ hf)
  · intro f hf q hq
    simp only [List.mem_cons] at hf
    rcases hf with rfl | rfl | hf
    · exact hlive q hq.1 (lt_of_lt_of_le hq.2 (Nat.add_le_add_left hm p))
    · have h1 : p + m ≤ q := hq.1
      have h2 : q < p + m + (n - m) := hq.2
      exact hlive q (by omega) (by omega)
    · exact h.live f (List.mem_cons_of_mem _ hf) q hq
  · have hfront : ∀ f ∈ H, ∀ q, f.Has q → ¬ (p ≤ q ∧ q < p + n) := fun f hf q hq hpq =>
      h.apart_head hf hq hpq
    refine List.pairwise_cons.mpr ⟨?_, List.pairwise_cons.mpr ⟨?_, h.tail.apart⟩⟩
    · intro f hf q hq hfq
      have h1 : p ≤ q := hq.1
      have h2 : q < p + m := hq.2
      rcases List.mem_cons.mp hf with rfl | hf
      · have h3 : p + m ≤ q := hfq.1
        omega
      · exact hfront f hf q hfq ⟨h1, by omega⟩
    · intro f hf q hq hfq
      have h1 : p + m ≤ q := hq.1
      have h2 : q < p + m + (n - m) := hq.2
      exact hfront f hf q hfq ⟨by omega, by omega⟩
  · intro f hf o' ho i hi
    simp only [List.mem_cons] at hf
    rcases hf with rfl | rfl | hf
    · cases ho
      have hi' : i < m := hi
      rw [PageFile.writePages_pages, if_pos (by constructor <;> simp [hi'])]
      simp
    · cases ho
    · have hnot : ¬ (p ≤ f.page + i ∧ f.page + i < p + m) := fun hc =>
        h.apart_head hf (p := f.page + i) ⟨by omega, by omega⟩ ⟨hc.1, by
          have := hc.2
          simp only
          omega⟩
      rw [PageFile.writePages_pages, if_neg hnot]
      exact h.stored f (List.mem_cons_of_mem _ hf) o' ho i hi

theorem write {p n : ℕ} {x : Option O} (h : Holds img v (⟨p, n, x⟩ :: H)) (o : O) :
    Holds img { v with file := v.file.writePages p n (img o) } (⟨p, n, some o⟩ :: H) ∧
      Kept v { v with file := v.file.writePages p n (img o) } := by
  obtain ⟨h', hk⟩ := h.writeFront le_rfl o
  exact ⟨(h'.perm (.swap _ _ _)).tail, hk⟩

/-! ### Frees -/

lemma freeOne_pages {q p : ℕ} (hqp : q ≠ p) : (freeOne v p).file.pages q = v.file.pages q := by
  unfold freeOne
  split
  · simp [Function.update_of_ne hqp]
  · rfl

lemma freeOne_kept {p : ℕ} (hp : v.alloc.firstFree ≤ p) : Kept v (freeOne v p) where
  bitmapPage := by unfold freeOne; split <;> rfl
  bitmapPages := by unfold freeOne; split <;> rfl
  pages q hq := freeOne_pages (by omega)
  later := by
    unfold freeOne
    split
    · exact PageFile.extends_issue _ _
    · exact .refl _

lemma freeOne_nPages (v : Vol P) (p : ℕ) : (freeOne v p).alloc.nPages = v.alloc.nPages := by
  unfold freeOne
  split <;> rfl

lemma freeOne_bits {p q : ℕ} (hqp : q ≠ p) :
    bitGet (freeOne v p).alloc.bitmap q = bitGet v.alloc.bitmap q := by
  unfold freeOne
  split
  · simp [bitGet_bitClear, hqp]
  · rfl

lemma freeHead {p n : ℕ} {x : Option O} (h : Holds img v (⟨p, n + 1, x⟩ :: H)) :
    Holds img (freeOne v p) (⟨p + 1, n, none⟩ :: H) ∧ Kept v (freeOne v p) := by
  obtain ⟨S, hok⟩ := h.ok
  have hdata : v.alloc.firstFree ≤ p := h.data ⟨p, n + 1, x⟩ (by simp)
  have hin : p + (n + 1) ≤ v.alloc.nPages := h.inFile ⟨p, n + 1, x⟩ (by simp)
  have hlive : ∀ q, p ≤ q → q < p + (n + 1) → bitGet v.alloc.bitmap q = true := fun q h1 h2 =>
    h.live ⟨p, n + 1, x⟩ (by simp) q ⟨h1, h2⟩
  have hk := freeOne_kept (v := v) hdata
  have hother : ∀ f ∈ H, ∀ q, f.Has q → q ≠ p := by
    rintro f hf q hq rfl
    exact h.apart_head hf hq ⟨le_rfl, by simp⟩
  refine ⟨⟨⟨_, freeOne_spec hok hdata (by omega) (hlive p le_rfl (by omega))⟩, ?_, ?_, ?_, ?_, ?_⟩,
    hk⟩
  · intro f hf
    rw [hk.firstFree]
    rcases List.mem_cons.mp hf with rfl | hf
    · exact hdata.trans (Nat.le_succ _)
    · exact h.data f (List.mem_cons_of_mem _ hf)
  · intro f hf
    rw [freeOne_nPages]
    rcases List.mem_cons.mp hf with rfl | hf
    · have : p + 1 + n = p + (n + 1) := by omega
      exact this.trans_le hin
    · exact h.inFile f (List.mem_cons_of_mem _ hf)
  · intro f hf q hq
    rcases List.mem_cons.mp hf with rfl | hf
    · have h1 : p + 1 ≤ q := hq.1
      have h2 : q < p + 1 + n := hq.2
      rw [freeOne_bits (by omega)]
      exact hlive q (by omega) (by omega)
    · rw [freeOne_bits (hother f hf q hq)]
      exact h.live f (List.mem_cons_of_mem _ hf) q hq
  · refine List.pairwise_cons.mpr ⟨fun f hf q hq hfq => ?_, h.tail.apart⟩
    have h1 : p + 1 ≤ q := hq.1
    have h2 : q < p + 1 + n := hq.2
    exact h.apart_head hf hfq ⟨by simp only; omega, by simp only; omega⟩
  · intro f hf o ho i hi
    rcases List.mem_cons.mp hf with rfl | hf
    · cases ho
    · rw [freeOne_pages (hother f hf _ ⟨by omega, by omega⟩)]
      exact h.stored f (List.mem_cons_of_mem _ hf) o ho i hi

lemma freeExtent_succ (v : Vol P) (p n : ℕ) :
    freeExtent v p (n + 1) = freeExtent (freeOne v p) (p + 1) n := by
  simp only [freeExtent, List.range_succ_eq_map, List.foldl_cons, List.foldl_map, Nat.add_zero]
  congr 1
  funext w i
  congr 1
  omega

theorem free {p n : ℕ} {x : Option O} (h : Holds img v (⟨p, n, x⟩ :: H)) :
    Holds img (freeExtent v p n) H ∧ Kept v (freeExtent v p n) := by
  induction n generalizing v p x with
  | zero => exact ⟨h.tail, .refl _⟩
  | succ n ih =>
    obtain ⟨h₁, hk₁⟩ := h.freeHead
    obtain ⟨h₂, hk₂⟩ := ih h₁
    rw [freeExtent_succ]
    exact ⟨h₂, hk₁.trans hk₂⟩

/-! ### The reserved pages -/

/-- A write to a reserved page touches no extent. -/
theorem writeReserved (h : Holds img v H) {p : ℕ} (hp : p < v.alloc.firstFree) (x : P) :
    Holds img { v with file := v.file.writePage p x } H := by
  obtain ⟨S, hok⟩ := h.ok
  refine h.of_write (hok.writePage x (hok.reserved p hp)) rfl ?_
  intro e he o _ i _
  have := h.data e he
  rw [PageFile.writePage_pages, Function.update_of_ne (by omega)]

lemma clearFreeList (h : Holds img v H) :
    Holds img { v with alloc := Alloc.clearFreeList v.alloc } H where
  ok := by
    obtain ⟨S, hok⟩ := h.ok
    exact ⟨S, hok.clearFreeList⟩
  data := h.data
  inFile := h.inFile
  live := h.live
  apart := h.apart
  stored := h.stored

/-- After the bitmap has been flushed the extents are there for whoever loads the file. -/
theorem flush {file : PageFile P} (h : Holds img v H) (hpos : 0 < v.alloc.bitmapPages)
    (hflush : flushBitmap v = some (.ok file)) :
    Holds img { v with file := file } H ∧
      ∃ a, load file v.alloc.bitmapPage v.alloc.bitmapPages file.numPages v.alloc.freeListHead
          v.alloc.nFreePages = .ok a ∧
        Holds img { file := file, alloc := a } H ∧ a.bitmapPage = v.alloc.bitmapPage ∧
        a.bitmapPages = v.alloc.bitmapPages := by
  obtain ⟨S, hok⟩ := h.ok
  obtain ⟨hregion, hfit, hfile⟩ := (flushBitmap_eq_some hpos).mp hflush
  have hpages : ∀ e ∈ H, ∀ o, e.obj = some o → ∀ i < e.pages,
      file.pages (e.page + i) = v.file.pages (e.page + i) := by
    intro e he o _ i _
    have := h.data e he
    simp only [PageAllocator.firstFree] at this
    rw [hfile, PageFile.writePages_pages, if_neg (by omega)]
  have hok₁ : Ok { v with file := file } S := by
    rw [hfile]
    refine ok_writePages hok _ _ fun q h1 h2 => hok.reserved q ?_
    simp only [PageAllocator.firstFree]
    exact h2
  refine ⟨h.of_write hok₁ rfl hpages, ?_⟩
  have hreload := reload_eq hok hregion hfit
  have hok₂ := reload_ok hok hregion hfit
  unfold reload at hreload hok₂
  rw [hflush] at hreload hok₂
  simp only at hreload hok₂
  split at hreload
  next e he =>
    -- a load that failed would have left the bitmap alone, and it does not
    exfalso
    have hn : file.numPages = v.alloc.nPages := by
      rw [hfile, PageFile.writePages_numPages, hok.fileSize]
    have hcov := hok.covers
    unfold load at he
    rw [if_neg (by rw [hn]; omega)] at he
    cases he
  next a ha =>
    rw [ha] at hok₂
    simp only at hok₂
    have halloc := congrArg Vol.alloc hreload
    simp only at halloc
    refine ⟨a, ha, ⟨⟨S, hok₂⟩, ?_, ?_, ?_, h.apart, ?_⟩, by rw [halloc], by rw [halloc]⟩
    · intro e he
      simp only [halloc, PageAllocator.firstFree]
      exact h.data e he
    · intro e he
      simp only [halloc]
      exact h.inFile e he
    · intro e he p hp
      simp only [halloc]
      exact h.live e he p hp
    · intro e he o ho i hi
      simp only
      rw [hpages e he o ho i hi]
      exact h.stored e he o ho i hi

end Holds

end SextantTree.Heap
