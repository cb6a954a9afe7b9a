import SextantTree.AllocInv

/-!
Whole histories of the allocator: any sequence of allocations and frees, interleaved with
client writes to the pages clients hold and with a persist and reload of the state.

Beside the code's own state a history keeps the extents clients hold and, for every page,
the link the allocator wrote the last time it freed the page.
-/

namespace SextantTree.AllocRun

open SextantTree.Pages SextantTree.Alloc SextantTree.AllocInv

/-! ### Persisting the bitmap -/

variable {P : Type} [PageImage P]

lemma readBits_congr {f g : PageFile P} {start n : ℕ}
    (h : ∀ p, start ≤ p → p < start + n → f.pages p = g.pages p) :
    readBits f start n = readBits g start n := by
  induction n generalizing start with
  | zero => rfl
  | succ n ih =>
    rw [readBits, readBits, h start (by omega) (by omega),
      ih fun p h1 h2 => h p (by omega) (by omega)]

lemma readBits_of_image (b : ℕ) :
    ∀ (n k start : ℕ) (f : PageFile P),
      (∀ i < n, f.pages (start + i) =
        PageImage.bitmapPage (b / 2 ^ (pageBits * (k + i)) % 2 ^ pageBits)) →
      readBits f start n = b / 2 ^ (pageBits * k) % 2 ^ (pageBits * n)
  | 0, k, start, f, _ => by simp [readBits, Nat.mod_one]
  | n + 1, k, start, f, h => by
    have h0 := h 0 (by omega)
    rw [Nat.add_zero, Nat.add_zero] at h0
    have ih := readBits_of_image b n (k + 1) (start + 1) f fun i hi => by
      have := h (i + 1) (by omega)
      rw [show start + 1 + i = start + (i + 1) by omega, this,
        show k + 1 + i = k + (i + 1) by omega]
    rw [readBits, h0, PageImage.bits_bitmapPage _ (Nat.mod_lt _ (by positivity)), ih,
      show pageBits * (k + 1) = pageBits * k + pageBits by ring, pow_add, ← Nat.div_div_eq_div_mul,
      show pageBits * (n + 1) = pageBits + pageBits * n by ring, pow_add, Nat.mod_mul]

lemma readBits_flush (f : PageFile P) (bm : Bitmap) (start n : ℕ) :
    readBits (f.writePages start n (bitmapImage bm)) start n = bm.bits % 2 ^ (pageBits * n) := by
  have h := readBits_of_image bm.bits n 0 start (f.writePages start n (bitmapImage bm))
    fun i hi => by
      rw [PageFile.writePages_pages, if_pos (by omega)]
      simp [bitmapImage]
  simpa using h

lemma bits_lt {v : Vol P} {S : Set ℕ} (h : Ok v S) :
    v.alloc.bitmap.bits < 2 ^ v.alloc.nPages :=
  Nat.lt_pow_two_of_testBit _ fun i hi => h.high i hi

/-- The allocator after its bitmap has been flushed and everything loaded back; it stays as it is
when one of them throws. -/
def reload (v : Vol P) : Vol P :=
  match flushBitmap v with
  | some (.ok file) =>
    match load file v.alloc.bitmapPage v.alloc.bitmapPages file.numPages v.alloc.freeListHead
        v.alloc.nFreePages with
    | .error _ => v
    | .ok alloc => { file := file, alloc := alloc }
  | _ => v

/-- Flushing and loading gives the allocator back, with a bitmap that fills its region. -/
theorem reload_eq {v : Vol P} {S : Set ℕ} (h : Ok v S) (hregion : Region v.alloc.bitmapPages)
    (hfit : v.alloc.bitmap.size ≤ v.alloc.bitmapPages * kPageSize) :
    reload v =
      { file := v.file.writePages v.alloc.bitmapPage v.alloc.bitmapPages
          (bitmapImage v.alloc.bitmap)
        alloc :=
          { v.alloc with
            bitmap := ⟨max ((v.alloc.nPages + 7) / 8) (v.alloc.bitmapPages * kPageSize),
              v.alloc.bitmap.bits⟩ } } := by
  have hcov := h.covers
  have hflush := (flushBitmap_eq_some hregion.1).mpr ⟨hregion, hfit, rfl⟩
  have hbits : v.alloc.bitmap.bits % 2 ^ (pageBits * v.alloc.bitmapPages) =
      v.alloc.bitmap.bits := by
    refine Nat.mod_eq_of_lt (lt_of_lt_of_le (bits_lt h) (Nat.pow_le_pow_right (by omega) ?_))
    unfold pageBits
    calc v.alloc.nPages ≤ 8 * v.alloc.bitmap.size := hcov
      _ ≤ 8 * (v.alloc.bitmapPages * kPageSize) := by omega
      _ = kPageSize * 8 * v.alloc.bitmapPages := by ring
  unfold reload
  rw [hflush]
  simp only [load, PageFile.writePages_numPages, h.fileSize, readBits_flush, hbits]
  rw [if_neg (by omega)]
  simp [growBitmap]

lemma reload_ok {v : Vol P} {S : Set ℕ} (h : Ok v S) (hregion : Region v.alloc.bitmapPages)
    (hfit : v.alloc.bitmap.size ≤ v.alloc.bitmapPages * kPageSize) : Ok (reload v) S := by
  rw [reload_eq h hregion hfit]
  refine
    { reserved := h.reserved, room := h.room, high := h.high, covers := ?_, counted := h.counted
      fileSize := ?_, head := h.head, range := h.range, chain := fun p hp hb q hq => ?_ }
  · simp only; omega
  · simp [h.fileSize]
  · have hp' := (h.range p hp).1
    unfold PageAllocator.firstFree at hp'
    rw [PageFile.writePages_pages, if_neg (by omega)] at hq
    exact h.chain p hp hb q hq

/-! ### Histories -/

structure Sys (P : Type) where
  vol : Vol P
  /-- The extents clients hold. -/
  live : List (Finset ℕ)
  /-- The link written when the page was last freed. -/
  stamp : ℕ → Option (Option ℕ)

inductive Op (P : Type)
  | allocPage
  | allocExtent (count : ℕ)
  | freePage (page : Option ℕ)
  | freeExtent (start count : ℕ)
  | clearFreeList
  | clientWrite (page : ℕ) (img : P)
  | reload

/-- A client holds `n` more pages, from `r` on. -/
def Sys.hold (s : Sys P) (v : Vol P) (r n : ℕ) : Sys P :=
  { s with vol := v, live := Finset.Ico r (r + n) :: s.live }

def Sys.freeOne (s : Sys P) (p : ℕ) : Sys P :=
  if bitGet s.vol.alloc.bitmap p then
    { vol := Alloc.freeOne s.vol p
      live := s.live.map (·.erase p)
      stamp := Function.update s.stamp p (some s.vol.alloc.freeListHead) }
  else { s with vol := Alloc.freeOne s.vol p }

def Sys.step (s : Sys P) : Op P → Sys P
  | .allocPage => s.hold (allocPage s.vol).2 (allocPage s.vol).1 1
  | .allocExtent count =>
    match allocExtent s.vol count with
    | (some r, v) => s.hold v r count
    | (none, v) => { s with vol := v }
  | .freePage none => s
  | .freePage (some p) => s.freeOne p
  | .freeExtent start count => (List.range count).foldl (fun t i => t.freeOne (start + i)) s
  | .clearFreeList => { s with vol := { s.vol with alloc := clearFreeList s.vol.alloc } }
  | .clientWrite page img => { s with vol := { s.vol with file := s.vol.file.writePage page img } }
  | .reload => { s with vol := AllocRun.reload s.vol }

/-- What clients may do: they write only to pages they hold, free only pages of the file past the
reserved ones, and persist the state only while `flush_bitmap` writes or throws. Freeing a page
twice is allowed, and freeing one that another client holds. -/
def Admissible (s : Sys P) : Op P → Prop
  | .freePage (some p) => s.vol.alloc.firstFree ≤ p ∧ p < s.vol.alloc.nPages
  | .freeExtent start count =>
    s.vol.alloc.firstFree ≤ start ∧ start + count ≤ s.vol.alloc.nPages
  | .clientWrite page _ => ∃ e ∈ s.live, page ∈ e
  | .reload => flushBitmap s.vol ≠ none
  | _ => True

/-- The extent a call returns to its client. -/
def returned (s : Sys P) : Op P → Option (ℕ × ℕ)
  | .allocPage => some ((allocPage s.vol).1, 1)
  | .allocExtent count => (allocExtent s.vol count).1.map (·, count)
  | _ => none

/-- A file just given to `init`. -/
def fresh (file : PageFile P) (bitmapPage bitmapPages : ℕ) : Sys P where
  vol := { file := file, alloc := init file bitmapPage bitmapPages }
  live := []
  stamp := fun _ => none

inductive Reach (file : PageFile P) (bitmapPage bitmapPages : ℕ) : Sys P → Prop
  | fresh : Reach file bitmapPage bitmapPages (fresh file bitmapPage bitmapPages)
  | step {s : Sys P} (h : Reach file bitmapPage bitmapPages s) (op : Op P) (hop : Admissible s op) :
      Reach file bitmapPage bitmapPages (s.step op)

omit [PageImage P] in
lemma init_bits (n : ℕ) (bm : Bitmap) (p : ℕ) :
    bitGet ((List.range n).foldl bitSet bm) p = (bitGet bm p || decide (p < n)) := by
  induction n with
  | zero => simp
  | succ n ih =>
    rw [List.range_succ, List.foldl_append, List.foldl_cons, List.foldl_nil, bitGet_bitSet, ih,
      Bool.or_assoc, ← Bool.decide_or]
    congr 1
    rw [decide_eq_decide]; omega

lemma init_ok (file : PageFile P) {bitmapPage bitmapPages : ℕ}
    (hfile : file.numPages = bitmapPage + bitmapPages) :
    Ok { file := file, alloc := init file bitmapPage bitmapPages } ∅ := by
  have hbit : ∀ p, bitGet (init file bitmapPage bitmapPages).bitmap p =
      decide (p < bitmapPage + bitmapPages) := fun p => by
    simp [init, init_bits]
    simp [bitGet]
  have hnp : (init file bitmapPage bitmapPages).nPages = bitmapPage + bitmapPages := by
    simp [init, hfile]
  refine
    { reserved := fun p hp => ?_, room := ?_, high := fun p hp => ?_, covers := ?_
      counted := ?_, fileSize := ?_, head := fun p hp => ?_, range := by simp, chain := by simp }
  · rw [hbit, decide_eq_true_eq]; exact hp
  · rw [hnp]; exact le_refl _
  · rw [hnp] at hp; rw [hbit]; simpa using hp
  · simp only [init, growBitmap]; omega
  · have : freeSet (init file bitmapPage bitmapPages).bitmap
        (init file bitmapPage bitmapPages).nPages = ∅ := by
      ext p
      rw [mem_freeSet, hbit, hnp]
      simp
    simp only [this]
    simp [init]
  · rw [hnp, hfile]
  · simp [init] at hp

structure Inv (s : Sys P) : Prop where
  ok : Ok s.vol {p | (s.stamp p).isSome}
  region : 0 < s.vol.alloc.bitmapPages
  held : ∀ e ∈ s.live, ∀ p ∈ e,
    s.vol.alloc.firstFree ≤ p ∧ p < s.vol.alloc.nPages ∧ bitGet s.vol.alloc.bitmap p = true
  apart : s.live.Pairwise Disjoint
  stamped : ∀ p l, s.stamp p = some l → bitGet s.vol.alloc.bitmap p = false →
    PageImage.next (s.vol.file.pages p) = l

lemma inv_fresh (file : PageFile P) {bitmapPage bitmapPages : ℕ} (hbm : 0 < bitmapPages)
    (hfile : file.numPages = bitmapPage + bitmapPages) :
    Inv (fresh file bitmapPage bitmapPages) where
  ok := by simpa [fresh] using init_ok file hfile
  region := hbm
  held := by simp [fresh]
  apart := by simp [fresh]
  stamped := by simp [fresh]

lemma inv_hold {s : Sys P} (h : Inv s) {v : Vol P} {r n : ℕ}
    (hok : Ok v {p | (s.stamp p).isSome}) (ha : Alloced s.vol v r n) : Inv (s.hold v r n) where
  ok := hok
  region := by
    show 0 < v.alloc.bitmapPages
    rw [ha.bitmapPages]; exact h.region
  held := by
    have hff : v.alloc.firstFree = s.vol.alloc.firstFree := by
      simp only [PageAllocator.firstFree, ha.bitmapPage, ha.bitmapPages]
    intro e he p hp
    rcases List.mem_cons.mp he with rfl | he
    · rw [Finset.mem_Ico] at hp
      refine ⟨by rw [show (s.hold v r n).vol = v from rfl, hff]; exact le_trans ha.data hp.1,
        lt_of_lt_of_le hp.2 ha.inFile, ?_⟩
      show bitGet v.alloc.bitmap p = true
      rw [ha.bits, decide_eq_true hp, Bool.or_true]
    · obtain ⟨h1, h2, h3⟩ := h.held e he p hp
      refine ⟨by rw [show (s.hold v r n).vol = v from rfl, hff]; exact h1,
        lt_of_lt_of_le h2 ha.mono, ?_⟩
      show bitGet v.alloc.bitmap p = true
      rw [ha.bits, h3, Bool.true_or]
  apart := by
    refine List.pairwise_cons.mpr ⟨fun e he => ?_, h.apart⟩
    rw [Finset.disjoint_left]
    intro p hp hpe
    rw [Finset.mem_Ico] at hp
    have hset := (h.held e he p hpe).2.2
    rw [ha.fresh p hp.1 hp.2] at hset
    cases hset
  stamped p l hl hb := by
    have hb' : bitGet v.alloc.bitmap p = false := hb
    rw [ha.bits, Bool.or_eq_false_iff] at hb'
    have hr := h.ok.range p (by simp [show s.stamp p = some l from hl])
    show PageImage.next (v.file.pages p) = l
    rw [ha.pages p hr.2]
    exact h.stamped p l hl hb'.1

lemma freeOne_alloc (v : Vol P) (p : ℕ) :
    (Alloc.freeOne v p).alloc.firstFree = v.alloc.firstFree ∧
    (Alloc.freeOne v p).alloc.nPages = v.alloc.nPages ∧
    (Alloc.freeOne v p).alloc.bitmapPages = v.alloc.bitmapPages := by
  unfold Alloc.freeOne
  split <;> exact ⟨rfl, rfl, rfl⟩

lemma inv_freeOne {s : Sys P} (h : Inv s) {p : ℕ} (hp : s.vol.alloc.firstFree ≤ p)
    (hlt : p < s.vol.alloc.nPages) : Inv (s.freeOne p) := by
  unfold Sys.freeOne
  by_cases hb : bitGet s.vol.alloc.bitmap p
  · rw [if_pos hb]
    obtain ⟨hff, hnp, hbp⟩ := freeOne_alloc s.vol p
    have hbits : ∀ q, bitGet (Alloc.freeOne s.vol p).alloc.bitmap q =
        (bitGet s.vol.alloc.bitmap q && !decide (q = p)) := fun q => by
      simp [Alloc.freeOne, hb]
    refine ⟨?_, hbp ▸ h.region, ?_, ?_, ?_⟩
    · have hS : {q | (Function.update s.stamp p (some s.vol.alloc.freeListHead) q).isSome} =
          insert p {q | (s.stamp q).isSome} := by
        ext q
        by_cases hq : q = p
        · subst hq; simp
        · simp [hq]
      simp only [hS]
      exact freeOne_spec h.ok hp hlt hb
    · intro e he q hq
      obtain ⟨e', he', rfl⟩ := List.mem_map.mp he
      obtain ⟨hqp, hqe⟩ := Finset.mem_erase.mp hq
      obtain ⟨h1, h2, h3⟩ := h.held e' he' q hqe
      refine ⟨hff ▸ h1, hnp ▸ h2, ?_⟩
      rw [hbits, h3]; simp [hqp]
    · refine List.Pairwise.map _ (fun e e' hd => ?_) h.apart
      exact hd.mono (Finset.erase_subset _ _) (Finset.erase_subset _ _)
    · intro q l hl hqb
      by_cases hq : q = p
      · subst hq
        simp only [Function.update_self, Option.some.injEq] at hl
        simp [Alloc.freeOne, hb, ← hl]
      · simp only [Function.update_of_ne hq] at hl
        rw [hbits, Bool.and_eq_false_iff] at hqb
        have hq' : bitGet s.vol.alloc.bitmap q = false := by simpa [hq] using hqb
        simp only [Alloc.freeOne, hb, if_true, PageFile.writePage_pages, Function.update_of_ne hq]
        exact h.stamped q l hl hq'
  · rw [if_neg hb]
    have : Alloc.freeOne s.vol p = s.vol := by simp [Alloc.freeOne, hb]
    rw [this]; exact h

lemma inv_freeExtent {s : Sys P} (h : Inv s) {start : ℕ} (hs : s.vol.alloc.firstFree ≤ start) :
    ∀ count, start + count ≤ s.vol.alloc.nPages →
      Inv ((List.range count).foldl (fun t i => t.freeOne (start + i)) s) ∧
      ((List.range count).foldl (fun t i => t.freeOne (start + i)) s).vol =
        freeExtent s.vol start count ∧
      (freeExtent s.vol start count).alloc.firstFree = s.vol.alloc.firstFree ∧
      (freeExtent s.vol start count).alloc.nPages = s.vol.alloc.nPages
  | 0, _ => ⟨h, rfl, rfl, rfl⟩
  | count + 1, hc => by
    obtain ⟨hi, hv, hff, hnp⟩ := inv_freeExtent h hs count (by omega)
    have hsucc : freeExtent s.vol start (count + 1) =
        Alloc.freeOne (freeExtent s.vol start count) (start + count) := by
      simp [freeExtent, List.range_succ]
    obtain ⟨f1, f2, -⟩ := freeOne_alloc (freeExtent s.vol start count) (start + count)
    rw [List.range_succ, List.foldl_append, List.foldl_cons, List.foldl_nil, hsucc]
    refine ⟨inv_freeOne hi (by rw [hv, hff]; omega) (by rw [hv, hnp]; omega), ?_,
      f1.trans hff, f2.trans hnp⟩
    rw [← hv]
    unfold Sys.freeOne
    split <;> rfl

lemma inv_reload {s : Sys P} (h : Inv s)
    (hflush : flushBitmap s.vol ≠ none) : Inv { s with vol := reload s.vol } := by
  obtain ⟨r, hr⟩ := Option.ne_none_iff_exists'.mp hflush
  cases r with
  | error e =>
    have hsame : reload s.vol = s.vol := by
      unfold reload
      rw [hr]
    rw [hsame]
    exact h
  | ok file =>
  obtain ⟨hregion, hfit, -⟩ := (flushBitmap_eq_some h.region).mp hr
  have heq := reload_eq h.ok hregion hfit
  refine ⟨reload_ok h.ok hregion hfit, ?_, ?_, h.apart, ?_⟩
  · simp only [heq]; exact h.region
  · intro e he p hp
    simp only [heq]
    exact h.held e he p hp
  · intro p l hl hb
    simp only [heq] at hb ⊢
    have hr := (h.ok.range p (by simp [show s.stamp p = some l from hl])).1
    unfold PageAllocator.firstFree at hr
    rw [PageFile.writePages_pages, if_neg (by omega)]
    exact h.stamped p l hl hb

lemma inv_step {s : Sys P} (h : Inv s) {op : Op P} (hop : Admissible s op) : Inv (s.step op) := by
  match op, hop with
  | .allocPage, _ => exact inv_hold h (allocPage_spec h.ok).1 (allocPage_spec h.ok).2
  | .allocExtent count, _ =>
    simp only [Sys.step]
    by_cases hc : count = 0
    · subst hc; simpa [allocExtent] using h
    · obtain ⟨r, v, hr, hok, ha⟩ := allocExtent_spec h.ok (Nat.pos_of_ne_zero hc)
      rw [hr]
      exact inv_hold h hok ha
  | .freePage none, _ => exact h
  | .freePage (some p), hop => exact inv_freeOne h hop.1 hop.2
  | .freeExtent start count, hop => exact (inv_freeExtent h hop.1 count hop.2).1
  | .clearFreeList, _ =>
    exact ⟨h.ok.clearFreeList, h.region, h.held, h.apart, h.stamped⟩
  | .clientWrite page img, hop =>
    obtain ⟨e, he, hpe⟩ := hop
    have hset := (h.held e he page hpe).2.2
    refine ⟨h.ok.writePage img hset, h.region, h.held, h.apart, fun p l hl hb => ?_⟩
    have hne : p ≠ page := by
      rintro rfl
      have hb' : bitGet s.vol.alloc.bitmap p = false := hb
      rw [hset] at hb'; cases hb'
    simp only [Sys.step, PageFile.writePage_pages, Function.update_of_ne hne]
    exact h.stamped p l hl hb
  | .reload, hop => exact inv_reload h hop

lemma Reach.inv {file : PageFile P} {bitmapPage bitmapPages : ℕ} (hbm : 0 < bitmapPages)
    (hfile : file.numPages = bitmapPage + bitmapPages) {s : Sys P}
    (h : Reach file bitmapPage bitmapPages s) : Inv s := by
  induction h with
  | fresh => exact inv_fresh file hbm hfile
  | step _ _ hop ih => exact inv_step ih hop

lemma returned_alloced {s : Sys P} (h : Inv s) {op : Op P} {r n : ℕ}
    (hret : returned s op = some (r, n)) : ∃ v, Alloced s.vol v r n := by
  match op with
  | .allocPage =>
    simp only [returned, Option.some.injEq, Prod.mk.injEq] at hret
    obtain ⟨rfl, rfl⟩ := hret
    exact ⟨_, (allocPage_spec h.ok).2⟩
  | .allocExtent count =>
    by_cases hc : count = 0
    · subst hc; simp [returned, allocExtent] at hret
    · obtain ⟨r', v, hr, -, ha⟩ := allocExtent_spec h.ok (Nat.pos_of_ne_zero hc)
      simp only [returned, hr, Option.map_some, Option.some.injEq, Prod.mk.injEq] at hret
      obtain ⟨rfl, rfl⟩ := hret
      exact ⟨v, ha⟩
  | .freePage _ | .freeExtent _ _ | .clearFreeList | .clientWrite _ _ | .reload =>
    simp [returned] at hret

/-- A state in which no live page is handed out. -/
structure Safe (s : Sys P) : Prop where
  /-- What a call returns was free before it. -/
  free : ∀ op r n, Admissible s op → returned s op = some (r, n) → ∀ p, r ≤ p → p < r + n →
    bitGet s.vol.alloc.bitmap p = false ∧ s.vol.alloc.firstFree ≤ p ∧ ∀ e ∈ s.live, p ∉ e
  apart : s.live.Pairwise Disjoint
  held : ∀ e ∈ s.live, ∀ p ∈ e,
    s.vol.alloc.firstFree ≤ p ∧ p < s.vol.alloc.nPages ∧ bitGet s.vol.alloc.bitmap p = true
  counted : s.vol.alloc.nPages < 2 ^ 64 →
    s.vol.alloc.nFreePages = countFree s.vol.alloc.bitmap s.vol.alloc.nPages
  /-- The page whose link an allocation follows is in the file, and the link is the one the allocator
  wrote when it last freed that page. -/
  followed : ∀ p, s.vol.alloc.freeListHead = some p → bitGet s.vol.alloc.bitmap p = false →
    p < s.vol.file.numPages ∧ s.stamp p = some (PageImage.next (s.vol.file.pages p))
  served : ∀ count, 0 < count → (returned s (.allocExtent count)).isSome

lemma countFree_le (bm : Bitmap) (n : ℕ) : countFree bm n ≤ n := by
  have h := List.countP_le_length (p := fun i => !bitGet bm i) (l := List.range n)
  rwa [List.length_range] at h

lemma Inv.safe {s : Sys P} (h : Inv s) : Safe s where
  free op r n _ hret p h1 h2 := by
    obtain ⟨v, ha⟩ := returned_alloced h hret
    refine ⟨ha.fresh p h1 h2, le_trans ha.data h1, fun e he hpe => ?_⟩
    have hset := (h.held e he p hpe).2.2
    rw [ha.fresh p h1 h2] at hset
    cases hset
  apart := h.apart
  held := h.held
  counted hn := by
    have hle := countFree_le s.vol.alloc.bitmap s.vol.alloc.nPages
    rw [h.ok.counted, ← countFree_eq, Nat.mod_eq_of_lt (hle.trans_lt hn)]
  followed p hp hb := by
    have hS := h.ok.head p hp
    obtain ⟨l, hl⟩ := Option.isSome_iff_exists.mp hS
    exact ⟨by rw [h.ok.fileSize]; exact (h.ok.range p hS).2, by rw [hl, h.stamped p l hl hb]⟩
  served count hc := by
    obtain ⟨r, v, hr, -, -⟩ := allocExtent_spec h.ok hc
    simp [returned, hr]

omit [PageImage P] in
/-- The pages behind the reserved ones are free. -/
lemma countFree_fresh (file : PageFile P) (bitmapPage bitmapPages : ℕ) :
    countFree (fresh file bitmapPage bitmapPages).vol.alloc.bitmap file.numPages =
      file.numPages - (bitmapPage + bitmapPages) := by
  have hset : freeSet (fresh file bitmapPage bitmapPages).vol.alloc.bitmap file.numPages =
      Finset.Ico (bitmapPage + bitmapPages) file.numPages := by
    ext p
    simp only [mem_freeSet, fresh, init, bitGet_growBitmap, init_bits, Finset.mem_Ico,
      Bool.or_eq_false_iff, decide_eq_false_iff_not, not_lt]
    simp [bitGet, and_comm]
  rw [countFree_eq, hset, Nat.card_Ico]

/-- **The allocator never hands out a live page**, in no state of any history, exactly when the file
given to `init` ends with its bitmap region: the pages of a longer file are free and not counted. -/
theorem never_hands_out_live_iff (file : PageFile P) {bitmapPage bitmapPages : ℕ}
    (hbm : 0 < bitmapPages) (hfile : bitmapPage + bitmapPages ≤ file.numPages)
    (hsize : file.numPages < 2 ^ 64) :
    (∀ s, Reach file bitmapPage bitmapPages s → Safe s) ↔
      file.numPages = bitmapPage + bitmapPages := by
  constructor
  · intro h
    have hcounted := (h _ .fresh).counted
    have hn : (fresh file bitmapPage bitmapPages).vol.alloc.nPages = file.numPages :=
      max_eq_right hfile
    rw [hn, countFree_fresh] at hcounted
    have hzero : 0 = file.numPages - (bitmapPage + bitmapPages) := hcounted hsize
    omega
  · intro heq s hs
    exact (hs.inv hbm heq).safe

/-! ### A page as the allocator sees it -/

inductive RawPage
  | data (word bits : ℕ)
  | link (next : Option ℕ)
  | bitmap (bits : ℕ)
  deriving DecidableEq

instance : PageImage RawPage where
  zero := .data 0 0
  link := .link
  next
    | .data word _ => some word
    | .link next => next
    | .bitmap bits => some (bits % 2 ^ 64)
  bitmapPage := .bitmap
  bits
    | .data _ bits => bits
    | .link _ => 0
    | .bitmap bits => bits
  next_link _ := rfl
  bits_bitmapPage _ _ := rfl

def rawFile (numPages : ℕ) : PageFile RawPage := ⟨fun _ => .data 0 0, numPages, []⟩

/-- Three pages are allocated as an extent, written by the client, freed, and the middle
ones taken again as an extent, so that the free list is stale. -/
def staleHistory : Sys RawPage :=
  ((((fresh (rawFile 3) 2 1).step (.allocExtent 3)).step
    (.clientWrite 4 (.data 77 0))).step (.freeExtent 3 3)).step (.allocExtent 2)

theorem never_hands_out_live_stale :
    staleHistory.vol.alloc.freeListHead = some 5 ∧
    staleHistory.vol.alloc.nFreePages =
      countFree staleHistory.vol.alloc.bitmap staleHistory.vol.alloc.nPages := by
  have h0 : Reach (rawFile 3) 2 1 (fresh (rawFile 3) 2 1) := .fresh
  have h1 := h0.step (.allocExtent 3) trivial
  have h2 := h1.step (.clientWrite 4 (.data 77 0))
    ⟨Finset.Ico 3 6, List.mem_cons_self, by decide⟩
  have h3 := h2.step (.freeExtent 3 3) ⟨by decide, by decide⟩
  have h : Reach (rawFile 3) 2 1 staleHistory := h3.step (.allocExtent 2) trivial
  have hsafe := (never_hands_out_live_iff (rawFile 3) (by decide) (by decide) (by decide)).2 rfl _ h
  exact ⟨by decide, hsafe.counted (by decide)⟩

/-- A file with one page more: the counter starts at 0, and the first allocation takes it below. -/
theorem longer_file_miscounts :
    (fresh (rawFile 4) 2 1).vol.alloc.nFreePages = 0 ∧
    countFree (fresh (rawFile 4) 2 1).vol.alloc.bitmap (fresh (rawFile 4) 2 1).vol.alloc.nPages = 1 ∧
    ((fresh (rawFile 4) 2 1).step .allocPage).vol.alloc.nFreePages = 2 ^ 64 - 1 ∧
    Reach (rawFile 4) 2 1 ((fresh (rawFile 4) 2 1).step .allocPage) ∧
    ¬ Safe ((fresh (rawFile 4) 2 1).step .allocPage) := by
  refine ⟨by decide, by decide, by decide, .step .fresh .allocPage trivial, fun h => ?_⟩
  have hcounted := h.counted (by decide)
  revert hcounted
  decide

end SextantTree.AllocRun
