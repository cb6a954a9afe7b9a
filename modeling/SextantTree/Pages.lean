import Mathlib.Data.Nat.Bitwise
import Mathlib.Order.Interval.Finset.Nat
import Mathlib.Tactic

/-!
The page file: a linear array of pages, grown by `ftruncate`, with every page write kept in
program order so that a crash can be placed between any two of them.

What a page holds is left to the client. The allocator asks for two encodings only: the
link word of a free page and the slice of the allocation bitmap stored in a bitmap page.
-/

namespace SextantTree.Pages

def kPageSize : ℕ := 4096

def pageBits : ℕ := kPageSize * 8

/-- The page images the allocator writes and reads. `none` is `kInvalidPage`. -/
class PageImage (P : Type) where
  /-- A page the file system has just zero-filled. -/
  zero : P
  /-- A zeroed page with the next free page in its first word. -/
  link : Option ℕ → P
  /-- The first word of any page, read as a page id. -/
  next : P → Option ℕ
  /-- A bitmap page holding `pageBits` bits. -/
  bitmapPage : ℕ → P
  /-- The bytes of any page, read as a bit string. -/
  bits : P → ℕ
  next_link : ∀ n, next (link n) = n
  bits_bitmapPage : ∀ b < 2 ^ pageBits, bits (bitmapPage b) = b

attribute [simp] PageImage.next_link

/-- One change of the file: a page written whole, or the file resized. -/
inductive Write (P : Type)
  | page (p : ℕ) (img : P)
  | resize (n : ℕ)

structure PageFile (P : Type) where
  pages : ℕ → P
  numPages : ℕ
  /-- Everything written so far, oldest first. -/
  log : List (Write P)

variable {P : Type} [PageImage P]

namespace PageFile

/-- The effect of one change on the contents, the log apart. -/
def apply (f : PageFile P) : Write P → PageFile P
  | .page p img => { f with pages := Function.update f.pages p img }
  | .resize n =>
    { f with
      pages := fun p => if p < min n f.numPages then f.pages p else PageImage.zero
      numPages := n }

def issue (f : PageFile P) (w : Write P) : PageFile P :=
  { f.apply w with log := f.log ++ [w] }

def writePage (f : PageFile P) (p : ℕ) (img : P) : PageFile P := f.issue (.page p img)

/-- `img i` is the `i`-th page of the buffer. -/
def writePages (f : PageFile P) (p n : ℕ) (img : ℕ → P) : PageFile P :=
  (List.range n).foldl (fun g i => g.writePage (p + i) (img i)) f

def truncate (f : PageFile P) (n : ℕ) : PageFile P := f.issue (.resize n)

/-- The file a crash leaves behind when only the changes `ws` reached it. -/
def replay (f : PageFile P) (ws : List (Write P)) : PageFile P :=
  ws.foldl issue f

/-- `g` is the file `f` after some further changes. -/
def Extends (f g : PageFile P) : Prop := ∃ ws, g = f.replay ws

@[simp] lemma writePage_pages (f : PageFile P) (p : ℕ) (img : P) :
    (f.writePage p img).pages = Function.update f.pages p img := rfl

@[simp] lemma writePage_numPages (f : PageFile P) (p : ℕ) (img : P) :
    (f.writePage p img).numPages = f.numPages := rfl

@[simp] lemma truncate_numPages (f : PageFile P) (n : ℕ) : (f.truncate n).numPages = n := rfl

lemma truncate_pages (f : PageFile P) (n p : ℕ) :
    (f.truncate n).pages p = if p < min n f.numPages then f.pages p else PageImage.zero := rfl

lemma writePages_succ (f : PageFile P) (p n : ℕ) (img : ℕ → P) :
    f.writePages p (n + 1) img = (f.writePages p n img).writePage (p + n) (img n) := by
  simp [writePages, List.range_succ]

@[simp] lemma writePages_zero (f : PageFile P) (p : ℕ) (img : ℕ → P) :
    f.writePages p 0 img = f := rfl

@[simp] lemma writePages_numPages (f : PageFile P) (p n : ℕ) (img : ℕ → P) :
    (f.writePages p n img).numPages = f.numPages := by
  induction n with
  | zero => rfl
  | succ n ih => rw [writePages_succ, writePage_numPages, ih]

lemma writePages_pages (f : PageFile P) (p n : ℕ) (img : ℕ → P) (q : ℕ) :
    (f.writePages p n img).pages q =
      if p ≤ q ∧ q < p + n then img (q - p) else f.pages q := by
  induction n with
  | zero => rw [if_neg (by omega)]; rfl
  | succ n ih =>
    rw [writePages_succ, writePage_pages]
    by_cases h : q = p + n
    · subst h
      rw [Function.update_self, if_pos (by omega)]
      congr 1; omega
    · rw [Function.update_of_ne h, ih]
      by_cases h2 : p ≤ q ∧ q < p + n
      · rw [if_pos h2, if_pos (by omega)]
      · rw [if_neg h2, if_neg (by omega)]

/-! ### Crash points -/

lemma Extends.refl (f : PageFile P) : Extends f f := ⟨[], rfl⟩

lemma Extends.trans {f g h : PageFile P} (h1 : Extends f g) (h2 : Extends g h) :
    Extends f h := by
  obtain ⟨ws, rfl⟩ := h1
  obtain ⟨vs, rfl⟩ := h2
  exact ⟨ws ++ vs, by simp [replay, List.foldl_append]⟩

lemma extends_issue (f : PageFile P) (w : Write P) : Extends f (f.issue w) := ⟨[w], rfl⟩

lemma extends_writePages (f : PageFile P) (p n : ℕ) (img : ℕ → P) :
    Extends f (f.writePages p n img) := by
  induction n with
  | zero => exact .refl f
  | succ n ih =>
    rw [writePages_succ]
    exact ih.trans (extends_issue _ _)

end PageFile

end SextantTree.Pages
