import SextantTree.Build
import SextantTree.Committed

/-!
The two copies of the superblock over whole histories: commits, commits that throw, reloads, and
crashes while a copy is being written. The page a commit writes follows from the parity of its
sequence number, and the number goes up before the page is written. After a commit that threw the
object is one number ahead of the file, and its next commit writes over the last completed copy.
-/

namespace SextantTree

open Pages

variable {s : Schema}

/-- A file with the superblock in memory. The last two fields are not in the program: the last
commit that completed or that a load returned, and the commit that was cut short after it. -/
structure SuperblockSys (s : Schema) where
  file : TreeFile s
  mem : Option SuperblockDisk
  completed : Option SuperblockDisk
  inProgress : Option SuperblockDisk

/-- The superblock that the next commit writes. -/
def SuperblockDisk.next (sb : SuperblockDisk) : SuperblockDisk :=
  { sb with commitSeq := (sb.commitSeq + 1) % 2 ^ 64 }

lemma commitSuperblock_eq (file : TreeFile s) {sb : SuperblockDisk} (h : sb.commitSeq + 1 < 2 ^ 64) :
    commitSuperblock file sb = (file.writePage (shadowPage sb.next.commitSeq) (.super sb.next), sb.next) := by
  simp only [commitSuperblock, SuperblockDisk.next, Nat.mod_eq_of_lt h]

def Blank (file : TreeFile s) : Prop := ∀ p < 2, readCopy file p = none

/-- A superblock page of which a write was cut short: old, new, or without a valid magic. -/
def CutShort (file : TreeFile s) (sb : SuperblockDisk) (img : Img s) : Prop :=
  img = file.pages (shadowPage sb.commitSeq) ∨ img = .super sb ∨ ∀ sb', img ≠ .super sb'

/-- The steps between commits. -/
inductive SuperblockStep (st : SuperblockSys s) : SuperblockSys s → Prop
  /-- The setters. -/
  | edit {sb : SuperblockDisk} (hmem : st.mem = some sb) (sb' : SuperblockDisk)
      (hseq : sb'.commitSeq = sb.commitSeq) : SuperblockStep st { st with mem := some sb' }
  /-- A write to another page. -/
  | write (p : ℕ) (hp : 2 ≤ p) (img : Img s) : SuperblockStep st { st with file := st.file.writePage p img }
  /-- `load` into a new superblock. -/
  | reload {sb : SuperblockDisk} (hload : loadSuperblock st.file = some sb) :
      SuperblockStep st ⟨st.file, some sb, some sb, none⟩
  /-- A crash between commits. -/
  | halt : SuperblockStep st { st with mem := none }

/-- The ends of a call of `commit`. -/
inductive CommitStep (st : SuperblockSys s) : SuperblockSys s → Prop
  | done {sb : SuperblockDisk} (hmem : st.mem = some sb) :
      CommitStep st ⟨st.file.writePage (shadowPage sb.next.commitSeq) (.super sb.next), some sb.next,
        some sb.next, none⟩
  /-- `write_page` or `sync` threw, and the object keeps its new number. -/
  | threw {sb : SuperblockDisk} (hmem : st.mem = some sb) (img : Img s) (himg : CutShort st.file sb.next img) :
      CommitStep st ⟨st.file.writePage (shadowPage sb.next.commitSeq) img, some sb.next, st.completed,
        some sb.next⟩
  | crash {sb : SuperblockDisk} (hmem : st.mem = some sb) (img : Img s) (himg : CutShort st.file sb.next img) :
      CommitStep st ⟨st.file.writePage (shadowPage sb.next.commitSeq) img, none, st.completed, some sb.next⟩

/-- Histories of a fresh file in which every commit starts in a state that meets `C`. -/
inductive SuperblockReach (C : SuperblockSys s → Prop) : SuperblockSys s → Prop
  | fresh {file : TreeFile s} (hblank : Blank file) (bitmapPage bitmapPages : ℕ) :
      SuperblockReach C ⟨file, some (initFresh bitmapPage bitmapPages), none, none⟩
  | step {st st' : SuperblockSys s} (h : SuperblockReach C st) (hstep : SuperblockStep st st') :
      SuperblockReach C st'
  | commit {st st' : SuperblockSys s} (h : SuperblockReach C st) (hC : C st) (hstep : CommitStep st st') :
      SuperblockReach C st'

/-- The last commit of the object in memory did not throw, and the next number does not wrap. -/
def SuperblockSys.InStep (st : SuperblockSys s) : Prop :=
  ∀ sb, st.mem = some sb → st.inProgress = none ∧ sb.commitSeq + 1 < 2 ^ 64

structure SuperblockInv (st : SuperblockSys s) : Prop where
  none_yet : st.completed = none → Blank st.file ∨ ∃ sb, st.inProgress = some sb ∧ Current st.file sb
  kept : ∀ sb, st.completed = some sb → readCopy st.file (shadowPage sb.commitSeq) = some sb ∧
    (Current st.file sb ∨ ∃ sb', st.inProgress = some sb' ∧ Current st.file sb')
  seq : ∀ sb, st.mem = some sb →
    sb.commitSeq = st.completed.elim 0 (·.commitSeq) + st.inProgress.elim 0 fun _ => 1

namespace SuperblockInv

variable {st : SuperblockSys s} {sb : SuperblockDisk}

lemma live (h : SuperblockInv st) (hmem : st.mem = some sb) (hidle : st.inProgress = none) :
    (st.completed = none ∧ sb.commitSeq = 0 ∧ Blank st.file) ∨
      ∃ last, st.completed = some last ∧ sb.commitSeq = last.commitSeq ∧ Current st.file last := by
  have hseq := h.seq sb hmem
  rw [hidle] at hseq
  cases hcompleted : st.completed with
  | none =>
    rw [hcompleted] at hseq
    rcases h.none_yet hcompleted with hblank | ⟨sb', hsb', -⟩
    · exact .inl ⟨rfl, hseq, hblank⟩
    · rw [hidle] at hsb'
      cases hsb'
  | some last =>
    rw [hcompleted] at hseq
    rcases (h.kept last hcompleted).2 with hcurrent | ⟨sb', hsb', -⟩
    · exact .inr ⟨last, rfl, hseq, hcurrent⟩
    · rw [hidle] at hsb'
      cases hsb'

lemma older (h : SuperblockInv st) (hmem : st.mem = some sb) (hidle : st.inProgress = none) :
    ∀ old, readCopy st.file (shadowPage sb.commitSeq) = some old → old.commitSeq ≤ sb.commitSeq := by
  intro old hold
  rcases h.live hmem hidle with ⟨-, -, hblank⟩ | ⟨last, -, hseq, hcurrent⟩
  · rw [hblank _ (shadowPage_lt _)] at hold
    cases hold
  · rw [hseq] at hold ⊢
    exact hcurrent.older old hold

/-- A commit in step leaves its superblock newer than the other copy. -/
lemma current_next (h : SuperblockInv st) (hin : st.InStep) (hmem : st.mem = some sb) :
    Current (st.file.writePage (shadowPage sb.next.commitSeq) (.super sb.next)) sb.next := by
  have hcurrent := Current.of_commit (h.older hmem (hin sb hmem).1)
  rw [commitSuperblock_eq _ (hin sb hmem).2] at hcurrent
  exact hcurrent

end SuperblockInv

lemma shadowPage_succ_ne (n : ℕ) : shadowPage (n + 1) ≠ shadowPage n := by
  rcases shadowPage_cases n with h | h <;> omega

lemma shadowPage_mod (n : ℕ) : shadowPage (n % 2 ^ 64) = shadowPage n := by
  rw [shadowPage, shadowPage, Nat.mod_mod_of_dvd n (by decide)]

section Pages

variable {file : TreeFile s} {p p' : ℕ} {img : Img s}

lemma readCopy_writePage_of_ne (h : p' ≠ p) : readCopy (file.writePage p img) p' = readCopy file p' := by
  simp only [readCopy, PageFile.writePage_pages, Function.update_of_ne h]

lemma readCopy_writePage_torn (himg : ∀ sb', img ≠ .super sb') :
    readCopy (file.writePage p img) p = none := by
  simp only [readCopy, PageFile.writePage_pages, Function.update_self]

lemma Blank.writePage (h : Blank file) (himg : readCopy (file.writePage p img) p = none) :
    Blank (file.writePage p img) := by
  intro p' hp'
  by_cases heq : p' = p
  · rw [heq, himg]
  · rw [readCopy_writePage_of_ne heq, h p' hp']

lemma Current.writePage_torn {sb : SuperblockDisk} (h : Current file sb) (himg : ∀ sb', img ≠ .super sb') :
    Current (file.writePage (shadowPage (sb.commitSeq + 1)) img) sb where
  copy := by
    rw [readCopy_writePage_of_ne (shadowPage_succ_ne sb.commitSeq).symm]
    exact h.copy
  newer old hold := by
    rw [readCopy_writePage_torn himg] at hold
    cases hold

end Pages

/-- What holds of the file whether the program goes on or not. -/
lemma SuperblockInv.cut {st : SuperblockSys s} {sb : SuperblockDisk} (h : SuperblockInv st)
    (hin : st.InStep) (hmem : st.mem = some sb) {img : Img s} (himg : CutShort st.file sb.next img)
    (mem : Option SuperblockDisk) (hmem' : ∀ sb', mem = some sb' → sb' = sb.next) :
    SuperblockInv ⟨st.file.writePage (shadowPage sb.next.commitSeq) img, mem, st.completed, some sb.next⟩ := by
  obtain ⟨hidle, hroom⟩ := hin sb hmem
  have hnext : sb.next.commitSeq = sb.commitSeq + 1 := Nat.mod_eq_of_lt hroom
  have hnew := h.current_next hin hmem
  have hold : ∀ p, (st.file.writePage (shadowPage sb.next.commitSeq)
      (st.file.pages (shadowPage sb.next.commitSeq))).pages p = st.file.pages p := by
    intro p
    rw [PageFile.writePage_pages, Function.update_eq_self]
  refine ⟨fun hnone => ?_, fun last hlast => ?_, fun sb' hsb' => ?_⟩
  · rcases h.live hmem hidle with ⟨-, -, hblank⟩ | ⟨last, hlast, -⟩
    · rcases himg with rfl | rfl | htorn
      · exact .inl fun p hp => (by simpa only [readCopy, hold] using hblank p hp)
      · exact .inr ⟨sb.next, rfl, hnew⟩
      · exact .inl (hblank.writePage (readCopy_writePage_torn htorn))
    · rw [show st.completed = none from hnone] at hlast
      cases hlast
  · rcases h.live hmem hidle with ⟨hnone, -⟩ | ⟨last', hlast', hseq, hcurrent⟩
    · rw [show st.completed = some last from hlast] at hnone
      cases hnone
    · obtain rfl : last' = last := Option.some.inj (hlast'.symm.trans hlast)
      have hpage : sb.next.commitSeq = last'.commitSeq + 1 := by rw [hnext, hseq]
      have hcopy : readCopy (st.file.writePage (shadowPage sb.next.commitSeq) img)
          (shadowPage last'.commitSeq) = some last' := by
        rw [hpage, readCopy_writePage_of_ne (shadowPage_succ_ne _).symm, hcurrent.copy]
      refine ⟨hcopy, ?_⟩
      rcases himg with rfl | rfl | htorn
      · exact .inl (hcurrent.congr fun p _ => hold p)
      · exact .inr ⟨sb.next, rfl, hnew⟩
      · refine .inl ?_
        rw [hpage]
        exact hcurrent.writePage_torn htorn
  · have hseq := h.seq sb hmem
    rw [hidle] at hseq
    rw [hmem' sb' hsb', hnext, hseq]
    rfl

lemma SuperblockInv.commit {st st' : SuperblockSys s} (h : SuperblockInv st) (hin : st.InStep)
    (hstep : CommitStep st st') : SuperblockInv st' := by
  cases hstep with
  | done hmem =>
    have hcurrent := h.current_next hin hmem
    refine ⟨fun hnone => (by cases hnone), fun sb hsb => ?_, fun sb hsb => ?_⟩
    · cases hsb
      exact ⟨hcurrent.copy, .inl hcurrent⟩
    · cases hsb
      rfl
  | threw hmem img himg => exact h.cut hin hmem himg _ fun _ hsb => (Option.some.inj hsb).symm
  | crash hmem img himg => exact h.cut hin hmem himg none fun _ hsb => (by cases hsb)

lemma SuperblockInv.step {st st' : SuperblockSys s} (h : SuperblockInv st) (hstep : SuperblockStep st st') :
    SuperblockInv st' := by
  cases hstep with
  | edit hmem sb' hseq =>
    refine ⟨h.none_yet, h.kept, fun sb hsb => ?_⟩
    cases hsb
    rw [hseq]
    exact h.seq _ hmem
  | write p hp img =>
    have hsame : ∀ p' < 2, (st.file.writePage p img).pages p' = st.file.pages p' := by
      intro p' hp'
      rw [PageFile.writePage_pages, Function.update_of_ne (by omega)]
    have hread : ∀ p' < 2, readCopy (st.file.writePage p img) p' = readCopy st.file p' := fun p' hp' =>
      readCopy_writePage_of_ne (by omega)
    refine ⟨fun hnone => ?_, fun sb hsb => ?_, h.seq⟩
    · rcases h.none_yet hnone with hblank | ⟨sb, hsb, hcurrent⟩
      · exact .inl fun p' hp' => (hread p' hp').trans (hblank p' hp')
      · exact .inr ⟨sb, hsb, hcurrent.congr hsame⟩
    · obtain ⟨hcopy, hrest⟩ := h.kept sb hsb
      refine ⟨(hread _ (shadowPage_lt _)).trans hcopy, ?_⟩
      rcases hrest with hcurrent | ⟨sb', hsb', hcurrent⟩
      · exact .inl (hcurrent.congr hsame)
      · exact .inr ⟨sb', hsb', hcurrent.congr hsame⟩
  | reload hload =>
    have hcurrent : ∃ sb, Current st.file sb := by
      cases hcompleted : st.completed with
      | none =>
        rcases h.none_yet hcompleted with hblank | ⟨sb, -, hcurrent⟩
        · rw [loadSuperblock, hblank _ (by decide), hblank _ (by decide)] at hload
          cases hload
        · exact ⟨sb, hcurrent⟩
      | some last =>
        rcases (h.kept last hcompleted).2 with hcurrent | ⟨sb, -, hcurrent⟩
        · exact ⟨last, hcurrent⟩
        · exact ⟨sb, hcurrent⟩
    obtain ⟨sb, hcurrent⟩ := hcurrent
    rw [hcurrent.load] at hload
    cases hload
    refine ⟨fun hnone => (by cases hnone), fun sb' hsb' => ?_, fun sb' hsb' => ?_⟩
    · cases hsb'
      exact ⟨hcurrent.copy, .inl hcurrent⟩
    · cases hsb'
      rfl
  | halt => exact ⟨h.none_yet, h.kept, fun _ h => (by cases h)⟩

lemma SuperblockReach.inv {st : SuperblockSys s} (h : SuperblockReach SuperblockSys.InStep st) :
    SuperblockInv st := by
  induction h with
  | fresh hblank bitmapPage bitmapPages =>
    refine ⟨fun _ => .inl hblank, fun _ h => (by cases h), fun sb hsb => ?_⟩
    cases hsb
    rfl
  | step _ hstep ih => exact ih.step hstep
  | commit _ hin hstep ih => exact ih.commit hin hstep

/-- **Superblock alternation is safe** while no object commits after a commit of it threw. Once a
commit has completed, a load succeeds and returns it or the one that was cut short, its copy stays
in place, and the page of the next commit is the other one exactly if the last one did not throw. -/
theorem superblock_alternation {st : SuperblockSys s} (h : SuperblockReach SuperblockSys.InStep st)
    {last : SuperblockDisk} (hlast : st.completed = some last) :
    (∃ sb, loadSuperblock st.file = some sb ∧ (sb = last ∨ st.inProgress = some sb)) ∧
      readCopy st.file (shadowPage last.commitSeq) = some last ∧
      ∀ sb, st.mem = some sb →
        (shadowPage sb.next.commitSeq ≠ shadowPage last.commitSeq ↔ st.inProgress = none) := by
  obtain ⟨hcopy, hrest⟩ := h.inv.kept last hlast
  refine ⟨?_, hcopy, fun sb hmem => ?_⟩
  · rcases hrest with hcurrent | ⟨sb, hsb, hcurrent⟩
    · exact ⟨last, hcurrent.load, .inl rfl⟩
    · exact ⟨sb, hcurrent.load, .inr hsb⟩
  · have hseq := h.inv.seq sb hmem
    rw [hlast] at hseq
    cases hin : st.inProgress with
    | none =>
      have hnext : shadowPage sb.next.commitSeq = shadowPage (last.commitSeq + 1) := by
        rw [SuperblockDisk.next, hseq, hin, shadowPage_mod]
        rfl
      simp only [hnext, ne_eq, shadowPage_succ_ne, not_false_eq_true]
    | some sb' =>
      have hnext : shadowPage sb.next.commitSeq = shadowPage last.commitSeq := by
        rw [SuperblockDisk.next, hseq, hin, shadowPage_mod]
        exact shadowPage_add_two _
      simp only [hnext, ne_eq, not_true_eq_false, reduceCtorEq]

def threePageFile : TreeFile { columns := [] } := ⟨fun _ => .zero, 3, []⟩

def afterFirstCommit : SuperblockSys { columns := [] } :=
  ⟨threePageFile.writePage (shadowPage (initFresh 2 1).next.commitSeq) (.super (initFresh 2 1).next), some (initFresh 2 1).next,
    some (initFresh 2 1).next, none⟩

lemma afterFirstCommit_reach {C : SuperblockSys { columns := [] } → Prop}
    (hC : C ⟨threePageFile, some (initFresh 2 1), none, none⟩) : SuperblockReach C afterFirstCommit :=
  (SuperblockReach.fresh (fun _ _ => rfl) 2 1).commit hC (.done rfl)

/-- A first commit, then a second one that a crash tears: a load returns the first. -/
theorem superblock_alternation_torn :
    ∃ file : TreeFile { columns := [] }, readCopy file 0 = none ∧
      ∃ sb, loadSuperblock file = some sb ∧ sb = (initFresh 2 1).next := by
  have hin : ∀ (file : TreeFile { columns := [] }) completed, (⟨file, some (initFresh 2 1), completed, none⟩ :
      SuperblockSys { columns := [] }).InStep := by
    intro file completed sb hsb
    cases hsb
    exact ⟨rfl, by decide⟩
  have htorn := (afterFirstCommit_reach (hin _ _)).commit (fun sb hsb => by cases hsb; exact ⟨rfl, by decide⟩)
    (.crash rfl .zero (.inr (.inr fun _ h => by cases h)))
  obtain ⟨⟨sb, hload, hsb⟩, -⟩ := superblock_alternation htorn rfl
  refine ⟨_, rfl, sb, hload, ?_⟩
  rcases hsb with rfl | hsb
  · rfl
  · cases hsb
    cases hload

/-- The first commit completes, the second throws before it has written, and the third, of the same
object, is torn by a crash over the copy of the first: no load succeeds any more. -/
theorem superblock_alternation_overwritten :
    ¬ ∀ st : SuperblockSys { columns := [] }, SuperblockReach (fun _ => True) st →
      ∀ last, st.completed = some last →
        ∃ sb, loadSuperblock st.file = some sb ∧ (sb = last ∨ st.inProgress = some sb) := by
  intro hsafe
  have hthrew := (afterFirstCommit_reach (C := fun _ => True) trivial).commit trivial (.threw rfl _ (.inl rfl))
  have htorn := hthrew.commit trivial (.crash rfl .zero (.inr (.inr fun _ h => by cases h)))
  obtain ⟨sb, hload, -⟩ := hsafe _ htorn _ rfl
  cases hload

end SextantTree
