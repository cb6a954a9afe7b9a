import Mathlib.Logic.Function.Basic
import Mathlib.Tactic.Common

/-!
The lifetime of the entries of the leaf cache, one step for each atomic operation. Pins, evictions
and invalidations run under the lock of the shard; `unpin` does not, and looks at the entry after
its decrement. Which entry a section hits, replaces or evicts is left open.

Threads have no names here: an entry counts the unpins that stand before each of their operations,
for any number of threads.
-/

namespace SextantTree.CacheLifetime

/-- An entry, with the pins of the callers and the unpins under way. -/
structure Cell where
  /-- It has been filled. -/
  born : Bool := false
  refs : ℕ := 0
  retired : Bool := false
  /-- The flag that decides who deletes. -/
  claimed : Bool := false
  /-- In the map and in a list of the shard. -/
  linked : Bool := false
  deleted : Bool := false
  handles : ℕ := 0
  /-- Unpins before `refs.fetch_sub`. -/
  atSub : ℕ := 0
  /-- Before `retired.load`. -/
  atRetired : ℕ := 0
  /-- `maybe_delete` before `refs.load`. -/
  atRefs : ℕ := 0
  /-- Before the exchange of the flag. -/
  atClaim : ℕ := 0
  /-- Before the lock. -/
  atLock : ℕ := 0
  /-- Before the release of the buffer and the entry. -/
  atFree : ℕ := 0

/-- `drop_entry` and `maybe_delete_locked`, before their operations. -/
inductive DropPc
  | retire
  | loadRefs
  | claim
  | free
deriving DecidableEq

/-- Who has the lock of the shard. -/
inductive Lock
  | free
  /-- A section of `pin` or `invalidate_all`. -/
  | held
  /-- Such a section inside `drop_entry`. -/
  | dropping (e : ℕ) (pc : DropPc)
  /-- The end of `maybe_delete`. -/
  | deleting (e : ℕ)
deriving DecidableEq

structure Shard where
  cells : ℕ → Cell := fun _ => {}
  lock : Lock := .free
  /-- An entry was used or deleted again after its deletion, or deleted while referenced. -/
  bad : Bool := false

inductive Event
  | enter
  | leave
  /-- A new entry is pinned and linked. -/
  | insert (e : ℕ)
  /-- A new entry that is not cached is dropped. -/
  | refuse (e : ℕ)
  /-- `hit_locked`. -/
  | hit (e : ℕ)
  /-- The reference count of a linked entry is read. -/
  | peek (e : ℕ)
  /-- An entry is unlinked to be dropped. -/
  | unlink (e : ℕ)
  | drop
  | unpin (e : ℕ)
  | fetchSub (e : ℕ)
  | loadRetired (e : ℕ)
  | loadRefs (e : ℕ)
  | claim (e : ℕ)
  | lock (e : ℕ)
  | free (e : ℕ)

namespace Shard

variable (st : Shard)

/-- The entry is used and changed to `c`. -/
def touch (e : ℕ) (c : Cell) : Shard :=
  { st with cells := Function.update st.cells e c, bad := st.bad || (st.cells e).deleted }

def delete (e : ℕ) (c : Cell) : Shard :=
  let st := st.touch e { c with deleted := true }
  { st with bad := st.bad || decide (c.refs ≠ 0) }

/-- One operation of `drop_entry`. -/
def dropStep (e : ℕ) (pc : DropPc) : Shard :=
  let c := st.cells e
  match pc with
  | .retire => { st.touch e { c with retired := true } with lock := .dropping e .loadRefs }
  | .loadRefs => { st.touch e c with lock := if c.refs = 0 then .dropping e .claim else .held }
  | .claim =>
    if c.claimed then { st.touch e c with lock := .held }
    else { st.touch e { c with claimed := true } with lock := .dropping e .free }
  | .free => { st.delete e c with lock := .held }

def step : Event → Option Shard
  | .enter => if st.lock = .free then some { st with lock := .held } else none
  | .leave => if st.lock = .held then some { st with lock := .free } else none
  | .insert e =>
    let c := st.cells e
    if st.lock = .held ∧ c.born = false then
      some (st.touch e { c with born := true, linked := true, refs := 1, handles := 1 })
    else none
  | .refuse e =>
    let c := st.cells e
    if st.lock = .held ∧ c.born = false then
      some { st.touch e { c with born := true } with lock := .dropping e .retire }
    else none
  | .hit e =>
    let c := st.cells e
    if st.lock = .held ∧ c.linked = true then
      some (st.touch e { c with refs := c.refs + 1, handles := c.handles + 1 })
    else none
  | .peek e => if st.lock = .held ∧ (st.cells e).linked = true then some (st.touch e (st.cells e)) else none
  | .unlink e =>
    let c := st.cells e
    if st.lock = .held ∧ c.linked = true then
      some { st.touch e { c with linked := false } with lock := .dropping e .retire }
    else none
  | .drop =>
    match st.lock with
    | .dropping e pc => some (st.dropStep e pc)
    | _ => none
  | .unpin e =>
    let c := st.cells e
    if 0 < c.handles then
      some { st with cells := Function.update st.cells e { c with handles := c.handles - 1, atSub := c.atSub + 1 } }
    else none
  | .fetchSub e =>
    let c := st.cells e
    if 0 < c.atSub then
      -- the last reference goes on to look at the entry
      if c.refs = 1 then
        some (st.touch e { c with refs := 0, atSub := c.atSub - 1, atRetired := c.atRetired + 1 })
      else some (st.touch e { c with refs := c.refs - 1, atSub := c.atSub - 1 })
    else none
  | .loadRetired e =>
    let c := st.cells e
    if 0 < c.atRetired then
      if c.retired then some (st.touch e { c with atRetired := c.atRetired - 1, atRefs := c.atRefs + 1 })
      else some (st.touch e { c with atRetired := c.atRetired - 1 })
    else none
  | .loadRefs e =>
    let c := st.cells e
    if 0 < c.atRefs then
      if c.refs = 0 then some (st.touch e { c with atRefs := c.atRefs - 1, atClaim := c.atClaim + 1 })
      else some (st.touch e { c with atRefs := c.atRefs - 1 })
    else none
  | .claim e =>
    let c := st.cells e
    if 0 < c.atClaim then
      if c.claimed then some (st.touch e { c with atClaim := c.atClaim - 1 })
      else some (st.touch e { c with claimed := true, atClaim := c.atClaim - 1, atLock := c.atLock + 1 })
    else none
  | .lock e =>
    let c := st.cells e
    if 0 < c.atLock ∧ st.lock = .free then
      some { st.touch e { c with atLock := c.atLock - 1, atFree := c.atFree + 1 } with lock := .deleting e }
    else none
  | .free e =>
    let c := st.cells e
    if 0 < c.atFree ∧ st.lock = .deleting e then
      some { st.delete e { c with atFree := c.atFree - 1 } with lock := .free }
    else none

def run : List Event → Shard → Option Shard
  | [], st => some st
  | ev :: evs, st => (st.step ev).bind (run evs)

end Shard

/-- No operation of `drop_entry` on an entry while an unpin of it stands between its last decrement
and its claim. -/
def Calm (st : Shard) : Event → Prop
  | .drop => ∀ e pc, st.lock = .dropping e pc →
      (st.cells e).atRetired = 0 ∧ (st.cells e).atRefs = 0 ∧ (st.cells e).atClaim = 0
  | _ => True

/-- States that runs of calm steps lead to. -/
inductive Reachable : Shard → Prop
  | start : Reachable {}
  | next {st st' : Shard} (h : Reachable st) (ev : Event) (hev : Calm st ev) (hstep : st.step ev = some st') :
      Reachable st'

/-! ### What a step does to an entry -/

/-- One step, seen from the entry it is about, with the lock before and after. -/
inductive CellStep (e : ℕ) : Lock → Cell → Lock → Cell → Prop
  | insert {c : Cell} (hborn : c.born = false) :
      CellStep e .held c .held { c with born := true, linked := true, refs := 1, handles := 1 }
  | refuse {c : Cell} (hborn : c.born = false) :
      CellStep e .held c (.dropping e .retire) { c with born := true }
  | hit {c : Cell} (hlinked : c.linked = true) :
      CellStep e .held c .held { c with refs := c.refs + 1, handles := c.handles + 1 }
  | peek {c : Cell} (hlinked : c.linked = true) : CellStep e .held c .held c
  | unlink {c : Cell} (hlinked : c.linked = true) :
      CellStep e .held c (.dropping e .retire) { c with linked := false }
  | dropRetire {c : Cell} (hcalm : c.atRetired = 0 ∧ c.atRefs = 0 ∧ c.atClaim = 0) :
      CellStep e (.dropping e .retire) c (.dropping e .loadRefs) { c with retired := true }
  | dropLast {c : Cell} (hcalm : c.atRetired = 0 ∧ c.atRefs = 0 ∧ c.atClaim = 0) (hrefs : c.refs = 0) :
      CellStep e (.dropping e .loadRefs) c (.dropping e .claim) c
  | dropPinned {c : Cell} (hrefs : c.refs ≠ 0) : CellStep e (.dropping e .loadRefs) c .held c
  | dropLost {c : Cell} (hclaimed : c.claimed = true) : CellStep e (.dropping e .claim) c .held c
  | dropWon {c : Cell} (hclaimed : c.claimed = false) :
      CellStep e (.dropping e .claim) c (.dropping e .free) { c with claimed := true }
  | dropFree {c : Cell} : CellStep e (.dropping e .free) c .held { c with deleted := true }
  | unpin {L : Lock} {c : Cell} (hpos : 0 < c.handles) :
      CellStep e L c L { c with handles := c.handles - 1, atSub := c.atSub + 1 }
  | subLast {L : Lock} {c : Cell} (hpos : 0 < c.atSub) (hrefs : c.refs = 1) :
      CellStep e L c L { c with refs := 0, atSub := c.atSub - 1, atRetired := c.atRetired + 1 }
  | subMore {L : Lock} {c : Cell} (hpos : 0 < c.atSub) :
      CellStep e L c L { c with refs := c.refs - 1, atSub := c.atSub - 1 }
  | retired {L : Lock} {c : Cell} (hpos : 0 < c.atRetired) (hretired : c.retired = true) :
      CellStep e L c L { c with atRetired := c.atRetired - 1, atRefs := c.atRefs + 1 }
  | resident {L : Lock} {c : Cell} (hpos : 0 < c.atRetired) (hretired : c.retired = false) :
      CellStep e L c L { c with atRetired := c.atRetired - 1 }
  | unreferenced {L : Lock} {c : Cell} (hpos : 0 < c.atRefs) (hrefs : c.refs = 0) :
      CellStep e L c L { c with atRefs := c.atRefs - 1, atClaim := c.atClaim + 1 }
  | referenced {L : Lock} {c : Cell} (hpos : 0 < c.atRefs) (hrefs : c.refs ≠ 0) :
      CellStep e L c L { c with atRefs := c.atRefs - 1 }
  | lost {L : Lock} {c : Cell} (hpos : 0 < c.atClaim) (hclaimed : c.claimed = true) :
      CellStep e L c L { c with atClaim := c.atClaim - 1 }
  | won {L : Lock} {c : Cell} (hpos : 0 < c.atClaim) (hclaimed : c.claimed = false) :
      CellStep e L c L { c with claimed := true, atClaim := c.atClaim - 1, atLock := c.atLock + 1 }
  | lock {c : Cell} (hpos : 0 < c.atLock) :
      CellStep e .free c (.deleting e) { c with atLock := c.atLock - 1, atFree := c.atFree + 1 }
  | free {c : Cell} (hpos : 0 < c.atFree) :
      CellStep e (.deleting e) c .free { c with atFree := c.atFree - 1, deleted := true }

/-! ### The books of an entry -/

/-- The unpins that look at an entry after its last decrement. -/
def Cell.tail (c : Cell) : ℕ := c.atRetired + c.atRefs + c.atClaim + c.atLock + c.atFree

/-- What holds of entry `e` for a lock. -/
structure CellInv (lock : Lock) (e : ℕ) (c : Cell) : Prop where
  count : c.refs = c.handles + c.atSub
  unborn : c.born = false → c.refs = 0 ∧ c.tail = 0 ∧ c.linked = false ∧ c.retired = false
  /-- Nobody has come to its deletion before it is retired. -/
  live : c.retired = false → c.atRefs = 0 ∧ c.atClaim = 0 ∧ c.atLock = 0 ∧ c.atFree = 0 ∧
    c.claimed = false ∧ c.deleted = false
  linked : c.linked = true → c.retired = false
  /-- After that at most one unpin is left to come to it. -/
  last : c.retired = true → c.tail = 0 ∨ c.tail = 1 ∧ c.refs = 0
  owner : (if c.claimed then 1 else 0) = c.atLock + c.atFree +
    (if lock = .dropping e .free then 1 else 0) + (if c.deleted then 1 else 0)
  gone : c.deleted = true → c.refs = 0 ∧ c.tail = 0
  freeing : c.atFree = if lock = .deleting e then 1 else 0
  dropping : ∀ pc, lock = .dropping e pc → c.born = true ∧ c.linked = false ∧ c.deleted = false ∧
    (pc = .retire ↔ c.retired = false) ∧
    (pc = .claim → c.refs = 0 ∧ c.atRetired = 0 ∧ c.atRefs = 0 ∧ c.atClaim = 0) ∧
    (pc = .free → c.refs = 0 ∧ c.tail = 0)

section Cells

variable {L : Lock} {e : ℕ} {c : Cell}

/-- The lock is held for entry `e`. -/
def Lock.Concerns (L : Lock) (e : ℕ) : Prop := (∃ pc, L = .dropping e pc) ∨ L = .deleting e

lemma CellInv.relock {L' : Lock} (h : CellInv L e c) (hL : ¬ L.Concerns e) (hL' : ¬ L'.Concerns e) :
    CellInv L' e c := by
  have hd : ∀ pc, L ≠ .dropping e pc := fun pc heq => hL (.inl ⟨pc, heq⟩)
  have hd' : ∀ pc, L' ≠ .dropping e pc := fun pc heq => hL' (.inl ⟨pc, heq⟩)
  refine ⟨h.count, h.unborn, h.live, h.linked, h.last, ?_, h.gone, ?_, fun pc heq => absurd heq (hd' pc)⟩
  · have howner := h.owner
    rw [if_neg (hd .free)] at howner
    rw [if_neg (hd' .free)]
    exact howner
  · have hfreeing := h.freeing
    rw [if_neg fun heq => hL (.inr heq)] at hfreeing
    rw [if_neg fun heq => hL' (.inr heq)]
    exact hfreeing

lemma cellInv_new (e : ℕ) : CellInv .free e {} := by
  constructor <;> simp [Cell.tail]

/-! The fields of the books, one by one. -/

section Fields

variable {L' : Lock} {c' : Cell}

lemma CellStep.count (hstep : CellStep e L c L' c') (h : CellInv L e c) :
    c'.refs = c'.handles + c'.atSub := by
  obtain ⟨count, unborn, live, linked, last, owner, gone, freeing, dropping⟩ := h
  rw [Cell.tail] at unborn last gone
  cases hstep <;> grind [Cell.tail]

lemma CellStep.unborn (hstep : CellStep e L c L' c') (h : CellInv L e c) :
    c'.born = false →
      c'.refs = 0 ∧ c'.tail = 0 ∧ c'.linked = false ∧ c'.retired = false := by
  obtain ⟨count, unborn, live, linked, last, owner, gone, freeing, dropping⟩ := h
  rw [Cell.tail] at unborn last gone
  cases hstep <;> grind [Cell.tail]

lemma CellStep.live (hstep : CellStep e L c L' c') (h : CellInv L e c) :
    c'.retired = false → c'.atRefs = 0 ∧ c'.atClaim = 0 ∧ c'.atLock = 0 ∧ c'.atFree = 0 ∧
      c'.claimed = false ∧ c'.deleted = false := by
  obtain ⟨count, unborn, live, linked, last, owner, gone, freeing, dropping⟩ := h
  rw [Cell.tail] at unborn last gone
  cases hstep <;> grind [Cell.tail]

lemma CellStep.linked (hstep : CellStep e L c L' c') (h : CellInv L e c) :
    c'.linked = true → c'.retired = false := by
  obtain ⟨count, unborn, live, linked, last, owner, gone, freeing, dropping⟩ := h
  rw [Cell.tail] at unborn last gone
  cases hstep <;> grind [Cell.tail]

lemma CellStep.last (hstep : CellStep e L c L' c') (h : CellInv L e c) :
    c'.retired = true → c'.tail = 0 ∨ c'.tail = 1 ∧ c'.refs = 0 := by
  obtain ⟨count, unborn, live, linked, last, owner, gone, freeing, dropping⟩ := h
  rw [Cell.tail] at unborn last gone
  cases hstep <;> grind [Cell.tail]

lemma CellStep.owner (hstep : CellStep e L c L' c') (h : CellInv L e c) :
    (if c'.claimed then 1 else 0) = c'.atLock + c'.atFree +
      (if L' = .dropping e .free then 1 else 0) + (if c'.deleted then 1 else 0) := by
  obtain ⟨count, unborn, live, linked, last, owner, gone, freeing, dropping⟩ := h
  rw [Cell.tail] at unborn last gone
  cases hstep <;> grind [Cell.tail]

lemma CellStep.gone (hstep : CellStep e L c L' c') (h : CellInv L e c) :
    c'.deleted = true → c'.refs = 0 ∧ c'.tail = 0 := by
  obtain ⟨count, unborn, live, linked, last, owner, gone, freeing, dropping⟩ := h
  rw [Cell.tail] at unborn last gone
  cases hstep <;> grind [Cell.tail]

lemma CellStep.freeing (hstep : CellStep e L c L' c') (h : CellInv L e c) :
    c'.atFree = if L' = .deleting e then 1 else 0 := by
  obtain ⟨count, unborn, live, linked, last, owner, gone, freeing, dropping⟩ := h
  rw [Cell.tail] at unborn last gone
  cases hstep <;> grind [Cell.tail]

lemma CellStep.dropping (hstep : CellStep e L c L' c') (h : CellInv L e c) :
    ∀ pc, L' = .dropping e pc → c'.born = true ∧ c'.linked = false ∧ c'.deleted = false ∧
      (pc = .retire ↔ c'.retired = false) ∧
      (pc = .claim → c'.refs = 0 ∧ c'.atRetired = 0 ∧ c'.atRefs = 0 ∧ c'.atClaim = 0) ∧
      (pc = .free → c'.refs = 0 ∧ c'.tail = 0) := by
  obtain ⟨count, unborn, live, linked, last, owner, gone, freeing, dropping⟩ := h
  rw [Cell.tail] at unborn last gone
  cases hstep <;> grind [Cell.tail]

end Fields

/-- The books of an entry over one step. The calm is needed where the entry is retired, since two
unpins behind their decrements would both come to claim it, and where the section finds no reference,
since it may free the entry under an unpin that still looks at it. -/
lemma CellInv.step {L' : Lock} {c' : Cell} (h : CellInv L e c) (hstep : CellStep e L c L' c') :
    CellInv L' e c' :=
  ⟨hstep.count h, hstep.unborn h, hstep.live h, hstep.linked h, hstep.last h, hstep.owner h,
    hstep.gone h, hstep.freeing h, hstep.dropping h⟩

lemma CellStep.safe {L' : Lock} {c' : Cell} (hstep : CellStep e L c L' c') (h : CellInv L e c) :
    c.deleted = false ∧ (c'.deleted = true → c'.refs = 0) := by
  obtain ⟨count, unborn, live, linked, last, owner, gone, freeing, dropping⟩ := h
  rw [Cell.tail] at unborn last gone
  cases hstep <;> grind

end Cells

/-! ### Runs -/

section Runs

variable {st st' : Shard}

/-- The lock is held for `e` alone, before and after, or does not change. -/
def Lock.Only (L L' : Lock) (e : ℕ) : Prop :=
  L' = L ∨ ∀ e', e' ≠ e → ¬ L.Concerns e' ∧ ¬ L'.Concerns e'

lemma not_concerns_free (e : ℕ) : ¬ Lock.free.Concerns e := by
  rintro (⟨pc, h⟩ | h) <;> cases h

lemma not_concerns_held (e : ℕ) : ¬ Lock.held.Concerns e := by
  rintro (⟨pc, h⟩ | h) <;> cases h

lemma not_concerns_dropping {e e' : ℕ} (he : e' ≠ e) (pc : DropPc) : ¬ (Lock.dropping e pc).Concerns e' := by
  rintro (⟨pc', h⟩ | h) <;> cases h
  exact he rfl

lemma not_concerns_deleting {e e' : ℕ} (he : e' ≠ e) : ¬ (Lock.deleting e).Concerns e' := by
  rintro (⟨pc', h⟩ | h) <;> cases h
  exact he rfl

lemma bad_of_touch {e : ℕ} {Q : Prop} (h : (st.bad || (st.cells e).deleted) = true) :
    st.bad = true ∨ (st.cells e).deleted = true ∨ Q :=
  (Bool.or_eq_true_iff.mp h).imp_right .inl

lemma dropStep_cases {e : ℕ} {pc : DropPc} (hlock : st.lock = .dropping e pc)
    (hcalm : (st.cells e).atRetired = 0 ∧ (st.cells e).atRefs = 0 ∧ (st.cells e).atClaim = 0) :
    ∃ c', CellStep e st.lock (st.cells e) (st.dropStep e pc).lock c' ∧
      (st.dropStep e pc).cells = Function.update st.cells e c' ∧
      st.lock.Only (st.dropStep e pc).lock e ∧
      ((st.dropStep e pc).bad = true → st.bad = true ∨ (st.cells e).deleted = true ∨
        c'.deleted = true ∧ c'.refs ≠ 0) := by
  rw [hlock]
  cases pc with
  | retire =>
    exact ⟨_, .dropRetire hcalm, rfl, .inr fun e' he => ⟨not_concerns_dropping he _, not_concerns_dropping he _⟩,
      bad_of_touch⟩
  | loadRefs =>
    by_cases hrefs : (st.cells e).refs = 0
    · simp only [Shard.dropStep, hrefs, if_true]
      exact ⟨_, .dropLast hcalm hrefs, rfl,
        .inr fun e' he => ⟨not_concerns_dropping he _, not_concerns_dropping he _⟩,
        bad_of_touch⟩
    · simp only [Shard.dropStep, hrefs, if_false]
      exact ⟨_, .dropPinned hrefs, rfl, .inr fun e' he => ⟨not_concerns_dropping he _, not_concerns_held e'⟩,
        bad_of_touch⟩
  | claim =>
    cases hclaimed : (st.cells e).claimed with
    | true =>
      simp only [Shard.dropStep, hclaimed, if_true]
      exact ⟨_, .dropLost hclaimed, rfl, .inr fun e' he => ⟨not_concerns_dropping he _, not_concerns_held e'⟩,
        bad_of_touch⟩
    | false =>
      simp only [Shard.dropStep, hclaimed, Bool.false_eq_true, if_false]
      exact ⟨_, .dropWon hclaimed, rfl,
        .inr fun e' he => ⟨not_concerns_dropping he _, not_concerns_dropping he _⟩,
        bad_of_touch⟩
  | free =>
    refine ⟨_, .dropFree, rfl, .inr fun e' he => ⟨not_concerns_dropping he _, not_concerns_held e'⟩, fun h => ?_⟩
    rcases Bool.or_eq_true_iff.mp h with h | h
    · exact bad_of_touch h
    · exact .inr (.inr ⟨rfl, of_decide_eq_true h⟩)

lemma step_cases {ev : Event} (hstep : st.step ev = some st') (hev : Calm st ev) :
    (st'.cells = st.cells ∧ st'.bad = st.bad ∧ ∀ e, ¬ st.lock.Concerns e ∧ ¬ st'.lock.Concerns e) ∨
      ∃ e c', CellStep e st.lock (st.cells e) st'.lock c' ∧ st'.cells = Function.update st.cells e c' ∧
        st.lock.Only st'.lock e ∧
        (st'.bad = true → st.bad = true ∨ (st.cells e).deleted = true ∨ c'.deleted = true ∧ c'.refs ≠ 0) := by
  cases ev with
  | enter =>
    rw [Shard.step] at hstep
    split at hstep
    case isFalse => cases hstep
    case isTrue hfree =>
      cases hstep
      exact .inl ⟨rfl, rfl, fun e => ⟨hfree ▸ not_concerns_free e, not_concerns_held e⟩⟩
  | leave =>
    rw [Shard.step] at hstep
    split at hstep
    case isFalse => cases hstep
    case isTrue hheld =>
      cases hstep
      exact .inl ⟨rfl, rfl, fun e => ⟨hheld ▸ not_concerns_held e, not_concerns_free e⟩⟩
  | insert e =>
    rw [Shard.step] at hstep
    split at hstep
    case isFalse => cases hstep
    case isTrue h =>
      cases hstep
      refine .inr ⟨e, _, ?_, rfl, .inl rfl, bad_of_touch⟩
      rw [Shard.touch, h.1]
      exact .insert h.2
  | refuse e =>
    rw [Shard.step] at hstep
    split at hstep
    case isFalse => cases hstep
    case isTrue h =>
      cases hstep
      refine .inr ⟨e, _, h.1 ▸ .refuse h.2, rfl, .inr fun e' he => ?_, bad_of_touch⟩
      exact ⟨h.1 ▸ not_concerns_held e', not_concerns_dropping he _⟩
  | hit e =>
    rw [Shard.step] at hstep
    split at hstep
    case isFalse => cases hstep
    case isTrue h =>
      cases hstep
      refine .inr ⟨e, _, ?_, rfl, .inl rfl, bad_of_touch⟩
      rw [Shard.touch, h.1]
      exact .hit h.2
  | peek e =>
    rw [Shard.step] at hstep
    split at hstep
    case isFalse => cases hstep
    case isTrue h =>
      cases hstep
      refine .inr ⟨e, _, ?_, rfl, .inl rfl, bad_of_touch⟩
      rw [Shard.touch, h.1]
      exact .peek h.2
  | unlink e =>
    rw [Shard.step] at hstep
    split at hstep
    case isFalse => cases hstep
    case isTrue h =>
      cases hstep
      refine .inr ⟨e, _, h.1 ▸ .unlink h.2, rfl, .inr fun e' he => ?_, bad_of_touch⟩
      exact ⟨h.1 ▸ not_concerns_held e', not_concerns_dropping he _⟩
  | drop =>
    rw [Shard.step] at hstep
    split at hstep
    case h_2 => cases hstep
    case h_1 e pc hlock =>
      cases hstep
      exact .inr ⟨e, dropStep_cases hlock (hev e pc hlock)⟩
  | unpin e =>
    rw [Shard.step] at hstep
    split at hstep
    case isFalse => cases hstep
    case isTrue hpos =>
      cases hstep
      exact .inr ⟨e, _, .unpin hpos, rfl, .inl rfl, .inl⟩
  | fetchSub e =>
    rw [Shard.step] at hstep
    split at hstep
    case isFalse => cases hstep
    case isTrue hpos =>
      split at hstep
      case isTrue hrefs =>
        cases hstep
        exact .inr ⟨e, _, .subLast hpos hrefs, rfl, .inl rfl, bad_of_touch⟩
      case isFalse =>
        cases hstep
        exact .inr ⟨e, _, .subMore hpos, rfl, .inl rfl, bad_of_touch⟩
  | loadRetired e =>
    rw [Shard.step] at hstep
    split at hstep
    case isFalse => cases hstep
    case isTrue hpos =>
      split at hstep
      case isTrue hret =>
        cases hstep
        exact .inr ⟨e, _, .retired hpos hret, rfl, .inl rfl, bad_of_touch⟩
      case isFalse hret =>
        cases hstep
        exact .inr ⟨e, _, .resident hpos ((Bool.not_eq_true _).mp hret), rfl, .inl rfl,
          bad_of_touch⟩
  | loadRefs e =>
    rw [Shard.step] at hstep
    split at hstep
    case isFalse => cases hstep
    case isTrue hpos =>
      split at hstep
      case isTrue hrefs =>
        cases hstep
        exact .inr ⟨e, _, .unreferenced hpos hrefs, rfl, .inl rfl, bad_of_touch⟩
      case isFalse hrefs =>
        cases hstep
        exact .inr ⟨e, _, .referenced hpos hrefs, rfl, .inl rfl, bad_of_touch⟩
  | claim e =>
    rw [Shard.step] at hstep
    split at hstep
    case isFalse => cases hstep
    case isTrue hpos =>
      split at hstep
      case isTrue hclaimed =>
        cases hstep
        exact .inr ⟨e, _, .lost hpos hclaimed, rfl, .inl rfl, bad_of_touch⟩
      case isFalse hclaimed =>
        cases hstep
        exact .inr ⟨e, _, .won hpos ((Bool.not_eq_true _).mp hclaimed), rfl, .inl rfl,
          bad_of_touch⟩
  | lock e =>
    rw [Shard.step] at hstep
    split at hstep
    case isFalse => cases hstep
    case isTrue h =>
      cases hstep
      refine .inr ⟨e, _, h.2 ▸ .lock h.1, rfl, .inr fun e' he => ?_, bad_of_touch⟩
      exact ⟨h.2 ▸ not_concerns_free e', not_concerns_deleting he⟩
  | free e =>
    rw [Shard.step] at hstep
    split at hstep
    case isFalse => cases hstep
    case isTrue hfree =>
      cases hstep
      refine .inr ⟨e, _, hfree.2 ▸ .free hfree.1, rfl, .inr fun e' he => ?_, fun h => ?_⟩
      · exact ⟨hfree.2 ▸ not_concerns_deleting he, not_concerns_free e'⟩
      · rcases Bool.or_eq_true_iff.mp h with h | h
        · exact bad_of_touch h
        · exact .inr (.inr ⟨rfl, of_decide_eq_true h⟩)

def Inv (st : Shard) : Prop := st.bad = false ∧ ∀ e, CellInv st.lock e (st.cells e)

lemma Inv.step (h : Inv st) {ev : Event} (hev : Calm st ev) (hstep : st.step ev = some st') : Inv st' := by
  rcases step_cases hstep hev with ⟨hcells, hbad, hlock⟩ | ⟨e, c', hcell, hcells, hlock, hbad⟩
  · refine ⟨hbad.trans h.1, fun e => ?_⟩
    rw [hcells]
    exact (h.2 e).relock (hlock e).1 (hlock e).2
  · have hsafe := hcell.safe (h.2 e)
    refine ⟨?_, fun e' => ?_⟩
    · by_contra hnot
      rcases hbad ((Bool.not_eq_false _).mp hnot) with hb | hdel | ⟨hdel, hrefs⟩
      · exact absurd (hb.symm.trans h.1) (by decide)
      · exact absurd (hdel.symm.trans hsafe.1) (by decide)
      · exact hrefs (hsafe.2 hdel)
    · rw [hcells]
      by_cases he : e' = e
      · subst he
        rw [Function.update_self]
        exact (h.2 e').step hcell
      · rw [Function.update_of_ne he]
        rcases hlock with heq | honly
        · rw [heq]
          exact h.2 e'
        · exact (h.2 e').relock (honly e' he).1 (honly e' he).2

/-- **Entries are freed once and never in use**, in every run in which no operation of `drop_entry`
falls between the last decrement of an unpin of that entry and its claim. -/
theorem never_bad_of_reachable (h : Reachable st) :
    st.bad = false ∧ ∀ e, (st.cells e).deleted = true → (st.cells e).refs = 0 ∧ (st.cells e).handles = 0 ∧
      (st.cells e).atSub = 0 ∧ (st.cells e).tail = 0 := by
  have hinv : Inv st := by
    induction h with
    | start => exact ⟨rfl, cellInv_new⟩
    | next _ ev hev hstep ih => exact ih.step hev hstep
  refine ⟨hinv.1, fun e hdel => ?_⟩
  have hgone := (hinv.2 e).gone hdel
  have hcount := (hinv.2 e).count
  omega

end Runs

/-- A pin and its release, and an eviction afterwards. -/
theorem never_bad_of_evicted :
    ∃ st : Shard, st.bad = false ∧ (st.cells 0).deleted = true := by
  have hpinned : Reachable _ :=
    ((((Reachable.start.next .enter trivial rfl).next (.insert 0) trivial rfl).next .leave trivial rfl).next
      (.unpin 0) trivial rfl).next (.fetchSub 0) trivial rfl
  have hunpinned : Reachable _ :=
    ((hpinned.next (.loadRetired 0) trivial rfl).next .enter trivial rfl).next (.unlink 0) trivial rfl
  have hcalm : ∀ {st : Shard} {e : ℕ} {pc : DropPc}, st.lock = .dropping e pc → (st.cells e).atRetired = 0 →
      (st.cells e).atRefs = 0 → (st.cells e).atClaim = 0 → Calm st .drop := by
    intro st e pc hlock h₁ h₂ h₃ e' pc' hlock'
    cases hlock.symm.trans hlock'
    exact ⟨h₁, h₂, h₃⟩
  have hdropped : Reachable _ :=
    (((hunpinned.next .drop (hcalm rfl rfl rfl rfl) rfl).next .drop (hcalm rfl rfl rfl rfl) rfl).next .drop
      (hcalm rfl rfl rfl rfl) rfl).next .drop (hcalm rfl rfl rfl rfl) rfl
  exact ⟨_, (never_bad_of_reachable hdropped).1, rfl⟩

/-- An eviction between the decrement of an unpin and its look at the entry. -/
theorem evicted_under_unpin :
    ((Shard.run [.enter, .insert 0, .leave, .unpin 0, .fetchSub 0, .enter, .unlink 0, .drop, .drop, .drop, .drop,
      .loadRetired 0] {}).map fun st => (st.bad, (st.cells 0).deleted)) = some (true, true) := by
  decide

end SextantTree.CacheLifetime
