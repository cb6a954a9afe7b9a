import Mathlib.Data.Finset.Card
import Mathlib.Data.UInt
import SextantTree.Stepwise

/-!
A shard of the block cache. Its entries are in three lists, most recently used first; a new entry
starts in the window, and where the window is too long its last entry goes on to probation and has to
win against the last one there. `BlockCache::climb` moves the limits of the window and of the
protected list without the lock of the shard, between any two of the shard's reads of them.

An operation under the lock goes from one read of a limit to the next. The buffers, the dirty bit, the
counters and what calls return are left out; how often the sketch has seen a block is up to the run.
-/

namespace SextantTree.BlockCache

inductive Status
  | inWindow
  | inProbation
  | inProtected
deriving DecidableEq

structure CacheShard where
  capacity : UInt32
  maxWindow : UInt32
  maxProtected : UInt32
  /-- The blocks that have an entry in `map_`. -/
  map : Finset UInt64
  /-- The status of their entries. -/
  status : UInt64 → Status
  /-- `window_`, `probation_` and `protected_`. -/
  lists : Status → List UInt64
  sizeWindow : UInt32
  sizeProtected : UInt32
  /-- `hc_rng_state_`. -/
  rng : UInt32

namespace CacheShard

def windowOf (capacity : UInt32) : UInt32 := max 1 (capacity * 1 / 100)

/-- The limit of the protected list for a capacity and a limit of the window. -/
def protectedOf (capacity maxWindow : UInt32) : UInt32 := (capacity - maxWindow) * 80 / 100

def new (capacity : UInt32) : CacheShard where
  capacity := capacity
  maxWindow := windowOf capacity
  maxProtected := protectedOf capacity (windowOf capacity)
  map := ∅
  status _ := .inWindow
  lists _ := []
  sizeWindow := 0
  sizeProtected := 0
  rng := 0x12345678

variable (s : CacheShard)

/-- `LRUList::lru`. -/
def lru (l : Status) : Option UInt64 := (s.lists l).getLast?

/-- `LRUList::unlink`. -/
def unlink (l : Status) (e : UInt64) : CacheShard :=
  { s with lists := Function.update s.lists l ((s.lists l).erase e) }

/-- `LRUList::push_mru`, after the status is set. -/
def pushMru (l : Status) (e : UInt64) : CacheShard :=
  { s with status := Function.update s.status e l, lists := Function.update s.lists l (e :: s.lists l) }

/-- An entry is taken out of a list and put at the front of one. -/
def relink (e : UInt64) (src dst : Status) : CacheShard := (s.unlink src e).pushMru dst e

/-- `free_entry`. -/
def freeEntry (e : UInt64) : CacheShard :=
  let s :=
    match s.status e with
    | .inWindow => { s with sizeWindow := s.sizeWindow - 1 }
    | .inProtected => { s with sizeProtected := s.sizeProtected - 1 }
    | .inProbation => s
  { s with map := s.map.erase e }

/-- `hc_rng`. -/
def hcRng : UInt32 × CacheShard :=
  let x := s.rng
  let x := x ^^^ (x <<< 13)
  let x := x ^^^ (x >>> 17)
  let x := x ^^^ (x <<< 5)
  (x, { s with rng := x })

def admits (freq : UInt64 → UInt32) (candidate victim : UInt64) : Bool × CacheShard :=
  let candidateFreq := freq candidate
  let victimFreq := freq victim
  if victimFreq < candidateFreq then (true, s)
  else if 6 ≤ candidateFreq then
    let (x, s) := s.hcRng
    (x &&& 127 = 0, s)
  else (false, s)

/-- `admit_one_from_window`. -/
def admitOneFromWindow (freq : UInt64 → UInt32) : CacheShard :=
  if s.sizeWindow ≤ s.maxWindow then s
  else
    match s.lru .inWindow with
    | none => s
    | some candidate =>
      let s := { s.relink candidate .inWindow .inProbation with sizeWindow := s.sizeWindow - 1 }
      if s.capacity < UInt32.ofNat s.map.card then
        match s.lru .inProbation with
        | none => s
        | some victim =>
          if victim = candidate then s
          else
            let (admitted, s) := s.admits freq candidate victim
            if admitted then (s.unlink .inProbation victim).freeEntry victim
            else (s.unlink .inProbation candidate).freeEntry candidate
      else s

/-- One round of the loop that demotes: the last protected entry goes back to probation. -/
def demoteLast : Option CacheShard :=
  (s.lru .inProtected).map fun e =>
    { s.relink e .inProtected .inProbation with sizeProtected := s.sizeProtected - 1 }

/-- `on_probation_hit`. -/
def onProbationHit (e : UInt64) : CacheShard :=
  let s := { s.relink e .inProbation .inProtected with sizeProtected := s.sizeProtected + 1 }
  if s.maxProtected < s.sizeProtected then s.demoteLast.getD s else s

/-- The victim of a resize: the last entry of the window, of probation, or of the protected list. -/
def resizeVictim : Option UInt64 :=
  (s.lru .inWindow).or ((s.lru .inProbation).or (s.lru .inProtected))

end CacheShard

/-! ### Steps -/

/-- What comes after `maybe_adapt`. -/
inductive After
  | insert (block : UInt64)
  | resized
deriving DecidableEq

/-- Where an operation of the shard is. -/
inductive Pc
  | idle
  /-- `resize` has stored the capacity and the limit of the window. -/
  | resizeLimits
  /-- The loop of `resize`. -/
  | evict
  /-- `maybe_adapt` is about to load `max_protected_`. -/
  | adaptProtected (k : After)
  /-- It is about to load `max_window_`. -/
  | adaptWindow (k : After) (curMaxProtected : UInt32)
  /-- Its first loop. -/
  | demote (k : After) (curMaxProtected curMaxWindow : UInt32)
  /-- Its second loop. -/
  | spill (k : After) (curMaxWindow : UInt32)
  /-- `insert` after `maybe_adapt`. -/
  | insertBody (block : UInt64)
  /-- `insert` has put the new entry in the window. -/
  | insertAdmit
deriving DecidableEq

/-- Where `BlockCache::climb` is. -/
inductive Climb
  | idle
  | storeWindow (maxWindow maxProtected : UInt32)
  | storeProtected (maxProtected : UInt32)
deriving DecidableEq

structure State where
  shard : CacheShard
  pc : Pc
  climb : Climb
  /-- `hc_per_shard_capacity_`. -/
  hcCapacity : UInt32

def start (capacity : UInt32) : State := ⟨.new capacity, .idle, .idle, capacity⟩

inductive Event
  | lookup (block : UInt64)
  | insert (block : UInt64)
  | resize (newCapacity : UInt32)
  /-- The operation that has the lock goes on. -/
  | run (freq : UInt64 → UInt32)
  /-- `climb` starts with some step of the optimizer, or goes on. -/
  | climb (amount : ℤ)
  /-- The end of `BlockCache::resize`. -/
  | resetClimber

/-- The limits that `climb` computes. -/
def climbLimits (hcCapacity curWindow : UInt32) (amount : ℤ) : UInt32 × UInt32 :=
  let newWindow : ℤ := max 1 (min ((curWindow.toNat : ℤ) + amount) (hcCapacity.toNat - 2))
  let maxWindow := UInt32.ofNat newWindow.toNat
  (maxWindow, CacheShard.protectedOf hcCapacity maxWindow)

namespace State

variable (σ : State)

/-- `insert` after `maybe_adapt`, as far as the next load of a limit and, on a hit, with it. -/
def insertBody (block : UInt64) : State :=
  let s := σ.shard
  if block ∈ s.map then
    match s.status block with
    | .inWindow => { σ with shard := s.relink block .inWindow .inWindow, pc := .idle }
    | .inProbation => { σ with shard := s.onProbationHit block, pc := .idle }
    | .inProtected => { σ with shard := s.relink block .inProtected .inProtected, pc := .idle }
  else if s.capacity = 0 then { σ with pc := .idle }
  else
    let s := { s.pushMru .inWindow block with map := insert block s.map, sizeWindow := s.sizeWindow + 1 }
    { σ with shard := s, pc := .insertAdmit }

/-- The operation goes on as far as the next load of a limit, or by one round of a loop. -/
def run (freq : UInt64 → UInt32) : Option State :=
  let s := σ.shard
  match σ.pc with
  | .idle => none
  | .resizeLimits => some { σ with
      shard := { s with maxProtected := CacheShard.protectedOf s.capacity s.maxWindow }, pc := .evict }
  | .evict =>
    if s.capacity.toNat < s.map.card then
      match s.resizeVictim with
      | none => some { σ with pc := .adaptProtected .resized }
      | some victim => some { σ with shard := (s.unlink (s.status victim) victim).freeEntry victim }
    else some { σ with pc := .adaptProtected .resized }
  | .adaptProtected k => some { σ with pc := .adaptWindow k s.maxProtected }
  | .adaptWindow k curMaxProtected => some { σ with pc := .demote k curMaxProtected s.maxWindow }
  | .demote k curMaxProtected curMaxWindow =>
    if curMaxProtected < s.sizeProtected then
      match s.demoteLast with
      | none => some { σ with pc := .spill k curMaxWindow }
      | some s => some { σ with shard := s }
    else some { σ with pc := .spill k curMaxWindow }
  | .spill k curMaxWindow =>
    if curMaxWindow < s.sizeWindow then some { σ with shard := s.admitOneFromWindow freq }
    else
      match k with
      | .insert block => some { σ with pc := .insertBody block }
      | .resized => some { σ with pc := .idle }
  | .insertBody block => some (σ.insertBody block)
  | .insertAdmit => some { σ with shard := s.admitOneFromWindow freq, pc := .idle }

def step : Event → Option State
  | .lookup _ => if σ.pc = .idle then some σ else none
  | .insert block => if σ.pc = .idle then some { σ with pc := .adaptProtected (.insert block) } else none
  | .resize newCapacity =>
    if σ.pc = .idle then
      some { σ with
        shard := { σ.shard with
          capacity := newCapacity, maxWindow := CacheShard.windowOf newCapacity }
        pc := .resizeLimits }
    else none
  | .run freq => σ.run freq
  | .climb amount =>
    match σ.climb with
    | .idle =>
      if σ.hcCapacity < 3 then none
      else
        let limits := climbLimits σ.hcCapacity σ.shard.maxWindow amount
        some { σ with climb := .storeWindow limits.1 limits.2 }
    | .storeWindow maxWindow maxProtected =>
      some { σ with
        shard := { σ.shard with maxWindow := maxWindow }, climb := .storeProtected maxProtected }
    | .storeProtected maxProtected =>
      some { σ with shard := { σ.shard with maxProtected := maxProtected }, climb := .idle }
  | .resetClimber => some { σ with hcCapacity := σ.shard.capacity }

end State

end SextantTree.BlockCache
