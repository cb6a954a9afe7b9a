import Mathlib.Algebra.GroupWithZero.Nat
import Mathlib.Data.List.AList
import Mathlib.Data.List.Perm.Basic
import Mathlib.Tactic.Common

/-!
The leaf cache: one shard of W-TinyLFU over extents of different sizes, and its pool of buffers.

What changes in an entry is kept beside it, one map for each field. An entry gets its number when it
enters the window, since a fill that is turned away is freed before anybody sees it. The counters
are `uint64_t`: a sum of theirs counts allocated bytes and does not wrap, a difference may.
-/

namespace SextantTree.LeafCache

abbrev PageId := ℕ

def kPageSize : ℕ := 4096

inductive Status
  | window
  | probation
  | protected_
deriving DecidableEq, Repr

structure Entry where
  page : PageId := 0
  /-- The start page and the aliases. -/
  keys : List PageId := []
  /-- Kept in 32 bits. -/
  size : ℕ := 0
  bufCap : ℕ := 0
  /-- The bytes that `new` was asked for when the buffer was made. -/
  alloc : ℕ := 0
deriving DecidableEq

structure Limits where
  capacity : ℕ
  maxWindow : ℕ
  maxMain : ℕ
  maxProtected : ℕ
  split : maxWindow + maxMain = capacity

/-- The budgets that the constructor gives to a shard. -/
def Limits.ofCapacity (cap windowPct : ℕ) : Limits :=
  let pct := if windowPct = 0 then 1 else if 90 < windowPct then 90 else windowPct
  let maxWindow := cap * pct / 100
  { capacity := cap
    maxWindow := maxWindow
    maxMain := cap - maxWindow
    maxProtected := (cap - maxWindow) * 80 / 100
    split := by
      have hpct : pct ≤ 100 := by grind
      have hle : cap * pct ≤ 100 * cap := by
        rw [Nat.mul_comm]
        exact Nat.mul_le_mul_right cap hpct
      have : maxWindow ≤ cap := Nat.div_le_of_le_mul hle
      omega }

structure Config (σ : Type) where
  limits : Limits
  increment : σ → PageId → σ
  frequency : σ → PageId → ℕ

/-- A difference of two `uint64_t`. -/
def sub64 (a b : ℕ) : ℕ := if b ≤ a then a - b else a + 2 ^ 64 - b

@[simp] lemma sub64_of_le {a b : ℕ} (h : b ≤ a) : sub64 a b = a - b := if_pos h

structure Shard (σ : Type) where
  entries : ℕ → Entry := fun _ => {}
  /-- The number of the next entry. -/
  next : ℕ := 0
  refs : ℕ → ℕ := fun _ => 0
  retired : ℕ → Bool := fun _ => false
  deleted : ℕ → Bool := fun _ => false
  status : ℕ → Status := fun _ => .window
  map : AList fun _ : PageId => ℕ := ∅
  /-- From the most to the least recently used. -/
  lists : Status → List ℕ := fun _ => []
  bytes : Status → ℕ := fun _ => 0
  /-- What each buffer was made with, and its recorded capacity. -/
  pool : List (ℕ × ℕ) := []
  poolBytes : ℕ := 0
  sketch : σ

variable {σ : Type} (cfg : Config σ)

namespace Shard

/-! Lists and counters. -/

/-- `List::unlink` and the counter of the list. -/
def detach (s : Shard σ) (q : Status) (e : ℕ) : Shard σ :=
  { s with
    lists := Function.update s.lists q ((s.lists q).erase e)
    bytes := Function.update s.bytes q (sub64 (s.bytes q) (s.entries e).size) }

/-- The new status, `push_mru` and the counter of the list. -/
def attach (s : Shard σ) (q : Status) (e : ℕ) : Shard σ :=
  { s with
    status := Function.update s.status e q
    lists := Function.update s.lists q (e :: s.lists q)
    bytes := Function.update s.bytes q (s.bytes q + (s.entries e).size) }

def moveToMru (s : Shard σ) (q : Status) (e : ℕ) : Shard σ :=
  { s with lists := Function.update s.lists q (e :: (s.lists q).erase e) }

/-- The least recently used entry of the list that nobody has pinned. -/
def lastUnpinned (s : Shard σ) (q : Status) : Option ℕ :=
  (s.lists q).reverse.find? fun e => s.refs e = 0

def main (s : Shard σ) : ℕ := s.bytes .probation + s.bytes .protected_

def live (s : Shard σ) : ℕ := s.bytes .window + s.bytes .probation + s.bytes .protected_

/-! The pool. -/

/-- `buf_pool[i] = buf_pool.back()` and `pop_back`. -/
def swapOut (pool : List (ℕ × ℕ)) (i : ℕ) : List (ℕ × ℕ) :=
  (pool.set i (pool.getLastD (0, 0))).dropLast

/-- The first pooled buffer that is large enough, or a new one. Also how large it was made. -/
def acquireBuf (s : Shard σ) (size : ℕ) : Shard σ × ℕ :=
  match s.pool.findIdx? fun b => size ≤ b.2 with
  | some i =>
    let b := s.pool.getD i (0, 0)
    ({ s with
        pool := swapOut s.pool i
        poolBytes := sub64 s.poolBytes b.2 }, b.1)
  | none => (s, size)

def releaseBuf (s : Shard σ) (alloc cap : ℕ) : Shard σ :=
  if s.poolBytes + cap + s.live ≤ cfg.limits.capacity then
    { s with
      pool := s.pool ++ [(alloc, cap)]
      poolBytes := s.poolBytes + cap }
  else s

/-- `maybe_delete` and `maybe_delete_locked`. -/
def maybeDelete (s : Shard σ) (e : ℕ) : Shard σ :=
  if s.refs e ≠ 0 then s
  else if s.deleted e then s
  else releaseBuf cfg { s with deleted := Function.update s.deleted e true }
    (s.entries e).alloc (s.entries e).bufCap

def dropEntry (s : Shard σ) (e : ℕ) : Shard σ :=
  maybeDelete cfg { s with retired := Function.update s.retired e true } e

/-- Only the keys that still lead to `e`. -/
def eraseKeys (s : Shard σ) (e : ℕ) : Shard σ :=
  { s with
    map := (s.entries e).keys.foldl
      (fun m k => if m.lookup k = some e then m.erase k else m) s.map }

/-- Out of its list, out of the map, and freed when nobody has pinned it. -/
def evict (s : Shard σ) (q : Status) (e : ℕ) : Shard σ :=
  ((s.detach q e).eraseKeys e).dropEntry cfg e

/-! A hit. -/

/-- The tail of the protected list goes back to probation until the list is in its budget. -/
def demote : ℕ → Shard σ → Shard σ
  | 0, s => s
  | fuel + 1, s =>
    if cfg.limits.maxProtected < s.bytes .protected_ then
      match (s.lists .protected_).getLast? with
      | some d => demote fuel ((s.detach .protected_ d).attach .probation d)
      | none => s
    else s

/-- Probation gives up entries until the two main lists are in their budget. -/
def relieve : ℕ → Shard σ → Shard σ
  | 0, s => s
  | fuel + 1, s =>
    if cfg.limits.maxMain < s.main ∧ 0 < s.bytes .probation then
      match s.lastUnpinned .probation with
      | some v => relieve fuel (s.evict cfg .probation v)
      | none => s
    else s

def hitLocked (s : Shard σ) (e : ℕ) (page : PageId) : Shard σ :=
  let s : Shard σ :=
    { s with
      refs := Function.update s.refs e (s.refs e + 1)
      sketch := cfg.increment s.sketch page }
  match s.status e with
  | .window => s.moveToMru .window e
  | .probation =>
    let s := (s.detach .probation e).attach .protected_ e
    let s := s.demote cfg (s.lists .protected_).length
    s.relieve cfg (s.lists .probation).length
  | .protected_ => s.moveToMru .protected_ e

/-! The sections of `pin`. -/

/-- `need <= e->buf_cap`, in 64 bits. -/
def covers (s : Shard σ) (e : ℕ) (page : PageId) (pages : ℕ) : Bool :=
  decide (((page + 2 ^ 64 - (s.entries e).page) % 2 ^ 64 * kPageSize + pages * kPageSize) % 2 ^ 64
    ≤ (s.entries e).bufCap)

/-- A hit, or the short incumbent is retired unless it is pinned. -/
def fastPath (s : Shard σ) (page : PageId) (pages : ℕ) : Shard σ × Option ℕ :=
  match s.map.lookup page with
  | some e =>
    if s.covers e page pages then (s.hitLocked cfg e page, some e)
    else if s.refs e = 0 then (s.evict cfg (s.status e) e, none)
    else (s, none)
  | none => (s, none)

/-- The second look, with the fill stripe held. -/
def doubleCheck (s : Shard σ) (page : PageId) (pages : ℕ) : Shard σ × Option ℕ :=
  match s.map.lookup page with
  | some e => if s.covers e page pages then (s.hitLocked cfg e page, some e) else (s, none)
  | none => (s, none)

/-- Whether the fill is worth its read: there is room, or the page beats the next victim. -/
def gate (s : Shard σ) (page : PageId) (pages : ℕ) : Bool :=
  decide (s.main + pages * kPageSize ≤ cfg.limits.maxMain) ||
    match s.lastUnpinned .probation with
    | some v => decide (cfg.frequency s.sketch (s.entries v).page < cfg.frequency s.sketch page)
    | none => false

/-- Where the admission takes its candidate: the tail of the window, less what is pinned and less
the entry that has just come in. -/
def candidate (s : Shard σ) (e : ℕ) : Option ℕ :=
  match (s.lists .window).reverse.find? fun c => c = e ∨ s.refs c = 0 with
  | some c => if c = e then none else some c
  | none => none

/-- One turn of the admission loop; `none` when the loop ends. -/
def admitRound (s : Shard σ) (e : ℕ) : Option (Shard σ) :=
  if cfg.limits.maxWindow < s.bytes .window then
    match s.candidate e with
    | some c =>
      let t := s.detach .window c
      if t.main + (t.entries c).size ≤ cfg.limits.maxMain then some (t.attach .probation c)
      else
        match t.lastUnpinned .probation with
        | some v =>
          if cfg.frequency t.sketch (t.entries v).page < cfg.frequency t.sketch (t.entries c).page
          then some ((t.evict cfg .probation v).attach .probation c)
          else some ((t.eraseKeys c).dropEntry cfg c)
        | none => some ((t.eraseKeys c).dropEntry cfg c)
    | none => none
  else none

def admitWindow : ℕ → Shard σ → ℕ → Shard σ
  | 0, s, _ => s
  | fuel + 1, s, e =>
    match s.admitRound cfg e with
    | some s' => admitWindow fuel s' e
    | none => s

/-- `emplace` and `try_emplace`: the key keeps what it has. -/
def emplace (m : AList fun _ : PageId => ℕ) (k : PageId) (e : ℕ) : AList fun _ : PageId => ℕ :=
  if (m.lookup k).isSome then m else m.insert k e

def fillSize (pages : ℕ) : ℕ := pages * kPageSize

/-- The filled entry, pinned by the caller, enters the window. -/
def enter (s : Shard σ) (page : PageId) (pages : ℕ) (aliases : List PageId) (alloc : ℕ) :
    Shard σ :=
  let e := s.next
  let s : Shard σ :=
    { s with
      entries := Function.update s.entries e
        { page := page, keys := page :: aliases, size := fillSize pages % 2 ^ 32,
          bufCap := fillSize pages, alloc := alloc }
      next := s.next + 1
      refs := Function.update s.refs e 1
      retired := Function.update s.retired e false
      deleted := Function.update s.deleted e false }
  let s := s.attach .window e
  { s with
    map := aliases.foldl (fun m a => if a = page then m else emplace m a e) (emplace s.map page e) }

/-- The filled buffer meets the shard again: an incumbent that covers the request wins, an extent
larger than the shard is turned away. -/
def settle (s : Shard σ) (page : PageId) (pages : ℕ) (aliases : List PageId) (alloc : ℕ) :
    Shard σ × Option ℕ :=
  let insert : Shard σ × Option ℕ :=
    if cfg.limits.maxWindow + cfg.limits.maxMain < fillSize pages % 2 ^ 32 then
      (s.releaseBuf cfg alloc (fillSize pages), none)
    else
      let t := s.enter page pages aliases alloc
      (t.admitWindow cfg (t.lists .window).length s.next, some s.next)
  match s.map.lookup page with
  | some w =>
    if s.covers w page pages then
      ((s.hitLocked cfg w page).releaseBuf cfg alloc (fillSize pages), some w)
    else insert
  | none => insert

/-- The gate and the fill. A read that fails gives its buffer back and throws: no handle. -/
def miss (s : Shard σ) (readOk : Bool) (page : PageId) (pages : ℕ) (aliases : List PageId) :
    Shard σ × Option ℕ :=
  let s : Shard σ := { s with sketch := cfg.increment s.sketch page }
  if s.gate cfg page pages then
    let (s, alloc) := s.acquireBuf (fillSize pages)
    if readOk then s.settle cfg page pages aliases alloc
    else (s.releaseBuf cfg alloc (fillSize pages), none)
  else (s, none)

/-- `pin`, with the handle it gives. `gated` says whether the fill stripe was free. -/
def pin (s : Shard σ) (gated readOk : Bool) (page : PageId) (pages : ℕ) (aliases : List PageId) :
    Shard σ × Option ℕ :=
  match s.fastPath cfg page pages with
  | (s, some e) => (s, some e)
  | (s, none) =>
    match if gated then s.doubleCheck cfg page pages else (s, none) with
    | (s, some e) => (s, some e)
    | (s, none) => s.miss cfg readOk page pages aliases

def unpin (s : Shard σ) (e : ℕ) : Shard σ :=
  let t : Shard σ := { s with refs := Function.update s.refs e (s.refs e - 1) }
  if s.refs e = 1 ∧ t.retired e then t.maybeDelete cfg e else t

/-- One entry of the walk of `invalidate_all`. -/
def invalidateEntry (s : Shard σ) (e : ℕ) : Shard σ :=
  if s.retired e then s
  else
    dropEntry cfg
      { s with lists := Function.update s.lists (s.status e) ((s.lists (s.status e)).erase e) } e

/-- `order` lists the mapped entries as the walk of the hash map first meets them. -/
def invalidateAll (s : Shard σ) (order : List ℕ) : Shard σ :=
  { order.foldl (invalidateEntry cfg) s with
    map := ∅
    bytes := fun _ => 0 }

end Shard

/-! Runs of a shard. -/

inductive Event
  | pin (gated readOk : Bool) (page : PageId) (pages : ℕ) (aliases : List PageId)
  /-- The holder of a pin of this entry gives it back. -/
  | unpin (e : ℕ)
  | invalidateAll (order : List ℕ)
deriving DecidableEq

/-- What a caller can do: only a pin that is out is given back, and the walk meets what is mapped.
-/
def Event.Enabled (s : Shard σ) : Event → Prop
  | .pin .. => True
  | .unpin e => e < s.next ∧ 0 < s.refs e
  | .invalidateAll order => order.Nodup ∧ ∀ e, e ∈ order ↔ ∃ p ∈ s.map.entries, p.2 = e

def Shard.step (s : Shard σ) : Event → Shard σ
  | .pin gated readOk page pages aliases => (s.pin cfg gated readOk page pages aliases).1
  | .unpin e => s.unpin cfg e
  | .invalidateAll order => s.invalidateAll cfg order

/-- Runs whose steps all satisfy `P`. -/
inductive Run (P : Shard σ → Event → Prop) : Shard σ → Shard σ → Prop
  | refl (s : Shard σ) : Run P s s
  | tail {s t : Shard σ} (v : Event) (h : Run P s t) (enabled : v.Enabled t) (ok : P t v) :
      Run P s (t.step cfg v)

end SextantTree.LeafCache
