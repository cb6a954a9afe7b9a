import SextantTree.BatchSearch

/-!
The batch scheduler: callers submit queries and get futures, a sweeper closes windows of queued
queries, and each window is one batched search in a task of its own. Exact repeats are answered
from a small cache.

Every critical section of the source is one step here, so a run is an interleaving of them. What a
batched search returns is a parameter, with a value for what the threads of that search decide.
-/

namespace SextantTree

structure Submission where
  id : ℕ
  query : Vec
  k : ℕ
  predicates : List Predicate
  probeFraction : ℚ
  deadline : ℕ

def Submission.request (e : Submission) : BatchQuery := ⟨e.query, e.predicates, e.probeFraction⟩

/-- `predicates_equal`. -/
def predicatesEqual (a b : List Predicate) : Bool :=
  a.length == b.length && (a.zip b).all fun x =>
    x.1.column == x.2.column && x.1.op == x.2.op && x.1.geoLngColumn == x.2.geoLngColumn &&
      x.1.value == x.2.value && x.1.value2 == x.2.value2 && x.1.value3 == x.2.value3 &&
      x.1.value4 == x.2.value4 && x.1.radiusKm == x.2.radiusKm && x.1.values == x.2.values

structure CacheEntry where
  query : Vec
  k : ℕ
  predicates : List Predicate
  probeFraction : ℚ
  results : List Candidate

def CacheEntry.hits (c : CacheEntry) (e : Submission) : Bool :=
  c.k == e.k && predicatesEqual c.predicates e.predicates && c.probeFraction == e.probeFraction &&
    c.query == e.query

structure SchedulerConfig where
  windowMaxUs : ℕ := 100000
  idleCloseUs : ℕ := 200
  maxWindowQueries : ℕ := 4096
  resultCacheEntries : ℕ := 0
  maxInflightWindows : ℕ := 2

namespace SchedulerConfig

variable (c : SchedulerConfig)

def windowMaxNs : ℕ := if 0 < c.windowMaxUs then c.windowMaxUs * 1000 else 100000000

def maxWindow : ℕ := if 0 < c.maxWindowQueries then c.maxWindowQueries else 4096

def maxInflight : ℕ := max 1 c.maxInflightWindows

def delayNs (maxDelayUs : ℕ) : ℕ := if 0 < maxDelayUs then maxDelayUs * 1000 else c.windowMaxNs

end SchedulerConfig

structure SchedulerEnv (ρ : Type) where
  config : SchedulerConfig
  /-- `adaptive_w_gap` of the base config is positive. -/
  adaptive : Bool
  /-- `search_batch` with the base config. -/
  batch : ρ → (k : ℕ) → List BatchQuery → Except ErrorKind (List (List Candidate))
  batch_length : ∀ {r k qs out}, batch r k qs = .ok out → out.length = qs.length

/-- Where the task of a window is. -/
inductive Phase
  | sweeping
  /-- The promises are set. -/
  | delivered
  /-- The slot is given back. -/
  | finished
  /-- The search threw. -/
  | failed
deriving DecidableEq

structure Task where
  window : List Submission
  phase : Phase

inductive Sweeper
  | waiting
  /-- A window is closed and its slot taken. -/
  | launching (window : List Submission)
  /-- The finished tasks are looked over. -/
  | reaping
  | exited

structure Scheduler where
  now : ℕ := 0
  nextId : ℕ := 0
  /-- Submissions between the cache and the queue. -/
  arriving : List Submission := []
  queue : List Submission := []
  stopped : Bool := false
  sweeper : Sweeper := .waiting
  tasks : List Task := []
  inflight : ℕ := 0
  cache : List CacheEntry := []
  /-- The futures handed out. -/
  accepted : List ℕ := []
  /-- The promises set, with their values. -/
  answers : List (Submission × List Candidate) := []
  /-- An exception left the sweeper thread. -/
  terminated : Bool := false

/-- The steps, with the choices of the callers, of the clock and of the search threads. -/
inductive Event (ρ : Type)
  | tick (ns : ℕ)
  /-- `submit` up to the end of its cache section. -/
  | lookup (query : Vec) (k : ℕ) (predicates : List Predicate) (maxDelayUs : ℕ) (probeFraction : ℚ)
  /-- The queue section of `submit`. -/
  | enqueue (i : ℕ)
  | stop
  /-- The sweeper closes a window, `idle` after a wait that timed out. -/
  | close (idle : Bool)
  | launch
  | reap
  | exit
  /-- `dispatch_` of a task ends. -/
  | finish (i : ℕ) (r : ρ)
  /-- The task gives its slot back. -/
  | retire (i : ℕ)

namespace Scheduler

variable {ρ : Type} (env : SchedulerEnv ρ) (st : Scheduler)

/-- Behind every entry that is due no later. -/
def insertByDeadline (e : Submission) (queue : List Submission) : List Submission :=
  queue.takeWhile (·.deadline ≤ e.deadline) ++ e :: queue.dropWhile (·.deadline ≤ e.deadline)

def lookup (query : Vec) (k : ℕ) (predicates : List Predicate) (maxDelayUs : ℕ) (probeFraction : ℚ) :
    Scheduler :=
  let e : Submission := ⟨st.nextId, query, k, predicates, probeFraction, st.now + env.config.delayNs maxDelayUs⟩
  let st := { st with nextId := st.nextId + 1 }
  let miss := { st with arriving := st.arriving ++ [e] }
  if 0 < env.config.resultCacheEntries then
    match st.cache.find? (·.hits e) with
    | some c =>
      { st with
        cache := c :: st.cache.eraseP (·.hits e)
        accepted := e.id :: st.accepted
        answers := (e, c.results) :: st.answers }
    | none => miss
  else miss

def enqueue (i : ℕ) : Option Scheduler := do
  let e ← st.arriving[i]?
  let st := { st with arriving := st.arriving.eraseIdx i }
  if st.stopped then some st
  else some { st with queue := insertByDeadline e st.queue, accepted := e.id :: st.accepted }

def frontDue : Bool := (st.queue.head?).any (·.deadline ≤ st.now)

/-- What a close takes: the entries that are due, else everything. -/
def closing : List Submission :=
  if st.frontDue then st.queue.takeWhile (·.deadline ≤ st.now) else st.queue

def remaining : List Submission :=
  if st.frontDue then st.queue.dropWhile (·.deadline ≤ st.now) else []

/-- The sweeper may close: a slot is free or the scheduler stops, and the window is full, due or
idle. -/
def mayClose (idle : Bool) : Bool :=
  !st.queue.isEmpty && (st.stopped || decide (st.inflight < env.config.maxInflight)) &&
    (st.stopped || decide (env.config.maxWindow ≤ st.queue.length) || st.frontDue ||
      (idle && decide (0 < env.config.idleCloseUs)))

def close (idle : Bool) : Option Scheduler :=
  match st.sweeper with
  | .waiting =>
    if st.mayClose env idle then
      some { st with
        sweeper := .launching st.closing
        queue := st.remaining
        inflight := st.inflight + 1 }
    else none
  | _ => none

def launch : Option Scheduler :=
  match st.sweeper with
  | .launching w => some { st with sweeper := .reaping, tasks := st.tasks ++ [⟨w, .sweeping⟩] }
  | _ => none

/-- A task that threw rethrows in the sweeper. -/
def reap : Option Scheduler :=
  match st.sweeper with
  | .reaping =>
    if st.tasks.any (·.phase == .failed) then some { st with terminated := true }
    else some { st with sweeper := .waiting, tasks := st.tasks.filter (·.phase != .finished) }
  | _ => none

def exit : Option Scheduler :=
  match st.sweeper with
  | .waiting => if st.queue.isEmpty && st.stopped then some { st with sweeper := .exited } else none
  | _ => none

/-- The batch of a window runs with the largest `k`. -/
def windowK (w : List Submission) : ℕ := (w.map (·.k)).foldl max 0

/-- The cache entry of an answered submission. -/
def entryOf (e : Submission) (results : List Candidate) : CacheEntry :=
  ⟨e.query, e.k, e.predicates, e.probeFraction, results.take e.k⟩

def store (cache : List CacheEntry) (x : Submission × List Candidate) : List CacheEntry :=
  if 0 < env.config.resultCacheEntries then
    entryOf x.1 x.2 ::
      if env.config.resultCacheEntries ≤ cache.length then cache.dropLast else cache
  else cache

def answer (e : Submission) (results : List Candidate) : List Candidate :=
  if env.adaptive then results else results.take e.k

/-- The end of `dispatch_`: the results are cached and the promises set, or an exception leaves it
and the window with its promises is gone. -/
def finish (i : ℕ) (r : ρ) : Option Scheduler := do
  let t ← st.tasks[i]?
  if t.phase = .sweeping then
    match env.batch r (windowK t.window) (t.window.map (·.request)) with
    | .ok results =>
      let pairs := t.window.zip results
      some { st with
        tasks := st.tasks.set i ⟨t.window, .delivered⟩
        cache := pairs.foldl (store env) st.cache
        answers := (pairs.map fun x => (x.1, answer env x.1 x.2)) ++ st.answers }
    | .error _ => some { st with tasks := st.tasks.set i ⟨t.window, .failed⟩ }
  else none

def retire (i : ℕ) : Option Scheduler := do
  let t ← st.tasks[i]?
  if t.phase = .delivered then
    some { st with tasks := st.tasks.set i ⟨t.window, .finished⟩, inflight := st.inflight - 1 }
  else none

def step : Event ρ → Option Scheduler
  | .tick ns => some { st with now := st.now + ns }
  | .lookup q k ps delay frac => some (st.lookup env q k ps delay frac)
  | .enqueue i => st.enqueue i
  | .stop => some { st with stopped := true }
  | .close idle => st.close env idle
  | .launch => st.launch
  | .reap => st.reap
  | .exit => st.exit
  | .finish i r => st.finish env i r
  | .retire i => st.retire i

/-- A run; nothing happens after an exception has left the sweeper. -/
def run : List (Event ρ) → Scheduler → Option Scheduler
  | [], st => some st
  | ev :: evs, st => if st.terminated then none else (st.step env ev).bind (run evs)

end Scheduler

end SextantTree
