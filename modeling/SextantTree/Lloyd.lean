import SextantTree.Index
import SextantTree.Build
import SextantTree.SplitAdd

/-!
One pass of `run_lloyd_refinement`: the chunks of the source are handed to a pool of threads that
add every row to the accumulators of its cluster, and the accumulators are reduced at the end.

`parallel_for_each_chunk` reads several files at a time, each in a thread of its own that calls
back with every chunk. A callback splits its chunk into at most `hw` pool tasks and waits for
them. The task of the `t`-th piece adds into slot `t` of `t_sums` and `t_counts`, whichever
callback pushed it. Every `+=` and `++` is a load and a later store.
-/

namespace SextantTree.Lloyd

open SplitAdd

/-- What a pass reads. The chunks are those that the reader of each file returns. -/
structure Pass where
  /-- The threads of the pool. -/
  hw : ℕ
  pcaDims : ℕ
  rotation : List Vec
  meanProj : Vec
  /-- `root_centroids_pca`. -/
  centroids : List Vec
  shards : List (List (List Vec))
  hw_pos : 0 < hw
  rotation_length : rotation.length = pcaDims
  meanProj_length : meanProj.length = pcaDims
  centroids_ne : centroids ≠ []
  /-- `ParquetSource::next` ends the file at an empty batch. -/
  chunk_ne : ∀ shard ∈ shards, ∀ chunk ∈ shard, chunk ≠ []

variable (P : Pass)

def Pass.kRoot : ℕ := P.centroids.length

/-- The test at the head of `parallel_for_each_chunk`, called with `min(4, hw)` workers. -/
def Pass.parallel : Bool := decide (2 ≤ P.shards.length ∧ 2 ≤ min 4 P.hw)

/-- The threads that read chunks: `W` of them, or the caller alone. -/
def Pass.readers : ℕ := if P.parallel then min (min 4 P.hw) P.shards.length else 1

/-- What the readers take in turn: whole files, or the one stream of the serial loop. -/
def Pass.sources : List (List (List Vec)) :=
  if P.parallel then P.shards else [P.shards.flatten]

def Pass.rows : List Vec := P.shards.flatten.flatten

/-! ### One row -/

/-- `proj`. -/
def Pass.project (v : Vec) : Vec := projectPca P.rotation P.meanProj v

def dot (x y : Vec) : ℚ := (List.zipWith (· * ·) x y).sum

/-- `best_c`: the first smallest `cent_norms[c] - 2·dot`. -/
def Pass.assign (v : Vec) : ℕ :=
  nearest (P.centroids.map fun c => some (dot c c - 2 * dot (P.project v) c))

/-- A word of `t_sums[t]` or of `t_counts[t]`. -/
inductive Cell where
  | sum (i : ℕ)
  | count (c : ℕ)
deriving DecidableEq

def Pass.updates (v : Vec) : List (Cell × ℚ) :=
  (List.range P.pcaDims).map
      (fun k => (.sum (P.assign v * P.pcaDims + k), (P.project v).getD k 0)) ++
    [(.count (P.assign v), 1)]

/-! ### The pieces of a chunk -/

/-- `n_shards`. -/
def Pass.nShards (take : ℕ) : ℕ := min P.hw take

/-- `per`. -/
def Pass.per (take : ℕ) : ℕ := (take + P.nShards take - 1) / P.nShards take

/-- The rows from `start` to `end`. -/
def Pass.piece (chunk : List Vec) (t : ℕ) : List Vec :=
  let start := t * P.per chunk.length
  (chunk.drop start).take (min (start + P.per chunk.length) chunk.length - start)

/-! ### The threads -/

/-- Where a reader stands: taking the next file, at the next chunk, in the loop that pushes the
pieces of a chunk, waiting for their tasks, or out of files. -/
inductive Phase where
  | fetch
  | reading (rest : List (List Vec))
  | pushing (rest : List (List Vec)) (chunk : List Vec) (t : ℕ)
  | waiting (rest : List (List Vec))
  | done
deriving DecidableEq

/-- A task of the pool, in its queue until it is started. -/
structure Task where
  reader : ℕ
  /-- `sh`. -/
  slot : ℕ
  started : Bool
  worker : Worker Cell ℚ

structure State where
  /-- `t_sums` and `t_counts`. -/
  acc : ℕ → Cell → ℚ
  nextShard : ℕ
  phase : ℕ → Phase
  /-- The number of tasks pushed so far; a task that has ended is `none`. -/
  pushed : ℕ
  tasks : ℕ → Option Task

def init : State where
  acc := fun _ _ => 0
  nextShard := 0
  phase := fun r => if r < P.readers then .fetch else .done
  pushed := 0
  tasks := fun _ => none

inductive Action where
  | fetch (r : ℕ)
  | next (r : ℕ)
  | push (r : ℕ)
  | wait (r : ℕ)
  | start (i : ℕ)
  | load (i : ℕ)
  | store (i : ℕ)
  | finish (i : ℕ)

def State.running (s : State) : List ℕ :=
  (List.range s.pushed).filter fun i => (s.tasks i).any (·.started)

def State.setPhase (s : State) (r : ℕ) (p : Phase) : State :=
  { s with phase := Function.update s.phase r p }

def State.setTask (s : State) (i : ℕ) (t : Option Task) : State :=
  { s with tasks := Function.update s.tasks i t }

/-- What a thread does next; `none` where it is not at that point. -/
def step (s : State) : Action → Option State
  | .fetch r =>
    match s.phase r with
    | .fetch =>
      some ({ s with nextShard := s.nextShard + 1 }.setPhase r
        (match P.sources[s.nextShard]? with
        | some shard => .reading shard
        | none => .done))
    | _ => none
  | .next r =>
    match s.phase r with
    | .reading [] => some (s.setPhase r .fetch)
    | .reading (chunk :: rest) =>
      some (s.setPhase r (if chunk.length = 0 then .reading rest else .pushing rest chunk 0))
    | _ => none
  | .push r =>
    match s.phase r with
    | .pushing rest chunk t =>
      let start := t * P.per chunk.length
      if t < P.nShards chunk.length ∧ start < min (start + P.per chunk.length) chunk.length then
        some ({ s with pushed := s.pushed + 1 }.setPhase r (.pushing rest chunk (t + 1)) |>.setTask
          s.pushed (some
            { reader := r
              slot := t
              started := false
              worker := { todo := (P.piece chunk t).flatMap P.updates } }))
      else some (s.setPhase r (.waiting rest))
    | _ => none
  | .wait r =>
    match s.phase r with
    | .waiting rest =>
      if ∀ i < s.pushed, ∀ task ∈ s.tasks i, task.reader ≠ r then
        some (s.setPhase r (.reading rest))
      else none
    | _ => none
  | .start i =>
    match s.tasks i with
    | some task =>
      -- The pool's queue is first in, first out.
      if task.started = false ∧ (∀ j < i, ∀ a ∈ s.tasks j, a.started = true) ∧
          s.running.length < P.hw then
        some (s.setTask i (some { task with started := true }))
      else none
    | none => none
  | .load i =>
    match s.tasks i with
    | some task =>
      if task.started = true then
        (task.worker.load (s.acc task.slot)).map fun w =>
          s.setTask i (some { task with worker := w })
      else none
    | none => none
  | .store i =>
    match s.tasks i with
    | some task =>
      if task.started = true then
        (task.worker.store (s.acc task.slot)).map fun x =>
          { s with acc := Function.update s.acc task.slot x.1 }.setTask i
            (some { task with worker := x.2 })
      else none
    | none => none
  | .finish i =>
    match s.tasks i with
    | some task =>
      if task.started = true ∧ task.worker.todo.isEmpty then some (s.setTask i none) else none
    | none => none

def run (s : State) (as : List Action) : Option State := as.foldlM (step P) s

/-- The states of a pass under any schedule. -/
def Reachable (s : State) : Prop := ∃ as, run P (init P) as = some s

/-- All futures of `parallel_for_each_chunk` are ready. -/
def Finished (s : State) : Prop := ∀ r < P.readers, s.phase r = .done

/-! ### The reduction -/

def clusterSum (s : State) (c k : ℕ) : ℚ :=
  ∑ t ∈ Finset.range P.hw, s.acc t (.sum (c * P.pcaDims + k))

def clusterCount (s : State) (c : ℕ) : ℚ := ∑ t ∈ Finset.range P.hw, s.acc t (.count c)

/-- No two tasks that pool threads are at add into one slot. -/
def Apart (s : State) : Prop :=
  ∀ i j a b, s.tasks i = some a → s.tasks j = some b → a.started = true → b.started = true →
    a.slot = b.slot → i = j

/-- Every row is counted once, and added to the sum of its cluster. -/
def Counted (s : State) : Prop :=
  ∑ c ∈ Finset.range P.kRoot, clusterCount P s c = P.rows.length ∧
    ∀ c < P.kRoot, ∀ k < P.pcaDims,
      clusterSum P s c k =
        ((P.rows.filter fun v => P.assign v = c).map fun v => (P.project v).getD k 0).sum

end SextantTree.Lloyd
