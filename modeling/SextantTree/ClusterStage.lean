import Mathlib.Data.List.FinRange
import Mathlib.Logic.Function.Basic
import SextantTree.FilterHash
import SextantTree.Slice

/-!
The staging of a streaming build: the rows of every cluster are kept as records, in an arena of the
cluster while the arenas fit the budget, and in a temporary file after that. Clusters on disk write
through a buffer of their own, and through a shared one when too many have theirs.

The buffers are the bytes in use. A write to the open file succeeds; the counts of bytes and spills
that are only logged are left out.
-/

namespace SextantTree.ClusterStage

open FilterHash Slice

def kWriteBuf : ℕ := 2 ^ 20

def kCWriteBuf : ℕ := 256 * 2 ^ 10

def kMaxDedicated : ℕ := 256

/-- The length from which on `for_each` takes no more records into a read. -/
def kRunMax : ℕ := 4 * 2 ^ 20

/-- What is thrown, as an `IoError`. -/
inductive Error
  | shortPwrite
  | shortPread (offset : ℕ)
deriving DecidableEq, Repr

def Error.what (path : String) : Error → String
  | shortPwrite => "ClusterStage: short pwrite to " ++ path
  | shortPread offset => "ClusterStage: short pread at offset " ++ toString offset

/-- The value of a `uint32_t`. -/
def u32 (n : ℕ) : ℕ := n % 2 ^ 32

/-- A record with the four bytes before it that hold its length. The length is a `uint32_t`. -/
structure Record where
  lead : Bytes
  body : Bytes
  length_lead : lead.length = 4
  length_body_lt : body.length < 2 ^ 32
deriving DecidableEq

namespace Record

def len (r : Record) : ℕ := r.body.length

/-- The bytes from `rec - 4` on. -/
def bytes (r : Record) : Bytes := r.lead ++ r.body

/-- The length with the leading field, as `append` has it. -/
def total (r : Record) : ℕ := u32 (r.len + 4)

end Record

/-! ### The stage file and its shared buffer -/

/-- `fd_`, `wbuf_`, `wbuf_used_` and `wbuf_off_`. -/
structure StageFile where
  /-- The contents, once the file is open. -/
  file : Option Bytes := none
  wbuf : Bytes := []
  wbufOff : ℕ := 0
deriving DecidableEq

namespace StageFile

def ensureOpen (d : StageFile) : StageFile := { d with file := some (d.file.getD []) }

/-- Writes until all of the bytes are written. -/
def pwrite (d : StageFile) (off : ℕ) (b : Bytes) : Except Error StageFile :=
  match d.file with
  | none => .error .shortPwrite
  | some f => .ok { d with file := some (overwrite 0 f off b) }

def pread (d : StageFile) (off n : ℕ) : Except Error Bytes :=
  match d.file with
  | none => .error (.shortPread off)
  | some f => if off + n ≤ f.length then .ok (piece f off n) else .error (.shortPread off)

def flushWbuf (d : StageFile) : Except Error StageFile :=
  if d.wbuf = [] then .ok d
  else do
    let d ← d.pwrite d.wbufOff d.wbuf
    return { d with wbuf := [], wbufOff := d.wbufOff + d.wbuf.length }

/-- Writes a whole buffer behind the shared one, and says where: the middle part of `spill` and of
`flush_cbuf`. -/
def writeBlock (d : StageFile) (b : Bytes) : Except Error (ℕ × StageFile) := do
  let d ← d.flushWbuf
  let base := d.wbufOff
  let d ← d.pwrite base b
  return (base, { d with wbufOff := d.wbufOff + b.length })

/-- The whole buffers of a record larger than the buffer. -/
def writeChunks : ℕ → StageFile → Bytes → Except Error (StageFile × Bytes)
  | 0, d, p => .ok (d, p)
  | fuel + 1, d, p =>
    if kWriteBuf ≤ p.length then do
      let d ← d.pwrite d.wbufOff (p.take kWriteBuf)
      writeChunks fuel { d with wbufOff := d.wbufOff + kWriteBuf } (p.drop kWriteBuf)
    else .ok (d, p)

/-- The loop of `append_disk` that takes a record through the shared buffer. Every round takes a
byte, so that the length of the record is fuel enough. -/
def store : ℕ → StageFile → Bytes → Except Error StageFile
  | 0, d, _ => .ok d
  | fuel + 1, d, p =>
    if p = [] then .ok d
    else do
      let take := min p.length (kWriteBuf - d.wbuf.length)
      let d := { d with wbuf := d.wbuf ++ p.take take }
      let p := p.drop take
      if d.wbuf.length = kWriteBuf then do
        let d ← d.flushWbuf
        let (d, p) ← writeChunks p.length d p
        store fuel d p
      else store fuel d p

end StageFile

/-! ### The stage -/

/-- The entries of one cluster in the vectors of the stage. -/
structure Cluster where
  arena : Bytes := []
  /-- The offsets in the arena, and the lengths with the leading field. -/
  ramRecs : List (ℕ × ℕ) := []
  spilled : Bool := false
  /-- The offsets in the file, behind the leading field, and the lengths without it. -/
  recs : List (ℕ × ℕ) := []
  cbuf : Bytes := []
  /-- `cbuf_[cluster].capacity()`: kept when the buffer is cleared. -/
  cbufCapacity : ℕ := 0
  /-- The offsets in the buffer, and the lengths without the leading field. -/
  cpend : List (ℕ × ℕ) := []
deriving DecidableEq

end ClusterStage

/-- The class itself, for `n` clusters. -/
structure ClusterStage (n : ℕ) where
  budget : ℕ
  ramBytes : ℕ := 0
  clusters : Fin n → ClusterStage.Cluster := fun _ => {}
  nDedicated : ℕ := 0
  disk : ClusterStage.StageFile := {}

namespace ClusterStage

open FilterHash Slice

variable {n : ℕ}

def set (s : ClusterStage n) (c : Fin n) (k : Cluster) : ClusterStage n :=
  { s with clusters := Function.update s.clusters c k }

/-- Moves the arena of a cluster to the file. -/
def spill (s : ClusterStage n) (c : Fin n) : Except Error (ClusterStage n) := do
  let k := s.clusters c
  let (start, disk) ← s.disk.ensureOpen.writeBlock k.arena
  let moved := k.ramRecs.map fun (off, len) => (start + off + 4, u32 (len + 2 ^ 32 - 4))
  let k' := { k with recs := k.recs ++ moved, arena := [], ramRecs := [], spilled := true }
  return { s.set c k' with disk := disk, ramBytes := s.ramBytes - k.arena.length }

def victim (s : ClusterStage n) : Option (Fin n) :=
  ((List.finRange n).foldl (fun (best : ℕ × Option (Fin n)) c =>
    if (s.clusters c).spilled ∨ (s.clusters c).arena = [] then best
    else if best.1 < (s.clusters c).arena.length then ((s.clusters c).arena.length, some c)
    else best) (0, none)).2

/-- Spills until no more than nine tenths of the budget are in use. A round takes a cluster off the
arenas for good, so that the number of clusters is fuel enough. -/
def spillLoop : ℕ → ClusterStage n → Except Error (ClusterStage n)
  | 0, s => .ok s
  | fuel + 1, s =>
    if s.ramBytes ≤ s.budget - s.budget / 10 then .ok s
    else
      match s.victim with
      | none => .ok s
      | some v => do
        let s ← s.spill v
        spillLoop fuel s

def maybeSpill (s : ClusterStage n) : Except Error (ClusterStage n) :=
  if s.ramBytes ≤ s.budget then .ok s else spillLoop n s

def flushCbuf (s : ClusterStage n) (c : Fin n) : Except Error (ClusterStage n) :=
  let k := s.clusters c
  if k.cbuf = [] then .ok s
  else do
    let (base, disk) ← s.disk.writeBlock k.cbuf
    let moved := k.cpend.map fun (off, len) => (base + off + 4, len)
    return { s.set c { k with recs := k.recs ++ moved, cpend := [], cbuf := [] } with disk := disk }

/-- Whether the cluster has a buffer of its own, or may have one now. -/
def dedicated (s : ClusterStage n) (k : Cluster) : Bool :=
  kCWriteBuf ≤ k.cbufCapacity || (k.cbuf = [] && k.cpend = [] && s.nDedicated < kMaxDedicated)

def reserve (s : ClusterStage n) (c : Fin n) : ClusterStage n :=
  let k := s.clusters c
  if k.cbufCapacity < kCWriteBuf then
    { s.set c { k with cbufCapacity := kCWriteBuf } with nDedicated := s.nDedicated + 1 }
  else s

/-- Flushes the cluster's buffer if a record does not fit any more. -/
def makeRoom (s : ClusterStage n) (c : Fin n) (total : ℕ) : Except Error (ClusterStage n) :=
  if kCWriteBuf < (s.clusters c).cbuf.length + total then s.flushCbuf c else .ok s

/-- The branch of `append_disk` for a buffer of the cluster's own. A record longer than the buffer
is taken into it all the same. -/
def appendOwn (s : ClusterStage n) (c : Fin n) (r : Record) : Except Error (ClusterStage n) := do
  let s ← (s.reserve c).makeRoom c r.total
  let k := s.clusters c
  let cbuf := k.cbuf ++ r.bytes.take r.total
  return s.set c
    { k with
      cbuf := cbuf
      cbufCapacity := max k.cbufCapacity cbuf.length
      cpend := k.cpend ++ [(u32 k.cbuf.length, r.len)] }

/-- The branch of `append_disk` for the shared buffer. -/
def appendShared (s : ClusterStage n) (c : Fin n) (r : Record) : Except Error (ClusterStage n) := do
  let k := s.clusters c
  let off := s.disk.wbufOff + s.disk.wbuf.length + 4
  let disk ← s.disk.store r.total (r.bytes.take r.total)
  return { s.set c { k with recs := k.recs ++ [(off, r.len)] } with disk := disk }

def appendDisk (s : ClusterStage n) (c : Fin n) (r : Record) : Except Error (ClusterStage n) :=
  let k := { s.clusters c with spilled := true }
  let s := { s.set c k with disk := s.disk.ensureOpen }
  if s.dedicated k then s.appendOwn c r else s.appendShared c r

/-- The part of `append` for the arena. -/
def appendRam (s : ClusterStage n) (c : Fin n) (r : Record) : ClusterStage n :=
  let k := s.clusters c
  { s.set c
      { k with
        arena := k.arena ++ r.bytes.take r.total
        ramRecs := k.ramRecs ++ [(u32 k.arena.length, r.total)] } with
    ramBytes := s.ramBytes + r.total }

def append (s : ClusterStage n) (c : Fin n) (r : Record) : Except Error (ClusterStage n) :=
  if s.budget = 0 ∨ (s.clusters c).spilled then s.appendDisk c r
  else (s.appendRam c r).maybeSpill

def drop (s : ClusterStage n) (c : Fin n) : ClusterStage n :=
  let k := s.clusters c
  if k.spilled then s.set c { k with recs := [], cpend := [], cbuf := [] }
  else { s.set c { k with arena := [], ramRecs := [] } with ramBytes := s.ramBytes - k.arena.length }

def count (s : ClusterStage n) (c : Fin n) : ℕ :=
  let k := s.clusters c
  u32 (k.recs.length + k.ramRecs.length + k.cpend.length)

/-! ### Reading back -/

/-- The records that go into a read that starts at `start`, with its end and the records left. -/
def coalesce (start : ℕ) : ℕ → List (ℕ × ℕ) → ℕ × List (ℕ × ℕ) × List (ℕ × ℕ)
  | stop, [] => (stop, [], [])
  | stop, (off, len) :: rest =>
    if off - 4 = stop ∧ stop - start < kRunMax then
      let (stop', run, rest') := coalesce start (stop + 4 + len) rest
      (stop', (off, len) :: run, rest')
    else (stop, [], (off, len) :: rest)

/-- The reads of `for_each`: a read delivers at least one record. -/
def readRuns (d : StageFile) : ℕ → List (ℕ × ℕ) → Except Error (List Bytes)
  | 0, _ => .ok []
  | _ + 1, [] => .ok []
  | fuel + 1, (off, len) :: rest => do
    let start := off - 4
    let (stop, run, rest') := coalesce start (start + 4 + len) rest
    let rbuf ← d.pread start (stop - start)
    let out := ((off, len) :: run).map fun e => piece rbuf (e.1 - start) e.2
    let out' ← readRuns d fuel rest'
    return out ++ out'

/-- The records handed to the callback, in order. -/
def forEach (s : ClusterStage n) (c : Fin n) : Except Error (List Bytes × ClusterStage n) :=
  let k := s.clusters c
  if !k.spilled then
    .ok (k.ramRecs.map fun (off, len) => piece k.arena (off + 4) (u32 (len + 2 ^ 32 - 4)), s)
  else do
    let s ← s.flushCbuf c
    let disk ← s.disk.flushWbuf
    let list := (s.clusters c).recs
    let out ← readRuns disk list.length list
    return (out, { s with disk := disk })

/-! ### Runs -/

inductive Call (n : ℕ)
  | append (c : Fin n) (r : Record)
  | forEach (c : Fin n)
  | drop (c : Fin n)

def Call.exec (s : ClusterStage n) : Call n → Except Error (ClusterStage n)
  | .append c r => s.append c r
  | .forEach c => do
    let (_, s) ← s.forEach c
    return s
  | .drop c => .ok (s.drop c)

def run (s : ClusterStage n) (calls : List (Call n)) : Except Error (ClusterStage n) :=
  calls.foldlM Call.exec s

end ClusterStage

end SextantTree
