import Mathlib.Algebra.BigOperators.Fin
import SextantTree.ClusterStage
import SextantTree.Outcome

/-!
The stage is a list of records for every cluster. The file and the shared buffer together are one
log that only grows; a record of a cluster stands in its arena, in its own buffer or in the log,
and moves from one to the next with its offset.
-/

namespace SextantTree.ClusterStage

open FilterHash Slice Outcome

lemma kWriteBuf_pos : 0 < kWriteBuf := by decide

/-! ### The log -/

namespace StageFile

/-- What is in the file once the shared buffer is flushed. -/
def log (d : StageFile) : Bytes := d.file.getD [] ++ d.wbuf

/-- The file ends where the shared buffer begins, and the buffer has room. -/
structure Ok (d : StageFile) : Prop where
  length_file : (d.file.getD []).length = d.wbufOff
  length_wbuf : d.wbuf.length < kWriteBuf
  wbuf_eq_nil : d.file = none → d.wbuf = []

lemma ok_new : Ok {} := ⟨rfl, kWriteBuf_pos, fun _ => rfl⟩

namespace Ok

variable {d : StageFile}

lemma length_log (h : d.Ok) : d.log.length = d.wbufOff + d.wbuf.length := by
  rw [log, List.length_append, h.length_file]

lemma ensureOpen (h : d.Ok) : d.ensureOpen.Ok :=
  ⟨h.length_file, h.length_wbuf, fun hn => by cases hn⟩

end Ok

@[simp] lemma log_ensureOpen (d : StageFile) : d.ensureOpen.log = d.log := rfl

lemma isSome_ensureOpen (d : StageFile) : d.ensureOpen.file.isSome := rfl

lemma pwrite_end {d : StageFile} (h : d.Ok) (hopen : d.file.isSome) (b : Bytes) :
    d.pwrite d.wbufOff b = .ok { d with file := some (d.file.getD [] ++ b) } := by
  obtain ⟨f, hf⟩ := Option.isSome_iff_exists.mp hopen
  have hlen : f.length = d.wbufOff := by simpa [hf] using h.length_file
  simp [pwrite, hf, ← hlen, overwrite_length]

lemma flushWbuf_spec {d : StageFile} (h : d.Ok) :
    ∃ d', d.flushWbuf = .ok d' ∧ d'.Ok ∧ d'.log = d.log ∧ d'.wbuf = [] ∧
      d'.file.isSome = d.file.isSome := by
  by_cases hw : d.wbuf = []
  · exact ⟨d, by rw [flushWbuf, if_pos hw], h, rfl, hw, rfl⟩
  · have hopen : d.file.isSome := by
      by_contra hn
      exact hw (h.wbuf_eq_nil (by simpa using hn))
    have hlen := h.length_file
    rw [flushWbuf, if_neg hw, pwrite_end h hopen]
    refine ⟨_, rfl, ⟨?_, kWriteBuf_pos, fun _ => rfl⟩, ?_, rfl, hopen.symm⟩
    · simp [hlen]
    · simp [log]

lemma writeBlock_spec {d : StageFile} (h : d.Ok) (hopen : d.file.isSome) (b : Bytes) :
    ∃ d', d.writeBlock b = .ok (d.log.length, d') ∧ d'.Ok ∧ d'.log = d.log ++ b ∧
      d'.file.isSome := by
  obtain ⟨d₁, hd₁, hok, hlog, hw, hopen₁⟩ := flushWbuf_spec h
  have hlen : d₁.wbufOff = d.log.length := by rw [← hlog, hok.length_log, hw]; rfl
  have hf := hok.length_file
  rw [writeBlock, hd₁, ok_bind]
  dsimp only
  rw [pwrite_end hok (hopen₁.trans hopen), ok_bind]
  refine ⟨_, by rw [hlen]; rfl, ⟨?_, ?_, fun hn => by cases hn⟩, ?_, rfl⟩
  · simp [hf, hlen]
  · show d₁.wbuf.length < kWriteBuf
    rw [hw]
    exact kWriteBuf_pos
  · rw [← hlog]
    simp [log, hw]

lemma writeChunks_spec {d : StageFile} (h : d.Ok) (hw : d.wbuf = []) (hopen : d.file.isSome)
    (p : Bytes) (fuel : ℕ) :
    ∃ d' p', writeChunks fuel d p = .ok (d', p') ∧ d'.Ok ∧ d'.wbuf = [] ∧ d'.file.isSome ∧
      d'.log ++ p' = d.log ++ p ∧ p'.length ≤ p.length := by
  induction fuel generalizing d p with
  | zero => exact ⟨d, p, rfl, h, hw, hopen, rfl, le_rfl⟩
  | succ fuel ih =>
    by_cases hp : kWriteBuf ≤ p.length
    · rw [writeChunks, if_pos hp, pwrite_end h hopen, ok_bind]
      have hf := h.length_file
      set d₁ : StageFile :=
        { file := some (d.file.getD [] ++ p.take kWriteBuf), wbuf := d.wbuf,
          wbufOff := d.wbufOff + kWriteBuf } with hd₁
      have hok : d₁.Ok := by
        refine ⟨?_, h.length_wbuf, fun hn => by cases hn⟩
        simp [hd₁, hf, hp]
      obtain ⟨d', p', hrun, hok', hw', hopen', hlog, hle⟩ :=
        ih hok hw rfl (p.drop kWriteBuf)
      refine ⟨d', p', hrun, hok', hw', hopen', ?_, hle.trans (by simp)⟩
      rw [hlog]
      simp [hd₁, log, hw]
    · rw [writeChunks, if_neg hp]
      exact ⟨d, p, rfl, h, hw, hopen, rfl, le_rfl⟩

lemma store_spec {d : StageFile} (h : d.Ok) (hopen : d.file.isSome) {p : Bytes} {fuel : ℕ}
    (hfuel : p.length ≤ fuel) :
    ∃ d', store fuel d p = .ok d' ∧ d'.Ok ∧ d'.log = d.log ++ p ∧ d'.file.isSome := by
  induction fuel generalizing d p with
  | zero =>
    have hp : p = [] := List.length_eq_zero_iff.mp (by omega)
    exact ⟨d, rfl, h, by simp [hp], hopen⟩
  | succ fuel ih =>
    by_cases hp : p = []
    · exact ⟨d, by rw [store, if_pos hp], h, by simp [hp], hopen⟩
    · have hpos : 0 < p.length := List.length_pos_iff.mpr hp
      have hroom := h.length_wbuf
      rw [store, if_neg hp]
      dsimp only
      set take := min p.length (kWriteBuf - d.wbuf.length) with htake
      set d₁ : StageFile := { d with wbuf := d.wbuf ++ p.take take } with hd₁
      have hlen : d₁.wbuf.length = d.wbuf.length + take := by
        simp [hd₁, htake]
      have hlog : d₁.log ++ p.drop take = d.log ++ p := by
        simp [hd₁, log]
      by_cases hfull : d₁.wbuf.length = kWriteBuf
      · -- The buffer is full: it is flushed, and whole buffers of the rest go to the file.
        have hf := h.length_file
        have hfl : d₁.flushWbuf = .ok
            { file := some (d.file.getD [] ++ d₁.wbuf), wbuf := [],
              wbufOff := d.wbufOff + kWriteBuf } := by
          obtain ⟨f, hsome⟩ := Option.isSome_iff_exists.mp hopen
          have hne : d₁.wbuf ≠ [] := by
            intro hnil
            rw [hnil] at hfull
            exact kWriteBuf_pos.ne hfull
          have hflen : f.length = d.wbufOff := by simpa [hsome] using hf
          rw [flushWbuf, if_neg hne]
          simp only [hd₁, pwrite, hsome, ← hflen, overwrite_length, ok_bind, Option.getD_some]
          rw [← hfull]
          rfl
        set d₂ : StageFile :=
          { file := some (d.file.getD [] ++ d₁.wbuf), wbuf := [],
            wbufOff := d.wbufOff + kWriteBuf } with hd₂
        have hok₂ : d₂.Ok := by
          refine ⟨?_, kWriteBuf_pos, fun hn => by cases hn⟩
          simp [hd₂, hf, hfull]
        rw [if_pos hfull, hfl, ok_bind]
        obtain ⟨d₃, p₃, hrun, hok₃, hw₃, hopen₃, hlog₃, hle⟩ :=
          writeChunks_spec hok₂ rfl rfl (p.drop take) (p.drop take).length
        rw [hrun, ok_bind]
        have hfuel₃ : p₃.length ≤ fuel := by
          have : take ≠ 0 := by omega
          simp only [List.length_drop] at hle
          omega
        obtain ⟨d', hd', hok', hlog', hopen'⟩ := ih hok₃ hopen₃ hfuel₃
        refine ⟨d', hd', hok', ?_, hopen'⟩
        rw [hlog', hlog₃, ← hlog]
        simp [hd₁, hd₂, log]
      · rw [if_neg hfull]
        have hok₁ : d₁.Ok :=
          ⟨h.length_file, by omega, fun hn => by rw [show d.file = none from hn] at hopen; cases hopen⟩
        have hfuel₁ : (p.drop take).length ≤ fuel := by
          simp only [List.length_drop]
          omega
        obtain ⟨d', hd', hok', hlog', hopen'⟩ := ih hok₁ hopen hfuel₁
        exact ⟨d', hd', hok', by rw [hlog', hlog], hopen'⟩

end StageFile

/-! ### Where a record stands -/

namespace Record

lemma length_bytes (r : Record) : r.bytes.length = r.len + 4 := by
  rw [bytes, List.length_append, r.length_lead, len, Nat.add_comm]

lemma total_eq {r : Record} (h : r.len + 4 < 2 ^ 32) : r.total = r.len + 4 := Nat.mod_eq_of_lt h

lemma take_total {r : Record} (h : r.len + 4 < 2 ^ 32) : r.bytes.take r.total = r.bytes := by
  rw [total_eq h, ← length_bytes, List.take_length]

end Record

lemma u32_sub_four {l : ℕ} (h : l + 4 < 2 ^ 32) : u32 (l + 4 + 2 ^ 32 - 4) = l := by
  have : l + 4 + 2 ^ 32 - 4 = l + 2 ^ 32 := by omega
  rw [this, u32, Nat.add_mod_right, Nat.mod_eq_of_lt (by omega)]

/-- The entry `e` of `ram_recs_` leads to `r`. -/
def InArena (arena : Bytes) (e : ℕ × ℕ) (r : Record) : Prop :=
  e.2 = r.len + 4 ∧ r.len + 4 < 2 ^ 32 ∧ At arena e.1 r.bytes

/-- The entry `e` of `cpend_` leads to `r`. -/
def InBuffer (cbuf : Bytes) (e : ℕ × ℕ) (r : Record) : Prop :=
  e.2 = r.len ∧ At cbuf e.1 r.bytes

/-- The entry `e` of `recs_` leads to `r`. -/
def InLog (log : Bytes) (e : ℕ × ℕ) (r : Record) : Prop :=
  e.2 = r.len ∧ 4 ≤ e.1 ∧ At log (e.1 - 4) r.bytes

lemma InArena.append {arena : Bytes} {e : ℕ × ℕ} {r : Record} (h : InArena arena e r) (b : Bytes) :
    InArena (arena ++ b) e r := ⟨h.1, h.2.1, h.2.2.append_right b⟩

lemma InBuffer.append {cbuf : Bytes} {e : ℕ × ℕ} {r : Record} (h : InBuffer cbuf e r) (b : Bytes) :
    InBuffer (cbuf ++ b) e r := ⟨h.1, h.2.append_right b⟩

lemma InLog.append {log : Bytes} {e : ℕ × ℕ} {r : Record} (h : InLog log e r) (b : Bytes) :
    InLog (log ++ b) e r := ⟨h.1, h.2.1, h.2.2.append_right b⟩

lemma InArena.inLog {arena : Bytes} {e : ℕ × ℕ} {r : Record} (h : InArena arena e r) (log : Bytes) :
    InLog (log ++ arena) (log.length + e.1 + 4, u32 (e.2 + 2 ^ 32 - 4)) r := by
  obtain ⟨hlen, hlt, hat⟩ := h
  refine ⟨?_, by simp, ?_⟩
  · rw [hlen, u32_sub_four hlt]
  · simpa using hat.append_left log

lemma InBuffer.inLog {cbuf : Bytes} {e : ℕ × ℕ} {r : Record} (h : InBuffer cbuf e r) (log : Bytes) :
    InLog (log ++ cbuf) (log.length + e.1 + 4, e.2) r := by
  obtain ⟨hlen, hat⟩ := h
  exact ⟨hlen, by simp, by simpa using hat.append_left log⟩

lemma eq_nil_of_inBuffer_nil {es : List (ℕ × ℕ)} {rs : List Record}
    (h : List.Forall₂ (InBuffer []) es rs) : es = [] ∧ rs = [] := by
  cases h with
  | nil => exact ⟨rfl, rfl⟩
  | cons h _ =>
    have := h.2.le_length
    rw [Record.length_bytes] at this
    simp at this

lemma eq_nil_of_inArena_nil {es : List (ℕ × ℕ)} {rs : List Record}
    (h : List.Forall₂ (InArena []) es rs) : es = [] ∧ rs = [] := by
  cases h with
  | nil => exact ⟨rfl, rfl⟩
  | cons h _ =>
    have := h.2.2.le_length
    rw [Record.length_bytes] at this
    simp at this

/-! ### The records of a cluster -/

/-- The cluster has the records `rs`, all of them in memory or all of them on the way to disk: the
older ones in the log, the younger ones in the buffer. -/
inductive Cluster.Holds (log : Bytes) (k : Cluster) : List Record → Prop
  | ram {rs : List Record} (hs : k.spilled = false) (hrecs : k.recs = []) (hcbuf : k.cbuf = [])
      (hcpend : k.cpend = []) (h : List.Forall₂ (InArena k.arena) k.ramRecs rs) : Holds log k rs
  | disk {old new : List Record} (hs : k.spilled = true) (harena : k.arena = [])
      (hram : k.ramRecs = []) (hcap : k.cbufCapacity < kCWriteBuf → k.cbuf = [])
      (hold : List.Forall₂ (InLog log) k.recs old) (hnew : List.Forall₂ (InBuffer k.cbuf) k.cpend new) :
      Holds log k (old ++ new)

namespace Cluster.Holds

variable {log : Bytes} {k : Cluster} {rs : List Record}

lemma new : Holds log {} [] := .ram rfl rfl rfl rfl .nil

lemma append (h : k.Holds log rs) (b : Bytes) : k.Holds (log ++ b) rs := by
  cases h with
  | ram hs hrecs hcbuf hcpend h => exact .ram hs hrecs hcbuf hcpend h
  | disk hs harena hram hcap hold hnew =>
    exact .disk hs harena hram hcap (hold.imp fun _ _ h => h.append b) hnew

lemma of_ram (h : k.Holds log rs) (hs : k.spilled = false) :
    k.recs = [] ∧ k.cbuf = [] ∧ k.cpend = [] ∧ List.Forall₂ (InArena k.arena) k.ramRecs rs := by
  cases h with
  | ram _ hrecs hcbuf hcpend h => exact ⟨hrecs, hcbuf, hcpend, h⟩
  | disk hs' =>
    rw [hs'] at hs
    cases hs

lemma of_disk (h : k.Holds log rs) (hs : k.spilled = true) :
    k.arena = [] ∧ k.ramRecs = [] ∧ (k.cbufCapacity < kCWriteBuf → k.cbuf = []) ∧
      ∃ old new, rs = old ++ new ∧ List.Forall₂ (InLog log) k.recs old ∧
        List.Forall₂ (InBuffer k.cbuf) k.cpend new := by
  cases h with
  | ram hs' =>
    rw [hs'] at hs
    cases hs
  | disk _ harena hram hcap hold hnew => exact ⟨harena, hram, hcap, _, _, rfl, hold, hnew⟩

lemma length_eq (h : k.Holds log rs) :
    k.recs.length + k.ramRecs.length + k.cpend.length = rs.length := by
  cases h with
  | ram hs hrecs hcbuf hcpend h => simp [hrecs, hcpend, h.length_eq]
  | disk hs harena hram hcap hold hnew => simp [hram, hold.length_eq, hnew.length_eq]

end Cluster.Holds

/-! ### The invariant -/

variable {n : ℕ}

/-- The stage holds the records `rs`. -/
structure Holds (s : ClusterStage n) (rs : Fin n → List Record) : Prop where
  disk : s.disk.Ok
  /-- The file is open once a cluster is on disk. -/
  opened : ∀ c, (s.clusters c).spilled = true → s.disk.file.isSome
  ramBytes : s.ramBytes = ∑ c, (s.clusters c).arena.length
  cluster : ∀ c, (s.clusters c).Holds s.disk.log (rs c)

lemma holds_new (budget : ℕ) : Holds ({ budget := budget } : ClusterStage n) fun _ => [] where
  disk := StageFile.ok_new
  opened := fun c h => by cases h
  ramBytes := by simp
  cluster := fun _ => .new

@[simp] lemma set_clusters_self (s : ClusterStage n) (c : Fin n) (k : Cluster) :
    (s.set c k).clusters c = k := Function.update_self ..

@[simp] lemma set_clusters_ne (s : ClusterStage n) {c c' : Fin n} (k : Cluster) (h : c' ≠ c) :
    (s.set c k).clusters c' = s.clusters c' := Function.update_of_ne h ..

lemma sum_arena_set (s : ClusterStage n) (c : Fin n) (k : Cluster) :
    ∑ c', ((s.set c k).clusters c').arena.length + (s.clusters c).arena.length =
      ∑ c', (s.clusters c').arena.length + k.arena.length := by
  rw [← Finset.add_sum_erase _ _ (Finset.mem_univ c),
    ← Finset.add_sum_erase (a := c) _ (fun c' => (s.clusters c').arena.length) (Finset.mem_univ c)]
  have hrest : ∑ c' ∈ Finset.univ.erase c, ((s.set c k).clusters c').arena.length =
      ∑ c' ∈ Finset.univ.erase c, (s.clusters c').arena.length := by
    refine Finset.sum_congr rfl fun c' hc' => ?_
    rw [set_clusters_ne s k (Finset.ne_of_mem_erase hc')]
  rw [set_clusters_self, hrest]
  omega

lemma Holds.set {s : ClusterStage n} {rs : Fin n → List Record} (h : Holds s rs) (c : Fin n)
    {k : Cluster} {d : StageFile} {b : Bytes} {l : List Record} {ram : ℕ} (nd : ℕ)
    (hd : d.Ok) (hlog : d.log = s.disk.log ++ b)
    (hopen : d.file.isSome ∨ d.file.isSome = s.disk.file.isSome ∧ k.spilled = false)
    (hram : ram + (s.clusters c).arena.length = s.ramBytes + k.arena.length)
    (hk : k.Holds d.log l) :
    Holds { s.set c k with disk := d, ramBytes := ram, nDedicated := nd } (Function.update rs c l) where
  disk := hd
  opened := fun c' hc' => by
    rcases hopen with hopen | ⟨hsome, hspilled⟩
    · exact hopen
    · by_cases hcc : c' = c
      · subst hcc
        simp only [set_clusters_self, hspilled] at hc'
        cases hc'
      · simp only [set_clusters_ne s k hcc] at hc'
        exact hsome.trans (h.opened c' hc')
  ramBytes := by
    have := sum_arena_set s c k
    have := h.ramBytes
    simp only
    omega
  cluster := fun c' => by
    by_cases hcc : c' = c
    · subst hcc
      simpa using hk
    · simp only [set_clusters_ne s k hcc, Function.update_of_ne hcc]
      rw [hlog]
      exact (h.cluster c').append b

lemma Holds.arena_le {s : ClusterStage n} {rs : Fin n → List Record} (h : Holds s rs) (c : Fin n) :
    (s.clusters c).arena.length ≤ s.ramBytes := by
  rw [h.ramBytes]
  exact Finset.single_le_sum (f := fun c => (s.clusters c).arena.length) (fun _ _ => Nat.zero_le _)
    (Finset.mem_univ c)

/-! ### Spilling -/

lemma spill_spec {s : ClusterStage n} {rs : Fin n → List Record} (h : Holds s rs) {c : Fin n}
    (hc : (s.clusters c).spilled = false) :
    ∃ s' k, s.spill c = .ok s' ∧ Holds s' rs ∧ s'.budget = s.budget ∧
      s'.clusters = Function.update s.clusters c k ∧ k.spilled = true := by
  obtain ⟨d, hd, hok, hlog, hopen⟩ :=
    StageFile.writeBlock_spec h.disk.ensureOpen s.disk.isSome_ensureOpen (s.clusters c).arena
  rw [StageFile.log_ensureOpen] at hd hlog
  rw [spill]
  dsimp only
  rw [hd, ok_bind]
  refine ⟨_, _, rfl, ?_, rfl, rfl, rfl⟩
  have hsum := h.arena_le c
  rw [← Function.update_eq_self c rs]
  refine h.set c s.nDedicated hok hlog (.inl hopen) ?_ ?_
  · simp only [List.length_nil]
    omega
  · obtain ⟨hrecs, hcbuf, hcpend, hrs⟩ := (h.cluster c).of_ram hc
    rw [← List.append_nil (rs c), hlog]
    refine .disk rfl rfl rfl (fun _ => hcbuf) ?_ (by rw [hcpend]; exact .nil)
    simp only [hrecs, List.nil_append]
    exact List.forall₂_map_left_iff.mpr (hrs.imp fun e r he => he.inLog _)

lemma victim_spec (s : ClusterStage n) :
    (∀ v, s.victim = some v → (s.clusters v).spilled = false) ∧
      (s.victim = none → ∀ c, (s.clusters c).spilled = true ∨ (s.clusters c).arena = []) := by
  unfold victim
  generalize hstep : (fun (best : ℕ × Option (Fin n)) c =>
    if (s.clusters c).spilled ∨ (s.clusters c).arena = [] then best
    else if best.1 < (s.clusters c).arena.length then ((s.clusters c).arena.length, some c)
    else best) = step
  -- The best arena so far is that of a cluster, or there was none to choose.
  have hrun : ∀ l : List (Fin n),
      (∀ v, (l.foldl step (0, none)).2 = some v → (s.clusters v).spilled = false) ∧
      ((l.foldl step (0, none)).2 = none → (l.foldl step (0, none)).1 = 0 ∧
        ∀ c ∈ l, (s.clusters c).spilled = true ∨ (s.clusters c).arena = []) := by
    intro l
    induction l using List.reverseRecOn with
    | nil => simp
    | append_singleton l c ih =>
      rw [List.foldl_append, List.foldl_cons, List.foldl_nil]
      generalize l.foldl step (0, none) = best at ih ⊢
      obtain ⟨hsome, hnone⟩ := ih
      rw [← hstep]
      dsimp only
      split_ifs with hskip hlt
      · refine ⟨hsome, fun hb => ⟨(hnone hb).1, fun c' hc' => ?_⟩⟩
        rcases List.mem_append.mp hc' with hc' | hc'
        · exact (hnone hb).2 c' hc'
        · rw [List.mem_singleton.mp hc']
          exact hskip
      · refine ⟨fun v hv => ?_, fun hb => by cases hb⟩
        cases hv
        exact Bool.eq_false_iff.mpr (not_or.mp hskip).1
      · refine ⟨hsome, fun hb => absurd hlt ?_⟩
        rw [(hnone hb).1, not_not]
        exact List.length_pos_iff.mpr (not_or.mp hskip).2
  obtain ⟨hsome, hnone⟩ := hrun (List.finRange n)
  exact ⟨hsome, fun hb c => (hnone hb).2 c (List.mem_finRange c)⟩

def inMemory (s : ClusterStage n) : Finset (Fin n) :=
  Finset.univ.filter fun c => (s.clusters c).spilled = false

lemma spillLoop_spec {s : ClusterStage n} {rs : Fin n → List Record} (h : Holds s rs) {fuel : ℕ}
    (hfuel : s.inMemory.card ≤ fuel) :
    ∃ s', spillLoop fuel s = .ok s' ∧ Holds s' rs ∧ s'.budget = s.budget ∧
      (s'.ramBytes ≤ s.budget - s.budget / 10 ∨ s'.victim = none) := by
  induction fuel generalizing s with
  | zero =>
    refine ⟨s, rfl, h, rfl, .inr ?_⟩
    by_contra hv
    obtain ⟨v, hv⟩ := Option.ne_none_iff_exists'.mp hv
    have hmem : v ∈ s.inMemory := by simpa [inMemory] using (victim_spec s).1 v hv
    exact absurd (Finset.card_pos.mpr ⟨v, hmem⟩) (by omega)
  | succ fuel ih =>
    rw [spillLoop]
    by_cases hle : s.ramBytes ≤ s.budget - s.budget / 10
    · exact ⟨s, by rw [if_pos hle], h, rfl, .inl hle⟩
    · rw [if_neg hle]
      cases hv : s.victim with
      | none => exact ⟨s, rfl, h, rfl, .inr hv⟩
      | some v =>
        have hspilled := (victim_spec s).1 v hv
        obtain ⟨s₁, k, hs₁, h₁, hbudget, hclusters, hk⟩ := spill_spec h hspilled
        have hsub : s₁.inMemory ⊂ s.inMemory := by
          refine (Finset.ssubset_iff_of_subset fun c hc => ?_).mpr ⟨v, ?_, ?_⟩
          · by_cases hcv : c = v
            · subst hcv
              simp [inMemory, hclusters, hk] at hc
            · simpa [inMemory, hclusters, Function.update_of_ne hcv] using hc
          · simpa [inMemory] using hspilled
          · simp [inMemory, hclusters, hk]
        have hcard := Finset.card_lt_card hsub
        obtain ⟨s', hs', h', hbudget', hend⟩ := ih h₁ (by omega)
        rw [hbudget] at hend hbudget'
        exact ⟨s', by simp only [hs₁, ok_bind, hs'], h', hbudget', hend⟩

lemma maybeSpill_spec {s : ClusterStage n} {rs : Fin n → List Record} (h : Holds s rs) :
    ∃ s', s.maybeSpill = .ok s' ∧ Holds s' rs ∧ s'.budget = s.budget ∧ s'.ramBytes ≤ s.budget := by
  rw [maybeSpill]
  split_ifs with hle
  · exact ⟨s, rfl, h, rfl, hle⟩
  · have hcard : s.inMemory.card ≤ n := (Finset.card_le_univ _).trans_eq (Fintype.card_fin n)
    obtain ⟨s', hs', h', hbudget, hend⟩ := spillLoop_spec h hcard
    refine ⟨s', hs', h', hbudget, ?_⟩
    rcases hend with hend | hnone
    · omega
    · -- With no victim left every arena is empty.
      have hzero : s'.ramBytes = 0 := by
        rw [h'.ramBytes]
        refine Finset.sum_eq_zero fun c _ => ?_
        rcases (victim_spec s').2 hnone c with hc | hc
        · rw [((h'.cluster c).of_disk hc).1]
          rfl
        · rw [hc]
          rfl
      omega

/-! ### Appending -/

lemma flushCbuf_spec {s : ClusterStage n} {rs : Fin n → List Record} (h : Holds s rs) {c : Fin n}
    (hc : (s.clusters c).spilled = true) :
    ∃ s', s.flushCbuf c = .ok s' ∧ Holds s' rs ∧ s'.budget = s.budget ∧ s'.ramBytes = s.ramBytes ∧
      (s'.clusters c).spilled = true ∧ (s'.clusters c).cbuf = [] ∧ (s'.clusters c).cpend = [] ∧
      (s'.clusters c).cbufCapacity = (s.clusters c).cbufCapacity := by
  obtain ⟨harena, hram, hcap, old, new, hrs, hold, hnew⟩ := (h.cluster c).of_disk hc
  rw [flushCbuf]
  dsimp only
  split_ifs with hb
  · have hcpend := (eq_nil_of_inBuffer_nil (hb ▸ hnew)).1
    exact ⟨s, rfl, h, rfl, rfl, hc, hb, hcpend, rfl⟩
  · obtain ⟨d, hd, hok, hlog, hopen⟩ :=
      StageFile.writeBlock_spec h.disk (h.opened c hc) (s.clusters c).cbuf
    rw [hd, ok_bind]
    refine ⟨_, rfl, ?_, rfl, rfl, by simpa using hc, by simp, by simp, by simp⟩
    rw [← Function.update_eq_self c rs]
    refine h.set c s.nDedicated hok hlog (.inl hopen) rfl ?_
    rw [hrs, hlog, ← List.append_nil (old ++ new)]
    refine .disk hc harena hram (fun _ => rfl) ?_ .nil
    refine List.rel_append (hold.imp fun e r he => he.append _) ?_
    exact List.forall₂_map_left_iff.mpr (hnew.imp fun e r he => he.inLog _)

lemma u32_of_lt {m : ℕ} (h : m < 2 ^ 32) : u32 m = m := Nat.mod_eq_of_lt h

lemma Holds.pushOwn {s : ClusterStage n} {rs : Fin n → List Record} (h : Holds s rs) {c : Fin n}
    (hc : (s.clusters c).spilled = true) (hcap : kCWriteBuf ≤ (s.clusters c).cbufCapacity)
    (hlt : (s.clusters c).cbuf.length < 2 ^ 32) {r : Record} (hr : r.len + 4 < 2 ^ 32) :
    Holds (s.set c
      { s.clusters c with
        cbuf := (s.clusters c).cbuf ++ r.bytes.take r.total
        cbufCapacity := max (s.clusters c).cbufCapacity
          ((s.clusters c).cbuf ++ r.bytes.take r.total).length
        cpend := (s.clusters c).cpend ++ [(u32 (s.clusters c).cbuf.length, r.len)] })
      (Function.update rs c (rs c ++ [r])) := by
  obtain ⟨harena, hram, -, old, new, hrs, hold, hnew⟩ := (h.cluster c).of_disk hc
  refine h.set c s.nDedicated h.disk (List.append_nil _).symm (.inl (h.opened c hc)) rfl ?_
  rw [hrs, List.append_assoc, r.take_total hr, u32_of_lt hlt]
  refine .disk hc harena hram (fun hlt => ?_) hold ?_
  · have := le_max_left (s.clusters c).cbufCapacity ((s.clusters c).cbuf ++ r.bytes).length
    simp only at hlt
    omega
  · refine List.rel_append (hnew.imp fun e r he => he.append _) (.cons ⟨rfl, ?_⟩ .nil)
    exact .last _ _

lemma reserve_spec {s : ClusterStage n} {rs : Fin n → List Record} (h : Holds s rs) {c : Fin n}
    (hc : (s.clusters c).spilled = true) :
    Holds (s.reserve c) rs ∧ (s.reserve c).budget = s.budget ∧
      (s.reserve c).ramBytes = s.ramBytes ∧ ((s.reserve c).clusters c).spilled = true ∧
      kCWriteBuf ≤ ((s.reserve c).clusters c).cbufCapacity := by
  rw [reserve]
  dsimp only
  split_ifs with hlt
  · refine ⟨?_, rfl, rfl, by simpa using hc, by simp⟩
    obtain ⟨harena, hram, hcap, old, new, hrs, hold, hnew⟩ := (h.cluster c).of_disk hc
    rw [← Function.update_eq_self c rs]
    refine h.set c _ h.disk (List.append_nil _).symm (.inl (h.opened c hc)) rfl ?_
    rw [hrs]
    exact .disk hc harena hram (fun hlt => absurd hlt (lt_irrefl _)) hold hnew
  · exact ⟨h, rfl, rfl, hc, not_lt.mp hlt⟩

lemma makeRoom_spec {s : ClusterStage n} {rs : Fin n → List Record} (h : Holds s rs) {c : Fin n}
    (hc : (s.clusters c).spilled = true) (total : ℕ) :
    ∃ s', s.makeRoom c total = .ok s' ∧ Holds s' rs ∧ s'.budget = s.budget ∧
      s'.ramBytes = s.ramBytes ∧ (s'.clusters c).spilled = true ∧
      (s'.clusters c).cbufCapacity = (s.clusters c).cbufCapacity ∧
      (s'.clusters c).cbuf.length < 2 ^ 32 := by
  rw [makeRoom]
  split_ifs with hfull
  · obtain ⟨s', hs', h', hb, hr, hc', hcbuf, hcpend, hcap⟩ := flushCbuf_spec h hc
    exact ⟨s', hs', h', hb, hr, hc', hcap, by simp [hcbuf]⟩
  · have hk : kCWriteBuf < 2 ^ 32 := by decide
    exact ⟨s, rfl, h, rfl, rfl, hc, rfl, by omega⟩

lemma appendOwn_spec {s : ClusterStage n} {rs : Fin n → List Record} (h : Holds s rs) {c : Fin n}
    (hc : (s.clusters c).spilled = true) {r : Record} (hr : r.len + 4 < 2 ^ 32) :
    ∃ s', s.appendOwn c r = .ok s' ∧ Holds s' (Function.update rs c (rs c ++ [r])) ∧
      s'.budget = s.budget ∧ s'.ramBytes = s.ramBytes := by
  obtain ⟨h₁, hbudget₁, hram₁, hc₁, hcap₁⟩ := reserve_spec h hc
  obtain ⟨s₂, hs₂, h₂, hbudget₂, hram₂, hc₂, hcap₂, hlt⟩ := makeRoom_spec h₁ hc₁ r.total
  rw [appendOwn, hs₂, ok_bind]
  refine ⟨_, rfl, h₂.pushOwn hc₂ (hcap₂ ▸ hcap₁) hlt hr, ?_, ?_⟩
  · exact hbudget₂.trans hbudget₁
  · exact hram₂.trans hram₁

lemma appendShared_spec {s : ClusterStage n} {rs : Fin n → List Record} (h : Holds s rs) {c : Fin n}
    (hc : (s.clusters c).spilled = true) (hcap : (s.clusters c).cbufCapacity < kCWriteBuf)
    {r : Record} (hr : r.len + 4 < 2 ^ 32) :
    ∃ s', s.appendShared c r = .ok s' ∧ Holds s' (Function.update rs c (rs c ++ [r])) ∧
      s'.budget = s.budget ∧ s'.ramBytes = s.ramBytes := by
  obtain ⟨harena, hram, hbuf, old, new, hrs, hold, hnew⟩ := (h.cluster c).of_disk hc
  -- Nothing waits in a buffer of its own, so the record is the last one in the log too.
  have hcbuf := hbuf hcap
  obtain ⟨hcpend, hnew⟩ := eq_nil_of_inBuffer_nil (hcbuf ▸ hnew)
  have hfuel : r.bytes.length ≤ r.total := by rw [r.total_eq hr, r.length_bytes]
  obtain ⟨d, hd, hok, hlog, hopen⟩ :=
    StageFile.store_spec h.disk (h.opened c hc) hfuel
  rw [appendShared]
  dsimp only
  rw [r.take_total hr, hd, ok_bind]
  refine ⟨_, rfl, ?_, rfl, rfl⟩
  refine h.set c s.nDedicated hok hlog (.inl hopen) rfl ?_
  rw [hrs, hnew, List.append_nil, ← List.append_nil (old ++ [r]), hlog, ← h.disk.length_log]
  refine .disk hc harena hram (fun _ => hcbuf) ?_ (by rw [hcpend]; exact .nil)
  refine List.rel_append (hold.imp fun e r he => he.append _) (.cons ⟨rfl, by simp, ?_⟩ .nil)
  simpa using At.last s.disk.log r.bytes

lemma appendDisk_spec {s : ClusterStage n} {rs : Fin n → List Record} (h : Holds s rs) {c : Fin n}
    (hc : (s.clusters c).spilled = true ∨ (s.clusters c).arena = []) {r : Record}
    (hr : r.len + 4 < 2 ^ 32) :
    ∃ s', s.appendDisk c r = .ok s' ∧ Holds s' (Function.update rs c (rs c ++ [r])) ∧
      s'.budget = s.budget ∧ s'.ramBytes = s.ramBytes := by
  set k : Cluster := { s.clusters c with spilled := true } with hk
  have hcluster : k.Holds s.disk.log (rs c) := by
    cases hs : (s.clusters c).spilled with
    | true =>
      obtain ⟨harena, hram, hcap, old, new, hrs, hold, hnew⟩ := (h.cluster c).of_disk hs
      rw [hrs]
      exact .disk rfl harena hram hcap hold hnew
    | false =>
      have harena : (s.clusters c).arena = [] := hc.resolve_left (by simp [hs])
      obtain ⟨hrecs, hcbuf, hcpend, hrs⟩ := (h.cluster c).of_ram hs
      obtain ⟨hram, hnil⟩ := eq_nil_of_inArena_nil (harena ▸ hrs)
      rw [hnil, ← List.append_nil []]
      exact .disk rfl harena hram (fun _ => hcbuf) (by simp [hk, hrecs]) (by simp [hk, hcpend])
  have hopened : Holds { s.set c k with disk := s.disk.ensureOpen } rs := by
    rw [← Function.update_eq_self c rs]
    exact h.set c s.nDedicated h.disk.ensureOpen (List.append_nil _).symm (.inl rfl) rfl hcluster
  have hspilled : ((s.set c k).clusters c).spilled = true := by simp [hk]
  rw [appendDisk]
  dsimp only
  split_ifs with hded
  · exact appendOwn_spec hopened hspilled hr
  · refine appendShared_spec hopened hspilled ?_ hr
    simp only [dedicated, Bool.or_eq_true, decide_eq_true_eq, not_or, not_le] at hded
    simpa using hded.1

lemma appendRam_spec {s : ClusterStage n} {rs : Fin n → List Record} (h : Holds s rs) {c : Fin n}
    (hc : (s.clusters c).spilled = false) (hlt : (s.clusters c).arena.length < 2 ^ 32) {r : Record}
    (hr : r.len + 4 < 2 ^ 32) :
    Holds (s.appendRam c r) (Function.update rs c (rs c ++ [r])) := by
  obtain ⟨hrecs, hcbuf, hcpend, hrs⟩ := (h.cluster c).of_ram hc
  refine h.set c s.nDedicated h.disk (List.append_nil _).symm (.inr ⟨rfl, hc⟩) ?_ ?_
  · rw [r.take_total hr, r.total_eq hr]
    simp only [List.length_append, r.length_bytes]
    omega
  · rw [r.take_total hr, r.total_eq hr, u32_of_lt hlt]
    refine .ram hc hrecs hcbuf hcpend ?_
    refine List.rel_append (hrs.imp fun e r he => he.append _) (.cons ⟨rfl, hr, ?_⟩ .nil)
    exact .last _ _

/-- The budget is kept, and with it a stage without budget has no arenas. -/
structure Within (s : ClusterStage n) (rs : Fin n → List Record) : Prop where
  holds : Holds s rs
  ramBytes_le : s.ramBytes ≤ s.budget

lemma Within.arena_eq_nil {s : ClusterStage n} {rs : Fin n → List Record} (h : Within s rs)
    (h0 : s.budget = 0) (c : Fin n) : (s.clusters c).arena = [] := by
  have hsum : ∑ c, (s.clusters c).arena.length = 0 := by
    have := h.ramBytes_le
    rw [← h.holds.ramBytes]
    omega
  exact List.length_eq_zero_iff.mp (Finset.sum_eq_zero_iff.mp hsum c (Finset.mem_univ c))

lemma append_spec {s : ClusterStage n} {rs : Fin n → List Record} (h : Within s rs) {c : Fin n}
    {r : Record} (hr : r.len + 4 < 2 ^ 32)
    (hlt : s.budget ≠ 0 → (s.clusters c).spilled = false → (s.clusters c).arena.length < 2 ^ 32) :
    ∃ s', s.append c r = .ok s' ∧ Within s' (Function.update rs c (rs c ++ [r])) := by
  rw [append]
  split_ifs with hdisk
  · have hc : (s.clusters c).spilled = true ∨ (s.clusters c).arena = [] :=
      hdisk.symm.imp_right fun h0 => h.arena_eq_nil h0 c
    obtain ⟨s', hs', h', hbudget, hram⟩ := appendDisk_spec h.holds hc hr
    exact ⟨s', hs', h', by rw [hbudget, hram]; exact h.ramBytes_le⟩
  · obtain ⟨h0, hc⟩ := not_or.mp hdisk
    rw [Bool.not_eq_true] at hc
    obtain ⟨s', hs', h', hbudget, hram⟩ := maybeSpill_spec (appendRam_spec h.holds hc (hlt h0 hc) hr)
    exact ⟨s', hs', h', by rw [hbudget]; exact hram⟩

lemma drop_spec {s : ClusterStage n} {rs : Fin n → List Record} (h : Within s rs) (c : Fin n) :
    Within (s.drop c) (Function.update rs c []) := by
  have hle := h.ramBytes_le
  rw [drop]
  dsimp only
  split_ifs with hc
  · obtain ⟨harena, hram, -, -⟩ := (h.holds.cluster c).of_disk hc
    refine ⟨h.holds.set c s.nDedicated h.holds.disk (List.append_nil _).symm
      (.inl (h.holds.opened c hc)) rfl ?_, hle⟩
    show Cluster.Holds _ _ ([] ++ [])
    exact .disk hc harena hram (fun _ => rfl) .nil .nil
  · rw [Bool.not_eq_true] at hc
    obtain ⟨hrecs, hcbuf, hcpend, -⟩ := (h.holds.cluster c).of_ram hc
    have hsum := h.holds.arena_le c
    refine ⟨h.holds.set c s.nDedicated h.holds.disk (List.append_nil _).symm (.inr ⟨rfl, hc⟩) ?_ ?_,
      (Nat.sub_le _ _).trans hle⟩
    · simp only [List.length_nil]
      omega
    · exact .ram hc hrecs hcbuf hcpend .nil

/-! ### Reading back -/

lemma coalesce_spec {log : Bytes} (start : ℕ) {es : List (ℕ × ℕ)} {rs : List Record}
    (h : List.Forall₂ (InLog log) es rs) {stop : ℕ} (hle : start ≤ stop) (hstop : stop ≤ log.length) :
    ∃ rs₁ rs₂, rs = rs₁ ++ rs₂ ∧ stop ≤ (coalesce start stop es).1 ∧
      (coalesce start stop es).1 ≤ log.length ∧
      List.Forall₂ (fun e r => InLog log e r ∧ start ≤ e.1 - 4 ∧
        e.1 + e.2 ≤ (coalesce start stop es).1) (coalesce start stop es).2.1 rs₁ ∧
      List.Forall₂ (InLog log) (coalesce start stop es).2.2 rs₂ ∧
      (coalesce start stop es).2.2.length ≤ es.length := by
  induction h generalizing stop with
  | nil => exact ⟨[], [], rfl, le_rfl, hstop, .nil, .nil, le_rfl⟩
  | @cons e r es rs he hes ih =>
    rw [coalesce]
    split_ifs with hgo
    · obtain ⟨hlen, h4, hat⟩ := he
      have hend := hat.le_length
      rw [Record.length_bytes] at hend
      have hstop' : stop + 4 + e.2 ≤ log.length := by omega
      obtain ⟨rs₁, rs₂, hrs, hge, hle', hrun, hrest, hlt⟩ := ih (hle.trans (by omega)) hstop'
      generalize coalesce start (stop + 4 + e.2) es = next at hge hle' hrun hrest hlt ⊢
      obtain ⟨stop', run, rest⟩ := next
      simp only at hge hle' hrun hrest hlt ⊢
      refine ⟨r :: rs₁, rs₂, by rw [hrs]; rfl, ?_, hle', .cons ⟨⟨hlen, h4, hat⟩, ?_, ?_⟩ hrun, hrest, ?_⟩
      · omega
      · omega
      · omega
      · exact hlt.trans (Nat.le_succ _)
    · exact ⟨[], r :: rs, rfl, le_rfl, hstop, .nil, .cons he hes, le_rfl⟩

lemma InLog.piece_eq {log : Bytes} {e : ℕ × ℕ} {r : Record} (h : InLog log e r) {start stop : ℕ}
    (hstart : start ≤ e.1 - 4) (hstop : e.1 + e.2 ≤ stop) :
    piece (piece log start (stop - start)) (e.1 - start) e.2 = r.body := by
  obtain ⟨hlen, h4, hat⟩ := h
  have hbody : At log (e.1 - 4 + r.lead.length) r.body := hat.right
  rw [r.length_lead, Nat.sub_add_cancel h4] at hbody
  rw [piece_piece _ (by omega), Nat.add_sub_cancel' (by omega), hlen]
  exact hbody.piece_eq

lemma readRuns_spec {d : StageFile} {f : Bytes} (hf : d.file = some f) {fuel : ℕ}
    {es : List (ℕ × ℕ)} {rs : List Record} (h : List.Forall₂ (InLog f) es rs)
    (hfuel : es.length ≤ fuel) : readRuns d fuel es = .ok (rs.map Record.body) := by
  induction fuel generalizing es rs with
  | zero =>
    have hes : es = [] := List.length_eq_zero_iff.mp (by omega)
    subst hes
    rw [List.forall₂_nil_left_iff.mp h]
    rfl
  | succ fuel ih =>
    cases h with
    | nil => rfl
    | @cons e r es rs he hes =>
      obtain ⟨off, len⟩ := e
      obtain ⟨hlen, h4, hat⟩ := id he
      have hend := hat.le_length
      rw [Record.length_bytes] at hend
      simp only at hlen h4 hend
      obtain ⟨rs₁, rs₂, hrs, hge, hle, hrun, hrest, hlt⟩ :=
        coalesce_spec (off - 4) hes (show off - 4 ≤ off - 4 + 4 + len by omega) (by omega)
      rw [readRuns]
      dsimp only
      generalize coalesce (off - 4) (off - 4 + 4 + len) es = run at hge hle hrun hrest hlt ⊢
      obtain ⟨stop, taken, rest⟩ := run
      simp only at hge hle hrun hrest hlt ⊢
      have hread : d.pread (off - 4) (stop - (off - 4)) = .ok (piece f (off - 4) (stop - (off - 4))) := by
        rw [StageFile.pread, hf]
        simp only
        rw [if_pos (by omega)]
      have hfirst := he.piece_eq le_rfl (show off + len ≤ stop by omega)
      have htaken : taken.map (fun e => piece (piece f (off - 4) (stop - (off - 4))) (e.1 - (off - 4)) e.2) =
          rs₁.map Record.body := by
        clear hrs
        induction hrun with
        | nil => rfl
        | cons h _ ih => rw [List.map_cons, List.map_cons, ih, h.1.piece_eq h.2.1 h.2.2]
      have hlen' : rest.length ≤ fuel := by
        simp only [List.length_cons] at hfuel
        omega
      rw [hread, ok_bind, ih hrest hlen', ok_bind, List.map_cons, htaken, hfirst, hrs]
      simp
      rfl

lemma map_piece_arena {arena : Bytes} {es : List (ℕ × ℕ)} {rs : List Record}
    (h : List.Forall₂ (InArena arena) es rs) :
    es.map (fun e => piece arena (e.1 + 4) (u32 (e.2 + 2 ^ 32 - 4))) = rs.map Record.body := by
  induction h with
  | nil => rfl
  | @cons e r es rs he _ ih =>
    obtain ⟨hlen, hlt, hat⟩ := he
    have hbody : At arena (e.1 + r.lead.length) r.body := hat.right
    rw [r.length_lead] at hbody
    have hpiece : piece arena (e.1 + 4) r.len = r.body := hbody.piece_eq
    rw [List.map_cons, List.map_cons, ih, hlen, u32_sub_four hlt, hpiece]

lemma forEach_spec {s : ClusterStage n} {rs : Fin n → List Record} (h : Within s rs) (c : Fin n) :
    ∃ s', s.forEach c = .ok ((rs c).map Record.body, s') ∧ Within s' rs := by
  rw [forEach]
  dsimp only
  cases hc : (s.clusters c).spilled with
  | false =>
    obtain ⟨-, -, -, hrs⟩ := (h.holds.cluster c).of_ram hc
    refine ⟨s, ?_, h⟩
    rw [Bool.not_false, if_pos rfl, ← map_piece_arena hrs]
  | true =>
    obtain ⟨s₁, hs₁, h₁, hbudget, hram, hc₁, hcbuf, hcpend, -⟩ := flushCbuf_spec h.holds hc
    obtain ⟨d, hd, hok, hlog, hw, hopen⟩ := StageFile.flushWbuf_spec h₁.disk
    obtain ⟨f, hf⟩ := Option.isSome_iff_exists.mp (hopen.trans (h₁.opened c hc₁))
    obtain ⟨-, -, -, old, new, hrs, hold, hnew⟩ := (h₁.cluster c).of_disk hc₁
    have hnil : new = [] := by
      rw [hcpend] at hnew
      exact List.forall₂_nil_left_iff.mp hnew
    rw [← hlog, StageFile.log, hf, hw, Option.getD_some, List.append_nil] at hold
    rw [hs₁]
    simp only [Bool.not_true, Bool.false_eq_true, if_false, ok_bind, hd,
      readRuns_spec hf hold le_rfl]
    refine ⟨{ s₁ with disk := d }, by rw [hrs, hnil, List.append_nil]; rfl,
      ⟨hok, ?_, h₁.ramBytes, ?_⟩, ?_⟩
    · intro c' hc'
      exact hopen.trans (h₁.opened c' hc')
    · intro c'
      simp only [hlog]
      exact h₁.cluster c'
    · simp only [hbudget, hram]
      exact h.ramBytes_le

/-! ### Runs -/

def Call.stage (rs : Fin n → List Record) : Call n → Fin n → List Record
  | .append c r => Function.update rs c (rs c ++ [r])
  | .forEach _ => rs
  | .drop c => Function.update rs c []

/-- The records appended to a cluster since its last drop. -/
def staged (calls : List (Call n)) : Fin n → List Record := calls.foldl Call.stage fun _ => []

/-- The length with its leading field is a `uint32_t`, and so are the offset in the arena and the
number of records. -/
def Call.fits (s : ClusterStage n) : Call n → Bool
  | .append c r =>
    let k := s.clusters c
    r.len + 4 < 2 ^ 32 && (s.budget = 0 || k.spilled || k.arena.length < 2 ^ 32) &&
      k.recs.length + k.ramRecs.length + k.cpend.length + 1 < 2 ^ 32
  | _ => true

/-- Every call of the run fits the state it is made in. -/
def fits (s : ClusterStage n) : List (Call n) → Bool
  | [] => true
  | call :: rest =>
    call.fits s &&
      match call.exec s with
      | .ok s' => fits s' rest
      | .error _ => true

/-- The budget is kept, the records are held, and there are not too many to count. -/
structure Countable (s : ClusterStage n) (rs : Fin n → List Record) : Prop where
  within : Within s rs
  length_lt : ∀ c, (rs c).length < 2 ^ 32

lemma exec_spec {s : ClusterStage n} {rs : Fin n → List Record} (h : Countable s rs) {call : Call n}
    (hfits : call.fits s) : ∃ s', call.exec s = .ok s' ∧ Countable s' (call.stage rs) := by
  cases call with
  | append c r =>
    simp only [Call.fits, Bool.and_eq_true, Bool.or_eq_true, decide_eq_true_eq] at hfits
    obtain ⟨⟨hr, harena⟩, hcount⟩ := hfits
    have hlt : s.budget ≠ 0 → (s.clusters c).spilled = false →
        (s.clusters c).arena.length < 2 ^ 32 := by
      intro h0 hs
      simpa [h0, hs] using harena
    obtain ⟨s', hs', h'⟩ := append_spec h.within hr hlt
    refine ⟨s', hs', h', fun c' => ?_⟩
    by_cases hcc : c' = c
    · subst hcc
      rw [(h.within.holds.cluster c').length_eq] at hcount
      simpa [Call.stage] using hcount
    · simpa [Call.stage, Function.update_of_ne hcc] using h.length_lt c'
  | forEach c =>
    obtain ⟨s', hs', h'⟩ := forEach_spec h.within c
    exact ⟨s', by simp only [Call.exec, hs', ok_bind]; rfl, h', h.length_lt⟩
  | drop c =>
    refine ⟨s.drop c, rfl, drop_spec h.within c, fun c' => ?_⟩
    by_cases hcc : c' = c
    · subst hcc
      simp [Call.stage]
    · simpa [Call.stage, Function.update_of_ne hcc] using h.length_lt c'

lemma run_spec {s : ClusterStage n} {rs : Fin n → List Record} (h : Countable s rs)
    {calls : List (Call n)} (hfits : fits s calls) :
    ∃ s', run s calls = .ok s' ∧ Countable s' (calls.foldl Call.stage rs) := by
  induction calls generalizing s rs with
  | nil => exact ⟨s, rfl, h⟩
  | cons call rest ih =>
    simp only [fits, Bool.and_eq_true] at hfits
    obtain ⟨s₁, hs₁, h₁⟩ := exec_spec h hfits.1
    rw [hs₁] at hfits
    obtain ⟨s', hs', h'⟩ := ih h₁ hfits.2
    refine ⟨s', ?_, h'⟩
    rw [run, List.foldlM_cons, hs₁]
    exact hs'

lemma fits_of_front {s : ClusterStage n} {done calls : List (Call n)} (h : done <+: calls)
    (hfits : fits s calls) : fits s done := by
  induction done generalizing s calls with
  | nil => rfl
  | cons call done ih =>
    obtain ⟨rest, rfl⟩ := h
    simp only [List.cons_append, fits, Bool.and_eq_true] at hfits ⊢
    refine ⟨hfits.1, ?_⟩
    cases hs : call.exec s with
    | ok s' =>
      rw [hs] at hfits
      exact ih (List.prefix_append _ _) hfits.2
    | error e => rfl

/-- After any calls that fit, from any budget and in any order, a cluster delivers the records
appended to it since its last drop, in order, and counts them; whatever was spilled in between. -/
theorem replays_of_run (budget : ℕ) {calls : List (Call n)} (h : fits { budget := budget } calls)
    {done : List (Call n)} (hdone : done <+: calls) :
    ∃ s, run { budget := budget } done = .ok s ∧ ∀ c,
      (∃ s', s.forEach c = .ok ((staged done c).map Record.body, s')) ∧
      s.count c = (staged done c).length := by
  have hnew : Countable ({ budget := budget } : ClusterStage n) fun _ => [] :=
    ⟨⟨holds_new budget, Nat.zero_le _⟩, fun _ => by simp⟩
  obtain ⟨s, hs, hend⟩ := run_spec hnew (fits_of_front hdone h)
  refine ⟨s, hs, fun c => ⟨?_, ?_⟩⟩
  · obtain ⟨s', hs', -⟩ := forEach_spec hend.within c
    exact ⟨s', hs'⟩
  · rw [count, (hend.within.holds.cluster c).length_eq]
    exact u32_of_lt (hend.length_lt c)

section Examples

/-- A record of the bytes `b`. -/
def small (b : Bytes) (h : b.length < 2 ^ 32) : Record where
  lead := [UInt8.ofNat b.length, 0, 0, 0]
  body := b
  length_lead := rfl
  length_body_lt := h

/-- Two clusters with room for two records of one byte: the third append spills the first cluster. -/
def spillingCalls : List (Call 2) :=
  [.append 0 (small [1] (by decide)), .append 1 (small [2] (by decide)),
    .append 0 (small [3] (by decide)), .forEach 0, .append 0 (small [4] (by decide)), .drop 1]

theorem replays_of_spilling_calls : ∃ s, run { budget := 12 } spillingCalls = .ok s ∧ ∀ c,
    (∃ s', s.forEach c = .ok ((staged spillingCalls c).map Record.body, s')) ∧
    s.count c = (staged spillingCalls c).length :=
  replays_of_run 12 (by decide +kernel) (List.prefix_refl _)

/-- A record of length `2 ^ 32 - 4`: with its leading field its length wraps to zero. -/
def huge : Record where
  lead := [0xfc, 0xff, 0xff, 0xff]
  body := List.replicate (2 ^ 32 - 4) 0
  length_lead := rfl
  length_body_lt := List.length_replicate.trans_lt (by decide)

end Examples

/-- A record whose length wraps to zero leaves no bytes in the buffer, and an empty buffer is never
flushed. -/
lemma append_of_total_eq_zero {r : Record} (h : r.total = 0) :
    ∃ s, run { budget := 0 } [Call.append (0 : Fin 1) r] = .ok s ∧
      (∀ c, (s.clusters c).arena = []) ∧ s.forEach 0 = .ok ([], s) := by
  set s : ClusterStage 1 :=
    { budget := 0
      clusters := fun _ => { spilled := true, cbufCapacity := kCWriteBuf, cpend := [(0, r.len)] }
      nDedicated := 1
      disk := { file := some [] } } with hs
  refine ⟨s, ?_, fun _ => rfl, rfl⟩
  have hk : 0 < kCWriteBuf := by decide
  have hd : 0 < kMaxDedicated := by decide
  have happend : ({ budget := 0 } : ClusterStage 1).append 0 r = .ok s := by
    simp only [hs, append, appendDisk, dedicated, appendOwn, reserve, makeRoom, h, set, u32,
      StageFile.ensureOpen]
    simp only [hk, hd, Function.update_self, Function.update_idem, true_or, if_true, decide_true,
      Bool.and_self, Bool.or_true, List.length_nil, add_zero, not_lt_zero, if_false, ok_bind,
      List.take_zero, List.append_nil, List.nil_append, Nat.zero_mod, max_eq_left (Nat.zero_le _),
      Option.getD_none, zero_add]
    congr 2
    funext c
    rw [Subsingleton.elim c 0, Function.update_self]
  rw [run, List.foldlM_cons, Call.exec, happend]
  rfl

theorem huge_record_is_lost : ∃ s, run { budget := 0 } [Call.append (0 : Fin 1) huge] = .ok s ∧
    (∀ c, (s.clusters c).arena.length < 2 ^ 32) ∧
    (staged [Call.append (0 : Fin 1) huge] 0).map Record.body = [huge.body] ∧
    ¬ ∃ s', s.forEach 0 = .ok ([huge.body], s') := by
  have hlen : huge.len = 2 ^ 32 - 4 := List.length_replicate
  have htotal : huge.total = 0 := by
    rw [Record.total, hlen]
    decide
  obtain ⟨s, hs, harena, hout⟩ := append_of_total_eq_zero htotal
  refine ⟨s, hs, fun c => by rw [harena c]; decide, rfl, ?_⟩
  rintro ⟨s', hs'⟩
  rw [hout] at hs'
  cases hs'

end SextantTree.ClusterStage
