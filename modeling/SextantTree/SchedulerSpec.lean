import Mathlib.Algebra.BigOperators.Group.Multiset.Basic
import SextantTree.Scheduler

/-!
What the scheduler keeps track of over every interleaving: each future handed out belongs to a
query that is queued, in a window that is being searched, or answered, and the slots in use are the
windows being searched. A window that throws keeps its slot and takes its promises with it.
-/

namespace SextantTree.Scheduler

variable {ρ : Type}

/-! ### The books -/

/-- The promises of a task that are still to be set. -/
def pending (t : Task) : Multiset ℕ := if t.phase = .sweeping then (t.window.map (·.id) : List ℕ) else 0

def slot (t : Task) : ℕ := if t.phase = .sweeping ∨ t.phase = .delivered then 1 else 0

def launchWindow : Sweeper → List Submission
  | .launching w => w
  | _ => []

def launchSlot : Sweeper → ℕ
  | .launching _ => 1
  | _ => 0

section Books

variable (env : SchedulerEnv ρ) (st : Scheduler)

def queued : Multiset ℕ := (st.queue.map (·.id) : List ℕ)

def dispatching : Multiset ℕ :=
  ((launchWindow st.sweeper).map (·.id) : List ℕ) + (st.tasks.map pending).sum

def answered : Multiset ℕ := (st.answers.map (·.1.id) : List ℕ)

def running : ℕ := launchSlot st.sweeper + (st.tasks.map slot).sum

structure Accounts : Prop where
  /-- Every future is that of a query in one of the three places. -/
  everyone : queued st + dispatching st + answered st = (st.accepted : Multiset ℕ)
  /-- And of one query only. -/
  once : st.accepted.Nodup
  inflight_eq : st.inflight = running st
  inflight_le : st.inflight ≤ env.config.maxInflight
  launch_le : (launchWindow st.sweeper).length ≤ env.config.maxWindow
  window_le : ∀ t ∈ st.tasks, t.window.length ≤ env.config.maxWindow
  /-- No exception is waiting for the sweeper, and none has reached it. -/
  sound : st.terminated = false ∧ ∀ t ∈ st.tasks, t.phase ≠ .failed

/-- A close finds a queue no longer than a window, and a free slot if the scheduler is stopped
already; no search throws. -/
def Orderly (st : Scheduler) : Event ρ → Prop
  | .close _ => st.queue.length ≤ env.config.maxWindow ∧
      (st.stopped = true → st.inflight < env.config.maxInflight)
  | .finish i r => ∀ t, st.tasks[i]? = some t →
      ∃ out, env.batch r (windowK t.window) (t.window.map (·.request)) = .ok out
  | _ => True

/-- States that a run of steps with `P` leads to. -/
inductive Reachable (P : Scheduler → Event ρ → Prop) : Scheduler → Prop
  | start : Reachable P {}
  | next {st st' : Scheduler} (h : Reachable P st) (ev : Event ρ) (hev : P st ev)
      (hstep : st.step env ev = some st') : Reachable P st'

structure Inv : Prop extends Accounts env st where
  /-- A query that has not reached the queue has an id of its own. -/
  fresh : ((st.arriving.map (·.id)) ++ st.accepted).Nodup
  below : ∀ i ∈ (st.arriving.map (·.id)) ++ st.accepted, i < st.nextId

end Books

section Steps

variable {env : SchedulerEnv ρ} {st st' : Scheduler}

lemma sum_map_set {M : Type} [AddCommMonoid M] (f : Task → M) {ts : List Task} {i : ℕ} {t : Task}
    (ht : ts[i]? = some t) (t' : Task) :
    ((ts.set i t').map f).sum + f t = (ts.map f).sum + f t' := by
  induction ts generalizing i with
  | nil => cases ht
  | cons a ts ih =>
    cases i with
    | zero =>
      cases ht
      rw [List.set_cons_zero, List.map_cons, List.map_cons, List.sum_cons, List.sum_cons]
      abel
    | succ i =>
      have hrest := ih ht
      rw [List.set_cons_succ, List.map_cons, List.map_cons, List.sum_cons, List.sum_cons, add_assoc, hrest,
        add_assoc]

lemma forall_mem_set {P : Task → Prop} {ts : List Task} {i : ℕ} {t : Task} (hts : ∀ t ∈ ts, P t) (ht : P t) :
    ∀ t' ∈ ts.set i t, P t' := by
  intro t' hmem
  rcases List.mem_or_eq_of_mem_set hmem with h | rfl
  · exact hts t' h
  · exact ht

lemma insertByDeadline_perm (e : Submission) (queue : List Submission) :
    (insertByDeadline e queue).Perm (e :: queue) := by
  refine List.perm_middle.trans (.cons e ?_)
  rw [List.takeWhile_append_dropWhile]

lemma closing_append_remaining (st : Scheduler) : st.closing ++ st.remaining = st.queue := by
  rw [closing, remaining]
  split
  · exact List.takeWhile_append_dropWhile
  · exact List.append_nil _

lemma Inv.arrive (h : Inv env st) (e : Submission) (he : e.id = st.nextId) :
    Inv env { st with nextId := st.nextId + 1, arriving := st.arriving ++ [e] } := by
  have hnew : e.id ∉ st.arriving.map (·.id) ++ st.accepted := fun hmem =>
    absurd (h.below _ hmem) (he ▸ lt_irrefl _)
  have hperm : ((st.arriving ++ [e]).map (·.id) ++ st.accepted).Perm
      (e.id :: (st.arriving.map (·.id) ++ st.accepted)) := by
    rw [List.map_append, List.append_assoc]
    exact List.perm_middle
  refine ⟨⟨h.everyone, h.once, h.inflight_eq, h.inflight_le, h.launch_le, h.window_le, h.sound⟩, ?_, ?_⟩
  · exact hperm.nodup_iff.mpr (List.nodup_cons.mpr ⟨hnew, h.fresh⟩)
  · intro i hi
    rcases List.mem_cons.mp (hperm.mem_iff.mp hi) with rfl | hi
    · exact he ▸ Nat.lt_succ_self _
    · exact (h.below i hi).trans (Nat.lt_succ_self _)

lemma Inv.hit (h : Inv env st) (e : Submission) (he : e.id = st.nextId) (cache : List CacheEntry)
    (results : List Candidate) :
    Inv env { st with
      nextId := st.nextId + 1, cache := cache, accepted := e.id :: st.accepted,
      answers := (e, results) :: st.answers } := by
  have hnew : e.id ∉ st.arriving.map (·.id) ++ st.accepted := fun hmem =>
    absurd (h.below _ hmem) (he ▸ lt_irrefl _)
  have hperm : (st.arriving.map (·.id) ++ e.id :: st.accepted).Perm
      (e.id :: (st.arriving.map (·.id) ++ st.accepted)) := List.perm_middle
  have hfresh := List.nodup_cons.mpr ⟨hnew, h.fresh⟩
  refine ⟨⟨?_, ?_, h.inflight_eq, h.inflight_le, h.launch_le, h.window_le, h.sound⟩,
    hperm.nodup_iff.mpr hfresh, ?_⟩
  · change queued st + dispatching st + (e.id ::ₘ answered st) = e.id ::ₘ (st.accepted : Multiset ℕ)
    rw [Multiset.add_cons, h.everyone]
  · exact hfresh.sublist (.cons_cons _ (List.sublist_append_right _ _))
  · intro i hi
    rcases List.mem_cons.mp (hperm.mem_iff.mp hi) with rfl | hi
    · exact he ▸ Nat.lt_succ_self _
    · exact (h.below i hi).trans (Nat.lt_succ_self _)

lemma Inv.lookup (h : Inv env st) (q : Vec) (k : ℕ) (ps : List Predicate) (delay : ℕ) (frac : ℚ) :
    Inv env (st.lookup env q k ps delay frac) := by
  set e : Submission := ⟨st.nextId, q, k, ps, frac, st.now + env.config.delayNs delay⟩ with he
  rw [Scheduler.lookup]
  dsimp only
  rw [← he]
  split
  case isTrue =>
    split
    case h_1 c _ => exact h.hit e rfl _ c.results
    case h_2 => exact h.arrive e rfl
  case isFalse => exact h.arrive e rfl

lemma Inv.enqueue (h : Inv env st) {i : ℕ} (hstep : st.enqueue i = some st') : Inv env st' := by
  obtain ⟨e, he, hstep⟩ := Option.bind_eq_some_iff.mp hstep
  obtain ⟨hi, rfl⟩ := List.getElem?_eq_some_iff.mp he
  have hperm : (st.arriving[i].id :: (st.arriving.eraseIdx i).map (·.id)).Perm (st.arriving.map (·.id)) :=
    (List.getElem_cons_eraseIdx_perm hi).map Submission.id
  have hfresh := (hperm.append_right st.accepted).nodup_iff.mpr h.fresh
  have hbelow : ∀ j ∈ st.arriving[i].id :: ((st.arriving.eraseIdx i).map (·.id) ++ st.accepted),
      j < st.nextId := fun j hj => h.below j ((hperm.append_right st.accepted).mem_iff.mp hj)
  dsimp only at hstep
  split at hstep
  case isTrue =>
    -- after a stop the submission is turned away
    cases hstep
    exact ⟨⟨h.everyone, h.once, h.inflight_eq, h.inflight_le, h.launch_le, h.window_le, h.sound⟩,
      hfresh.of_cons, fun j hj => hbelow j (List.mem_cons_of_mem _ hj)⟩
  case isFalse =>
    cases hstep
    have hmove : ((st.arriving.eraseIdx i).map (·.id) ++ st.arriving[i].id :: st.accepted).Perm
        (st.arriving[i].id :: ((st.arriving.eraseIdx i).map (·.id) ++ st.accepted)) := List.perm_middle
    refine ⟨⟨?_, ?_, h.inflight_eq, h.inflight_le, h.launch_le, h.window_le, h.sound⟩,
      hmove.nodup_iff.mpr hfresh, fun j hj => hbelow j (hmove.mem_iff.mp hj)⟩
    · have hqueue : (((insertByDeadline st.arriving[i] st.queue).map (·.id) : List ℕ) : Multiset ℕ) =
          st.arriving[i].id ::ₘ queued st :=
        Multiset.coe_eq_coe.mpr ((insertByDeadline_perm _ _).map (·.id))
      change (((insertByDeadline st.arriving[i] st.queue).map (·.id) : List ℕ) : Multiset ℕ) +
        dispatching st + answered st = st.arriving[i].id ::ₘ (st.accepted : Multiset ℕ)
      rw [hqueue, Multiset.cons_add, Multiset.cons_add, h.everyone]
    · exact hfresh.sublist (.cons_cons _ (List.sublist_append_right _ _))

lemma length_closing_le (st : Scheduler) : st.closing.length ≤ st.queue.length := by
  rw [← closing_append_remaining st, List.length_append]
  exact Nat.le_add_right _ _

/-- **The capacity gate**: a close of a scheduler that is not stopped has a free slot. -/
lemma free_of_mayClose {idle : Bool} (hclose : st.mayClose env idle = true) (hrun : st.stopped = false) :
    st.inflight < env.config.maxInflight := by
  rw [mayClose, hrun, Bool.false_or] at hclose
  exact of_decide_eq_true (Bool.and_elim_right (Bool.and_elim_left hclose))

lemma Inv.close (h : Inv env st) {idle : Bool} (hev : Orderly env st (.close idle))
    (hstep : st.close env idle = some st') : Inv env st' := by
  obtain ⟨hqueue, hstopped⟩ := hev
  have hsmall : st.closing.length ≤ env.config.maxWindow := (length_closing_le st).trans hqueue
  rw [Scheduler.close] at hstep
  split at hstep
  case h_2 => cases hstep
  case h_1 hsweeper =>
    split at hstep
    case isFalse => cases hstep
    case isTrue hgate =>
      have hfree : st.inflight < env.config.maxInflight := by
        cases hrun : st.stopped with
        | false => exact free_of_mayClose hgate hrun
        | true => exact hstopped hrun
      cases hstep
      refine ⟨⟨?_, h.once, ?_, hfree, hsmall, h.window_le, h.sound⟩, h.fresh, h.below⟩
      · have hsplit : queued st = ((st.closing.map (·.id) : List ℕ) : Multiset ℕ) +
            ((st.remaining.map (·.id) : List ℕ) : Multiset ℕ) := by
          rw [Multiset.coe_add, ← List.map_append, closing_append_remaining, queued]
        have hevery := h.everyone
        rw [hsplit, dispatching, hsweeper] at hevery
        rw [← hevery]
        simp only [queued, dispatching, answered, launchWindow, List.map_nil, Multiset.coe_nil, zero_add]
        abel
      · have hcount := h.inflight_eq
        rw [running, hsweeper] at hcount
        simp only [running, launchSlot, hcount]
        omega

lemma Inv.launch (h : Inv env st) (hstep : st.launch = some st') : Inv env st' := by
  rw [Scheduler.launch] at hstep
  split at hstep
  case h_2 => cases hstep
  case h_1 w hsweeper =>
    cases hstep
    have hwindow : w.length ≤ env.config.maxWindow := by simpa only [hsweeper, launchWindow] using h.launch_le
    refine ⟨⟨?_, h.once, ?_, h.inflight_le, Nat.zero_le _, ?_, h.sound.1, ?_⟩, h.fresh, h.below⟩
    · have hevery := h.everyone
      rw [dispatching, hsweeper] at hevery
      rw [← hevery]
      simp only [queued, dispatching, answered, launchWindow, pending, List.map_append, List.sum_append,
        List.map_cons, List.map_nil, List.sum_cons, List.sum_nil, Multiset.coe_nil, if_true, add_zero]
      abel
    · have hcount := h.inflight_eq
      rw [running, hsweeper] at hcount
      simp only [running, launchSlot, hcount, slot, List.map_append, List.sum_append, List.map_cons,
        List.map_nil, List.sum_cons, List.sum_nil, true_or, if_true]
      omega
    · intro t ht
      rcases List.mem_append.mp ht with ht | ht
      · exact h.window_le t ht
      · obtain rfl := List.mem_singleton.mp ht
        exact hwindow
    · intro t ht
      rcases List.mem_append.mp ht with ht | ht
      · exact h.sound.2 t ht
      · obtain rfl := List.mem_singleton.mp ht
        exact Phase.noConfusion

lemma sum_filter_finished {M : Type} [AddCommMonoid M] (f : Task → M)
    (hf : ∀ t : Task, t.phase = .finished → f t = 0) (ts : List Task) :
    ((ts.filter (·.phase != .finished)).map f).sum = (ts.map f).sum := by
  induction ts with
  | nil => rfl
  | cons t ts ih =>
    by_cases ht : t.phase = .finished
    · rw [List.filter_cons_of_neg (by simp [ht]), ih, List.map_cons, List.sum_cons, hf t ht, zero_add]
    · rw [List.filter_cons_of_pos (by simp [ht]), List.map_cons, List.map_cons, List.sum_cons,
        List.sum_cons, ih]

lemma Inv.reap (h : Inv env st) (hstep : st.reap = some st') : Inv env st' := by
  rw [Scheduler.reap] at hstep
  split at hstep
  case h_2 => cases hstep
  case h_1 hsweeper =>
    split at hstep
    case isTrue hfailed =>
      obtain ⟨t, ht, hphase⟩ := List.any_eq_true.mp hfailed
      exact absurd (beq_iff_eq.mp hphase) (h.sound.2 t ht)
    case isFalse =>
      cases hstep
      have hpending := sum_filter_finished pending (fun t ht => by simp [pending, ht]) st.tasks
      have hslot := sum_filter_finished slot (fun t ht => by simp [slot, ht]) st.tasks
      refine ⟨⟨?_, h.once, ?_, h.inflight_le, Nat.zero_le _, fun t ht => h.window_le t (List.mem_of_mem_filter ht),
        h.sound.1, fun t ht => h.sound.2 t (List.mem_of_mem_filter ht)⟩, h.fresh, h.below⟩
      · have hevery := h.everyone
        rw [dispatching, hsweeper] at hevery
        simpa only [queued, dispatching, answered, launchWindow, hpending] using hevery
      · have hcount := h.inflight_eq
        rw [running, hsweeper] at hcount
        simpa only [running, launchSlot, hslot] using hcount

lemma Inv.exit (h : Inv env st) (hstep : st.exit = some st') : Inv env st' := by
  rw [Scheduler.exit] at hstep
  split at hstep
  case h_2 => cases hstep
  case h_1 hsweeper =>
    split at hstep
    case isFalse => cases hstep
    case isTrue =>
      cases hstep
      refine ⟨⟨?_, h.once, ?_, h.inflight_le, Nat.zero_le _, h.window_le, h.sound⟩, h.fresh, h.below⟩
      · simpa only [queued, dispatching, answered, launchWindow, hsweeper] using h.everyone
      · simpa only [running, launchSlot, hsweeper] using h.inflight_eq

lemma Inv.finish (h : Inv env st) {i : ℕ} {r : ρ} (hev : Orderly env st (.finish i r))
    (hstep : st.finish env i r = some st') : Inv env st' := by
  obtain ⟨t, ht, hstep⟩ := Option.bind_eq_some_iff.mp hstep
  obtain ⟨out, hout⟩ := hev t ht
  have hmem : t ∈ st.tasks := List.mem_of_getElem? ht
  split at hstep
  case isFalse => cases hstep
  case isTrue hphase =>
    rw [hout] at hstep
    cases hstep
    refine ⟨⟨?_, h.once, ?_, h.inflight_le, h.launch_le, forall_mem_set h.window_le (h.window_le t hmem),
      h.sound.1, forall_mem_set h.sound.2 Phase.noConfusion⟩, h.fresh, h.below⟩
    · -- the promises of the window move from the task to the answers
      have hpending : pending t = ((t.window.map (·.id) : List ℕ) : Multiset ℕ) := if_pos hphase
      have hdone : pending ⟨t.window, .delivered⟩ = 0 := if_neg Phase.noConfusion
      have hset := sum_map_set pending ht ⟨t.window, .delivered⟩
      have hids : ((t.window.zip out).map fun x => (x.1, answer env x.1 x.2)).map (·.1.id) =
          t.window.map (·.id) := by
        have hlen : t.window.length ≤ out.length := by
          rw [env.batch_length hout, List.length_map]
        rw [List.map_map, ← List.map_fst_zip hlen, List.map_map]
        simp only [List.map_fst_zip hlen]
        rfl
      rw [hpending, hdone, add_zero] at hset
      have hevery := h.everyone
      rw [dispatching, ← hset] at hevery
      rw [← hevery]
      simp only [queued, dispatching, answered, List.map_append, hids, ← Multiset.coe_add]
      abel
    · have hset := sum_map_set slot ht ⟨t.window, .delivered⟩
      have hslot : slot t = 1 := if_pos (.inl hphase)
      have hstill : slot ⟨t.window, .delivered⟩ = 1 := if_pos (.inr rfl)
      have hcount := h.inflight_eq
      simp only [running] at hcount ⊢
      omega

lemma Inv.retire (h : Inv env st) {i : ℕ} (hstep : st.retire i = some st') : Inv env st' := by
  obtain ⟨t, ht, hstep⟩ := Option.bind_eq_some_iff.mp hstep
  have hmem : t ∈ st.tasks := List.mem_of_getElem? ht
  split at hstep
  case isFalse => cases hstep
  case isTrue hphase =>
    cases hstep
    refine ⟨⟨?_, h.once, ?_, (Nat.sub_le _ 1).trans h.inflight_le, h.launch_le,
      forall_mem_set h.window_le (h.window_le t hmem), h.sound.1,
      forall_mem_set h.sound.2 Phase.noConfusion⟩, h.fresh, h.below⟩
    · have hset := sum_map_set pending ht ⟨t.window, .finished⟩
      have hnone : pending t = 0 := if_neg (by rw [hphase]; exact Phase.noConfusion)
      have hdone : pending ⟨t.window, .finished⟩ = 0 := if_neg Phase.noConfusion
      rw [hnone, hdone, add_zero, add_zero] at hset
      simpa only [queued, dispatching, answered, hset] using h.everyone
    · have hset := sum_map_set slot ht ⟨t.window, .finished⟩
      have hslot : slot t = 1 := if_pos (.inr hphase)
      have hfree : slot ⟨t.window, .finished⟩ = 0 := if_neg (by simp)
      have hcount := h.inflight_eq
      simp only [running] at hcount ⊢
      omega

lemma Inv.step (h : Inv env st) {ev : Event ρ} (hev : Orderly env st ev)
    (hstep : st.step env ev = some st') : Inv env st' := by
  cases ev with
  | tick ns =>
    cases hstep
    exact ⟨⟨h.everyone, h.once, h.inflight_eq, h.inflight_le, h.launch_le, h.window_le, h.sound⟩, h.fresh,
      h.below⟩
  | stop =>
    cases hstep
    exact ⟨⟨h.everyone, h.once, h.inflight_eq, h.inflight_le, h.launch_le, h.window_le, h.sound⟩, h.fresh,
      h.below⟩
  | lookup q k ps delay frac =>
    cases hstep
    exact h.lookup q k ps delay frac
  | enqueue i => exact h.enqueue hstep
  | close idle => exact h.close hev hstep
  | launch => exact h.launch hstep
  | reap => exact h.reap hstep
  | exit => exact h.exit hstep
  | finish i r => exact h.finish hev hstep
  | retire i => exact h.retire hstep

lemma inv_init (env : SchedulerEnv ρ) : Inv env {} := by
  refine ⟨⟨rfl, .nil, rfl, Nat.zero_le _, Nat.zero_le _, ?_, rfl, ?_⟩, .nil, ?_⟩
  · exact fun t ht => (List.not_mem_nil ht).elim
  · exact fun t ht => (List.not_mem_nil ht).elim
  · exact fun i hi => (List.not_mem_nil hi).elim

/-- **The scheduler accounts for every submission** in every run without a search that throws, in
which a close finds no more than a window in the queue and, once stopped, a free slot. -/
theorem accounts_of_reachable (h : Reachable env (Orderly env) st) : Accounts env st := by
  have hinv : Inv env st := by
    induction h with
    | start => exact inv_init env
    | next _ ev hev hstep ih => exact ih.step hev hstep
  exact hinv.toAccounts

end Steps

section Examples

/-- One slot; the search throws for a query with predicates and finds nothing for the others. -/
def throwingEnv : SchedulerEnv Unit where
  config := { maxInflightWindows := 1 }
  adaptive := false
  batch _ _ qs :=
    if qs.any (!·.predicates.isEmpty) then .error (.thrown "unknown predicate column") else .ok (qs.map fun _ => [])
  batch_length := by
    intro _ _ qs out h
    split at h
    · cases h
    · cases h
      exact List.length_map _

/-- A query comes, is searched and answered. -/
theorem accounts_of_answered :
    ∃ st, Accounts throwingEnv st ∧ answered st = {0} ∧ st.inflight = 0 := by
  have h₁ : Reachable throwingEnv (Orderly throwingEnv) _ :=
    (Reachable.start.next (.lookup [] 1 [] 0 0) trivial rfl).next (.enqueue 0) trivial rfl
  have h₂ : Reachable throwingEnv (Orderly throwingEnv) _ :=
    ((h₁.next (.close true) ⟨by decide, fun hstop => by cases hstop⟩ rfl).next .launch trivial rfl).next
      .reap trivial rfl
  have h₃ : Reachable throwingEnv (Orderly throwingEnv) _ :=
    (h₂.next (.finish 0 ()) (fun t ht => by cases ht; exact ⟨_, rfl⟩) rfl).next (.retire 0)
      trivial rfl
  exact ⟨_, accounts_of_reachable h₃, rfl, rfl⟩

/-- A window that throws keeps the only slot: its own query is lost and the next one stays in the
queue. -/
theorem throwing_window_keeps_slot :
    ∃ st, run throwingEnv [.lookup [] 1 [eqPred 5] 0 0, .enqueue 0, .close true, .launch, .reap,
        .finish 0 (), .lookup [] 1 [] 0 0, .enqueue 0] {} = some st ∧
      ¬ Accounts throwingEnv st ∧ st.inflight = 1 ∧ running st = 0 ∧ st.accepted = [1, 0] ∧
      queued st + dispatching st + answered st = {1} ∧ ∀ idle, st.close throwingEnv idle = none := by
  refine ⟨_, rfl, ?_, rfl, rfl, rfl, rfl, ?_⟩
  · intro h
    exact absurd h.inflight_eq (by decide)
  · intro idle
    cases idle <;> rfl

end Examples

end SextantTree.Scheduler
