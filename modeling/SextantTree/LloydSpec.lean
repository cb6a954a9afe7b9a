import SextantTree.Lloyd
import SextantTree.OpenRoute
import Mathlib.Data.Rat.Defs
import Mathlib.Tactic.Linarith

/-!
When a pass counts every row: the slots are per piece of a chunk, so they are private to a task
exactly as long as one callback runs at a time.
-/

namespace SextantTree.Lloyd

open SplitAdd

variable {P : Pass}

lemma Reachable.induct {I : State → Prop} (hinit : I (init P))
    (hstep : ∀ s a s', I s → step P s a = some s' → I s') {s : State} (h : Reachable P s) :
    I s := by
  obtain ⟨as, hrun⟩ := h
  suffices hsuff : ∀ (as : List Action) (s₀ : State), I s₀ → run P s₀ as = some s → I s from
    hsuff as _ hinit hrun
  intro as
  induction as with
  | nil =>
    intro s₀ h₀ h
    cases h
    exact h₀
  | cons a as ih =>
    intro s₀ h₀ h
    obtain ⟨s₁, h₁, h₂⟩ := Option.bind_eq_some_iff.mp (show (step P s₀ a).bind _ = some s from h)
    exact ih s₁ (hstep s₀ a s₁ h₀ h₁) h₂

/-! ### What a row adds -/

def rowsOwed (P : Pass) (rows : List Vec) (c : Cell) : ℚ := owed (rows.flatMap P.updates) c

@[simp] lemma rowsOwed_nil (c : Cell) : rowsOwed P [] c = 0 := rfl

lemma rowsOwed_append (xs ys : List Vec) (c : Cell) :
    rowsOwed P (xs ++ ys) c = rowsOwed P xs c + rowsOwed P ys c := by
  simp only [rowsOwed, List.flatMap_append, owed_append]

lemma assign_lt (v : Vec) : P.assign v < P.kRoot := by
  have hne : (P.centroids.map fun c => some (dot c c - 2 * dot (P.project v) c)) ≠ [] := by
    simpa using P.centroids_ne
  exact (nearest_lt hne).trans_eq (List.length_map _)

lemma sumIndex_inj {d a b k j : ℕ} (hk : k < d) (hj : j < d) (h : a * d + k = b * d + j) :
    a = b ∧ k = j := by
  have hd : 0 < d := by omega
  have ha : (a * d + k) / d = a := by
    rw [Nat.mul_comm, Nat.mul_add_div hd, Nat.div_eq_of_lt hk, Nat.add_zero]
  have hb : (b * d + j) / d = b := by
    rw [Nat.mul_comm, Nat.mul_add_div hd, Nat.div_eq_of_lt hj, Nat.add_zero]
  have hab : a = b := by rw [← ha, ← hb, h]
  subst hab
  exact ⟨rfl, by omega⟩

lemma owed_updates_count (v : Vec) (c : ℕ) :
    owed (P.updates v) (.count c) = if P.assign v = c then 1 else 0 := by
  have hzero : ∀ ks : List ℕ, owed (ks.map fun k =>
      ((Cell.sum (P.assign v * P.pcaDims + k), (P.project v).getD k 0) : Cell × ℚ))
        (.count c) = 0 := by
    intro ks
    induction ks with
    | nil => rfl
    | cons k ks ih => rw [List.map_cons, owed_cons, ih, if_neg (by simp), add_zero]
  rw [Pass.updates, owed_append, hzero, zero_add, owed_cons, owed_nil, add_zero]
  simp only [Cell.count.injEq]

lemma owed_updates_sum (v : Vec) {c k : ℕ} (hk : k < P.pcaDims) :
    owed (P.updates v) (.sum (c * P.pcaDims + k)) =
      if P.assign v = c then (P.project v).getD k 0 else 0 := by
  have hkeys : ∀ n ≤ P.pcaDims, owed ((List.range n).map fun j =>
      ((Cell.sum (P.assign v * P.pcaDims + j), (P.project v).getD j 0) : Cell × ℚ))
        (.sum (c * P.pcaDims + k)) =
      if P.assign v = c ∧ k < n then (P.project v).getD k 0 else 0 := by
    intro n
    induction n with
    | zero => simp
    | succ n ih =>
      intro hn
      rw [List.range_succ, List.map_append, owed_append, ih (by omega), List.map_cons, List.map_nil,
        owed_cons, owed_nil, add_zero]
      simp only [Cell.sum.injEq]
      by_cases heq : P.assign v * P.pcaDims + n = c * P.pcaDims + k
      · obtain ⟨rfl, rfl⟩ := sumIndex_inj (by omega) hk heq
        simp
      · rw [if_neg heq, add_zero]
        have hiff : (P.assign v = c ∧ k < n) ↔ (P.assign v = c ∧ k < n + 1) := by
          constructor
          · exact fun h => ⟨h.1, by omega⟩
          · rintro ⟨rfl, h⟩
            exact ⟨rfl, by omega⟩
        simp only [hiff]
  rw [Pass.updates, owed_append, hkeys _ le_rfl, owed_cons, owed_nil]
  simp [hk]

lemma rowsOwed_cons (v : Vec) (rows : List Vec) (c : Cell) :
    rowsOwed P (v :: rows) c = owed (P.updates v) c + rowsOwed P rows c := by
  simp only [rowsOwed, List.flatMap_cons, owed_append]

lemma sum_rowsOwed_count (rows : List Vec) :
    ∑ c ∈ Finset.range P.kRoot, rowsOwed P rows (.count c) = rows.length := by
  induction rows with
  | nil => simp
  | cons v rows ih =>
    simp only [rowsOwed_cons, owed_updates_count, Finset.sum_add_distrib, ih, List.length_cons]
    rw [Finset.sum_ite_eq, if_pos (Finset.mem_range.mpr (assign_lt v))]
    push_cast
    ring

lemma rowsOwed_sum (rows : List Vec) {c k : ℕ} (hk : k < P.pcaDims) :
    rowsOwed P rows (.sum (c * P.pcaDims + k)) =
      ((rows.filter fun v => P.assign v = c).map fun v => (P.project v).getD k 0).sum := by
  induction rows with
  | nil => rfl
  | cons v rows ih =>
    rw [rowsOwed_cons, owed_updates_sum v hk, ih, List.filter_cons]
    by_cases h : P.assign v = c
    · simp [h]
    · simp [h]

/-! ### What is left of a pass -/

/-- The rows that a reader has taken and not pushed yet. -/
def Phase.rows (P : Pass) : Phase → List Vec
  | .fetch => []
  | .reading rest => rest.flatten
  | .pushing rest chunk t => chunk.drop (t * P.per chunk.length) ++ rest.flatten
  | .waiting rest => rest.flatten
  | .done => []

/-- Nothing of this reader is or will be in the pool before it takes another file. -/
def Phase.Idle : Phase → Prop
  | .fetch => True
  | .reading rest => rest.flatten = []
  | .pushing _ _ _ => False
  | .waiting _ => False
  | .done => True

/-- The reader is in the callback that pushed the task. -/
def Phase.Holds (slot : ℕ) : Phase → Prop
  | .pushing _ _ t => slot < t
  | .waiting _ => True
  | _ => False

def ahead (P : Pass) (s : State) : List Vec := (P.sources.drop s.nextShard).flatten.flatten

def taskOwed (task : Option Task) (c : Cell) : ℚ :=
  match task with
  | some t => owed t.worker.todo c
  | none => 0

/-- **The invariant of a pass with one busy reader.** -/
structure Inv (P : Pass) (s : State) : Prop where
  one : ∀ r r', ¬ (s.phase r).Idle → ¬ (s.phase r').Idle → r = r'
  last : ∀ r, ¬ (s.phase r).Idle → ahead P s = []
  readers : ∀ r, P.readers ≤ r → s.phase r = .done
  exhausted : ∀ r < P.readers, s.phase r = .done → P.sources.length ≤ s.nextShard
  task : ∀ i a, s.tasks i = some a →
    i < s.pushed ∧ a.slot < P.hw ∧ (s.phase a.reader).Holds a.slot
  distinct : ∀ i j a b, s.tasks i = some a → s.tasks j = some b → a.slot = b.slot → i = j
  fresh : ∀ i a, s.tasks i = some a → a.worker.Fresh (s.acc a.slot)
  total : ∀ c,
    ∑ t ∈ Finset.range P.hw, s.acc t c + ∑ i ∈ Finset.range s.pushed, taskOwed (s.tasks i) c +
      ∑ r ∈ Finset.range P.readers, rowsOwed P ((s.phase r).rows P) c + rowsOwed P (ahead P s) c =
    rowsOwed P P.rows c

/-! ### The pieces of a chunk -/

lemma per_pos {take : ℕ} (h : 0 < take) : 0 < P.per take := by
  have hn : 0 < P.nShards take := by
    have := P.hw_pos
    simp only [Pass.nShards]
    omega
  exact Nat.div_pos (by omega) hn

lemma le_nShards_mul_per (take : ℕ) : take ≤ P.nShards take * P.per take := by
  rcases Nat.eq_zero_or_pos take with rfl | h
  · exact Nat.zero_le _
  · have hn : 0 < P.nShards take := by
      have := P.hw_pos
      simp only [Pass.nShards]
      omega
    have hdiv := Nat.div_add_mod (take + P.nShards take - 1) (P.nShards take)
    have hmod := Nat.mod_lt (take + P.nShards take - 1) hn
    unfold Pass.per
    omega

lemma piece_append_drop (chunk : List Vec) (t : ℕ) :
    P.piece chunk t ++ chunk.drop ((t + 1) * P.per chunk.length) =
      chunk.drop (t * P.per chunk.length) := by
  have htake : P.piece chunk t =
      (chunk.drop (t * P.per chunk.length)).take (P.per chunk.length) := by
    simp only [Pass.piece]
    rw [List.take_eq_take_iff, List.length_drop]
    omega
  rw [htake, Nat.add_mul, Nat.one_mul, ← List.drop_drop, List.take_append_drop]

lemma drop_of_not_push {chunk : List Vec} {t : ℕ}
    (h : ¬ (t < P.nShards chunk.length ∧ t * P.per chunk.length <
      min (t * P.per chunk.length + P.per chunk.length) chunk.length)) :
    chunk.drop (t * P.per chunk.length) = [] := by
  rw [List.drop_eq_nil_iff]
  rcases Nat.eq_zero_or_pos chunk.length with h0 | h0
  · omega
  · have hper := per_pos (P := P) h0
    have hle := le_nShards_mul_per (P := P) chunk.length
    by_cases ht : t < P.nShards chunk.length
    · have hlast := not_and.mp h ht
      omega
    · exact hle.trans (Nat.mul_le_mul_right _ (Nat.le_of_not_lt ht))

/-! ### The invariant holds -/

lemma readers_pos : 0 < P.readers := by
  unfold Pass.readers
  split
  · rename_i h
    have hpar : 2 ≤ P.shards.length ∧ 2 ≤ min 4 P.hw := by simpa [Pass.parallel] using h
    omega
  · omega

lemma flatten_sources : P.sources.flatten.flatten = P.rows := by
  unfold Pass.sources Pass.rows
  split <;> simp

lemma inv_init : Inv P (init P) := by
  have hidle : ∀ r, ((init P).phase r).Idle := by
    intro r
    simp only [init]
    split <;> trivial
  refine ⟨fun r r' hr _ => absurd (hidle r) hr, fun r hr => absurd (hidle r) hr, fun r hr => ?_,
    fun r hr hd => ?_, fun i a h => ?_, fun i j a b h => ?_, fun i a h => ?_, fun c => ?_⟩
  · exact if_neg (by omega)
  · simp only [init, if_pos hr] at hd
    cases hd
  · cases h
  · cases h
  · cases h
  · have hrows : ∀ r, ((init P).phase r).rows P = [] := by
      intro r
      simp only [init]
      split <;> rfl
    simp only [hrows, rowsOwed_nil, Finset.sum_const_zero, add_zero]
    simp [init, ahead, flatten_sources]

namespace Inv

variable {s : State}

lemma lt_readers (h : Inv P s) {r : ℕ} (hr : s.phase r ≠ .done) : r < P.readers := by
  by_contra hge
  exact hr (h.readers r (by omega))

lemma move (h : Inv P s) {r : ℕ} {p : Phase} (hr : s.phase r ≠ .done) (hp : p ≠ .done)
    (hidle : (s.phase r).Idle → p.Idle) (hrows : p.rows P = (s.phase r).rows P)
    (hholds : ∀ i a, s.tasks i = some a → a.reader = r → p.Holds a.slot) :
    Inv P (s.setPhase r p) := by
  have hbusy : ∀ q, ¬ ((s.setPhase r p).phase q).Idle → ¬ (s.phase q).Idle := by
    intro q hq hsq
    by_cases hqr : q = r
    · subst hqr
      refine hq ?_
      simpa [State.setPhase] using hidle hsq
    · refine hq ?_
      simpa [State.setPhase, Function.update_of_ne hqr] using hsq
  refine ⟨fun q q' hq hq' => h.one q q' (hbusy q hq) (hbusy q' hq'),
    fun q hq => h.last q (hbusy q hq), fun q hq => ?_, fun q hq hd => ?_, fun i a hi => ?_,
    h.distinct, h.fresh, fun c => ?_⟩
  · have hqr : q ≠ r := by
      rintro rfl
      exact hr (h.readers q hq)
    simpa [State.setPhase, Function.update_of_ne hqr] using h.readers q hq
  · have hqr : q ≠ r := by
      rintro rfl
      exact hp (by simpa [State.setPhase] using hd)
    exact h.exhausted q hq (by simpa [State.setPhase, Function.update_of_ne hqr] using hd)
  · obtain ⟨hlt, hslot, hold⟩ := h.task i a hi
    refine ⟨hlt, hslot, ?_⟩
    by_cases hqr : a.reader = r
    · simpa [State.setPhase, hqr] using hholds i a hi hqr
    · simpa [State.setPhase, Function.update_of_ne hqr] using hold
  · have hsum := sum_update (fun p : Phase => rowsOwed P (p.rows P) c) s.phase (h.lt_readers hr) p
    rw [hrows, add_left_inj] at hsum
    have htotal := h.total c
    simp only [State.setPhase, ahead] at hsum htotal ⊢
    rw [hsum]
    exact htotal

lemma changeTask (h : Inv P s) {i : ℕ} {a a' : Task} (hi : s.tasks i = some a)
    (hreader : a'.reader = a.reader) (hslot : a'.slot = a.slot)
    (hfresh : a'.worker.Fresh (s.acc a.slot)) (htodo : a'.worker.todo = a.worker.todo) :
    Inv P (s.setTask i (some a')) := by
  have hold : ∀ j b, (s.setTask i (some a')).tasks j = some b →
      ∃ b₀, s.tasks j = some b₀ ∧ b.reader = b₀.reader ∧ b.slot = b₀.slot ∧
        b.worker.Fresh (s.acc b₀.slot) := by
    intro j b hj
    by_cases hji : j = i
    · subst hji
      simp only [State.setTask, Function.update_self, Option.some.injEq] at hj
      subst hj
      exact ⟨a, hi, hreader, hslot, hfresh⟩
    · simp only [State.setTask, Function.update_of_ne hji] at hj
      exact ⟨b, hj, rfl, rfl, h.fresh j b hj⟩
  refine ⟨h.one, h.last, h.readers, h.exhausted, fun j b hj => ?_, fun j k b c hj hk hs => ?_,
    fun j b hj => ?_, fun c => ?_⟩
  · obtain ⟨b₀, hj₀, hr, hs, -⟩ := hold j b hj
    rw [hr, hs]
    exact h.task j b₀ hj₀
  · obtain ⟨b₀, hj₀, -, hb, -⟩ := hold j b hj
    obtain ⟨c₀, hk₀, -, hc, -⟩ := hold k c hk
    exact h.distinct j k b₀ c₀ hj₀ hk₀ (by rw [← hb, ← hc, hs])
  · obtain ⟨b₀, -, -, hs, hf⟩ := hold j b hj
    rw [hs]
    exact hf
  · have hsum := sum_update (fun t => taskOwed t c) s.tasks (h.task i a hi).1 (some a')
    rw [hi] at hsum
    simp only [taskOwed, htodo, add_left_inj] at hsum
    have htotal := h.total c
    simp only [State.setTask, ahead, taskOwed] at hsum htotal ⊢
    rw [hsum]
    exact htotal

lemma holder (h : Inv P s) {i r : ℕ} {a : Task} (hi : s.tasks i = some a)
    (hr : ¬ (s.phase r).Idle) : a.reader = r := by
  have hold := (h.task i a hi).2.2
  refine h.one _ _ (fun hidle => ?_) hr
  cases hp : s.phase a.reader <;> rw [hp] at hold hidle <;> trivial

lemma ahead_take {shard : List (List Vec)} (hshard : P.sources[s.nextShard]? = some shard) :
    ahead P s = shard.flatten ++ (P.sources.drop (s.nextShard + 1)).flatten.flatten := by
  obtain ⟨hlt, rfl⟩ := List.getElem?_eq_some_iff.mp hshard
  rw [ahead, List.drop_eq_getElem_cons hlt, List.flatten_cons, List.flatten_append]

lemma take (h : Inv P s) {r : ℕ} (hr : s.phase r = .fetch) {shard : List (List Vec)}
    (hshard : P.sources[s.nextShard]? = some shard)
    (hlone : shard.flatten ≠ [] → (P.sources.drop (s.nextShard + 1)).flatten.flatten = []) :
    Inv P ({ s with nextShard := s.nextShard + 1 }.setPhase r (.reading shard)) := by
  have hahead := ahead_take hshard
  have hnot : s.phase r ≠ .done := by rw [hr]; decide
  have hlt : s.nextShard < P.sources.length := (List.getElem?_eq_some_iff.mp hshard).1
  -- A reader that is busy saw no row ahead, so this file has none.
  have hquiet : shard.flatten ≠ [] → ∀ q, (s.phase q).Idle := by
    intro hne q
    by_contra hq
    have hnil := h.last q hq
    rw [hahead] at hnil
    exact hne (List.append_eq_nil_iff.mp hnil).1
  have hbusy : ∀ q, ¬ ((Function.update s.phase r (.reading shard)) q).Idle →
      q = r ∧ shard.flatten ≠ [] ∨ ¬ (s.phase q).Idle ∧ shard.flatten = [] := by
    intro q hq
    by_cases hqr : q = r
    · subst hqr
      rw [Function.update_self] at hq
      exact .inl ⟨rfl, hq⟩
    · rw [Function.update_of_ne hqr] at hq
      refine .inr ⟨hq, ?_⟩
      by_contra hne
      exact hq (hquiet hne q)
  refine ⟨fun q q' hq hq' => ?_, fun q hq => ?_, fun q hq => ?_, fun q hq hd => ?_,
    fun i a hi => ?_, h.distinct, h.fresh, fun c => ?_⟩
  · rcases hbusy q hq with ⟨rfl, hne⟩ | ⟨hq, hnil⟩
    · rcases hbusy q' hq' with ⟨rfl, -⟩ | ⟨-, hnil⟩
      · rfl
      · exact absurd hnil hne
    · rcases hbusy q' hq' with ⟨rfl, hne⟩ | ⟨hq', -⟩
      · exact absurd hnil hne
      · exact h.one q q' hq hq'
  · rcases hbusy q hq with ⟨rfl, hne⟩ | ⟨hq, -⟩
    · exact hlone hne
    · have hnil := h.last q hq
      rw [hahead] at hnil
      exact (List.append_eq_nil_iff.mp hnil).2
  · have hqr : q ≠ r := by
      rintro rfl
      exact hnot (h.readers q hq)
    simpa [State.setPhase, Function.update_of_ne hqr] using h.readers q hq
  · have hqr : q ≠ r := by
      rintro rfl
      simp [State.setPhase] at hd
    have hend := h.exhausted q hq (by simpa [State.setPhase, Function.update_of_ne hqr] using hd)
    omega
  · obtain ⟨hi', hslot, hold⟩ := h.task i a hi
    have hqr : a.reader ≠ r := by
      rintro hqr
      rw [hqr, hr] at hold
      exact hold
    refine ⟨hi', hslot, ?_⟩
    simpa [State.setPhase, Function.update_of_ne hqr] using hold
  · have hsum := sum_update (fun p : Phase => rowsOwed P (p.rows P) c) s.phase (h.lt_readers hnot)
      (.reading shard)
    have htotal := h.total c
    have hold : rowsOwed P ((s.phase r).rows P) c = 0 := by
      rw [hr]
      rfl
    have hnew : rowsOwed P ((Phase.reading shard).rows P) c = rowsOwed P shard.flatten c := rfl
    rw [hahead, rowsOwed_append] at htotal
    simp only [State.setPhase, ahead]
    linarith

lemma runOut (h : Inv P s) {r : ℕ} (hr : s.phase r = .fetch)
    (hshard : P.sources[s.nextShard]? = none) :
    Inv P ({ s with nextShard := s.nextShard + 1 }.setPhase r .done) := by
  have hend : P.sources.length ≤ s.nextShard := List.getElem?_eq_none_iff.mp hshard
  have hnot : s.phase r ≠ .done := by rw [hr]; decide
  have hnil : ∀ n, P.sources.length ≤ n → (P.sources.drop n).flatten.flatten = [] := by
    intro n hn
    rw [List.drop_eq_nil_of_le hn]
    rfl
  have hbusy : ∀ q, ¬ ((Function.update s.phase r .done) q).Idle → ¬ (s.phase q).Idle := by
    intro q hq hsq
    by_cases hqr : q = r
    · subst hqr
      rw [Function.update_self] at hq
      exact hq trivial
    · rw [Function.update_of_ne hqr] at hq
      exact hq hsq
  refine ⟨fun q q' hq hq' => h.one q q' (hbusy q hq) (hbusy q' hq'),
    fun q _ => hnil _ (by simp only [State.setPhase]; omega), fun q hq => ?_,
    fun q hq hd => by simp only [State.setPhase]; omega,
    fun i a hi => ?_, h.distinct, h.fresh, fun c => ?_⟩
  · by_cases hqr : q = r
    · simp [State.setPhase, hqr]
    · simpa [State.setPhase, Function.update_of_ne hqr] using h.readers q hq
  · obtain ⟨hi', hslot, hold⟩ := h.task i a hi
    have hqr : a.reader ≠ r := by
      rintro hqr
      rw [hqr, hr] at hold
      exact hold
    refine ⟨hi', hslot, ?_⟩
    simpa [State.setPhase, Function.update_of_ne hqr] using hold
  · have hsum := sum_update (fun p : Phase => rowsOwed P (p.rows P) c) s.phase (h.lt_readers hnot)
      .done
    have htotal := h.total c
    have hold : rowsOwed P ((s.phase r).rows P) c = 0 := by
      rw [hr]
      rfl
    have hnew : rowsOwed P (Phase.done.rows P) c = 0 := rfl
    rw [ahead, hnil _ hend] at htotal
    simp only [State.setPhase, ahead, hnil _ (Nat.le_succ_of_le hend)]
    linarith

/-- The next piece of a chunk becomes a task. Its slot is new among the tasks of this callback, and
there are no others. -/
lemma push (h : Inv P s) {r t : ℕ} {rest : List (List Vec)} {chunk : List Vec}
    (hr : s.phase r = .pushing rest chunk t) (ht : t < P.nShards chunk.length) :
    Inv P ({ s with pushed := s.pushed + 1 }.setPhase r (.pushing rest chunk (t + 1)) |>.setTask
      s.pushed (some
        { reader := r
          slot := t
          started := false
          worker := { todo := (P.piece chunk t).flatMap P.updates } })) := by
  have hnot : s.phase r ≠ .done := by rw [hr]; exact fun heq => by cases heq
  have hbusy : ¬ (s.phase r).Idle := by rw [hr]; exact id
  have hslots : ∀ i a, s.tasks i = some a → i < s.pushed ∧ a.slot < t := by
    intro i a hi
    have hold := h.task i a hi
    rw [h.holder hi hbusy, hr] at hold
    exact ⟨hold.1, hold.2.2⟩
  have hphase : ∀ q, ¬ ((Function.update s.phase r (.pushing rest chunk (t + 1))) q).Idle →
      ¬ (s.phase q).Idle := by
    intro q hq
    by_cases hqr : q = r
    · subst hqr
      exact hbusy
    · rwa [Function.update_of_ne hqr] at hq
  refine ⟨fun q q' hq hq' => h.one q q' (hphase q hq) (hphase q' hq'),
    fun q hq => h.last q (hphase q hq), fun q hq => ?_, fun q hq hd => ?_, fun i a hi => ?_,
    fun i j a b hi hj hs => ?_, fun i a hi => ?_, fun c => ?_⟩
  · have hqr : q ≠ r := by
      rintro rfl
      exact hnot (h.readers q hq)
    simpa [State.setTask, State.setPhase, Function.update_of_ne hqr] using h.readers q hq
  · have hqr : q ≠ r := by
      rintro rfl
      simp [State.setTask, State.setPhase] at hd
    exact h.exhausted q hq
      (by simpa [State.setTask, State.setPhase, Function.update_of_ne hqr] using hd)
  · by_cases hip : i = s.pushed
    · subst hip
      simp only [State.setTask, Function.update_self, Option.some.injEq] at hi
      subst hi
      refine ⟨Nat.lt_succ_self _, lt_of_lt_of_le ht (Nat.min_le_left _ _), ?_⟩
      simp [State.setTask, State.setPhase, Phase.Holds]
    · simp only [State.setTask, Function.update_of_ne hip] at hi
      have hi' : s.tasks i = some a := hi
      obtain ⟨hlt, hslot⟩ := hslots i a hi'
      refine ⟨Nat.lt_succ_of_lt hlt, (h.task i a hi').2.1, ?_⟩
      simp only [State.setTask, State.setPhase, h.holder hi' hbusy, Function.update_self,
        Phase.Holds]
      omega
  · by_cases hip : i = s.pushed
    · by_cases hjp : j = s.pushed
      · omega
      · simp only [State.setTask, hip, Function.update_self, Option.some.injEq] at hi
        simp only [State.setTask, Function.update_of_ne hjp] at hj
        have hlt := (hslots j b hj).2
        subst hi
        dsimp only at hs
        omega
    · simp only [State.setTask, Function.update_of_ne hip] at hi
      by_cases hjp : j = s.pushed
      · simp only [State.setTask, hjp, Function.update_self, Option.some.injEq] at hj
        have hlt := (hslots i a hi).2
        subst hj
        dsimp only at hs
        omega
      · simp only [State.setTask, Function.update_of_ne hjp] at hj
        exact h.distinct i j a b hi hj hs
  · by_cases hip : i = s.pushed
    · simp only [State.setTask, hip, Function.update_self, Option.some.injEq] at hi
      subst hi
      exact Worker.fresh_of_none rfl
    · simp only [State.setTask, Function.update_of_ne hip] at hi
      exact h.fresh i a hi
  · have hrows := sum_update (fun p : Phase => rowsOwed P (p.rows P) c) s.phase (h.lt_readers hnot)
      (.pushing rest chunk (t + 1))
    have hpieces : rowsOwed P ((s.phase r).rows P) c =
        rowsOwed P (P.piece chunk t) c +
          rowsOwed P ((Phase.pushing rest chunk (t + 1)).rows P) c := by
      rw [hr]
      simp only [Phase.rows]
      rw [← piece_append_drop, List.append_assoc, rowsOwed_append]
    have htasks : ∑ i ∈ Finset.range s.pushed, taskOwed (Function.update s.tasks s.pushed (some
        { reader := r
          slot := t
          started := false
          worker := { todo := (P.piece chunk t).flatMap P.updates } }) i) c =
        ∑ i ∈ Finset.range s.pushed, taskOwed (s.tasks i) c := by
      refine Finset.sum_congr rfl fun i hi => ?_
      rw [Function.update_of_ne (by have := Finset.mem_range.mp hi; omega)]
    have htotal := h.total c
    simp only [State.setTask, State.setPhase, ahead]
    rw [Finset.sum_range_succ, htasks, Function.update_self]
    simp only [taskOwed, ahead] at htotal ⊢
    have howed : owed ((P.piece chunk t).flatMap P.updates) c = rowsOwed P (P.piece chunk t) c := rfl
    rw [howed]
    linarith

lemma store (h : Inv P s) {i : ℕ} {a : Task} (hi : s.tasks i = some a) {m : Cell → ℚ}
    {w : Worker Cell ℚ} (hstore : a.worker.store (s.acc a.slot) = some (m, w)) :
    Inv P ({ s with acc := Function.update s.acc a.slot m }.setTask i
      (some { a with worker := w })) := by
  obtain ⟨hreg, hsum⟩ := Worker.store_spec (h.fresh i a hi) hstore
  obtain ⟨hlt, hslot, hold⟩ := h.task i a hi
  have hnone : ∀ j b, ({ s with acc := Function.update s.acc a.slot m }.setTask i
      (some { a with worker := w })).tasks j = some b →
      ∃ b₀, s.tasks j = some b₀ ∧ b.reader = b₀.reader ∧ b.slot = b₀.slot := by
    intro j b hj
    by_cases hji : j = i
    · subst hji
      simp only [State.setTask, Function.update_self, Option.some.injEq] at hj
      subst hj
      exact ⟨a, hi, rfl, rfl⟩
    · simp only [State.setTask, Function.update_of_ne hji] at hj
      exact ⟨b, hj, rfl, rfl⟩
  refine ⟨h.one, h.last, h.readers, h.exhausted, fun j b hj => ?_, fun j k b c hj hk hs => ?_,
    fun j b hj => ?_, fun c => ?_⟩
  · obtain ⟨b₀, hj₀, hr, hs⟩ := hnone j b hj
    rw [hr, hs]
    exact h.task j b₀ hj₀
  · obtain ⟨b₀, hj₀, -, hb⟩ := hnone j b hj
    obtain ⟨c₀, hk₀, -, hc⟩ := hnone k c hk
    exact h.distinct j k b₀ c₀ hj₀ hk₀ (by rw [← hb, ← hc, hs])
  · by_cases hji : j = i
    · simp only [State.setTask, hji, Function.update_self, Option.some.injEq] at hj
      subst hj
      exact Worker.fresh_of_none hreg
    · simp only [State.setTask, Function.update_of_ne hji] at hj
      have hne : b.slot ≠ a.slot := fun heq => hji (h.distinct j i b a hj hi heq)
      simpa [State.setTask, Function.update_of_ne hne] using h.fresh j b hj
  · have hacc := sum_update (fun m : Cell → ℚ => m c) s.acc hslot m
    have htask := sum_update (fun t => taskOwed t c) s.tasks hlt (some { a with worker := w })
    have htotal := h.total c
    have hc := hsum c
    rw [hi] at htask
    simp only [taskOwed, State.setTask, ahead] at hacc htask htotal ⊢
    linarith

lemma finish (h : Inv P s) {i : ℕ} {a : Task} (hi : s.tasks i = some a)
    (htodo : a.worker.todo = []) : Inv P (s.setTask i none) := by
  have hold : ∀ j b, (s.setTask i none).tasks j = some b → s.tasks j = some b := by
    intro j b hj
    by_cases hji : j = i
    · simp [State.setTask, hji] at hj
    · simpa [State.setTask, Function.update_of_ne hji] using hj
  refine ⟨h.one, h.last, h.readers, h.exhausted, fun j b hj => h.task j b (hold j b hj),
    fun j k b c hj hk => h.distinct j k b c (hold j b hj) (hold k c hk),
    fun j b hj => h.fresh j b (hold j b hj), fun c => ?_⟩
  have hsum := sum_update (fun t => taskOwed t c) s.tasks (h.task i a hi).1 none
  have htotal := h.total c
  rw [hi] at hsum
  simp only [taskOwed, htodo, owed_nil, add_zero, State.setTask, ahead] at hsum htotal ⊢
  rw [hsum]
  exact htotal

end Inv

def LoneShard (P : Pass) : Prop := P.shards.Pairwise fun a b => a.flatten = [] ∨ b.flatten = []

lemma lone_source (h : P.hw < 2 ∨ LoneShard P) :
    P.sources.Pairwise fun a b => a.flatten = [] ∨ b.flatten = [] := by
  unfold Pass.sources
  split
  · rename_i hpar
    have h2 : 2 ≤ P.shards.length ∧ 2 ≤ min 4 P.hw := by simpa [Pass.parallel] using hpar
    exact h.resolve_left (by omega)
  · exact List.pairwise_singleton _ _

lemma rows_behind {i : ℕ} {shard : List (List Vec)}
    (h : P.sources.Pairwise fun a b => a.flatten = [] ∨ b.flatten = [])
    (hi : P.sources[i]? = some shard) (hne : shard.flatten ≠ []) :
    (P.sources.drop (i + 1)).flatten.flatten = [] := by
  obtain ⟨hlt, rfl⟩ := List.getElem?_eq_some_iff.mp hi
  have hdrop := h.drop (i := i)
  rw [List.drop_eq_getElem_cons hlt, List.pairwise_cons] at hdrop
  simp only [List.flatten_eq_nil_iff, List.mem_flatten, forall_exists_index, and_imp]
  intro chunk b hb hchunk
  exact List.flatten_eq_nil_iff.mp ((hdrop.1 b hb).resolve_left hne) chunk hchunk

lemma inv_step (hlone : P.sources.Pairwise fun a b => a.flatten = [] ∨ b.flatten = []) {s s' : State}
    {a : Action} (h : Inv P s) (hstep : step P s a = some s') : Inv P s' := by
  cases a with
  | fetch r =>
    simp only [step] at hstep
    split at hstep
    · rename_i hr
      cases hstep
      cases hshard : P.sources[s.nextShard]? with
      | some shard => exact h.take hr hshard (rows_behind hlone hshard)
      | none => exact h.runOut hr hshard
    · cases hstep
  | next r =>
    simp only [step] at hstep
    split at hstep
    · rename_i hr
      cases hstep
      refine h.move (by rw [hr]; exact nofun) nofun (fun _ => trivial) (by rw [hr]; rfl)
        fun i a hi ha => ?_
      have hold := (h.task i a hi).2.2
      rw [ha, hr] at hold
      exact hold.elim
    · rename_i chunk rest hr
      cases hstep
      have hnone : ∀ i a, s.tasks i = some a → a.reader ≠ r := by
        intro i a hi ha
        have hold := (h.task i a hi).2.2
        rw [ha, hr] at hold
        exact hold
      by_cases hnil : chunk.length = 0
      · rw [if_pos hnil]
        have hchunk : chunk = [] := List.length_eq_zero_iff.mp hnil
        refine h.move (by rw [hr]; exact nofun) nofun (fun hidle => ?_) ?_
          fun i a hi ha => absurd ha (hnone i a hi)
        · rw [hr, hchunk] at hidle
          exact hidle
        · rw [hr, hchunk]
          rfl
      · rw [if_neg hnil]
        refine h.move (by rw [hr]; exact nofun) nofun (fun hidle => ?_) ?_
          fun i a hi ha => absurd ha (hnone i a hi)
        · rw [hr] at hidle
          have hchunk : chunk = [] := (List.append_eq_nil_iff.mp hidle).1
          exact hnil (by rw [hchunk]; rfl)
        · rw [hr]
          simp [Phase.rows]
    · cases hstep
  | push r =>
    simp only [step] at hstep
    split at hstep
    · rename_i rest chunk t hr
      by_cases hpush : t < P.nShards chunk.length ∧ t * P.per chunk.length <
          min (t * P.per chunk.length + P.per chunk.length) chunk.length
      · rw [if_pos hpush] at hstep
        cases hstep
        exact h.push hr hpush.1
      · rw [if_neg hpush] at hstep
        cases hstep
        refine h.move (by rw [hr]; exact nofun) nofun (fun hidle => ?_) ?_ fun _ _ _ _ => trivial
        · rw [hr] at hidle
          exact hidle
        · rw [hr]
          simp only [Phase.rows]
          rw [drop_of_not_push hpush, List.nil_append]
    · cases hstep
  | wait r =>
    simp only [step] at hstep
    split at hstep
    · rename_i rest hr
      split at hstep
      · rename_i hready
        cases hstep
        refine h.move (by rw [hr]; exact nofun) nofun (fun hidle => ?_) (by rw [hr]; rfl)
          fun i a hi ha => absurd ha (hready i (h.task i a hi).1 a hi)
        rw [hr] at hidle
        exact hidle.elim
      · cases hstep
    · cases hstep
  | start i =>
    simp only [step] at hstep
    split at hstep
    · rename_i task hi
      split at hstep
      · cases hstep
        exact h.changeTask hi rfl rfl (h.fresh i task hi) rfl
      · cases hstep
    · cases hstep
  | load i =>
    simp only [step] at hstep
    split at hstep
    · rename_i task hi
      split at hstep
      · obtain ⟨w, hload, rfl⟩ := Option.map_eq_some_iff.mp hstep
        obtain ⟨htodo, hfresh⟩ := Worker.load_spec hload
        exact h.changeTask hi rfl rfl hfresh htodo
      · cases hstep
    · cases hstep
  | store i =>
    simp only [step] at hstep
    split at hstep
    · rename_i task hi
      split at hstep
      · obtain ⟨⟨m, w⟩, hstore, rfl⟩ := Option.map_eq_some_iff.mp hstep
        exact h.store hi hstore
      · cases hstep
    · cases hstep
  | finish i =>
    simp only [step] at hstep
    split at hstep
    · rename_i task hi
      split at hstep
      · rename_i hend
        cases hstep
        exact h.finish hi (List.isEmpty_iff.mp hend.2)
      · cases hstep
    · cases hstep

lemma Inv.counted {s : State} (h : Inv P s) (hfin : Finished P s) : Counted P s := by
  have hdone : ∀ r, s.phase r = .done := fun r =>
    (Nat.lt_or_ge r P.readers).elim (hfin r) (h.readers r)
  have hnone : ∀ i, s.tasks i = none := by
    intro i
    cases hi : s.tasks i with
    | none => rfl
    | some a =>
      have hold := (h.task i a hi).2.2
      rw [hdone] at hold
      exact hold.elim
  have hahead : ahead P s = [] := by
    rw [ahead, List.drop_eq_nil_of_le (h.exhausted 0 readers_pos (hdone 0))]
    rfl
  have hacc : ∀ c, ∑ t ∈ Finset.range P.hw, s.acc t c = rowsOwed P P.rows c := by
    intro c
    have htotal := h.total c
    simp only [hnone, hdone, hahead, taskOwed, Phase.rows, rowsOwed_nil, Finset.sum_const_zero,
      add_zero] at htotal
    exact htotal
  refine ⟨?_, fun c hc k hk => ?_⟩
  · simp only [clusterCount, hacc]
    exact sum_rowsOwed_count P.rows
  · rw [clusterSum, hacc]
    exact rowsOwed_sum P.rows hk

/-! ### Two callbacks at a time -/

/-- Some schedule goes from one state to the other. -/
def Leads (P : Pass) (s s' : State) : Prop := ∃ as, run P s as = some s'

lemma Leads.trans {s s' s'' : State} (h : Leads P s s') (h' : Leads P s' s'') : Leads P s s'' := by
  obtain ⟨as, has⟩ := h
  obtain ⟨bs, hbs⟩ := h'
  refine ⟨as ++ bs, ?_⟩
  rw [run, List.foldlM_append]
  exact Option.bind_eq_some_iff.mpr ⟨s', has, hbs⟩

lemma Leads.step {s s' : State} {a : Action} (h : Lloyd.step P s a = some s') : Leads P s s' :=
  ⟨[a], Option.bind_eq_some_iff.mpr ⟨s', h, rfl⟩⟩

lemma setPhase_setPhase (s : State) (r : ℕ) (p q : Phase) :
    (s.setPhase r p).setPhase r q = s.setPhase r q := by
  simp [State.setPhase]

lemma leads_skip {r : ℕ} (rest : List (List Vec)) : ∀ {s : State}, s.phase r = .reading rest →
    rest.flatten = [] → Leads P s (s.setPhase r .fetch) := by
  induction rest with
  | nil =>
    intro s hr _
    exact .step (a := .next r) (by simp only [step, hr])
  | cons chunk rest ih =>
    intro s hr hnil
    obtain ⟨hchunk, hrest⟩ := List.append_eq_nil_iff.mp hnil
    have hnext : step P s (.next r) = some (s.setPhase r (.reading rest)) := by
      simp only [step, hr, hchunk, List.length_nil, if_true]
    have hskip := ih (s := s.setPhase r (.reading rest)) (by simp [State.setPhase]) hrest
    rw [setPhase_setPhase] at hskip
    exact (Leads.step hnext).trans hskip

lemma leads_chunk {r : ℕ} (rest : List (List Vec)) : ∀ {s : State}, s.phase r = .reading rest →
    rest.flatten ≠ [] →
    ∃ rest' chunk, chunk ≠ [] ∧ Leads P s (s.setPhase r (.pushing rest' chunk 0)) := by
  induction rest with
  | nil => exact fun _ hne => absurd rfl hne
  | cons chunk rest ih =>
    intro s hr hne
    by_cases hchunk : chunk = []
    · have hnext : step P s (.next r) = some (s.setPhase r (.reading rest)) := by
        simp only [step, hr, hchunk, List.length_nil, if_true]
      obtain ⟨rest', chunk', hne', hlead⟩ := ih (s := s.setPhase r (.reading rest))
        (by simp [State.setPhase]) (by simpa [hchunk] using hne)
      rw [setPhase_setPhase] at hlead
      exact ⟨rest', chunk', hne', (Leads.step hnext).trans hlead⟩
    · have hlen : chunk.length ≠ 0 := fun h0 => hchunk (List.length_eq_zero_iff.mp h0)
      refine ⟨rest, chunk, hchunk, .step (a := .next r) ?_⟩
      simp only [step, hr, hlen, if_false]

lemma leads_file {r : ℕ} {shard : List (List Vec)} (hne : shard.flatten ≠ []) (k : ℕ) :
    ∀ {s : State}, s.phase r = .fetch → P.sources[s.nextShard + k]? = some shard →
      (∀ j < k, ∀ a, P.sources[s.nextShard + j]? = some a → a.flatten = []) →
      ∃ rest chunk, chunk ≠ [] ∧
        Leads P s ({ s with nextShard := s.nextShard + k + 1 }.setPhase r
          (.pushing rest chunk 0)) := by
  induction k with
  | zero =>
    intro s hr hshard _
    have hfetch : step P s (.fetch r) =
        some ({ s with nextShard := s.nextShard + 1 }.setPhase r (.reading shard)) := by
      rw [Nat.add_zero] at hshard
      simp only [step, hr, hshard]
    obtain ⟨rest, chunk, hchunk, hlead⟩ := leads_chunk (P := P) (r := r) shard
      (s := { s with nextShard := s.nextShard + 1 }.setPhase r (.reading shard))
      (by simp [State.setPhase]) hne
    rw [setPhase_setPhase] at hlead
    exact ⟨rest, chunk, hchunk, (Leads.step hfetch).trans hlead⟩
  | succ k ih =>
    intro s hr hshard hbefore
    have hlt : s.nextShard < P.sources.length := by
      have := (List.getElem?_eq_some_iff.mp hshard).1
      omega
    have hfirst : P.sources[s.nextShard]? = some P.sources[s.nextShard] :=
      List.getElem?_eq_getElem hlt
    have hfetch : step P s (.fetch r) = some ({ s with nextShard := s.nextShard + 1 }.setPhase r
        (.reading P.sources[s.nextShard])) := by
      simp only [step, hr, hfirst]
    have hskip := leads_skip (P := P) (r := r) P.sources[s.nextShard]
      (s := { s with nextShard := s.nextShard + 1 }.setPhase r (.reading P.sources[s.nextShard]))
      (by simp [State.setPhase]) (hbefore 0 (Nat.succ_pos k) _ hfirst)
    rw [setPhase_setPhase] at hskip
    obtain ⟨rest, chunk, hchunk, hlead⟩ := ih
      (s := { s with nextShard := s.nextShard + 1 }.setPhase r .fetch) (by simp [State.setPhase])
      (by rw [← hshard]; congr 1; simp only [State.setPhase]; omega)
      (fun j hj a ha => hbefore (j + 1) (by omega) a
        (by rw [← ha]; congr 1; simp only [State.setPhase]; omega))
    have hstate : { ({ s with nextShard := s.nextShard + 1 }.setPhase r .fetch) with
        nextShard := ({ s with nextShard := s.nextShard + 1 }.setPhase r .fetch).nextShard +
          k + 1 }.setPhase r (.pushing rest chunk 0) =
        { s with nextShard := s.nextShard + (k + 1) + 1 }.setPhase r (.pushing rest chunk 0) := by
      simp only [State.setPhase, Function.update_idem]
      congr 1
      omega
    rw [hstate] at hlead
    exact ⟨rest, chunk, hchunk, ((Leads.step hfetch).trans hskip).trans hlead⟩

lemma leads_started {s : State} {r : ℕ} {rest : List (List Vec)} {chunk : List Vec}
    (hr : s.phase r = .pushing rest chunk 0) (hchunk : chunk ≠ [])
    (hstarted : ∀ j < s.pushed, ∀ a ∈ s.tasks j, a.started = true) (hroom : s.pushed < P.hw) :
    ∃ s' task, Leads P s s' ∧ s'.tasks = Function.update s.tasks s.pushed (some task) ∧
      task.slot = 0 ∧ task.started = true ∧ s'.pushed = s.pushed + 1 ∧
      s'.nextShard = s.nextShard ∧ ∀ q, q ≠ r → s'.phase q = s.phase q := by
  have hlen : 0 < chunk.length := List.length_pos_iff.mpr hchunk
  have hper := per_pos (P := P) hlen
  have hfirst : 0 < P.nShards chunk.length ∧ 0 * P.per chunk.length <
      min (0 * P.per chunk.length + P.per chunk.length) chunk.length := by
    have := P.hw_pos
    simp only [Pass.nShards]
    omega
  obtain ⟨task, htask⟩ : ∃ task : Task, task =
      { reader := r
        slot := 0
        started := false
        worker := { todo := (P.piece chunk 0).flatMap P.updates } } := ⟨_, rfl⟩
  have hpush : step P s (.push r) = some ({ s with pushed := s.pushed + 1 }.setPhase r
      (.pushing rest chunk (0 + 1)) |>.setTask s.pushed (some task)) := by
    simp only [step, hr, htask]
    rw [if_pos hfirst]
  have hqueued : task.slot = 0 ∧ task.started = false := by
    rw [htask]
    exact ⟨rfl, rfl⟩
  clear htask
  generalize hs₁ : ({ s with pushed := s.pushed + 1 }.setPhase r (.pushing rest chunk (0 + 1))
    |>.setTask s.pushed (some task)) = s₁ at hpush
  have hi : s₁.tasks s.pushed = some task := by
    rw [← hs₁]
    exact Function.update_self ..
  have hothers : ∀ j < s.pushed, s₁.tasks j = s.tasks j := by
    intro j hj
    rw [← hs₁]
    exact Function.update_of_ne (Nat.ne_of_lt hj) ..
  -- The task just pushed is the only one that is not running.
  have hrunning : s₁.running.length < P.hw := by
    have hpushed : s₁.pushed = s.pushed + 1 := by rw [← hs₁]; rfl
    rw [State.running, hpushed, List.range_succ, List.filter_append, List.length_append]
    have hlast : [s.pushed].filter (fun i => (s₁.tasks i).any (·.started)) = [] := by
      simp [hi, hqueued.2]
    have hle := List.length_filter_le (fun i => (s₁.tasks i).any (·.started)) (List.range s.pushed)
    rw [List.length_range] at hle
    rw [hlast, List.length_nil]
    omega
  have hstart : step P s₁ (.start s.pushed) =
      some (s₁.setTask s.pushed (some { task with started := true })) := by
    simp only [step, hi]
    exact if_pos ⟨hqueued.2, fun j hj a ha => hstarted j hj a (by rwa [← hothers j hj]), hrunning⟩
  refine ⟨_, { task with started := true }, (Leads.step hpush).trans (Leads.step hstart), ?_,
    hqueued.1, rfl, ?_, ?_, fun q hq => ?_⟩
  · rw [← hs₁]
    exact Function.update_idem ..
  · rw [← hs₁]
    rfl
  · rw [← hs₁]
    rfl
  · rw [← hs₁]
    exact Function.update_of_ne hq ..

lemma leads_first_slot {s : State} {r k : ℕ} {shard : List (List Vec)} (hr : s.phase r = .fetch)
    (hshard : P.sources[s.nextShard + k]? = some shard) (hne : shard.flatten ≠ [])
    (hbefore : ∀ j < k, ∀ a, P.sources[s.nextShard + j]? = some a → a.flatten = [])
    (hstarted : ∀ j < s.pushed, ∀ a ∈ s.tasks j, a.started = true) (hroom : s.pushed < P.hw) :
    ∃ s' task, Leads P s s' ∧ s'.tasks = Function.update s.tasks s.pushed (some task) ∧
      task.slot = 0 ∧ task.started = true ∧ s'.pushed = s.pushed + 1 ∧
      s'.nextShard = s.nextShard + k + 1 ∧ ∀ q, q ≠ r → s'.phase q = s.phase q := by
  obtain ⟨rest, chunk, hchunk, hfile⟩ := leads_file hne k hr hshard hbefore
  obtain ⟨s', task, hlead, htasks, hslot, hrun, hpushed, hnext, hphase⟩ := leads_started (P := P)
    (s := { s with nextShard := s.nextShard + k + 1 }.setPhase r (.pushing rest chunk 0))
    (r := r) (Function.update_self ..) hchunk hstarted hroom
  refine ⟨s', task, hfile.trans hlead, htasks, hslot, hrun, hpushed, hnext, fun q hq => ?_⟩
  rw [hphase q hq]
  exact Function.update_of_ne hq ..

lemma exists_first_rows {l : List (List (List Vec))} {n j : ℕ} {b : List (List Vec)} (hj : n ≤ j)
    (hb : l[j]? = some b) (hne : b.flatten ≠ []) :
    ∃ k a, n + k ≤ j ∧ l[n + k]? = some a ∧ a.flatten ≠ [] ∧
      ∀ i < k, ∀ c, l[n + i]? = some c → c.flatten = [] := by
  classical
  have hex : ∃ k, ∃ a, l[n + k]? = some a ∧ a.flatten ≠ [] :=
    ⟨j - n, b, by rwa [Nat.add_sub_cancel' hj], hne⟩
  obtain ⟨a, ha, hane⟩ := Nat.find_spec hex
  have hle : Nat.find hex ≤ j - n :=
    Nat.find_min' hex ⟨b, by rwa [Nat.add_sub_cancel' hj], hne⟩
  refine ⟨Nat.find hex, a, by omega, ha, hane, fun i hi c hc => ?_⟩
  by_contra hcne
  exact Nat.find_min hex hi ⟨c, hc, hcne⟩

lemma not_apart (hhw : 2 ≤ P.hw) (hlone : ¬ LoneShard P) : ∃ s, Reachable P s ∧ ¬ Apart s := by
  unfold LoneShard at hlone
  rw [List.pairwise_iff_getElem] at hlone
  push Not at hlone
  obtain ⟨i, j, hi, hj, hij, hine, hjne⟩ := hlone
  have hpar : P.parallel = true := by
    simp only [Pass.parallel, decide_eq_true_eq]
    omega
  have hsources : P.sources = P.shards := if_pos hpar
  have hreaders : 2 ≤ P.readers := by
    rw [Pass.readers, if_pos hpar]
    omega
  have hfetch : ∀ r < 2, (init P).phase r = .fetch := fun r hr => if_pos (by omega)
  -- The first reader takes the first file with rows.
  obtain ⟨k, a, hk, hka, hane, hbefore⟩ := exists_first_rows (Nat.zero_le i)
    (List.getElem?_eq_getElem hi) hine
  rw [← hsources] at hka hbefore
  obtain ⟨s₁, t₁, hlead₁, htasks₁, hslot₁, hrun₁, hpushed₁, hnext₁, hphase₁⟩ :=
    leads_first_slot (s := init P) (hfetch 0 (by omega)) hka hane hbefore
      (fun j hj => absurd hj (Nat.not_lt_zero j)) P.hw_pos
  have hpushed : s₁.pushed = 1 := hpushed₁
  have hnext : s₁.nextShard = 0 + k + 1 := hnext₁
  have hzero : s₁.tasks 0 = some t₁ := by
    rw [htasks₁]
    exact Function.update_self ..
  -- The second reader takes the next one, while the task of the first is running.
  obtain ⟨k', b, hk', hkb, hbne, hbefore'⟩ := exists_first_rows (n := 0 + k + 1) (j := j) (by omega)
    (List.getElem?_eq_getElem hj) hjne
  rw [← hsources, ← hnext] at hkb
  rw [← hsources, ← hnext] at hbefore'
  obtain ⟨s₂, t₂, hlead₂, htasks₂, hslot₂, hrun₂, -, -, -⟩ :=
    leads_first_slot (s := s₁) (r := 1) (by rw [hphase₁ 1 (by omega)]; exact hfetch 1 (by omega))
      hkb hbne hbefore'
      (fun j hj c hc => by
        have hj0 : j = 0 := by omega
        rw [hj0, hzero] at hc
        cases hc
        exact hrun₁)
      (by omega)
  refine ⟨s₂, hlead₁.trans hlead₂, fun hapart => ?_⟩
  rw [hpushed] at htasks₂
  have h0 : s₂.tasks 0 = some t₁ := by
    rw [htasks₂, Function.update_of_ne (by omega)]
    exact hzero
  have h1 : s₂.tasks 1 = some t₂ := by
    rw [htasks₂]
    exact Function.update_self ..
  exact absurd (hapart 0 1 t₁ t₂ h0 h1 hrun₁ hrun₂ (hslot₁.trans hslot₂.symm)) (by decide)

/-- **A pass counts every row under every schedule**, and no two running tasks share a slot, exactly
where callbacks do not overlap: with one thread, or with the rows in one file. -/
theorem lloyd_counts_every_row_iff (P : Pass) :
    (∀ s, Reachable P s → Apart s ∧ (Finished P s → Counted P s)) ↔ P.hw < 2 ∨ LoneShard P := by
  constructor
  · intro h
    by_contra hbad
    rw [not_or] at hbad
    obtain ⟨s, hs, hnot⟩ := not_apart (by omega) hbad.2
    exact hnot (h s hs).1
  · intro h s hs
    have hinv : Inv P s := hs.induct inv_init fun _ _ _ hi => inv_step (lone_source h) hi
    exact ⟨fun i j a b hi hj _ _ => hinv.distinct i j a b hi hj, hinv.counted⟩

/-- Two files of one row each and two threads. -/
def twoFiles : Pass where
  hw := 2
  pcaDims := 1
  rotation := [[1]]
  meanProj := [0]
  centroids := [[0]]
  shards := [[[[1]]], [[[3]]]]
  hw_pos := Nat.two_pos
  rotation_length := rfl
  meanProj_length := rfl
  centroids_ne := by decide
  chunk_ne := by decide

/-- Both tasks read the count before either writes it. -/
def overlapping : List Action :=
  [.fetch 0, .fetch 1, .next 0, .next 1, .push 0, .push 1, .start 0, .start 1, .load 0, .load 1,
    .store 0, .store 1, .load 0, .load 1, .store 0, .store 1, .finish 0, .finish 1, .push 0, .push 1,
    .wait 0, .wait 1, .next 0, .next 1, .fetch 0, .fetch 1]

/-- The pass ends with one row counted, and one row missing from the sum. -/
theorem overlapping_callbacks_lose_row :
    ∃ s, Reachable twoFiles s ∧ Finished twoFiles s ∧ clusterCount twoFiles s 0 = 1 ∧
      clusterSum twoFiles s 0 0 = 3 ∧ ¬ Counted twoFiles s := by
  have hrun : (run twoFiles (init twoFiles) overlapping).map (fun s =>
      (s.phase 0, s.phase 1, clusterCount twoFiles s 0, clusterSum twoFiles s 0 0)) =
      some (.done, .done, 1, 3) := by
    decide +kernel
  obtain ⟨s, hs, heq⟩ := Option.map_eq_some_iff.mp hrun
  simp only [Prod.mk.injEq] at heq
  obtain ⟨h0, h1, hcount, hsum⟩ := heq
  refine ⟨s, ⟨overlapping, hs⟩, fun r hr => ?_, hcount, hsum, fun hc => ?_⟩
  · have hr2 : r < 2 := hr
    interval_cases r
    · exact h0
    · exact h1
  · have hone : clusterCount twoFiles s 0 = (2 : ℕ) := by simpa [Pass.kRoot, twoFiles, Pass.rows] using hc.1
    rw [hcount] at hone
    norm_num at hone

end SextantTree.Lloyd
