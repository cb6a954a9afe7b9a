import SextantTree.Outcome
import Mathlib.Logic.Relation

/-!
A walk driven by an explicit stack. Expanding an entry may fail; it yields the entries to push
and a new state. Nothing is remembered about entries already seen, so the walk ends exactly when
no infinite path starts at an entry of the stack.
-/

namespace SextantTree.StackWalk

open Outcome

variable {α σ ε : Type} {expand : α → σ → Except ε (List α × σ)} {kids : α → List α}
  {safe : ε → Prop}

/-- Run with at most `n` expansions; `none` when they do not suffice. The head is the top. -/
def run (expand : α → σ → Except ε (List α × σ)) : ℕ → List α → σ → Option (Except ε σ)
  | _, [], s => some (.ok s)
  | 0, _ :: _, _ => none
  | n + 1, a :: st, s =>
    match expand a s with
    | .error e => some (.error e)
    | .ok (cs, s') => run expand n (cs ++ st) s'

/-- From any state the walk ends, and if it fails then in an allowed way. -/
def Halts (expand : α → σ → Except ε (List α × σ)) (safe : ε → Prop) (st : List α) : Prop :=
  ∀ s, ∃ n r, run expand n st s = some r ∧ Meets safe r fun _ => True

lemma halts_nil : Halts expand safe ([] : List α) := fun s => ⟨0, .ok s, by simp [run], trivial⟩

lemma halts_append {l st : List α} (hl : ∀ a ∈ l, ∀ st, Halts expand safe st → Halts expand safe (a :: st))
    (hst : Halts expand safe st) : Halts expand safe (l ++ st) := by
  induction l with
  | nil => exact hst
  | cons a l ih =>
    exact hl a List.mem_cons_self _ (ih fun b hb => hl b (List.mem_cons_of_mem _ hb))

/-- `b` is one of the entries `a` leads to. -/
def Child (kids : α → List α) (b a : α) : Prop := b ∈ kids a

/-- The entries a walk from `a` may come to. -/
def From (kids : α → List α) (a b : α) : Prop := Relation.ReflTransGen (flip (Child kids)) a b

lemma From.head {a b c : α} (h : b ∈ kids a) (hc : From kids b c) : From kids a c :=
  Relation.ReflTransGen.head h hc

lemma halts_cons {a : α} (hacc : Acc (Child kids) a)
    (hgood : ∀ b, From kids a b → ∀ s, Meets safe (expand b s) fun r => r.1 = kids b) {st : List α}
    (hst : Halts expand safe st) : Halts expand safe (a :: st) := by
  induction hacc generalizing st with
  | intro a _ ih =>
    intro s
    have hexp := hgood a .refl s
    cases hr : expand a s with
    | error e =>
      rw [hr] at hexp
      exact ⟨1, .error e, by simp [run, hr], hexp⟩
    | ok r =>
      obtain ⟨cs, s'⟩ := r
      rw [hr] at hexp
      obtain rfl : cs = kids a := hexp
      have hkids : Halts expand safe (kids a ++ st) :=
        halts_append (fun b hb st' hst' => ih b hb (fun c hc => hgood c (.head hb hc)) hst') hst
      obtain ⟨n, r, hn, hsafe⟩ := hkids s'
      exact ⟨n + 1, r, by simp [run, hr, hn], hsafe⟩

/-- What a walk that ended says of the entries it started from: no infinite path, and every
entry on the way was expanded. -/
lemma of_run_eq_ok (hkids : ∀ a s r, expand a s = .ok r → r.1 = kids a) {n : ℕ} {st : List α}
    {s s' : σ} (h : run expand n st s = some (.ok s')) {a : α} (ha : a ∈ st) :
    Acc (Child kids) a ∧ ∀ b, From kids a b → ∃ s r, expand b s = .ok r := by
  induction n generalizing st s a with
  | zero =>
    cases st with
    | nil => cases ha
    | cons b st => cases h
  | succ n ih =>
    cases st with
    | nil => cases ha
    | cons b st =>
      cases hr : expand b s with
      | error e =>
        simp [run, hr] at h
      | ok r =>
        obtain ⟨cs, s₁⟩ := r
        obtain rfl : cs = kids b := hkids b s _ hr
        rw [run, hr] at h
        have hrest := fun {c : α} (hc : c ∈ kids b ++ st) => ih h hc
        rcases List.mem_cons.mp ha with rfl | ha
        · refine ⟨.intro a fun c hc => (hrest (List.mem_append_left _ hc)).1, fun c hc => ?_⟩
          rcases Relation.ReflTransGen.cases_head hc with rfl | ⟨d, hd, hdc⟩
          · exact ⟨s, _, hr⟩
          · exact (hrest (List.mem_append_left _ hd)).2 c hdc
        · exact hrest (List.mem_append_right _ ha)

lemma run_mono {n : ℕ} {st : List α} {s : σ} {r : Except ε σ} (h : run expand n st s = some r)
    (k : ℕ) : run expand (n + k) st s = some r := by
  induction n generalizing st s with
  | zero =>
    cases st with
    | nil => rwa [run] at h ⊢
    | cons a st => cases h
  | succ n ih =>
    cases st with
    | nil => rwa [run] at h ⊢
    | cons a st =>
      rw [Nat.add_right_comm, run]
      rw [run] at h
      cases ha : expand a s with
      | error e => rwa [ha] at h
      | ok x =>
        rw [ha] at h
        exact ih h

lemma run_unique {n k : ℕ} {st : List α} {s : σ} {r r' : Except ε σ}
    (h : run expand n st s = some r) (h' : run expand k st s = some r') : r = r' := by
  have h₁ := run_mono h k
  have h₂ := run_mono h' n
  rw [Nat.add_comm, h₂] at h₁
  exact (Option.some.inj h₁).symm

lemma run_eq_none_of_loop {P : α → Prop}
    (h : ∀ a s, P a → ∃ b s', P b ∧ expand a s = .ok ([b], s')) (n : ℕ) {a : α} (ha : P a) (s : σ) :
    run expand n [a] s = none := by
  induction n generalizing a s with
  | zero => rfl
  | succ n ih =>
    obtain ⟨b, s', hb, hexp⟩ := h a s ha
    rw [run, hexp]
    exact ih hb s'

end SextantTree.StackWalk
