import Mathlib.Algebra.BigOperators.Group.List.Basic
import Mathlib.Algebra.GroupWithZero.Nat
import Mathlib.Algebra.Order.BigOperators.Group.List
import Mathlib.Tactic.Common

/-!
Counters that stay at a largest value. A list of counters takes in counts: the sum never grows by
more, a counter that stands at the top leaves one at the top, and with none there the sum has grown
by exactly what came in. A list with keys counts each key on its own.
-/

namespace SextantTree

structure SatCounter (γ : Type*) where
  top : ℕ
  val : γ → ℕ
  add : γ → γ → γ
  val_add : ∀ a c, val (add a c) = min (val a + val c) top

namespace SatCounter

variable {α κ γ : Type*} (S : SatCounter γ) {l l' m cs ds : List γ}

def total (l : List γ) : ℕ := (l.map S.val).sum

def Full (l : List γ) : Prop := ∃ a ∈ l, S.top ≤ S.val a

@[simp] lemma total_nil : S.total [] = 0 := rfl
@[simp] lemma total_cons (a : γ) (l : List γ) : S.total (a :: l) = S.val a + S.total l := by
  simp [total]
@[simp] lemma total_append (l m : List γ) : S.total (l ++ m) = S.total l + S.total m := by
  simp [total]
@[simp] lemma not_full_nil : ¬ S.Full [] := by simp [Full]
@[simp] lemma full_cons (a : γ) (l : List γ) :
    S.Full (a :: l) ↔ S.top ≤ S.val a ∨ S.Full l := by
  simp [Full]
@[simp] lemma full_append (l m : List γ) : S.Full (l ++ m) ↔ S.Full l ∨ S.Full m := by
  simp [Full, or_and_right, exists_or]

/-- `l'` is `l` after the counts `cs` have come in. -/
structure Gains (l cs l' : List γ) : Prop where
  le : S.total l' ≤ S.total l + S.total cs
  full : S.Full l ∨ S.Full cs → S.Full l'
  eq : ¬ S.Full l' → S.total l' = S.total l + S.total cs

variable {S}

lemma Gains.refl (l : List γ) : S.Gains l [] l := ⟨by simp, by simp, by simp⟩

lemma Gains.trans (h : S.Gains l cs m) (h' : S.Gains m ds l') : S.Gains l (cs ++ ds) l' where
  le := by
    have := h.le
    have := h'.le
    rw [total_append]
    omega
  full hf := by
    refine h'.full ?_
    rw [full_append] at hf
    rcases hf with hf | hf | hf
    · exact .inl (h.full (.inl hf))
    · exact .inl (h.full (.inr hf))
    · exact .inr hf
  eq hn := by
    have hm : ¬ S.Full m := fun hm => hn (h'.full (.inl hm))
    have := h.eq hm
    have := h'.eq hn
    rw [total_append]
    omega

lemma Gains.cons (h : S.Gains l cs l') (a : γ) : S.Gains (a :: l) cs (a :: l') where
  le := by
    have := h.le
    simp only [total_cons]
    omega
  full hf := by
    have := h.full
    simp only [full_cons] at hf ⊢
    tauto
  eq hn := by
    rw [full_cons, not_or] at hn
    have := h.eq hn.2
    simp only [total_cons]
    omega

lemma gains_head (a c : γ) (l : List γ) : S.Gains (a :: l) [c] (S.add a c :: l) := by
  have hadd := S.val_add a c
  refine ⟨?_, ?_, ?_⟩
  · simp only [total_cons, total_nil]
    omega
  · simp only [full_cons, not_full_nil, or_false]
    rintro ((h | h) | h)
    · exact .inl (by omega)
    · exact .inr h
    · exact .inl (by omega)
  · intro hn
    rw [full_cons, not_or] at hn
    simp only [total_cons, total_nil]
    omega

lemma gains_new (c : γ) (l : List γ) : S.Gains l [c] (c :: l) := by
  refine ⟨?_, ?_, ?_⟩
  · simp only [total_cons, total_nil]
    omega
  · simp only [full_cons, not_full_nil, or_false]
    tauto
  · intro _
    simp only [total_cons, total_nil]
    omega

lemma gains_modify {i : ℕ} (hi : i < l.length) (c : γ) :
    S.Gains l [c] (l.modify i (S.add · c)) := by
  induction l generalizing i with
  | nil => simp at hi
  | cons a l ih =>
    cases i with
    | zero => simpa using gains_head a c l
    | succ i => simpa using (ih (by simpa using hi)).cons a

lemma gains_foldl {σ ι : Type*} {P : σ → Prop} {f : σ → ι → σ} {counters : σ → List γ}
    {w : ι → γ} (xs : List ι)
    (hstep : ∀ s, ∀ x ∈ xs, P s → P (f s x) ∧ S.Gains (counters s) [w x] (counters (f s x)))
    {s : σ} (hs : P s) :
    P (xs.foldl f s) ∧ S.Gains (counters s) (xs.map w) (counters (xs.foldl f s)) := by
  induction xs generalizing s with
  | nil => exact ⟨hs, .refl _⟩
  | cons x xs ih =>
    obtain ⟨hp, hg⟩ := hstep s x List.mem_cons_self hs
    obtain ⟨hp', hg'⟩ := ih (fun s y hy => hstep s y (List.mem_cons_of_mem x hy)) hp
    exact ⟨hp', hg.trans hg'⟩

/-! Counters with keys. -/

section Keys

variable (S) (key : α → κ) [DecidableEq κ]

def countOf (es : List (α × γ)) (k : κ) : ℕ :=
  S.total ((es.filter fun e => key e.1 = k).map (·.2))

variable {S key} {es es' : List (α × γ)} {k : κ}

@[simp] lemma countOf_nil (k : κ) : S.countOf key [] k = 0 := rfl

lemma countOf_cons (e : α × γ) (es : List (α × γ)) (k : κ) :
    S.countOf key (e :: es) k = (if key e.1 = k then S.val e.2 else 0) + S.countOf key es k := by
  unfold countOf
  split_ifs with h <;> simp [h]

lemma countOf_append (es ds : List (α × γ)) (k : κ) :
    S.countOf key (es ++ ds) k = S.countOf key es k + S.countOf key ds k := by
  simp [countOf]

lemma countOf_perm (h : es.Perm es') (k : κ) : S.countOf key es k = S.countOf key es' k :=
  ((h.filter _).map _).map _ |>.sum_eq

lemma countOf_eq_zero (h : ∀ e ∈ es, key e.1 ≠ k) : S.countOf key es k = 0 := by
  have : es.filter (fun e => key e.1 = k) = [] := by simpa using h
  simp [countOf, this]

/-- The count `c` goes to the key `k`. -/
def Counts (S : SatCounter γ) (key : α → κ) (es : List (α × γ)) (k : κ) (c : ℕ)
    (es' : List (α × γ)) : Prop :=
  ∀ x, S.countOf key es' x
    = if x = k then min (S.countOf key es x + c) S.top else S.countOf key es x

lemma counts_head {e : α × γ} (hkey : key e.1 = k) (hzero : S.countOf key es k = 0) (c : γ) :
    S.Counts key (e :: es) k (S.val c) ((e.1, S.add e.2 c) :: es) := by
  intro x
  have hadd := S.val_add e.2 c
  rw [countOf_cons, countOf_cons]
  by_cases hx : x = k
  · rw [if_pos hx, hx, if_pos hkey, if_pos hkey, hzero]
    omega
  · have hne : key e.1 ≠ x := fun heq => hx (heq.symm.trans hkey)
    rw [if_neg hx, if_neg hne, if_neg hne]

lemma counts_new {v : α} (hkey : key v = k) (hzero : S.countOf key es k = 0) {c : γ}
    (hc : S.val c ≤ S.top) : S.Counts key es k (S.val c) ((v, c) :: es) := by
  intro x
  rw [countOf_cons]
  by_cases hx : x = k
  · rw [if_pos hx, hx, if_pos hkey, hzero, Nat.zero_add, min_eq_left hc]
    rfl
  · have hne : key v ≠ x := fun heq => hx (heq.symm.trans hkey)
    rw [if_neg hx, if_neg hne, Nat.zero_add]

lemma Counts.cons {e : α × γ} {c : ℕ} (h : S.Counts key es k c es') (hne : key e.1 ≠ k) :
    S.Counts key (e :: es) k c (e :: es') := by
  intro x
  rw [countOf_cons, countOf_cons, h x]
  by_cases hx : x = k
  · have hne' : key e.1 ≠ x := fun heq => hne (heq.trans hx)
    rw [if_pos hx, if_pos hx, if_neg hne', Nat.zero_add, Nat.zero_add]
  · rw [if_neg hx, if_neg hx]

lemma countOf_foldl {σ : Type*} {P : σ → Prop} {f : σ → α × γ → σ}
    {entries : σ → List (α × γ)} (xs : List (α × γ))
    (hstep : ∀ s, ∀ x ∈ xs, P s → P (f s x) ∧
      S.Counts key (entries s) (key x.1) (S.val x.2) (entries (f s x)))
    {s : σ} (hs : P s) (htop : ∀ k, S.countOf key (entries s) k ≤ S.top) :
    P (xs.foldl f s) ∧ ∀ k, S.countOf key (entries (xs.foldl f s)) k
      = min (S.countOf key (entries s) k + S.countOf key xs k) S.top := by
  induction xs generalizing s with
  | nil =>
    refine ⟨hs, fun k => ?_⟩
    have := htop k
    simp only [List.foldl_nil, countOf_nil]
    omega
  | cons x xs ih =>
    obtain ⟨hp, hc⟩ := hstep s x List.mem_cons_self hs
    have htop' : ∀ k, S.countOf key (entries (f s x)) k ≤ S.top := by
      intro k
      have := htop k
      rw [hc k]
      split_ifs <;> omega
    obtain ⟨hp', hrest⟩ :=
      ih (fun s y hy => hstep s y (List.mem_cons_of_mem x hy)) hp htop'
    refine ⟨hp', fun k => ?_⟩
    have := htop k
    rw [List.foldl_cons, hrest k, hc k, countOf_cons]
    by_cases hk : k = key x.1
    · rw [if_pos hk, if_pos hk.symm]
      omega
    · rw [if_neg hk, if_neg (Ne.symm hk)]
      omega

end Keys

end SatCounter

end SextantTree
