import Mathlib.Data.List.Basic
import Mathlib.Tactic

/-!
Runs of a partial step function of which every step meets a condition, what such a run keeps, and how
often it can do what uses up something.
-/

namespace SextantTree.Stepwise

variable {σ ε : Type*} {step : σ → ε → Option σ} {P Q : σ → ε → Prop} {s t u : σ} {es fs : List ε}

/-- A run over the events `es`. -/
inductive Run (step : σ → ε → Option σ) (P : σ → ε → Prop) : σ → List ε → σ → Prop
  | refl (s : σ) : Run step P s [] s
  | tail {s t u : σ} {es : List ε} (h : Run step P s es t) (e : ε) (ok : P t e)
      (hstep : step t e = some u) : Run step P s (es ++ [e]) u

/-- The runs of a step relation. -/
inductive Steps {τ : Type*} (A : τ → ε → τ → Prop) : τ → List ε → τ → Prop
  | refl (a : τ) : Steps A a [] a
  | tail {a b c : τ} {es : List ε} (h : Steps A a es b) (e : ε) (hstep : A b e c) :
      Steps A a (es ++ [e]) c

lemma Steps.foldl {τ : Type*} {A : τ → ε → τ → Prop} {f : τ → ε → τ} {a b : τ} (h : Steps A a es b)
    (hf : ∀ a e b, A a e b → b = f a e) : b = es.foldl f a := by
  induction h with
  | refl => rfl
  | tail _ e hstep ih => rw [List.foldl_append, ← ih, hf _ _ _ hstep]; rfl

namespace Run

/-- **What every step keeps** holds at the end of a run. -/
lemma invariant {I : σ → Prop} (h : Run step P s es t) (hs : I s)
    (hstep : ∀ t e u, I t → P t e → step t e = some u → I u) : I t := by
  induction h with
  | refl => exact hs
  | tail _ e ok hu ih => exact hstep _ e _ ih ok hu

lemma mono (h : Run step P s es t) (hPQ : ∀ t e, P t e → Q t e) : Run step Q s es t := by
  induction h with
  | refl => exact .refl _
  | tail _ e ok hu ih => exact ih.tail e (hPQ _ e ok) hu

lemma of_mem (h : Run step P s es t) : Run step (fun s e => P s e ∧ e ∈ es) s es t := by
  induction h with
  | refl => exact .refl _
  | tail _ e ok hu ih =>
    refine (ih.mono fun _ _ h => ⟨h.1, List.mem_append_left _ h.2⟩).tail e ⟨ok, ?_⟩ hu
    exact List.mem_append_right _ (List.mem_singleton_self e)

lemma append (h : Run step P s es t) (h' : Run step P t fs u) : Run step P s (es ++ fs) u := by
  induction h' with
  | refl => rwa [List.append_nil]
  | tail _ e ok hu ih =>
    rw [← List.append_assoc]
    exact ih.tail e ok hu

/-- **A step that is counted uses something up**, of which no other step makes more. -/
lemma count_le {I : σ → Prop} {work : σ → ℕ} {counted : ε → Bool} (h : Run step P s es t) (hs : I s)
    (hI : ∀ t e u, I t → P t e → step t e = some u → I u)
    (hwork : ∀ t e u, I t → P t e → step t e = some u →
      work u + (if counted e then 1 else 0) ≤ work t) : es.countP counted + work t ≤ work s := by
  induction h with
  | refl => simp
  | tail hrun e ok hu ih =>
    have hle := hwork _ e _ (hrun.invariant hs hI) ok hu
    rw [List.countP_append, List.countP_singleton]
    omega

/-- **A run is followed by an abstract one** over the same events, if every step is. -/
lemma simulates {τ : Type*} {A : τ → ε → τ → Prop} {R : σ → τ → Prop} (h : Run step P s es t) {a : τ}
    (hs : R s a)
    (hstep : ∀ t e u b, R t b → P t e → step t e = some u → ∃ c, A b e c ∧ R u c) :
    ∃ b, Steps A a es b ∧ R t b := by
  induction h with
  | refl => exact ⟨a, .refl a, hs⟩
  | tail _ e ok hu ih =>
    obtain ⟨b, hb, hR⟩ := ih
    obtain ⟨c, hc, hR'⟩ := hstep _ e _ b hR ok hu
    exact ⟨c, hb.tail e hc, hR'⟩

lemma replicate {e : ε} (ok : P s e) (hstep : step s e = some s) (n : ℕ) :
    Run step P s (List.replicate n e) s := by
  induction n with
  | zero => exact .refl s
  | succ n ih =>
    rw [List.replicate_succ']
    exact ih.tail e ok hstep

lemma of_foldlM [∀ s e, Decidable (P s e)]
    (h : es.foldlM (fun s e => if P s e then step s e else none) s = some t) : Run step P s es t := by
  induction es using List.reverseRecOn generalizing t with
  | nil =>
    cases h
    exact .refl s
  | append_singleton es e ih =>
    rw [List.foldlM_append] at h
    obtain ⟨u, hu, hlast⟩ := Option.bind_eq_some_iff.mp h
    rw [List.foldlM_cons] at hlast
    split_ifs at hlast with hP
    · exact (ih hu).tail e hP (by simpa using hlast)
    · cases hlast

end Run

end SextantTree.Stepwise
