import Mathlib.Data.List.Forall2

/-!
Computations that may fail, with rules for what they return. A computation meets a
postcondition if its result has it, or if it failed in a way that is allowed: which failures
are allowed is a parameter, so that "does not fail", "fails only with an exception" and "what
it returns is right" are three uses of one notion.
-/

namespace SextantTree.Outcome

variable {ε α β γ : Type} {safe : ε → Prop}

/-- The result satisfies `Q`, or the failure is an allowed one. -/
def Meets (safe : ε → Prop) (x : Except ε α) (Q : α → Prop) : Prop :=
  match x with
  | .ok a => Q a
  | .error e => safe e

@[simp] lemma meets_ok {a : α} {Q : α → Prop} : Meets safe (.ok a : Except ε α) Q ↔ Q a := Iff.rfl

@[simp] lemma meets_error {e : ε} {Q : α → Prop} :
    Meets safe (.error e : Except ε α) Q ↔ safe e := Iff.rfl

lemma ok_bind (a : α) (f : α → Except ε β) : ((.ok a : Except ε α) >>= f) = f a := rfl

lemma bind_eq_ok {x : Except ε α} {f : α → Except ε β} {b : β} :
    (x >>= f) = .ok b ↔ ∃ a, x = .ok a ∧ f a = .ok b := by
  cases x with
  | ok a => simp [ok_bind]
  | error e =>
    constructor
    · intro h
      cases h
    · rintro ⟨a, ha, -⟩
      cases ha

namespace Meets

variable {x : Except ε α} {Q R : α → Prop}

lemma result (h : Meets safe x Q) {a : α} (hx : x = .ok a) : Q a := by
  rw [hx] at h
  exact h

lemma failure (h : Meets safe x Q) {e : ε} (hx : x = .error e) : safe e := by
  rw [hx] at h
  exact h

lemma mono (h : Meets safe x Q) (hQR : ∀ a, Q a → R a) : Meets safe x R := by
  cases x with
  | ok a => exact hQR a h
  | error e => exact h

lemma bind {f : α → Except ε β} {S : β → Prop} (h : Meets safe x Q)
    (hf : ∀ a, Q a → Meets safe (f a) S) : Meets safe (x >>= f) S := by
  cases x with
  | ok a => exact hf a h
  | error e => exact h

lemma foldlM {f : γ → β → Except ε γ} (Inv : List β → γ → Prop) {l : List β}
    (hstep : ∀ done b rest c, l = done ++ b :: rest → Inv done c →
      Meets safe (f c b) (Inv (done ++ [b]))) {c : γ} (hc : Inv [] c) :
    Meets safe (l.foldlM f c) (Inv l) := by
  suffices h : ∀ rest done c, l = done ++ rest → Inv done c →
      Meets safe (rest.foldlM f c) (Inv l) from h l [] c rfl hc
  intro rest
  induction rest with
  | nil =>
    intro done c hl hc
    rw [hl, List.append_nil]
    exact hc
  | cons b rest ih =>
    intro done c hl hc
    rw [List.foldlM_cons]
    refine (hstep done b rest c hl hc).bind fun c' hc' => ih (done ++ [b]) c' ?_ hc'
    rw [hl, List.append_assoc, List.singleton_append]

lemma mapM {f : β → Except ε α} {Q : β → α → Prop} {l : List β}
    (h : ∀ b ∈ l, Meets safe (f b) (Q b)) : Meets safe (l.mapM f) (List.Forall₂ Q l) := by
  induction l with
  | nil => exact .nil
  | cons b l ih =>
    rw [List.mapM_cons]
    refine (h b List.mem_cons_self).bind fun a ha => ?_
    refine (ih fun b hb => h b (List.mem_cons_of_mem _ hb)).bind fun as has => ?_
    exact .cons ha has

end Meets

lemma mapM_ok {f : β → Except ε α} {g : β → α} {l : List β} (h : ∀ b ∈ l, f b = .ok (g b)) :
    l.mapM f = .ok (l.map g) := by
  induction l with
  | nil => rfl
  | cons b l ih =>
    rw [List.mapM_cons, h b List.mem_cons_self, ih fun b hb => h b (List.mem_cons_of_mem _ hb)]
    rfl

lemma exists_mapM_eq_ok {f : β → Except ε α} {l : List β} (h : ∀ b ∈ l, ∃ a, f b = .ok a) :
    ∃ as, l.mapM f = .ok as := by
  induction l with
  | nil => exact ⟨[], rfl⟩
  | cons b l ih =>
    obtain ⟨a, ha⟩ := h b List.mem_cons_self
    obtain ⟨as, has⟩ := ih fun b hb => h b (List.mem_cons_of_mem _ hb)
    exact ⟨a :: as, by rw [List.mapM_cons, ha, has]; rfl⟩

lemma mem_of_mapM_eq_ok {f : β → Except ε α} {l : List β} {as : List α} (h : l.mapM f = .ok as)
    {a : α} : a ∈ as ↔ ∃ b ∈ l, f b = .ok a := by
  induction l generalizing as with
  | nil =>
    cases h
    simp
  | cons b l ih =>
    rw [List.mapM_cons] at h
    obtain ⟨a', ha', h⟩ := bind_eq_ok.mp h
    obtain ⟨as', has', h⟩ := bind_eq_ok.mp h
    cases h
    constructor
    · intro ha
      rcases List.mem_cons.mp ha with rfl | ha
      · exact ⟨b, List.mem_cons_self, ha'⟩
      · obtain ⟨c, hc, hfc⟩ := (ih has').mp ha
        exact ⟨c, List.mem_cons_of_mem b hc, hfc⟩
    · rintro ⟨c, hc, hfc⟩
      rcases List.mem_cons.mp hc with rfl | hc
      · rw [ha'] at hfc
        cases hfc
        exact List.mem_cons_self
      · exact List.mem_cons_of_mem a' ((ih has').mpr ⟨c, hc, hfc⟩)

lemma mapM_eq_ok_iff {f : β → Except ε α} {l : List β} {as : List α} :
    l.mapM f = .ok as ↔ List.Forall₂ (fun b a => f b = .ok a) l as := by
  induction l generalizing as with
  | nil =>
    rw [List.mapM_nil, List.forall₂_nil_left_iff]
    exact ⟨fun h => (Except.ok.inj h).symm, fun h => h ▸ rfl⟩
  | cons b l ih =>
    rw [List.mapM_cons, List.forall₂_cons_left_iff]
    constructor
    · intro h
      obtain ⟨a, ha, h⟩ := bind_eq_ok.mp h
      obtain ⟨as', has', h⟩ := bind_eq_ok.mp h
      exact ⟨a, as', ha, ih.mp has', (Except.ok.inj h).symm⟩
    · rintro ⟨a, as', ha, has', rfl⟩
      rw [ha, ok_bind, ih.mpr has', ok_bind]
      rfl

lemma exists_ok_of_mapM_eq_ok {f : β → Except ε α} {l : List β} {as : List α} (h : l.mapM f = .ok as)
    {b : β} (hb : b ∈ l) : ∃ a, f b = .ok a := by
  induction l generalizing as with
  | nil => cases hb
  | cons c l ih =>
    rw [List.mapM_cons] at h
    obtain ⟨a, ha, h⟩ := bind_eq_ok.mp h
    obtain ⟨as', has', -⟩ := bind_eq_ok.mp h
    rcases List.mem_cons.mp hb with rfl | hb
    · exact ⟨a, ha⟩
    · exact ih has' hb

end SextantTree.Outcome
