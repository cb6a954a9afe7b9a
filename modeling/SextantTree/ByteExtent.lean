import SextantTree.ByteReader

/-!
How many bytes a reader takes from a stream, where a shorter one makes it stop.
-/

namespace SextantTree.Reader

open ByteMem

variable {ε α β : Type} {e : ε} {w w' : ℕ} {b : List UInt8}

/-- From the stream `b`, the reader takes `w` bytes, or its fault is `e` because `b` is shorter. -/
def TakesAt (r : Reader ε α) (e : ε) (w : ℕ) (b : List UInt8) : Prop :=
  if w ≤ b.length then ∃ a, r b = .ok (a, b.drop w) else r b = .error e

lemma TakesAt.ok {r : Reader ε α} (h : TakesAt r e w b) (hb : w ≤ b.length) :
    ∃ a, r b = .ok (a, b.drop w) := by
  rwa [TakesAt, if_pos hb] at h

lemma TakesAt.error {r : Reader ε α} (h : TakesAt r e w b) (hb : b.length < w) :
    r b = .error e := by
  rwa [TakesAt, if_neg (by omega)] at h

lemma takesAt_pure (e : ε) (a : α) (b : List UInt8) : TakesAt (pure a) e 0 b := by
  rw [TakesAt, if_pos (Nat.zero_le _)]
  exact ⟨a, rfl⟩

lemma takesAt_take (e : ε) (n : ℕ) (b : List UInt8) : TakesAt (take e n) e n b := by
  unfold TakesAt take
  split_ifs
  · exact ⟨_, rfl⟩
  · rfl

lemma TakesAt.bind {r : Reader ε α} {f : α → Reader ε β} (h : TakesAt r e w b)
    (h' : ∀ a, r b = .ok (a, b.drop w) → TakesAt (f a) e w' (b.drop w)) :
    TakesAt (r >>= f) e (w + w') b := by
  by_cases hw : w ≤ b.length
  · obtain ⟨a, ha⟩ := h.ok hw
    have hrest := h' a ha
    unfold TakesAt at hrest ⊢
    rw [List.length_drop, List.drop_drop] at hrest
    rw [bind_of_ok ha]
    by_cases hw' : w + w' ≤ b.length
    · rw [if_pos (by omega)] at hrest
      rwa [if_pos hw']
    · rw [if_neg (by omega)] at hrest
      rwa [if_neg hw']
  · rw [TakesAt, if_neg (by omega)]
    exact bind_of_error (h.error (by omega))

lemma TakesAt.bind_pure {r : Reader ε α} {f : α → β} (h : TakesAt r e w b) :
    TakesAt (r >>= fun a => pure (f a)) e w b :=
  h.bind fun a _ => takesAt_pure e (f a) _

lemma takesAt_word (e : ε) (w : ℕ) (b : List UInt8) : TakesAt (word e w) e w b :=
  (takesAt_take e w b).bind_pure

lemma takesAt_many {r : Reader ε α} (h : ∀ b, TakesAt r e w b) (n : ℕ) (b : List UInt8) :
    TakesAt (many r n) e (n * w) b := by
  induction n generalizing b with
  | zero =>
    rw [Nat.zero_mul]
    exact takesAt_pure e [] b
  | succ n ih =>
    have hstep : TakesAt (many r (n + 1)) e (w + n * w) b :=
      (h b).bind fun a _ => (ih _).bind_pure (f := fun as => a :: as)
    rwa [Nat.succ_mul, Nat.add_comm (n * w)]

lemma word_of_le (e : ε) (hb : w ≤ b.length) :
    word e w b = .ok (leNat (b.take w), b.drop w) := by
  have : take e w b = .ok (b.take w, b.drop w) := if_pos hb
  exact bind_of_ok this

lemma word_of_lt (e : ε) (hb : b.length < w) : word e w b = .error e :=
  (takesAt_word e w b).error hb

lemma number_of_word {n : ℕ} {rest : List UInt8} (h : word e w b = .ok (n, rest)) :
    n = leNat (b.take w) := by
  by_cases hb : w ≤ b.length
  · rw [word_of_le e hb] at h
    exact (congrArg Prod.fst (Except.ok.inj h)).symm
  · rw [word_of_lt e (by omega)] at h
    cases h

end SextantTree.Reader
