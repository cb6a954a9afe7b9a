import SextantTree.ByteMem

/-!
Readers of a byte stream, and what it means that a reader gives back what a writer has put there.
-/

namespace SextantTree

open ByteMem

variable {ε α β : Type}

/-- A reader takes what it needs from the front of the stream, or stops with a fault. -/
def Reader (ε α : Type) : Type := List UInt8 → Except ε (α × List UInt8)

namespace Reader

instance : Monad (Reader ε) where
  pure a := fun s => .ok (a, s)
  bind r f := fun s =>
    match r s with
    | .ok (a, s) => f a s
    | .error e => .error e

/-- The next `n` bytes. -/
def take (e : ε) (n : ℕ) : Reader ε (List UInt8) := fun s =>
  if n ≤ s.length then .ok (s.take n, s.drop n) else .error e

/-- Past the next `n` bytes, which need not be there. -/
def skip (n : ℕ) : Reader ε Unit := fun s => .ok ((), s.drop n)

/-- A word of `w` bytes. -/
def word (e : ε) (w : ℕ) : Reader ε ℕ := do
  let b ← take e w
  pure (leNat b)

/-- `r`, `n` times. -/
def many (r : Reader ε α) : ℕ → Reader ε (List α)
  | 0 => pure []
  | n + 1 => do
    let a ← r
    let as ← many r n
    pure (a :: as)

/-- `r` on a buffer. What it leaves there is not looked at. -/
def within (r : Reader ε α) (b : List UInt8) : Reader ε α := fun s =>
  match r b with
  | .ok (a, _) => .ok (a, s)
  | .error e => .error e

lemma bind_of_ok {r : Reader ε α} {f : α → Reader ε β} {b rest : List UInt8} {a : α}
    (h : r b = .ok (a, rest)) : (r >>= f) b = f a rest := by
  change (match r b with
    | .ok (a, s) => f a s
    | .error e => .error e) = _
  rw [h]

lemma bind_of_error {r : Reader ε α} {f : α → Reader ε β} {b : List UInt8} {e : ε}
    (h : r b = .error e) : (r >>= f) b = .error e := by
  change (match r b with
    | .ok (a, s) => f a s
    | .error e => .error e) = _
  rw [h]

lemma exists_of_bind_ok {r : Reader ε α} {f : α → Reader ε β} {b rest : List UInt8} {c : β}
    (h : (r >>= f) b = .ok (c, rest)) :
    ∃ a mid, r b = .ok (a, mid) ∧ f a mid = .ok (c, rest) := by
  cases hr : r b with
  | ok x => exact ⟨x.1, x.2, rfl, by rwa [bind_of_ok hr] at h⟩
  | error e =>
    rw [bind_of_error hr] at h
    cases h

/-- From a stream that starts with `b`, the reader takes `b` and gives `a`. -/
def Reads (r : Reader ε α) (b : List UInt8) (a : α) : Prop :=
  ∀ rest, r (b ++ rest) = .ok (a, rest)

lemma Reads.all {r : Reader ε α} {b : List UInt8} {a : α} (h : Reads r b a) : r b = .ok (a, []) := by
  have := h []
  rwa [List.append_nil] at this

lemma reads_pure (a : α) : Reads (pure a : Reader ε α) [] a := fun _ => rfl

lemma Reads.bind {r : Reader ε α} {f : α → Reader ε β} {b b' : List UInt8} {a : α} {c : β}
    (h : Reads r b a) (h' : Reads (f a) b' c) : Reads (r >>= f) (b ++ b') c := by
  intro rest
  rw [List.append_assoc, bind_of_ok (h _)]
  exact h' rest

lemma Reads.bind_pure {r : Reader ε α} {f : α → β} {b : List UInt8} {a : α} (h : Reads r b a) :
    Reads (r >>= fun x => pure (f x)) b (f a) := by
  have := Reads.bind (f := fun x => pure (f x)) h (reads_pure (f a))
  rwa [List.append_nil] at this

lemma reads_take (e : ε) {b : List UInt8} {n : ℕ} (h : b.length = n) : Reads (take e n) b b := by
  intro rest
  subst h
  simp [take]

lemma reads_skip {b : List UInt8} {n : ℕ} (h : b.length = n) :
    Reads (skip n : Reader ε Unit) b () := by
  intro rest
  subst h
  simp [skip]

lemma reads_word (e : ε) {w n : ℕ} (h : n < 256 ^ w) : Reads (word e w) (leBytes w n) n := by
  have := (reads_take e (length_leBytes w n)).bind_pure (f := leNat)
  rwa [leNat_leBytes h] at this

lemma reads_many_map {r : Reader ε α} {enc : β → List UInt8} {g : β → α} (bs : List β)
    (h : ∀ b ∈ bs, Reads r (enc b) (g b)) :
    Reads (many r bs.length) (bs.flatMap enc) (bs.map g) := by
  induction bs with
  | nil => exact reads_pure []
  | cons b bs ih =>
    have htail := ih fun x hx => h x (List.mem_cons_of_mem b hx)
    exact (h b List.mem_cons_self).bind (htail.bind_pure (f := fun as => g b :: as))

lemma reads_many {r : Reader ε α} {enc : α → List UInt8} (as : List α)
    (h : ∀ a ∈ as, Reads r (enc a) a) : Reads (many r as.length) (as.flatMap enc) as := by
  have := reads_many_map (g := id) as h
  rwa [List.map_id] at this

lemma reads_within {r : Reader ε α} {b : List UInt8} {a : α} (h : Reads r b a) :
    Reads (within r b) [] a := by
  intro rest
  have := h []
  rw [List.append_nil] at this
  simp [within, this]

end Reader

end SextantTree
