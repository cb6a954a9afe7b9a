import Mathlib.Data.List.Basic
import Mathlib.Data.List.Forall2

/-!
Pieces of a list: the piece at a position, a list that holds another at a position, and
overwriting a piece.
-/

namespace SextantTree.Slice

variable {α : Type}

/-- The `n` elements from `off` on. -/
def piece (xs : List α) (off n : ℕ) : List α := (xs.drop off).take n

/-- `ys` written over `xs` from `off` on; a gap is filled with `pad`. -/
def overwrite (pad : α) (xs : List α) (off : ℕ) (ys : List α) : List α :=
  xs.take off ++ List.replicate (off - xs.length) pad ++ ys ++ xs.drop (off + ys.length)

lemma piece_piece (xs : List α) {a b off n : ℕ} (h : off + n ≤ b) :
    piece (piece xs a b) off n = piece xs (a + off) n := by
  simp only [piece, List.drop_take, List.take_take, List.drop_drop]
  have hn : n ≤ b - off := by omega
  rw [Nat.min_eq_left hn]

lemma overwrite_length (pad : α) (xs ys : List α) : overwrite pad xs xs.length ys = xs ++ ys := by
  simp [overwrite]

lemma overwrite_middle (pad : α) (xs : List α) {ys zs : List α} (h : ys.length = zs.length)
    (ws : List α) : overwrite pad (xs ++ (zs ++ ws)) xs.length ys = xs ++ (ys ++ ws) := by
  have hgap : xs.length - (xs ++ (zs ++ ws)).length = 0 := by
    rw [List.length_append]
    omega
  have hdrop : (xs ++ (zs ++ ws)).drop (xs.length + ys.length) = ws := by
    rw [h, ← List.drop_drop, List.drop_left, List.drop_left]
  rw [overwrite, List.take_left, hgap, List.replicate_zero, List.append_nil, hdrop,
    List.append_assoc]

lemma getElem?_overwrite (pad : α) {xs ys : List α} {off : ℕ} (h : off + ys.length ≤ xs.length)
    (i : ℕ) : (overwrite pad xs off ys)[i]? =
      if off ≤ i ∧ i < off + ys.length then ys[i - off]? else xs[i]? := by
  obtain ⟨before, mid, after, rfl, rfl, hmid⟩ : ∃ before mid after, xs = before ++ (mid ++ after) ∧
      before.length = off ∧ ys.length = mid.length := by
    refine ⟨xs.take off, (xs.drop off).take ys.length, (xs.drop off).drop ys.length, ?_, ?_, ?_⟩
    · rw [List.take_append_drop, List.take_append_drop]
    · rw [List.length_take]
      omega
    · rw [List.length_take, List.length_drop]
      omega
  rw [overwrite_middle pad before hmid]
  by_cases hlo : i < before.length
  · rw [List.getElem?_append_left hlo, List.getElem?_append_left hlo, if_neg (by omega)]
  · have hge : before.length ≤ i := by omega
    rw [List.getElem?_append_right hge, List.getElem?_append_right hge]
    by_cases hhi : i - before.length < ys.length
    · rw [List.getElem?_append_left hhi, if_pos (by omega)]
    · have hys : ys.length ≤ i - before.length := by omega
      rw [List.getElem?_append_right hys, List.getElem?_append_right (hmid ▸ hys), hmid,
        if_neg (by omega)]

/-- `ys` stands in `xs` at `off`. -/
def At (xs : List α) (off : ℕ) (ys : List α) : Prop :=
  ∃ before after, xs = before ++ (ys ++ after) ∧ before.length = off

namespace At

variable {xs ys zs : List α} {off : ℕ}

lemma last (xs ys : List α) : At (xs ++ ys) xs.length ys := ⟨xs, [], by simp, rfl⟩

lemma append_right (h : At xs off ys) (zs : List α) : At (xs ++ zs) off ys := by
  obtain ⟨before, after, rfl, hb⟩ := h
  exact ⟨before, after ++ zs, by simp, hb⟩

lemma append_left (h : At xs off ys) (zs : List α) : At (zs ++ xs) (zs.length + off) ys := by
  obtain ⟨before, after, rfl, rfl⟩ := h
  exact ⟨zs ++ before, after, by simp, by simp⟩

lemma le_length (h : At xs off ys) : off + ys.length ≤ xs.length := by
  obtain ⟨before, after, rfl, rfl⟩ := h
  simp only [List.length_append]
  omega

lemma piece_eq (h : At xs off ys) : piece xs off ys.length = ys := by
  obtain ⟨before, after, rfl, rfl⟩ := h
  rw [piece, List.drop_left, List.take_left]

lemma right (h : At xs off (ys ++ zs)) : At xs (off + ys.length) zs := by
  obtain ⟨before, after, rfl, rfl⟩ := h
  exact ⟨before ++ ys, after, by simp, by simp⟩

end At

end SextantTree.Slice
