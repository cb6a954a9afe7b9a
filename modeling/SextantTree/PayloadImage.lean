import SextantTree.Mutate

/-!
The bytes of a payload extent. Offsets and lengths are counted in 32 bits and come first, so
where the data starts depends on the number of rows: an extent read with the count it was laid
out for gives the payloads back, as long as they have fewer than `2 ^ 32` bytes together.
-/

namespace SextantTree

open Pages FilterHash

/-- The running offsets of payloads laid out from `acc` on. -/
def offsetsFrom : (acc : ℕ) → List Bytes → List ℕ
  | _, [] => []
  | acc, b :: bs => acc :: offsetsFrom (acc + b.length) bs

def payloadBytes (ps : List Bytes) : ℕ := (ps.map List.length).sum

@[simp] lemma payloadBytes_cons (b : Bytes) (bs : List Bytes) :
    payloadBytes (b :: bs) = b.length + payloadBytes bs := by
  simp [payloadBytes]

lemma length_flatten_eq (ps : List Bytes) : ps.flatten.length = payloadBytes ps := by
  simp [payloadBytes, List.length_flatten]

@[simp] lemma length_offsetsFrom (acc : ℕ) (ps : List Bytes) :
    (offsetsFrom acc ps).length = ps.length := by
  induction ps generalizing acc with
  | nil => rfl
  | cons b bs ih => simp [offsetsFrom, ih]

lemma offsetsFrom_le {acc : ℕ} {ps : List Bytes} :
    ∀ o ∈ offsetsFrom acc ps, o ≤ acc + payloadBytes ps := by
  induction ps generalizing acc with
  | nil => simp [offsetsFrom]
  | cons b bs ih =>
    intro o ho
    rw [payloadBytes_cons]
    rcases List.mem_cons.mp ho with rfl | ho
    · omega
    · have := ih o ho
      omega

lemma length_le_payloadBytes {b : Bytes} {ps : List Bytes} (h : b ∈ ps) :
    b.length ≤ payloadBytes ps :=
  List.le_sum_of_mem (List.mem_map_of_mem h)

/-! ### Writing -/

lemma layPayload_eq {ps : List Bytes} {data : Bytes} {acc : ℕ}
    (hlen : acc + payloadBytes ps = data.length) (h32 : data.length < 2 ^ 32) :
    layPayload data acc ps = (offsetsFrom acc ps, data.take acc ++ ps.flatten) := by
  induction ps generalizing data acc with
  | nil =>
    have hacc : acc = data.length := hlen
    simp [layPayload, offsetsFrom, hacc]
  | cons b bs ih =>
    rw [payloadBytes_cons] at hlen
    have hsplice : (splice data acc b).length = data.length := by
      simp only [splice, List.length_append, List.length_take, List.length_drop]
      omega
    have htake : (splice data acc b).take (acc + b.length) = data.take acc ++ b := by
      rw [splice, List.append_assoc, List.take_append, List.take_take]
      have h1 : (data.take acc).length = acc := by simp; omega
      rw [h1, Nat.add_sub_cancel_left, List.take_append, List.take_length, Nat.sub_self,
        List.take_zero, List.append_nil, Nat.min_eq_right (Nat.le_add_right _ _)]
    simp only [layPayload, offsetsFrom]
    rw [Nat.mod_eq_of_lt (by omega), ih (by omega) (by omega), htake]
    simp

lemma length_layPayload (ps : List Bytes) (data : Bytes) (acc : ℕ)
    (h : acc + payloadBytes ps ≤ data.length) :
    (layPayload data acc ps).1.length = ps.length ∧
      (layPayload data acc ps).2.length = data.length := by
  induction ps generalizing data acc with
  | nil => exact ⟨rfl, rfl⟩
  | cons b bs ih =>
    rw [payloadBytes_cons] at h
    have hsplice : (splice data acc b).length = data.length := by
      simp only [splice, List.length_append, List.length_take, List.length_drop]
      omega
    have hwrap := Nat.mod_le (acc + b.length) (2 ^ 32)
    obtain ⟨h₁, h₂⟩ := ih (splice data acc b) ((acc + b.length) % 2 ^ 32) (by omega)
    exact ⟨by simp only [layPayload, List.length_cons, h₁], h₂.trans hsplice⟩

lemma payloadImage_eq {ps : List Bytes} (h : payloadBytes ps < 2 ^ 32) :
    payloadImage ps = (offsetsFrom 0 ps).flatMap u32le ++
      (ps.map List.length).flatMap u32le ++ ps.flatten := by
  have hrep : (List.replicate (ps.map List.length).sum (0 : UInt8)).length = payloadBytes ps := by
    simp [payloadBytes]
  unfold payloadImage
  rw [layPayload_eq (by rw [hrep]; omega) (by rw [hrep]; exact h)]
  simp [List.flatMap_map]

/-! ### Reading -/

lemma u32_of_le {n : ℕ} (h : n < 2 ^ 32) :
    (UInt8.ofNat n).toNat + (UInt8.ofNat (n / 2 ^ 8)).toNat * 2 ^ 8 +
      (UInt8.ofNat (n / 2 ^ 16)).toNat * 2 ^ 16 + (UInt8.ofNat (n / 2 ^ 24)).toNat * 2 ^ 24 = n := by
  simp only [UInt8.toNat_ofNat']
  omega

lemma u32At_words {ws : List ℕ} {tail : Bytes} {i w : ℕ} (hi : ws[i]? = some w) (hw : w < 2 ^ 32) :
    u32At (ws.flatMap u32le ++ tail) i = some w := by
  induction ws generalizing i with
  | nil => simp at hi
  | cons x xs ih =>
    cases i with
    | zero =>
      obtain rfl : x = w := by simpa using hi
      have := u32_of_le hw
      simp only [u32At, List.flatMap_cons, u32le, Nat.mul_zero, List.drop_zero, List.cons_append,
        List.nil_append, List.take_succ_cons, List.take_zero]
      rw [this]
    | succ i =>
      have hi' : xs[i]? = some w := by simpa using hi
      have hdrop : ((x :: xs).flatMap u32le ++ tail).drop (4 * (i + 1)) =
          (xs.flatMap u32le ++ tail).drop (4 * i) := by
        rw [List.flatMap_cons, Nat.mul_succ, Nat.add_comm, ← List.drop_drop]
        rfl
      rw [← ih hi', u32At, u32At, hdrop]

lemma length_flatMap_u32le (ws : List ℕ) : (ws.flatMap u32le).length = 4 * ws.length := by
  induction ws with
  | nil => rfl
  | cons x xs ih =>
    rw [List.flatMap_cons, List.length_append, ih]
    simp [u32le]
    omega

lemma length_payloadImage (ps : List Bytes) :
    (payloadImage ps).length = 8 * ps.length + payloadBytes ps := by
  obtain ⟨h₁, h₂⟩ := length_layPayload ps (List.replicate (ps.map List.length).sum 0) 0
    (by simp [payloadBytes])
  simp only [payloadImage, List.length_append, length_flatMap_u32le, h₁, h₂]
  rw [← List.flatMap_map, length_flatMap_u32le, List.length_map, List.length_replicate, payloadBytes]
  omega

lemma slice_offsets {ps : List Bytes} (front : Bytes) (tail : Bytes) {i : ℕ} {b : Bytes}
    (hi : ps[i]? = some b) : ∃ o, (offsetsFrom front.length ps)[i]? = some o ∧
      slice (front ++ ps.flatten ++ tail) o b.length = some b := by
  induction ps generalizing i front with
  | nil => simp at hi
  | cons x xs ih =>
    cases i with
    | zero =>
      obtain rfl : x = b := by simpa using hi
      refine ⟨front.length, rfl, ?_⟩
      unfold slice
      rw [if_pos (by simp), List.append_assoc, List.drop_left, List.flatten_cons, List.append_assoc,
        List.take_left]
    | succ i =>
      obtain ⟨o, ho, hs⟩ := ih (front ++ x) (i := i) (by simpa using hi)
      refine ⟨o, ?_, ?_⟩
      · simpa [offsetsFrom] using ho
      · rw [← hs]
        simp

section

variable {ps : List Bytes}

def payloadWords (ps : List Bytes) : List ℕ := offsetsFrom 0 ps ++ ps.map List.length

lemma length_payloadWords (ps : List Bytes) : (payloadWords ps).length = 2 * ps.length := by
  simp [payloadWords]
  omega

lemma padded_payloadImage (h : payloadBytes ps < 2 ^ 32) :
    ∃ tail, padded (payloadImage ps) = (payloadWords ps).flatMap u32le ++ (ps.flatten ++ tail) := by
  refine ⟨List.replicate (pagesFor (payloadImage ps).length * kPageSize -
    (payloadImage ps).length) 0, ?_⟩
  rw [padded]
  simp only [payloadImage_eq h, payloadWords, List.flatMap_append, List.append_assoc]

lemma u32At_offset (h : payloadBytes ps < 2 ^ 32) {i o : ℕ} (hi : (offsetsFrom 0 ps)[i]? = some o) :
    u32At (padded (payloadImage ps)) i = some o := by
  obtain ⟨tail, htail⟩ := padded_payloadImage h
  have hlt := offsetsFrom_le o (List.mem_of_getElem? hi)
  have hlen := (List.getElem?_eq_some_iff.mp hi).1
  rw [htail]
  refine u32At_words ?_ (by omega)
  rw [payloadWords, List.getElem?_append_left hlen, hi]

lemma u32At_length (h : payloadBytes ps < 2 ^ 32) {i : ℕ} {b : Bytes} (hi : ps[i]? = some b) :
    u32At (padded (payloadImage ps)) (ps.length + i) = some b.length := by
  obtain ⟨tail, htail⟩ := padded_payloadImage h
  have hlt := length_le_payloadBytes (List.mem_of_getElem? hi)
  rw [htail]
  refine u32At_words ?_ (by omega)
  rw [payloadWords, List.getElem?_append_right (by simp)]
  simp [hi]

lemma drop_padded (h : payloadBytes ps < 2 ^ 32) :
    ∃ tail, (padded (payloadImage ps)).drop (8 * ps.length) = ps.flatten ++ tail := by
  obtain ⟨tail, htail⟩ := padded_payloadImage h
  refine ⟨tail, ?_⟩
  have hlen : 8 * ps.length = ((payloadWords ps).flatMap u32le).length := by
    rw [length_flatMap_u32le, length_payloadWords]
    omega
  rw [htail, hlen, List.drop_left]

lemma mapM_eq_some_of_forall₂ {α β : Type} {f : α → Option β} {l : List α} {r : List β}
    (h : List.Forall₂ (fun a b => f a = some b) l r) : l.mapM f = some r := by
  induction h with
  | nil => rfl
  | cons hab _ ih =>
    rw [List.mapM_cons, hab, ih]
    rfl

lemma mapM_range_eq_some {α : Type} {f : ℕ → Option α} {l : List α} {n : ℕ} (hn : n = l.length)
    (h : ∀ i a, l[i]? = some a → f i = some a) : (List.range n).mapM f = some l := by
  refine mapM_eq_some_of_forall₂ (List.forall₂_iff_get.mpr ⟨by simp [hn], fun i h₁ h₂ => ?_⟩)
  rw [List.get_eq_getElem, List.getElem_range]
  exact h i _ (List.getElem?_eq_getElem h₂)

/-- **An extent read with the count it was laid out for.** -/
theorem oldPayloads_payloadImage (h : payloadBytes ps < 2 ^ 32) :
    oldPayloads (payloadImage ps) ps.length = some ps := by
  have hoffs : (List.range ps.length).mapM (u32At (padded (payloadImage ps))) =
      some (offsetsFrom 0 ps) :=
    mapM_range_eq_some (by simp) fun i o => u32At_offset h
  have hlens : (List.range ps.length).mapM
      (fun i => u32At (padded (payloadImage ps)) (ps.length + i)) = some (ps.map List.length) := by
    refine mapM_range_eq_some (by simp) fun i n hi => ?_
    rw [List.getElem?_map, Option.map_eq_some_iff] at hi
    obtain ⟨b, hb, rfl⟩ := hi
    exact u32At_length h hb
  obtain ⟨tail, htail⟩ := drop_padded h
  have hdata : slice (padded (payloadImage ps)) (8 * ps.length) ((ps.map List.length).sum % 2 ^ 32) =
      some ps.flatten := by
    have hsum : (ps.map List.length).sum = ps.flatten.length := (length_flatten_eq ps).symm
    have hle : ps.flatten.length < 2 ^ 32 := by rw [length_flatten_eq]; exact h
    have hroom := congrArg List.length htail
    rw [List.length_drop, List.length_append] at hroom
    rw [hsum, Nat.mod_eq_of_lt hle, slice]
    by_cases hz : 8 * ps.length + ps.flatten.length ≤ (padded (payloadImage ps)).length
    · rw [if_pos hz, htail, List.take_left]
    · -- the words are there, so there is nothing to read only if there are no payloads
      exfalso
      obtain ⟨tail', htail'⟩ := padded_payloadImage h
      have := congrArg List.length htail'
      rw [List.length_append, length_flatMap_u32le, length_payloadWords, List.length_append] at this
      omega
  have hslices : ((offsetsFrom 0 ps).zip (ps.map List.length)).mapM
      (fun x => slice ps.flatten x.1 x.2) = some ps := by
    refine mapM_eq_some_of_forall₂ (List.forall₂_iff_get.mpr ⟨by simp, fun i h₁ h₂ => ?_⟩)
    obtain ⟨o, ho, hs⟩ := slice_offsets [] [] (List.getElem?_eq_getElem h₂)
    have ho' : (offsetsFrom 0 ps)[i]? = some o := ho
    have hget := (List.getElem?_eq_some_iff.mp ho').2
    simp only [List.get_eq_getElem, List.getElem_zip, List.getElem_map]
    rw [hget]
    simpa using hs
  simp only [oldPayloads, bind, Option.bind, hoffs, hlens, hdata, hslices]

end

end SextantTree
