import Mathlib.Order.WithBot
import Mathlib.Tactic

/-!
The nearest centroid of each row of a k-means step: `argmin_scaled` with its scalar loop and with
the vector loops, in which each lane keeps the first least value of its own columns and the lanes
are compared at the end by their values alone.

Values are exact rationals.
-/

namespace SextantTree.Argmin

/-! ### First least values -/

section FirstLeast

variable {α : Type*} [LinearOrder α] [OrderTop α] {v : ℕ → α} {cs : List ℕ} {r : α × ℕ}

/-- Keeps the least value so far, and where it was first found. -/
def scanMin (v : ℕ → α) (cs : List ℕ) : α × ℕ :=
  cs.foldl (fun r c => if v c < r.1 then (v c, c) else r) (⊤, 0)

/-- The least value of some columns with the first column that has it; without one below `⊤`,
column 0. -/
structure FirstLeast (v : ℕ → α) (cs : List ℕ) (r : α × ℕ) : Prop where
  le : ∀ c ∈ cs, r.1 ≤ v c
  found : r.1 < ⊤ → r.2 ∈ cs ∧ v r.2 = r.1
  first : r.1 < ⊤ → ∀ c ∈ cs, v c = r.1 → r.2 ≤ c
  zero : r.1 = ⊤ → r.2 = 0

lemma scanMin_spec (v : ℕ → α) (hcs : cs.Pairwise (· < ·)) : FirstLeast v cs (scanMin v cs) := by
  induction cs using List.reverseRecOn with
  | nil =>
    refine ⟨fun c hc => absurd hc List.not_mem_nil, fun h => absurd h (lt_irrefl _),
      fun h => absurd h (lt_irrefl _), fun _ => rfl⟩
  | append_singleton cs c ih =>
    obtain ⟨hcs, -, hlt⟩ := List.pairwise_append.mp hcs
    have hlt : ∀ d ∈ cs, d < c := fun d hd => hlt d hd c (List.mem_singleton_self c)
    obtain ⟨hle, hfound, hfirst, hzero⟩ := ih hcs
    rw [scanMin, List.foldl_append, ← scanMin, List.foldl_cons, List.foldl_nil]
    split
    case isTrue h =>
      -- the new column is below all before it
      refine ⟨fun d hd => ?_, fun _ => ⟨by simp, rfl⟩, fun _ d hd hv => ?_, fun htop => ?_⟩
      · rcases List.mem_append.mp hd with hd | hd
        · exact h.le.trans (hle d hd)
        · rw [List.mem_singleton.mp hd]
      · rcases List.mem_append.mp hd with hd | hd
        · exact absurd (hle d hd) (not_le.mpr (hv.trans_lt h))
        · rw [List.mem_singleton.mp hd]
      · have htop : v c = ⊤ := htop
        exact absurd (htop ▸ h) not_top_lt
    case isFalse h =>
      refine ⟨fun d hd => ?_, fun hr => ?_, fun hr d hd hv => ?_, hzero⟩
      · rcases List.mem_append.mp hd with hd | hd
        · exact hle d hd
        · rw [List.mem_singleton.mp hd]
          exact not_lt.mp h
      · exact ⟨List.mem_append_left [c] (hfound hr).1, (hfound hr).2⟩
      · rcases List.mem_append.mp hd with hd | hd
        · exact hfirst hr d hd hv
        · rw [List.mem_singleton.mp hd]
          exact (hlt _ (hfound hr).1).le

end FirstLeast

section Leftmost

variable {α : Type*} [LinearOrder α]

/-- The least value with the first lane that has it. -/
def Leftmost (n : ℕ) (l : ℕ → α × ℕ) (r : α × ℕ) : Prop :=
  ∃ j < n, r = l j ∧ (∀ i < n, (l j).1 ≤ (l i).1) ∧ ∀ i < j, (l j).1 < (l i).1

lemma leftmost_foldl (l : ℕ → α × ℕ) (n : ℕ) :
    Leftmost (n + 1) l ((List.range' 1 n).foldl (fun r j => if (l j).1 < r.1 then l j else r) (l 0)) := by
  induction n with
  | zero =>
    refine ⟨0, Nat.one_pos, rfl, fun i hi => ?_, fun i hi => absurd hi (Nat.not_lt_zero i)⟩
    obtain rfl : i = 0 := by omega
    exact le_rfl
  | succ n ih =>
    obtain ⟨j, hj, hr, hle, hlt⟩ := ih
    rw [List.range'_concat, List.foldl_append, hr, List.foldl_cons, List.foldl_nil, one_mul]
    split
    case isTrue h =>
      refine ⟨1 + n, by omega, rfl, fun i hi => ?_, fun i hi => ?_⟩
      · rcases Nat.lt_succ_iff_lt_or_eq.mp hi with hi | rfl
        · exact h.le.trans (hle i hi)
        · rw [add_comm]
      · exact h.trans_le (hle i (by omega))
    case isFalse h =>
      refine ⟨j, by omega, rfl, fun i hi => ?_, hlt⟩
      rcases Nat.lt_succ_iff_lt_or_eq.mp hi with hi | rfl
      · exact hle i hi
      · rw [add_comm n 1]
        exact not_lt.mp h

lemma leftmost_pairs (l : ℕ → α × ℕ) :
    Leftmost 4 l
      (let lo := if (l 0).1 ≤ (l 1).1 then l 0 else l 1
        let hi := if (l 2).1 ≤ (l 3).1 then l 2 else l 3
        if lo.1 ≤ hi.1 then lo else hi) := by
  have hpair : ∀ i j, i + 1 = j → ∃ m, (m = i ∨ m = j) ∧
      (if (l i).1 ≤ (l j).1 then l i else l j) = l m ∧ (l m).1 ≤ (l i).1 ∧ (l m).1 ≤ (l j).1 ∧
        (m = j → (l j).1 < (l i).1) := by
    rintro i j hij
    split
    case isTrue h => exact ⟨i, .inl rfl, rfl, le_rfl, h, fun h => absurd h (by omega)⟩
    case isFalse h => exact ⟨j, .inr rfl, rfl, (not_le.mp h).le, le_rfl, fun _ => not_le.mp h⟩
  obtain ⟨a, ha, hloeq, ha0, ha1, halt⟩ := hpair 0 1 rfl
  obtain ⟨b, hb, hhieq, hb2, hb3, hblt⟩ := hpair 2 3 rfl
  simp only [hloeq, hhieq]
  have hcases : ∀ i < 4, i = 0 ∨ i = 1 ∨ i = 2 ∨ i = 3 := by omega
  split
  case isTrue h =>
    refine ⟨a, by omega, rfl, fun i hi => ?_, fun i hi => ?_⟩
    · rcases hcases i hi with rfl | rfl | rfl | rfl
      · exact ha0
      · exact ha1
      · exact h.trans hb2
      · exact h.trans hb3
    · obtain ⟨rfl, rfl⟩ : a = 1 ∧ i = 0 := by omega
      exact halt rfl
  case isFalse h =>
    have h := not_le.mp h
    refine ⟨b, by omega, rfl, fun i hi => ?_, fun i hi => ?_⟩
    · rcases hcases i hi with rfl | rfl | rfl | rfl
      · exact h.le.trans ha0
      · exact h.le.trans ha1
      · exact hb2
      · exact hb3
    · rcases hcases i (by omega) with rfl | rfl | rfl | rfl
      · exact h.trans_le ha0
      · exact h.trans_le ha1
      · exact (hblt (by omega)).trans_eq' (by rw [show b = 3 by omega])
      · omega

end Leftmost

/-! ### The function -/

/-- The vector backend compiled in. -/
inductive Backend
  | neon
  | avx2
  | none
deriving DecidableEq

def Backend.kBatch : Backend → ℕ
  | .neon => 4
  | .avx2 => 8
  | .none => 1

def signed (x : ℕ) : ℤ := if x < 2 ^ 31 then x else x - 2 ^ 32

/-- Column `idx` of the group from `c` on is poisoned. The AVX2 comparison is signed. -/
def padded (b : Backend) (k c idx : ℕ) : Bool :=
  decide (k < c + b.kBatch) &&
    match b with
    | .neon => decide (k ≤ idx)
    | _ => decide (signed ((k + 2 ^ 32 - 1) % 2 ^ 32) < signed idx)

/-- One group of columns: each lane compares its own. -/
def laneStep (b : Backend) (k : ℕ) (v : ℕ → ℚ) (st : ℕ → WithTop ℚ × ℕ) (c j : ℕ) : WithTop ℚ × ℕ :=
  let x : WithTop ℚ := if padded b k c (c + j) then ⊤ else v (c + j)
  if x < (st j).1 then (x, c + j) else st j

def lanes (b : Backend) (k kSimd : ℕ) (v : ℕ → ℚ) : ℕ → WithTop ℚ × ℕ :=
  ((List.range (kSimd / b.kBatch)).map (· * b.kBatch)).foldl (laneStep b k v) fun _ => (⊤, 0)

def reduce (b : Backend) (l : ℕ → WithTop ℚ × ℕ) : WithTop ℚ × ℕ :=
  match b with
  | .neon =>
    let lo := if (l 0).1 ≤ (l 1).1 then l 0 else l 1
    let hi := if (l 2).1 ≤ (l 3).1 then l 2 else l 3
    if lo.1 ≤ hi.1 then lo else hi
  | _ => (List.range' 1 (b.kBatch - 1)).foldl (fun r j => if (l j).1 < r.1 then l j else r) (l 0)

/-- The vector loop needs rows of whole groups. -/
def vectorized (b : Backend) (kSimd : ℕ) : Bool := decide (b ≠ .none) && decide (kSimd % b.kBatch = 0)

def argminRow (b : Backend) (k kSimd : ℕ) (v : ℕ → ℚ) : ℕ :=
  if vectorized b kSimd then (reduce b (lanes b k kSimd v)).2
  else (scanMin (fun c => (v c : WithTop ℚ)) (List.range k)).2

/-- `scale[c] - 2 * row[c]` in row `i`; the row's offset is a 32-bit product. -/
def value (scale dots : ℕ → ℚ) (kSimd i c : ℕ) : ℚ := scale c - 2 * dots (i * kSimd % 2 ^ 32 + c)

/-- `argmin_scaled`: the new assignment and the count of changes. -/
def argminScaled (b : Backend) (n k kSimd : ℕ) (scale dots : ℕ → ℚ) (assign : ℕ → ℕ) (changed : ℕ) :
    (ℕ → ℕ) × ℕ :=
  (List.range n).foldl (fun st i =>
    let im := argminRow b k kSimd (value scale dots kSimd i)
    if im ≠ st.1 i then (Function.update st.1 i im, (st.2 + 1) % 2 ^ 64) else st) (assign, changed)

/-! ### Rows -/

section Rows

variable {b : Backend} {k kSimd : ℕ} {v : ℕ → ℚ}

/-- A column with the least of the `k` values. -/
def Minimal (k : ℕ) (v : ℕ → ℚ) (c : ℕ) : Prop := c < k ∧ ∀ d < k, v c ≤ v d

def First (k : ℕ) (v : ℕ → ℚ) (c : ℕ) : Prop := Minimal k v c ∧ ∀ d < c, v c < v d

/-- No column with the least value is in a lower lane than the first such column. -/
def LowestLane (n k : ℕ) (v : ℕ → ℚ) : Prop := ∀ c d, First k v c → Minimal k v d → c % n ≤ d % n

/-- The values of a row that is padded with infinity. -/
def paddedValue (k : ℕ) (v : ℕ → ℚ) (c : ℕ) : WithTop ℚ := if c < k then v c else ⊤

lemma paddedValue_lt_top {c : ℕ} : paddedValue k v c < ⊤ ↔ c < k := by
  rw [paddedValue]
  split
  case isTrue h => exact iff_of_true (WithTop.coe_lt_top _) h
  case isFalse h => exact iff_of_false (lt_irrefl _) h

lemma first_scanMin (hk : 0 < k) : First k v (scanMin (fun c => (v c : WithTop ℚ)) (List.range k)).2 := by
  obtain ⟨hle, hfound, hfirst, -⟩ :=
    scanMin_spec (fun c => (v c : WithTop ℚ)) (List.pairwise_lt_range (n := k))
  set r := scanMin (fun c => (v c : WithTop ℚ)) (List.range k)
  have htop : r.1 < ⊤ := (hle 0 (List.mem_range.mpr hk)).trans_lt (WithTop.coe_lt_top _)
  obtain ⟨hmem, hval⟩ := hfound htop
  have hmin : ∀ d < k, v r.2 ≤ v d := fun d hd => by
    have h := hle d (List.mem_range.mpr hd)
    rw [← hval] at h
    exact WithTop.coe_le_coe.mp h
  have hlt := List.mem_range.mp hmem
  refine ⟨⟨hlt, hmin⟩, fun d hd => lt_of_le_of_ne (hmin d (hd.trans hlt)) fun heq => ?_⟩
  have h := hfirst htop d (List.mem_range.mpr (hd.trans hlt)) (by rw [← hval, heq])
  omega

lemma First.unique {c d : ℕ} (hc : First k v c) (hd : First k v d) : c = d := by
  rcases lt_trichotomy c d with h | h | h
  · exact absurd (hc.1.2 d hd.1.1) (not_le.mpr (hd.2 c h))
  · exact h
  · exact absurd (hd.1.2 c hc.1.1) (not_le.mpr (hc.2 d h))

lemma vectorized_iff : vectorized b kSimd = true ↔ b ≠ .none ∧ kSimd % b.kBatch = 0 := by
  simp [vectorized]

lemma kBatch_pos (b : Backend) : 0 < b.kBatch := by
  cases b <;> decide

lemma padded_iff (hk : k ≤ kSimd) (hpad : kSimd < k + 8) (hs : kSimd < 2 ^ 32) (hvec : vectorized b kSimd = true)
    {g j : ℕ} (hg : g < kSimd / b.kBatch) (hj : j < b.kBatch) :
    padded b k (g * b.kBatch) (g * b.kBatch + j) = true ↔ k ≤ g * b.kBatch + j := by
  obtain ⟨hb, haligned⟩ := vectorized_iff.mp hvec
  cases b with
  | neon =>
    have hj : j < 4 := hj
    have heq : padded .neon k (g * 4) (g * 4 + j) = (decide (k < g * 4 + 4) && decide (k ≤ g * 4 + j)) :=
      rfl
    rw [show Backend.neon.kBatch = 4 from rfl, heq, Bool.and_eq_true, decide_eq_true_iff,
      decide_eq_true_iff]
    omega
  | avx2 =>
    have hj : j < 8 := hj
    have hg : g < kSimd / 8 := hg
    have haligned : kSimd % 8 = 0 := haligned
    have heq : padded .avx2 k (g * 8) (g * 8 + j) = (decide (k < g * 8 + 8) &&
      decide (signed ((k + 2 ^ 32 - 1) % 2 ^ 32) < signed (g * 8 + j))) := rfl
    rw [show Backend.avx2.kBatch = 8 from rfl, heq, Bool.and_eq_true, decide_eq_true_iff,
      decide_eq_true_iff, signed, signed]
    split_ifs <;> omega
  | none => exact absurd rfl hb

lemma lanes_eq (hk : k ≤ kSimd) (hpad : kSimd < k + 8) (hs : kSimd < 2 ^ 32) (hvec : vectorized b kSimd = true)
    {j : ℕ} (hj : j < b.kBatch) :
    lanes b k kSimd v j =
      scanMin (paddedValue k v) ((List.range (kSimd / b.kBatch)).map fun g => g * b.kBatch + j) := by
  rw [lanes]
  have hgroups : ∀ n ≤ kSimd / b.kBatch,
      ((List.range n).map (· * b.kBatch)).foldl (laneStep b k v) (fun _ => (⊤, 0)) j =
        scanMin (paddedValue k v) ((List.range n).map fun g => g * b.kBatch + j) := by
    intro n hn
    induction n with
    | zero => rfl
    | succ n ih =>
      have hx : (if padded b k (n * b.kBatch) (n * b.kBatch + j) = true then ⊤
          else ((v (n * b.kBatch + j) : ℚ) : WithTop ℚ)) = paddedValue k v (n * b.kBatch + j) := by
        rw [paddedValue]
        by_cases hpadded : padded b k (n * b.kBatch) (n * b.kBatch + j) = true
        · rw [if_pos hpadded, if_neg (not_lt.mpr ((padded_iff hk hpad hs hvec hn hj).mp hpadded))]
        · rw [if_neg hpadded, if_pos (not_le.mp fun h => hpadded ((padded_iff hk hpad hs hvec hn hj).mpr h))]
      rw [List.range_succ, List.map_append, List.map_append, List.foldl_append, scanMin,
        List.foldl_append, ← scanMin, ← ih (by omega)]
      simp only [List.map_cons, List.map_nil, List.foldl_cons, List.foldl_nil, laneStep, hx]
  exact hgroups _ le_rfl

lemma leftmost_reduce (hb : b ≠ .none) (l : ℕ → WithTop ℚ × ℕ) : Leftmost b.kBatch l (reduce b l) := by
  cases b with
  | neon => exact leftmost_pairs l
  | avx2 => exact leftmost_foldl l 7
  | none => exact absurd rfl hb

/-- **One row**: the vector loops choose the first least value exactly when no other is in a lower
lane. -/
lemma argminRow_eq_iff (hk : k ≤ kSimd) (hpad : kSimd < k + 8) (hs : kSimd < 2 ^ 32)
    (hvec : vectorized b kSimd = true) :
    argminRow b k kSimd v = argminRow .none k kSimd v ↔ LowestLane b.kBatch k v := by
  have hb := (vectorized_iff.mp hvec).1
  have haligned := (vectorized_iff.mp hvec).2
  have hpos := kBatch_pos b
  obtain ⟨l, hl, hr, hle, hlt⟩ := leftmost_reduce hb (lanes b k kSimd v)
  have hlane : ∀ j < b.kBatch, FirstLeast (paddedValue k v)
      ((List.range (kSimd / b.kBatch)).map fun g => g * b.kBatch + j) (lanes b k kSimd v j) := by
    intro j hj
    rw [lanes_eq hk hpad hs hvec hj]
    refine scanMin_spec _ (List.pairwise_map.mpr (List.pairwise_lt_range.imp fun h => ?_))
    exact Nat.add_lt_add_right (Nat.mul_lt_mul_of_pos_right h hpos) j
  -- a column is in the lane of its residue
  have hcol : ∀ c < k, c ∈ (List.range (kSimd / b.kBatch)).map fun g => g * b.kBatch + c % b.kBatch := by
    intro c hc
    refine List.mem_map.mpr ⟨c / b.kBatch, List.mem_range.mpr ?_, Nat.div_add_mod' c b.kBatch⟩
    exact Nat.div_lt_div_of_lt_of_dvd (Nat.dvd_of_mod_eq_zero haligned) (hc.trans_le hk)
  have hbest : ∀ c < k, (lanes b k kSimd v (c % b.kBatch)).1 ≤ v c := by
    intro c hc
    have h := (hlane _ (Nat.mod_lt c hpos)).le c (hcol c hc)
    rwa [paddedValue, if_pos hc] at h
  have hvector : argminRow b k kSimd v = (lanes b k kSimd v l).2 := by
    rw [argminRow, if_pos hvec, hr]
  have hscalar : argminRow .none k kSimd v =
      (scanMin (fun c => (v c : WithTop ℚ)) (List.range k)).2 := rfl
  rw [hvector, hscalar]
  obtain ⟨-, hfound, hfirst, hzero⟩ := hlane l hl
  rcases Nat.eq_zero_or_pos k with rfl | hk0
  · have htop : (lanes b 0 kSimd v l).1 = ⊤ := not_lt_top_iff.mp fun h =>
      absurd (paddedValue_lt_top.mp ((hfound h).2.trans_lt h)) (Nat.not_lt_zero _)
    refine iff_of_true (hzero htop) fun c d _ hd => absurd hd.1 (Nat.not_lt_zero d)
  set f := (scanMin (fun c => (v c : WithTop ℚ)) (List.range k)).2
  have hf : First k v f := first_scanMin hk0
  have hlf : (lanes b k kSimd v l).1 ≤ v f := (hle _ (Nat.mod_lt f hpos)).trans (hbest f hf.1.1)
  have htop : (lanes b k kSimd v l).1 < ⊤ := hlf.trans_lt (WithTop.coe_lt_top _)
  obtain ⟨hmem, hval⟩ := hfound htop
  set r := (lanes b k kSimd v l).2
  have hrk : r < k := paddedValue_lt_top.mp (hval.trans_lt htop)
  have hvr : (v r : WithTop ℚ) = (lanes b k kSimd v l).1 := by
    rw [← hval, paddedValue, if_pos hrk]
  have hmod : r % b.kBatch = l := by
    obtain ⟨g, -, hg⟩ := List.mem_map.mp hmem
    rw [← hg, Nat.mul_add_mod', Nat.mod_eq_of_lt hl]
  have hvf : v r = v f := by
    refine le_antisymm (WithTop.coe_le_coe.mp (hvr.trans_le hlf)) (hf.1.2 r hrk)
  constructor
  · rintro hrf c d hc hd
    obtain rfl := hc.unique hf
    by_contra hlow
    have hdlow : d % b.kBatch < l := by
      rw [← hmod, hrf]
      exact not_le.mp hlow
    have h := (hlt _ hdlow).trans_le (hbest d hd.1)
    rw [← hvr, hvf] at h
    exact absurd (hd.2 f hf.1.1) (not_le.mpr (WithTop.coe_lt_coe.mp h))
  · intro hlow
    have hfl : f % b.kBatch = l := by
      refine le_antisymm ((hlow f r hf ⟨hrk, fun d hd => hvf.trans_le (hf.1.2 d hd)⟩).trans_eq hmod) ?_
      by_contra hlt'
      have h := (hlt _ (not_le.mp hlt')).trans_le (hbest f hf.1.1)
      rw [← hvr, hvf] at h
      exact absurd h (lt_irrefl _)
    have hle' : r ≤ f := by
      refine hfirst htop f (hfl ▸ hcol f hf.1.1) ?_
      rw [paddedValue, if_pos hf.1.1, ← hvf, hvr]
    rcases hle'.lt_or_eq with h | h
    · exact absurd hvf (hf.2 r h).ne'
    · exact h

end Rows

/-! ### All rows -/

section Call

variable {b : Backend} {n k kSimd : ℕ} {scale dots : ℕ → ℚ} {assign : ℕ → ℕ} {changed : ℕ}

lemma argminScaled_fst (i : ℕ) :
    (argminScaled b n k kSimd scale dots assign changed).1 i =
      if i < n then argminRow b k kSimd (value scale dots kSimd i) else assign i := by
  induction n with
  | zero => rfl
  | succ n ih =>
    rw [argminScaled, List.range_succ, List.foldl_append, ← argminScaled, List.foldl_cons,
      List.foldl_nil]
    by_cases hin : i = n
    · subst hin
      simp only [Nat.lt_succ_self, if_true]
      split_ifs with h
      · exact Function.update_self _ _ _
      · exact (not_not.mp h).symm
    · have hlt : i < n + 1 ↔ i < n := by omega
      simp only [hlt]
      split_ifs at ih ⊢ <;> simp only [ne_eq, hin, not_false_eq_true, Function.update_of_ne, ih]

lemma argminScaled_congr (h : ∀ i < n, argminRow b k kSimd (value scale dots kSimd i) =
      argminRow .none k kSimd (value scale dots kSimd i)) :
    argminScaled b n k kSimd scale dots assign changed =
      argminScaled .none n k kSimd scale dots assign changed := by
  induction n with
  | zero => rfl
  | succ n ih =>
    rw [argminScaled, List.range_succ, List.foldl_append, ← argminScaled,
      ih fun i hi => h i (hi.trans (Nat.lt_succ_self n))]
    rw [argminScaled.eq_def .none (n + 1), List.range_succ, List.foldl_append, ← argminScaled]
    simp only [List.foldl_cons, List.foldl_nil, h n (Nat.lt_succ_self n)]

/-- The compiled form assigns to each row what the scalar loop does, the lowest column with the
least value, if and only if it is the scalar loop, or in each row no column with the least value is
in a lower lane than the first such column. -/
theorem argminScaled_eq_iff (hk : k ≤ kSimd) (hpad : kSimd < k + 8) (hs : kSimd < 2 ^ 32) (b : Backend)
    (n : ℕ) (scale dots : ℕ → ℚ) (assign : ℕ → ℕ) (changed : ℕ) :
    (argminScaled b n k kSimd scale dots assign changed =
        argminScaled .none n k kSimd scale dots assign changed ∧
      ∀ i < n, 0 < k →
        First k (value scale dots kSimd i) ((argminScaled b n k kSimd scale dots assign changed).1 i)) ↔
      (vectorized b kSimd = true → ∀ i < n, LowestLane b.kBatch k (value scale dots kSimd i)) := by
  constructor
  · rintro ⟨heq, -⟩ hvec i hi
    rw [← argminRow_eq_iff hk hpad hs hvec]
    have h := congrFun (congrArg Prod.fst heq) i
    rwa [argminScaled_fst, argminScaled_fst, if_pos hi, if_pos hi] at h
  · intro hlow
    have hrow : ∀ i < n, argminRow b k kSimd (value scale dots kSimd i) =
        argminRow .none k kSimd (value scale dots kSimd i) := by
      intro i hi
      by_cases hvec : vectorized b kSimd = true
      · exact (argminRow_eq_iff hk hpad hs hvec).mpr (hlow hvec i hi)
      · rw [argminRow, if_neg hvec]
        rfl
    refine ⟨argminScaled_congr hrow, fun i hi hk0 => ?_⟩
    rw [argminScaled_fst, if_pos hi, hrow i hi]
    exact first_scanMin hk0

end Call

section Examples

def tied (c : ℕ) : ℚ := if c = 1 ∨ c = 4 then 0 else 1

/-- With distances that increase every form chooses column 0. -/
theorem argminScaled_increasing :
    argminScaled .neon 1 5 8 (fun c => c) (fun _ => 0) (fun _ => 0) 0 =
        argminScaled .none 1 5 8 (fun c => c) (fun _ => 0) (fun _ => 0) 0 ∧
      ∀ i < 1, 0 < 5 → First 5 (value (fun c => c) (fun _ => 0) 8 i)
        ((argminScaled .neon 1 5 8 (fun c => c) (fun _ => 0) (fun _ => 0) 0).1 i) :=
  (argminScaled_eq_iff (by decide) (by decide) (by decide) _ _ _ _ _ _).mpr fun _ i _ c d hc _ => by
    have h0 : c = 0 := by
      by_contra hne
      have h := hc.2 0 (Nat.pos_of_ne_zero hne)
      simp only [value, mul_zero, sub_zero, Nat.cast_zero] at h
      exact absurd h (not_lt.mpr (Nat.cast_nonneg c))
    subst h0
    exact Nat.zero_le _

/-- Two equal minima in the columns 1 and 4: four lanes choose column 4, whose lane is lower. -/
theorem argminScaled_not_lowest :
    ¬ (argminScaled .neon 1 5 8 tied (fun _ => 0) (fun _ => 9) 0 =
        argminScaled .none 1 5 8 tied (fun _ => 0) (fun _ => 9) 0 ∧
      ∀ i < 1, 0 < 5 → First 5 (value tied (fun _ => 0) 8 i)
        ((argminScaled .neon 1 5 8 tied (fun _ => 0) (fun _ => 9) 0).1 i)) := by
  rintro ⟨heq, -⟩
  have h := congrFun (congrArg Prod.fst heq) 0
  revert h
  decide +kernel

end Examples

end SextantTree.Argmin
