import Mathlib.Algebra.BigOperators.Group.Finset.Basic
import Mathlib.Tactic

/-!
The block kernels of the scans: `pq4_block32` and `pq4_scan_many` for codes of four bits, of which
two share a byte, and `fastscan_many` for codes of eight bits, each in its vector forms and its
portable form. A kernel looks each code of a lane up in the table of its segment and adds up what
it finds; the vector forms for four bits add in lanes of sixteen bits, one of them wrapping and one
saturating.

Memory and registers are functions on positions.
-/

namespace SextantTree.BlockKernels

abbrev Bytes : Type := ℕ → UInt8

/-- What the kernels are compiled for. -/
inductive Target
  | neon
  | avx2
  | avx512
  | portable
deriving DecidableEq

/-! ### Instructions -/

def load (p : Bytes) (offset : ℕ) : Bytes := fun k => p (offset + k)

/-- `vqtbl1q_u8`. -/
def tbl1 (table idx : Bytes) : Bytes := fun k =>
  if (idx k).toNat < 16 then table (idx k).toNat else 0

/-- `_mm_shuffle_epi8`. -/
def shuffle (table idx : Bytes) : Bytes := fun k =>
  if idx k &&& 0x80 ≠ 0 then 0 else table (idx k &&& 0x0F).toNat

/-- `_mm_srli_epi16`, on pairs of bytes. -/
def srli16 (n : UInt16) (c : Bytes) : Bytes := fun k =>
  let w : UInt16 := (c (k / 2 * 2)).toUInt16 ||| ((c (k / 2 * 2 + 1)).toUInt16 <<< 8)
  if k % 2 = 0 then (w >>> n).toUInt8 else ((w >>> n) >>> 8).toUInt8

/-- `_mm_adds_epu16`. -/
def adds (a b : UInt16) : UInt16 := if a.toNat + b.toNat < 2 ^ 16 then a + b else 0xFFFF

/-- Four accumulators of eight lanes: for the low and the high nibbles of bytes 0 to 7 and of bytes
8 to 15. -/
structure Quad where
  loA : ℕ → UInt16
  loB : ℕ → UInt16
  hiA : ℕ → UInt16
  hiB : ℕ → UInt16

namespace Quad

def zero : Quad := ⟨fun _ => 0, fun _ => 0, fun _ => 0, fun _ => 0⟩

def accumulate (add : UInt16 → UInt16 → UInt16) (q : Quad) (r : Bytes × Bytes) : Quad where
  loA k := add (q.loA k) (r.1 k).toUInt16
  loB k := add (q.loB k) (r.1 (8 + k)).toUInt16
  hiA k := add (q.hiA k) (r.2 k).toUInt16
  hiB k := add (q.hiB k) (r.2 (8 + k)).toUInt16

def merge (q r : Quad) : Quad where
  loA k := q.loA k + r.loA k
  loB k := q.loB k + r.loB k
  hiA k := q.hiA k + r.hiA k
  hiB k := q.hiB k + r.hiB k

/-- Lane `j` of 32. -/
def lane (q : Quad) (j : ℕ) : UInt16 :=
  if j < 8 then q.loA j else if j < 16 then q.loB (j - 8) else if j < 24 then q.hiA (j - 16)
  else q.hiB (j - 24)

end Quad

/-! ### Codes of four bits -/

/-- The low and the high nibbles of a segment, looked up. -/
def segmentNeon (codeBlock lut : Bytes) (s : ℕ) : Bytes × Bytes :=
  let table := load lut (s * 16)
  let c := load codeBlock (s * 16)
  (tbl1 table fun k => c k &&& 0x0F, tbl1 table fun k => c k >>> 4)

/-- Two segments at a time, each pair into two sets of accumulators. -/
def blockNeon (codeBlock lut : Bytes) (m : ℕ) : Quad :=
  let a := (List.range (m / 2)).foldl (fun (a : Quad × Quad) i =>
    (a.1.accumulate (· + ·) (segmentNeon codeBlock lut (2 * i)),
      a.2.accumulate (· + ·) (segmentNeon codeBlock lut (2 * i + 1)))) (.zero, .zero)
  let a0 := if m / 2 * 2 < m then a.1.accumulate (· + ·) (segmentNeon codeBlock lut (m / 2 * 2)) else a.1
  a0.merge a.2

def segmentAvx2 (codeBlock lut : Bytes) (s : ℕ) : Bytes × Bytes :=
  let c := load codeBlock (s * 16)
  let l := load lut (s * 16)
  (shuffle l fun k => c k &&& 0x0F, shuffle l fun k => srli16 4 c k &&& 0x0F)

def blockAvx2 (codeBlock lut : Bytes) (m : ℕ) : Quad :=
  (List.range m).foldl (fun q s => q.accumulate adds (segmentAvx2 codeBlock lut s)) .zero

def blockPortable (codeBlock lut : Bytes) (m : ℕ) : ℕ → UInt32 :=
  (List.range m).foldl (fun out s j =>
    if j < 16 then out j + (lut (s * 16 + (codeBlock (s * 16 + j) &&& 0x0F).toNat)).toUInt32
    else out j + (lut (s * 16 + (codeBlock (s * 16 + (j - 16)) >>> 4).toNat)).toUInt32) fun _ => 0

/-- `pq4_block32`; there is no form of its own for AVX-512. -/
def pq4Block32 (t : Target) (codeBlock lut4 : Bytes) (m j : ℕ) : UInt32 :=
  match t with
  | .neon => ((blockNeon codeBlock lut4 m).lane j).toUInt32
  | .avx2 | .avx512 => ((blockAvx2 codeBlock lut4 m).lane j).toUInt32
  | .portable => blockPortable codeBlock lut4 m j

/-- `pq4_scan_many`: lane `j` of block `b`. -/
def pq4ScanMany (t : Target) (blocks lut4 : Bytes) (m : ℕ) (masks : ℕ → UInt32) (b j : ℕ) : UInt32 :=
  if (masks b).toNat.testBit j then pq4Block32 t (load blocks (b * m * 16)) lut4 m j else 0xFFFFFFFF

/-! ### Codes of eight bits -/

/-- `vqtbl4q_u8` with the bank of the row that starts at `64 * bk`. -/
def tbl4 (row : Bytes) (bk : ℕ) (idx : UInt8) : UInt8 :=
  if idx.toNat < 64 then row (64 * bk + idx.toNat) else 0

/-- The lookup over four banks; an index that belongs to another bank is put out of bounds. -/
def lookupNeon (row : Bytes) (c : UInt8) : UInt8 :=
  (List.range 4).foldl (fun r bk =>
    r ||| tbl4 row bk (if c >>> 6 = UInt8.ofNat bk then c &&& 63 else 0xFF)) 0

/-- `vpermi2b` over the two tables from `64 * bk` on. -/
def permute2 (row : Bytes) (bk : ℕ) (idx : UInt8) : UInt8 :=
  if idx &&& 64 = 0 then row (64 * bk + (idx &&& 63).toNat) else row (64 * (bk + 1) + (idx &&& 63).toNat)

def lookupAvx512 (row : Bytes) (c : UInt8) : UInt8 :=
  let idx := c &&& 127
  if c &&& 0x80 = 0 then permute2 row 0 idx else permute2 row 2 idx

/-- AVX-512 takes four blocks at a time, and the last ones by the table alone. -/
def lookup (t : Target) (nBlocks b : ℕ) (row : Bytes) (c : UInt8) : UInt8 :=
  match t with
  | .neon => lookupNeon row c
  | .avx512 => if b < nBlocks / 4 * 4 then lookupAvx512 row c else row c.toNat
  | .avx2 | .portable => row c.toNat

/-- `fastscan_many`: lane `j` of block `b`. -/
def fastscanMany (t : Target) (blocks : Bytes) (nBlocks : ℕ) (lut8 : Bytes) (m : ℕ)
    (masks : ℕ → UInt16) (b j : ℕ) : UInt32 :=
  if (masks b).toNat.testBit j then
    (List.range m).foldl (fun psum s =>
      psum + (lookup t nBlocks b (load lut8 (s * 256)) (blocks (b * m * 16 + s * 16 + j))).toUInt32) 0
  else 0xFFFFFFFF

/-! ### Lookups -/

/-- The code of four bits of lane `j` in segment `s`. -/
def nibble (codeBlock : Bytes) (s j : ℕ) : ℕ :=
  if j < 16 then (codeBlock (s * 16 + j) &&& 0x0F).toNat
  else (codeBlock (s * 16 + (j - 16)) >>> 4).toNat

/-- What the table of segment `s` has for it. -/
def entry (codeBlock lut : Bytes) (s j : ℕ) : UInt8 := lut (s * 16 + nibble codeBlock s j)

def laneSum (codeBlock lut : Bytes) (m j : ℕ) : ℕ := ∑ s ∈ Finset.range m, (entry codeBlock lut s j).toNat

lemma toNat_and_lt (c : UInt8) : (c &&& (0x0F : UInt8)).toNat < 16 := by
  rw [UInt8.toNat_and]
  exact Nat.and_lt_two_pow (n := 4) _ (by decide)

lemma toNat_shiftRight_lt (c : UInt8) : (c >>> (4 : UInt8)).toNat < 16 := by
  have h := c.toNat_lt
  rw [UInt8.toNat_shiftRight]
  simp only [UInt8.reduceToNat, Nat.reduceMod, Nat.shiftRight_eq_div_pow]
  omega

lemma or_shiftLeft (a b : UInt8) : a.toNat ||| b.toNat <<< 8 % 65536 = a.toNat + b.toNat * 256 := by
  have ha := a.toNat_lt
  have hb := b.toNat_lt
  rw [Nat.mod_eq_of_lt (by rw [Nat.shiftLeft_eq]; omega), Nat.or_comm,
    ← Nat.shiftLeft_add_eq_or_of_lt ha, Nat.shiftLeft_eq, add_comm]

lemma low_nibble_of_word (a b : UInt8) :
    ((a.toUInt16 ||| (b.toUInt16 <<< 8)) >>> 4).toUInt8 &&& (0x0F : UInt8) = a >>> (4 : UInt8) := by
  have ha := a.toNat_lt
  rw [← UInt8.toNat_inj]
  simp only [UInt8.toNat_and, UInt16.toNat_toUInt8, UInt16.toNat_shiftRight, UInt16.toNat_or,
    UInt8.toNat_toUInt16, UInt16.toNat_shiftLeft, UInt8.toNat_shiftRight, UInt16.reduceToNat,
    UInt8.reduceToNat, Nat.reduceMod, Nat.reducePow, or_shiftLeft]
  rw [show (15 : ℕ) = 2 ^ 4 - 1 by rfl, Nat.and_two_pow_sub_one_eq_mod, Nat.shiftRight_eq_div_pow,
    Nat.shiftRight_eq_div_pow]
  omega

lemma high_nibble_of_word (a b : UInt8) :
    (((a.toUInt16 ||| (b.toUInt16 <<< 8)) >>> 4) >>> 8).toUInt8 &&& (0x0F : UInt8) =
      b >>> (4 : UInt8) := by
  have ha := a.toNat_lt
  have hb := b.toNat_lt
  rw [← UInt8.toNat_inj]
  simp only [UInt8.toNat_and, UInt16.toNat_toUInt8, UInt16.toNat_shiftRight, UInt16.toNat_or,
    UInt8.toNat_toUInt16, UInt16.toNat_shiftLeft, UInt8.toNat_shiftRight, UInt16.reduceToNat,
    UInt8.reduceToNat, Nat.reduceMod, Nat.reducePow, or_shiftLeft]
  rw [show (15 : ℕ) = 2 ^ 4 - 1 by rfl, Nat.and_two_pow_sub_one_eq_mod, Nat.shiftRight_eq_div_pow,
    Nat.shiftRight_eq_div_pow, Nat.shiftRight_eq_div_pow]
  omega

lemma srli16_and (c : Bytes) (k : ℕ) : srli16 4 c k &&& (0x0F : UInt8) = c k >>> (4 : UInt8) := by
  rw [srli16]
  split
  case isTrue hk =>
    rw [low_nibble_of_word, show k / 2 * 2 = k by omega]
  case isFalse hk =>
    rw [high_nibble_of_word, show k / 2 * 2 + 1 = k by omega]

/-- A register pair holds the entries of a segment in the order of the lanes. -/
def Holds (r : Bytes × Bytes) (e : ℕ → UInt8) : Prop := ∀ k < 16, r.1 k = e k ∧ r.2 k = e (16 + k)

lemma tbl1_of_lt (table idx : Bytes) {k : ℕ} (h : (idx k).toNat < 16) :
    tbl1 table idx k = table (idx k).toNat := if_pos h

lemma segmentNeon_holds (codeBlock lut : Bytes) (s : ℕ) :
    Holds (segmentNeon codeBlock lut s) (entry codeBlock lut s) := by
  intro k hk
  constructor
  · rw [entry, nibble, if_pos hk]
    have hlt := toNat_and_lt (codeBlock (s * 16 + k))
    exact tbl1_of_lt (load lut (s * 16)) (fun k => load codeBlock (s * 16) k &&& 0x0F) hlt
  · rw [entry, nibble, if_neg (by omega), Nat.add_sub_cancel_left]
    have hlt := toNat_shiftRight_lt (codeBlock (s * 16 + k))
    exact tbl1_of_lt (load lut (s * 16)) (fun k => load codeBlock (s * 16) k >>> 4) hlt

lemma shuffle_of_lt (table idx : Bytes) {k : ℕ} (h : (idx k).toNat < 16) :
    shuffle table idx k = table (idx k).toNat := by
  have hmod : (idx k &&& (0x0F : UInt8)).toNat = (idx k).toNat := by
    rw [UInt8.toNat_and, show (0x0F : UInt8).toNat = 2 ^ 4 - 1 by rfl, Nat.and_two_pow_sub_one_eq_mod]
    exact Nat.mod_eq_of_lt h
  have hsign : idx k &&& (0x80 : UInt8) = 0 := by
    have hself : idx k &&& (0x0F : UInt8) = idx k := UInt8.toNat_inj.mp hmod
    rw [← hself, UInt8.and_assoc]
    exact UInt8.and_zero
  rw [shuffle, if_neg (not_not.mpr hsign), hmod]

lemma segmentAvx2_holds (codeBlock lut : Bytes) (s : ℕ) :
    Holds (segmentAvx2 codeBlock lut s) (entry codeBlock lut s) := by
  intro k hk
  constructor
  · rw [entry, nibble, if_pos hk]
    have hlt := toNat_and_lt (codeBlock (s * 16 + k))
    exact shuffle_of_lt (load lut (s * 16)) (fun k => load codeBlock (s * 16) k &&& 0x0F) hlt
  · have hidx : srli16 4 (load codeBlock (s * 16)) k &&& (0x0F : UInt8) =
        codeBlock (s * 16 + k) >>> (4 : UInt8) := srli16_and _ k
    rw [entry, nibble, if_neg (by omega), Nat.add_sub_cancel_left, ← hidx]
    have hlt : (srli16 4 (load codeBlock (s * 16)) k &&& (0x0F : UInt8)).toNat < 16 := toNat_and_lt _
    exact shuffle_of_lt (load lut (s * 16)) (fun k => srli16 4 (load codeBlock (s * 16)) k &&& 0x0F) hlt

lemma lane_accumulate {add : UInt16 → UInt16 → UInt16} {q : Quad} {r : Bytes × Bytes} {e : ℕ → UInt8}
    (h : Holds r e) {j : ℕ} (hj : j < 32) :
    (q.accumulate add r).lane j = add (q.lane j) (e j).toUInt16 := by
  simp only [Quad.lane, Quad.accumulate]
  split_ifs with h8 h16 h24
  · rw [(h j (by omega)).1]
  · rw [(h (8 + (j - 8)) (by omega)).1, show 8 + (j - 8) = j by omega]
  · rw [(h (j - 16) (by omega)).2, show 16 + (j - 16) = j by omega]
  · rw [(h (8 + (j - 24)) (by omega)).2, show 16 + (8 + (j - 24)) = j by omega]

lemma lane_merge (q r : Quad) (j : ℕ) : (q.merge r).lane j = q.lane j + r.lane j := by
  simp only [Quad.lane, Quad.merge]
  split_ifs <;> rfl

lemma lane_zero (j : ℕ) : Quad.zero.lane j = 0 := by
  simp only [Quad.lane, Quad.zero]
  split_ifs <;> rfl

/-! ### Sums -/

variable {codeBlock lut : Bytes} {m j : ℕ}

lemma laneSum_succ : laneSum codeBlock lut (m + 1) j =
    laneSum codeBlock lut m j + (entry codeBlock lut m j).toNat :=
  Finset.sum_range_succ _ _

lemma toNat_adds (a b : UInt16) : (adds a b).toNat = min (a.toNat + b.toNat) 65535 := by
  rw [adds]
  split
  case isTrue h =>
    rw [UInt16.toNat_add, Nat.mod_eq_of_lt h]
    omega
  case isFalse h =>
    have hmax : (0xFFFF : UInt16).toNat = 65535 := rfl
    rw [hmax]
    omega

lemma blockAvx2_lane (hj : j < 32) :
    ((blockAvx2 codeBlock lut m).lane j).toNat = min (laneSum codeBlock lut m j) 65535 := by
  induction m with
  | zero =>
    rw [blockAvx2, List.range_zero, List.foldl_nil, lane_zero, laneSum, Finset.sum_range_zero]
    rfl
  | succ m ih =>
    rw [blockAvx2, List.range_succ, List.foldl_append, List.foldl_cons, List.foldl_nil, ← blockAvx2,
      lane_accumulate (segmentAvx2_holds codeBlock lut m) hj, toNat_adds, ih, laneSum_succ,
      UInt8.toNat_toUInt16]
    omega

variable (codeBlock lut) in
lemma neonSets_lane (hj : j < 32) (n : ℕ) :
    let a := (List.range n).foldl (fun (a : Quad × Quad) i =>
      (a.1.accumulate (· + ·) (segmentNeon codeBlock lut (2 * i)),
        a.2.accumulate (· + ·) (segmentNeon codeBlock lut (2 * i + 1)))) (.zero, .zero)
    ((a.1.lane j).toNat + (a.2.lane j).toNat) % 65536 = laneSum codeBlock lut (2 * n) j % 65536 := by
  induction n with
  | zero =>
    simp only [List.range_zero, List.foldl_nil, lane_zero, laneSum]
    rfl
  | succ n ih =>
    simp only [List.range_succ, List.foldl_append, List.foldl_cons, List.foldl_nil]
    rw [lane_accumulate (segmentNeon_holds codeBlock lut (2 * n)) hj,
      lane_accumulate (segmentNeon_holds codeBlock lut (2 * n + 1)) hj, show 2 * (n + 1) = 2 * n + 1 + 1 by ring,
      laneSum_succ, laneSum_succ]
    simp only [UInt16.toNat_add, UInt8.toNat_toUInt16]
    omega

lemma blockNeon_lane (hj : j < 32) :
    ((blockNeon codeBlock lut m).lane j).toNat = laneSum codeBlock lut m j % 65536 := by
  have hsets := neonSets_lane codeBlock lut hj (m / 2)
  rw [blockNeon]
  simp only at hsets ⊢
  generalize (List.range (m / 2)).foldl _ _ = a at hsets ⊢
  rw [lane_merge, UInt16.toNat_add]
  split
  case isTrue hodd =>
    have hm : laneSum codeBlock lut m j =
        laneSum codeBlock lut (2 * (m / 2)) j + (entry codeBlock lut (m / 2 * 2) j).toNat := by
      nth_rewrite 1 [show m = 2 * (m / 2) + 1 by omega]
      rw [laneSum_succ, Nat.mul_comm 2 (m / 2)]
    rw [lane_accumulate (segmentNeon_holds codeBlock lut (m / 2 * 2)) hj, UInt16.toNat_add,
      UInt8.toNat_toUInt16, hm]
    omega
  case isFalse heven =>
    rwa [show 2 * (m / 2) = m by omega] at hsets

lemma blockPortable_lane : (blockPortable codeBlock lut m j).toNat = laneSum codeBlock lut m j % 2 ^ 32 := by
  induction m with
  | zero => rfl
  | succ m ih =>
    rw [blockPortable, List.range_succ, List.foldl_append, ← blockPortable, List.foldl_cons,
      List.foldl_nil, laneSum_succ, entry, nibble]
    split <;> rw [UInt32.toNat_add, ih, UInt8.toNat_toUInt32] <;> omega

variable (codeBlock lut m j) in
lemma laneSum_le : laneSum codeBlock lut m j ≤ m * 255 := by
  have h := Finset.sum_le_card_nsmul (Finset.range m) (fun s => (entry codeBlock lut s j).toNat) 255
    fun s _ => Nat.le_of_lt_succ (entry codeBlock lut s j).toNat_lt
  simpa [laneSum] using h

/-- **One lane**: exact in 32 bits, and in 16 bits as far as the sum fits. -/
lemma pq4Block32_eq_iff (hm : m < 2 ^ 16) (t : Target) (hj : j < 32) :
    (pq4Block32 t codeBlock lut m j).toNat = laneSum codeBlock lut m j ↔
      t = .portable ∨ laneSum codeBlock lut m j ≤ 65535 := by
  have hle := laneSum_le codeBlock lut m j
  have hwide : t = .avx2 ∨ t = .avx512 → ((pq4Block32 t codeBlock lut m j).toNat =
      laneSum codeBlock lut m j ↔ t = .portable ∨ laneSum codeBlock lut m j ≤ 65535) := by
    intro ht
    have heq : (pq4Block32 t codeBlock lut m j).toNat = min (laneSum codeBlock lut m j) 65535 := by
      rcases ht with rfl | rfl <;> exact blockAvx2_lane hj
    have hne : t ≠ .portable := by rcases ht with rfl | rfl <;> decide
    rw [heq, or_iff_right hne]
    omega
  cases t with
  | neon =>
    have heq : (pq4Block32 .neon codeBlock lut m j).toNat = laneSum codeBlock lut m j % 65536 :=
      blockNeon_lane hj
    rw [heq, or_iff_right (by decide)]
    omega
  | avx2 => exact hwide (.inl rfl)
  | avx512 => exact hwide (.inr rfl)
  | portable =>
    have heq : (pq4Block32 .portable codeBlock lut m j).toNat = laneSum codeBlock lut m j % 2 ^ 32 :=
      blockPortable_lane
    refine iff_of_true ?_ (.inl rfl)
    rw [heq]
    omega

variable (codeBlock lut m j) in
lemma pq4Block32_le {t : Target} (ht : t ≠ .portable) : (pq4Block32 t codeBlock lut m j).toNat ≤ 65535 := by
  have hle : ∀ x : UInt16, x.toUInt32.toNat ≤ 65535 := fun x => by
    have := x.toNat_lt
    rw [UInt16.toNat_toUInt32]
    omega
  cases t with
  | neon => exact hle _
  | avx2 => exact hle _
  | avx512 => exact hle _
  | portable => exact absurd rfl ht

/-! ### Codes of eight bits -/

lemma toNat_and_63 (c : UInt8) : (c &&& (63 : UInt8)).toNat = c.toNat % 64 := by
  rw [UInt8.toNat_and, show (63 : UInt8).toNat = 2 ^ 6 - 1 by rfl, Nat.and_two_pow_sub_one_eq_mod]

lemma and_two_pow_eq_zero {c b : UInt8} {i : ℕ} (hb : b.toNat = 2 ^ i) :
    c &&& b = 0 ↔ c.toNat / 2 ^ i % 2 = 0 := by
  have hbit : c.toNat / 2 ^ i % 2 = 0 ↔ c.toNat.testBit i = false := by
    rw [Nat.testBit_eq_decide_div_mod_eq, decide_eq_false_iff_not]
    omega
  rw [← UInt8.toNat_inj, UInt8.toNat_and, hb, hbit]
  constructor
  · intro h
    have hi := congrArg (Nat.testBit · i) h
    simpa [Nat.testBit_and, Nat.testBit_two_pow] using hi
  · intro h
    refine Nat.eq_of_testBit_eq fun k => ?_
    rw [Nat.testBit_and, Nat.testBit_two_pow]
    by_cases hk : i = k
    · simp [← hk, h]
    · simp [hk]

lemma tbl4_eq (row : Bytes) (c : UInt8) {bk : ℕ} (hbk : bk < 4) :
    tbl4 row bk (if c >>> 6 = UInt8.ofNat bk then c &&& 63 else 0xFF) =
      if c.toNat / 64 = bk then row c.toNat else 0 := by
  have hbank : c >>> 6 = UInt8.ofNat bk ↔ c.toNat / 64 = bk := by
    rw [← UInt8.toNat_inj, UInt8.toNat_shiftRight, UInt8.toNat_ofNat']
    simp only [UInt8.reduceToNat, Nat.reduceMod, Nat.shiftRight_eq_div_pow, Nat.reducePow]
    omega
  rw [tbl4]
  by_cases h : c.toNat / 64 = bk
  · rw [if_pos (hbank.mpr h), if_pos h, toNat_and_63, if_pos (Nat.mod_lt _ (by decide)), ← h,
      Nat.div_add_mod]
  · rw [if_neg fun h' => h (hbank.mp h'), if_neg h, if_neg (by decide)]

lemma lookupNeon_eq (row : Bytes) (c : UInt8) : lookupNeon row c = row c.toNat := by
  have hc := c.toNat_lt
  have hlist : List.range 4 = [0, 1, 2, 3] := rfl
  simp only [lookupNeon, hlist, List.foldl_cons, List.foldl_nil, tbl4_eq row c (show 0 < 4 by decide),
    tbl4_eq row c (show 1 < 4 by decide), tbl4_eq row c (show 2 < 4 by decide),
    tbl4_eq row c (show 3 < 4 by decide)]
  have hbank : c.toNat / 64 = 0 ∨ c.toNat / 64 = 1 ∨ c.toNat / 64 = 2 ∨ c.toNat / 64 = 3 := by omega
  rcases hbank with h | h | h | h <;> simp [h]

lemma permute2_eq (row : Bytes) (bk : ℕ) (idx : UInt8) (h : idx.toNat < 128) :
    permute2 row bk idx = row (64 * bk + idx.toNat) := by
  have hbit := and_two_pow_eq_zero (c := idx) (b := 64) (i := 6) rfl
  rw [permute2, toNat_and_63]
  split
  case isTrue h0 =>
    have := hbit.mp h0
    congr 1
    omega
  case isFalse h1 =>
    have : ¬ idx.toNat / 2 ^ 6 % 2 = 0 := fun h => h1 (hbit.mpr h)
    congr 1
    omega

lemma lookupAvx512_eq (row : Bytes) (c : UInt8) : lookupAvx512 row c = row c.toNat := by
  have hc := c.toNat_lt
  have hidx : (c &&& (127 : UInt8)).toNat = c.toNat % 128 := by
    rw [UInt8.toNat_and, show (127 : UInt8).toNat = 2 ^ 7 - 1 by rfl, Nat.and_two_pow_sub_one_eq_mod]
  have hbit := and_two_pow_eq_zero (c := c) (b := 0x80) (i := 7) rfl
  have hlt : (c &&& (127 : UInt8)).toNat < 128 := hidx ▸ Nat.mod_lt _ (by decide)
  simp only [lookupAvx512, permute2_eq row _ _ hlt, hidx]
  split
  case isTrue h0 =>
    have := hbit.mp h0
    congr 1
    omega
  case isFalse h1 =>
    have : ¬ c.toNat / 2 ^ 7 % 2 = 0 := fun h => h1 (hbit.mpr h)
    congr 1
    omega

lemma lookup_eq (t : Target) (nBlocks b : ℕ) (row : Bytes) (c : UInt8) :
    lookup t nBlocks b row c = row c.toNat := by
  cases t with
  | neon => exact lookupNeon_eq row c
  | avx2 => rfl
  | avx512 =>
    rw [lookup]
    split
    · exact lookupAvx512_eq row c
    · rfl
  | portable => rfl

/-- The plain sum of lane `j` of block `b`. -/
def byteSum (blocks lut8 : Bytes) (m b j : ℕ) : ℕ :=
  ∑ s ∈ Finset.range m, (lut8 (s * 256 + (blocks (b * m * 16 + s * 16 + j)).toNat)).toNat

lemma fastscanMany_eq (hm : m < 2 ^ 16) (t : Target) (blocks : Bytes) (nBlocks : ℕ) (lut8 : Bytes)
    (masks : ℕ → UInt16) (b j : ℕ) :
    (fastscanMany t blocks nBlocks lut8 m masks b j).toNat =
      if (masks b).toNat.testBit j then byteSum blocks lut8 m b j else 0xFFFFFFFF := by
  rw [fastscanMany]
  split
  case isFalse => rfl
  case isTrue =>
    have hrun : ∀ n ≤ m, ((List.range n).foldl (fun psum s =>
        psum + (lookup t nBlocks b (load lut8 (s * 256)) (blocks (b * m * 16 + s * 16 + j))).toUInt32)
          0).toNat =
        (∑ s ∈ Finset.range n, (lut8 (s * 256 + (blocks (b * m * 16 + s * 16 + j)).toNat)).toNat) %
          2 ^ 32 := by
      intro n hn
      induction n with
      | zero => rfl
      | succ n ih =>
        rw [List.range_succ, List.foldl_append, List.foldl_cons, List.foldl_nil, UInt32.toNat_add,
          ih (by omega), lookup_eq, UInt8.toNat_toUInt32, Finset.sum_range_succ, Nat.mod_add_mod]
        rfl
    have hle := Finset.sum_le_card_nsmul (Finset.range m)
      (fun s => (lut8 (s * 256 + (blocks (b * m * 16 + s * 16 + j)).toNat)).toNat) 255
      fun s _ => Nat.le_of_lt_succ (UInt8.toNat_lt _)
    rw [hrun m le_rfl, byteSum, Nat.mod_eq_of_lt]
    rw [Finset.card_range, smul_eq_mul] at hle
    omega

/-! ### The kernels and the plain sums -/

/-- Every kernel gives each lane that holds a vector the plain sum of its entries, and marks the
others; those for four bits do so exactly when they add in 32 bits, or the sums fit in 16. -/
theorem kernels_eq_sums_iff (hm : m < 2 ^ 16) (t : Target) (blocks lut : Bytes) (nBlocks : ℕ)
    (masks : ℕ → UInt32) (masks16 : ℕ → UInt16) :
    ((∀ j < 32, (pq4Block32 t blocks lut m j).toNat = laneSum blocks lut m j) ↔
      t = .portable ∨ ∀ j < 32, laneSum blocks lut m j ≤ 65535) ∧
    ((∀ b < nBlocks, ∀ j < 32, (pq4ScanMany t blocks lut m masks b j).toNat =
        if (masks b).toNat.testBit j then laneSum (load blocks (b * m * 16)) lut m j else 0xFFFFFFFF) ↔
      t = .portable ∨ ∀ b < nBlocks, ∀ j < 32, (masks b).toNat.testBit j = true →
        laneSum (load blocks (b * m * 16)) lut m j ≤ 65535) ∧
    ∀ b < nBlocks, ∀ j < 16, (fastscanMany t blocks nBlocks lut m masks16 b j).toNat =
      if (masks16 b).toNat.testBit j then byteSum blocks lut m b j else 0xFFFFFFFF := by
  refine ⟨⟨fun h => ?_, fun h j hj => (pq4Block32_eq_iff hm t hj).mpr (h.imp id fun h => h j hj)⟩,
    ⟨fun h => ?_, fun h b hb j hj => ?_⟩, fun b _ j _ => fastscanMany_eq hm t _ _ _ _ b j⟩
  · refine or_iff_not_imp_left.mpr fun ht j hj => ?_
    exact ((pq4Block32_eq_iff hm t hj).mp (h j hj)).resolve_left ht
  · refine or_iff_not_imp_left.mpr fun ht b hb j hj hvalid => ?_
    have hlane := h b hb j hj
    rw [pq4ScanMany, if_pos hvalid, if_pos hvalid] at hlane
    exact ((pq4Block32_eq_iff hm t hj).mp hlane).resolve_left ht
  · rw [pq4ScanMany]
    split
    case isTrue hvalid => exact (pq4Block32_eq_iff hm t hj).mpr (h.imp id fun h => h b hb j hj hvalid)
    case isFalse => rfl

section Examples

/-- A table of 0 for all codes but the last, which has 255. -/
def steepTable : Bytes := fun i => if i % 16 = 15 then 255 else 0

/-- A short sum is exact on every target. -/
theorem kernels_eq_sums_short :
    ((∀ j < 32, (pq4Block32 .avx2 (fun _ => 0xFF) steepTable 8 j).toNat =
        laneSum (fun _ => 0xFF) steepTable 8 j) ↔
      Target.avx2 = .portable ∨ ∀ j < 32, laneSum (fun _ => 0xFF) steepTable 8 j ≤ 65535) ∧
    ((∀ b < 1, ∀ j < 32, (pq4ScanMany .avx2 (fun _ => 0xFF) steepTable 8 (fun _ => 1) b j).toNat =
        if ((1 : UInt32).toNat.testBit j) then laneSum (load (fun _ => 0xFF) (b * 8 * 16)) steepTable 8 j
        else 0xFFFFFFFF) ↔
      Target.avx2 = .portable ∨ ∀ b < 1, ∀ j < 32, (1 : UInt32).toNat.testBit j = true →
        laneSum (load (fun _ => 0xFF) (b * 8 * 16)) steepTable 8 j ≤ 65535) ∧
    ∀ b < 1, ∀ j < 16, (fastscanMany .avx2 (fun _ => 0xFF) 1 steepTable 8 (fun _ => 1) b j).toNat =
      if ((1 : UInt16).toNat.testBit j) then byteSum (fun _ => 0xFF) steepTable 8 b j else 0xFFFFFFFF :=
  kernels_eq_sums_iff (by decide) .avx2 (fun _ => 0xFF) steepTable 1 (fun _ => 1) fun _ => 1

/-- 258 segments of 255 do not fit: the saturating lanes stop at 65535. -/
theorem pq4Block32_saturates :
    ¬ ∀ j < 32, (pq4Block32 .avx2 (fun _ => 0xFF) steepTable 258 j).toNat =
      laneSum (fun _ => 0xFF) steepTable 258 j := by
  intro h
  have hsum : laneSum (fun _ => 0xFF) steepTable 258 0 = 65790 := by
    have hentry : ∀ s, (entry (fun _ => 0xFF) steepTable s 0).toNat = 255 := by
      intro s
      have hcode : nibble (fun _ => 0xFF) s 0 = 15 := by
        rw [nibble, if_pos (by decide)]
        rfl
      rw [entry, hcode, steepTable, if_pos (by omega)]
      rfl
    simp [laneSum, hentry]
  have hlane := ((pq4Block32_eq_iff (by decide) .avx2 (by decide)).mp (h 0 (by decide))).resolve_left
    (by decide)
  rw [hsum] at hlane
  exact absurd hlane (by decide)

end Examples

end SextantTree.BlockKernels
