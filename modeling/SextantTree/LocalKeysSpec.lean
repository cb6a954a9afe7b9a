import SextantTree.LocalDecode
import SextantTree.LocalKeys

/-!
Keys of rows of different leaves compare like the distances, as far as these are further apart than
the quantization allows for: exactly where the sums of a row fit the lanes of the kernel, or stop
late enough.
-/

namespace SextantTree.LocalKeys

open BlockKernels LocalPq LeafCodes PackedCells RoundedSums

variable {α : Type} [Field α] [LinearOrder α] [FloorRing α]

/-! ### Lanes -/

section Lanes

variable {c : LocalPqCoder} {s : Setup α} {leaf : Leaf α} {t : Target} {i : ℕ}

/-- The code of segment `sg` in a row. -/
def rowCode (c : LocalPqCoder) (leaf : Leaf α) (i sg : ℕ) : ℕ :=
  (cell (widthOf c.bits) leaf.codes (laneAddr c.bits c.m4 0 i sg)).toNat

def entrySum (c : LocalPqCoder) (s : Setup α) (leaf : Leaf α) (i : ℕ) : ℕ :=
  ∑ sg ∈ Finset.range c.m4, (s.lut (sg * 2 ^ c.bits + rowCode c leaf i sg)).toNat

def kernelSum (t : Target) (c : LocalPqCoder) (n : ℕ) : ℕ :=
  if c.bits = 8 then n
  else
    match t with
    | .portable => n
    | .neon => n % 65536
    | .avx2 | .avx512 => min n 65535

lemma kernelSum_four (hb : c.bits ≠ 8) (t : Target) (n : ℕ) :
    kernelSum t c n = match t with
      | .portable => n
      | .neon => n % 65536
      | .avx2 | .avx512 => min n 65535 := by
  unfold kernelSum
  exact if_neg hb

lemma kernelSum_le (t : Target) (c : LocalPqCoder) (n : ℕ) : kernelSum t c n ≤ n := by
  unfold kernelSum
  split_ifs
  · exact le_rfl
  · cases t with
    | portable => exact le_rfl
    | neon => exact Nat.mod_le _ _
    | avx2 | avx512 => exact min_le_left _ _

omit [Field α] [LinearOrder α] [FloorRing α] in
lemma rowCode_lt (c : LocalPqCoder) (leaf : Leaf α) (i sg : ℕ) : rowCode c leaf i sg < 2 ^ c.bits :=
  LocalPqCoder.toNat_cell_lt c.bitsOk _ _

omit [LinearOrder α] [FloorRing α] in
lemma exactDist_eq (hm : s.leafQ.m = c.m4) (hb : s.leafQ.bits = c.bits) : exactDist c s leaf i =
    ∑ sg ∈ Finset.range c.m4,
      s.leafQ.preprocessQuery s.residual (sg * 2 ^ c.bits + rowCode c leaf i sg) := by
  rw [exactDist, Quant.PqQuantizer.lutDistance, hm, Quant.PqQuantizer.K, hb]
  refine Finset.sum_congr rfl fun sg hsg => ?_
  rw [LocalPqCoder.readCode_extract c.bitsOk _ _ _ _ _ (Finset.mem_range.mp hsg), rowCode]

lemma m4_lt (c : LocalPqCoder) : c.m4 < 2 ^ 16 :=
  (Nat.le_of_dvd c.dim_pos (Nat.dvd_of_mod_eq_zero c.divides)).trans_lt c.dim_lt

lemma toNat_m4 (c : LocalPqCoder) : (UInt16.ofNat c.m4).toNat = c.m4 :=
  UInt16.toNat_ofNat_of_lt (m4_lt c)

lemma toNat_laneAcc (t : Target) (codeBlock lut : Bytes) {m : ℕ} (hm : m < 2 ^ 16) (j : ℕ) :
    (laneAcc t codeBlock lut m j).toNat =
      ∑ sg ∈ Finset.range m, (lut (sg * 256 + (codeBlock (sg * 16 + j)).toNat)).toNat := by
  have hplain : ∀ n, laneAcc t codeBlock lut n j = (List.range n).foldl (fun acc sg =>
      acc + (lut (sg * 256 + (codeBlock (sg * 16 + j)).toNat)).toUInt32) 0 := fun n => by
    cases t with
    | neon => simp only [laneAcc, lookupNeon_eq, load]
    | avx2 | avx512 | portable => rfl
  have hle : ∀ n, ∑ sg ∈ Finset.range n, (lut (sg * 256 + (codeBlock (sg * 16 + j)).toNat)).toNat ≤
      n * 255 := fun n => by
    have h := Finset.sum_le_card_nsmul (Finset.range n)
      (fun sg => (lut (sg * 256 + (codeBlock (sg * 16 + j)).toNat)).toNat) 255
      fun _ _ => Nat.le_of_lt_succ (UInt8.toNat_lt _)
    simpa using h
  have hrun : ∀ n ≤ m, (laneAcc t codeBlock lut n j).toNat =
      ∑ sg ∈ Finset.range n, (lut (sg * 256 + (codeBlock (sg * 16 + j)).toNat)).toNat := by
    intro n hn
    induction n with
    | zero => rfl
    | succ n ih =>
      have hprev := ih (by omega)
      have hbound := hle (n + 1)
      rw [Finset.sum_range_succ] at hbound ⊢
      rw [hplain, List.range_succ, List.foldl_concat, ← hplain, UInt32.toNat_add, hprev,
        UInt8.toNat_toUInt32]
      exact Nat.mod_eq_of_lt (by omega)
  exact hrun m le_rfl

/-- The sums of a local scan are the plain sums of the block kernel. -/
lemma pq4Block32_eq_laneSum (leaf : Bytes) (blk : ℕ) (lut : Bytes) (m j : ℕ) :
    LocalPqCoder.pq4Block32 leaf blk (fun i => (lut i).toNat) m j = laneSum (load leaf blk) lut m j := by
  have hlist : laneSum (load leaf blk) lut m j =
      ((List.range m).map fun s => (entry (load leaf blk) lut s j).toNat).sum := rfl
  rw [hlist, LocalPqCoder.pq4Block32]
  split
  case isTrue hj => simp only [entry, nibble, if_pos hj, load]
  case isFalse hj => simp only [entry, nibble, if_neg hj, load]

lemma nibble_eq (codes : Bytes) {m : ℕ} (i sg : ℕ) :
    nibble (load codes (i / 32 * m * 16)) sg (i % 32) =
      (cell .nibble codes (laneAddr 4 m 0 i sg)).toNat := by
  have haddr : laneAddr 4 m 0 i sg =
      2 * (i / 32 * m * 16 + (sg * 16 + i % 16)) + i % 32 / 16 := by
    rw [laneAddr, if_pos rfl, Nat.zero_add, Nat.mul_assoc]
  rw [haddr]
  rcases Nat.lt_or_ge (i % 32) 16 with h | h
  · rw [nibble, if_pos h, show i % 32 = i % 16 by omega, show i % 16 / 16 = 0 by omega]
    simp [cell, load]
  · rw [nibble, if_neg (by omega), show i % 32 - 16 = i % 16 by omega, show i % 32 / 16 = 1 by omega]
    simp only [cell, load]
    rw [if_neg (by omega), Nat.mul_add_div (by omega)]
    simp

omit [Field α] [LinearOrder α] [FloorRing α] in
lemma toNat_acc (t : Target) (s : Setup α) (leaf : Leaf α) (i : ℕ) :
    ((blocks c s leaf).acc t (i / codesPerBlockRead c.bits) (i % codesPerBlockRead c.bits)).toNat =
      kernelSum t c (entrySum c s leaf i) := by
  have hm := m4_lt c
  rcases c.bitsOk with hb | hb
  · have hlane : laneSum (load leaf.codes (i / 32 * c.m4 * 16)) s.lut c.m4 (i % 32) =
        entrySum c s leaf i := by
      refine Finset.sum_congr rfl fun sg _ => ?_
      rw [entry, nibble_eq, rowCode, hb]
      rfl
    have hj : i % 32 < 32 := Nat.mod_lt _ (by norm_num)
    simp only [PqBlocks.acc, blocks, hb, codesPerBlockRead, toNat_m4, kernelSum, Nat.reduceEqDiff,
      decide_false, Bool.false_eq_true, if_false]
    cases t with
    | neon => rw [← hlane]; exact blockNeon_lane hj
    | avx2 | avx512 => rw [← hlane]; exact blockAvx2_lane hj
    | portable =>
      rw [← hlane]
      exact (pq4Block32_eq_iff hm .portable hj).mpr (.inl rfl)
  · simp only [PqBlocks.acc, blocks, hb, codesPerBlockRead, toNat_m4, kernelSum, decide_true, if_true]
    rw [toNat_laneAcc t _ _ hm]
    refine Finset.sum_congr rfl fun sg _ => ?_
    have haddr : laneAddr 8 c.m4 0 i sg = i / 16 * c.m4 * 16 + (sg * 16 + i % 16) := by
      rw [laneAddr, if_neg (by norm_num), Nat.zero_add, Nat.mul_assoc]
    rw [rowCode, hb, haddr]
    rfl

omit [Field α] [LinearOrder α] [FloorRing α] in
lemma out_eq_acc (h : Scanned c leaf i) :
    (blocks c s leaf).out t (i / codesPerBlockRead c.bits) (i % codesPerBlockRead c.bits) =
      (blocks c s leaf).acc t (i / codesPerBlockRead c.bits) (i % codesPerBlockRead c.bits) := by
  set x := blocks c s leaf with hx
  set cpb := codesPerBlockRead c.bits with hcpb
  have hread : cpb = (x.leaf t).codesPerBlock ∧ cpb = codesPerBlock c.bits := by
    rcases c.bitsOk with hb | hb <;> simp [hcpb, hx, codesPerBlockRead, codesPerBlock,
      PqLeaf.codesPerBlock, PqBlocks.leaf, blocks, hb]
  have hpos : 0 < cpb := by
    rw [hcpb, codesPerBlockRead]
    split_ifs <;> norm_num
  have hcount : (x.leaf t).count = leaf.count.toNat := rfl
  have hblock := h.2
  rw [blockCount, ← hread.2, ← hcpb] at hblock
  have hfit : (x.leaf t).count + (x.leaf t).codesPerBlock ≤ 2 ^ 32 := by
    rw [← hread.1, hcount]
    by_contra hlarge
    have hlt := leaf.count.toNat_lt
    have hwrap : (leaf.count.toNat + cpb - 1) % 2 ^ 32 < cpb := by
      have hsmall : cpb ≤ 32 := by
        rw [hcpb, codesPerBlockRead]
        split_ifs <;> norm_num
      omega
    rw [Nat.div_eq_of_lt hwrap] at hblock
    exact absurd hblock (Nat.not_lt_zero _)
  have hb : i / cpb < (x.leaf t).nBlocks := by
    rw [PqLeaf.nBlocks, PqLeaf.rows, hcount, ← hread.1, Nat.mod_eq_of_lt leaf.count.toNat_lt]
    exact hblock
  have hj : i % cpb < cpb := Nat.mod_lt _ hpos
  have hbit := PqLeaf.testBit_validMask hfit hb (hread.1 ▸ hj)
  rw [← hread.1, hcount, decide_eq_true (by rw [Nat.mul_comm, Nat.div_add_mod]; exact h.1)] at hbit
  have hkey : ∀ raw, (x.leaf t).toKey raw = raw := fun _ => rfl
  simp only [PqBlocks.out, hkey, PqBlocks.acc]
  split_ifs with hpq hmask
  · have hj16 : i % cpb < 16 := by
      have h8 : cpb = 16 := by rw [hcpb, codesPerBlockRead, if_pos (of_decide_eq_true hpq)]
      omega
    rw [fastscanBlock16At_eq _ _ _ _ _ hj16, UInt16.toNat_ofNat', Nat.testBit_mod_two_pow, hbit]
    simp [hj16]
  · cases t with
    | neon =>
      rw [Target.arch, u32MaskSentinel32.eq_1, hbit]
      simp
    | avx2 | avx512 | portable =>
      rw [Target.arch, u32MaskSentinel32.eq_2, hbit]
      · simp
      all_goals exact fun h => by cases h
  · rfl

end Lanes

/-! ### Tables -/

section Tables

variable [IsStrictOrderedRing α] {f : ℕ → α} {m K N : ℕ} {T : ByteLut α}

omit [FloorRing α] in
lemma above_spec {k : ℕ} (hk : k < m * K) : 0 ≤ above f K k ∧ above f K k ≤ maxSpan f m K := by
  have hK : 0 < K := Nat.pos_of_mul_pos_left (Nat.zero_lt_of_lt hk)
  refine ⟨?_, (le_greatest _ _ _).2 k (List.mem_range.mpr hk)⟩
  rw [above, sub_nonneg, segMin]
  obtain ⟨hfirst, hrest⟩ := least_le (fun c => f (k / K * K + c)) (f (k / K * K)) (List.range' 1 (K - 1))
  have hk' : k / K * K + k % K = k := by rw [Nat.mul_comm, Nat.div_add_mod]
  have hmod := Nat.mod_lt k hK
  rcases Nat.eq_zero_or_pos (k % K) with hzero | hpos
  · rw [hzero, Nat.add_zero] at hk'
    exact hfirst.trans_eq (congrArg f hk')
  · have hmem := hrest (k % K) (List.mem_range'_1.mpr ⟨hpos, by omega⟩)
    rwa [hk'] at hmem

/-- The table is an affine map of the entries, rounded: nothing is clamped. -/
structure Affine (N : ℕ) (f : ℕ → α) (m K : ℕ) (T : ByteLut α) : Prop where
  lut : ∀ k < m * K, T.lut k = level N (above f K k * T.scale)
  scale : 0 ≤ T.scale
  inRange : ∀ k < m * K, above f K k * T.scale ≤ N
  flat : T.scale = 0 → ∀ k < m * K, above f K k = 0
  offset : T.offset = ∑ s ∈ Finset.range m, segMin f K s

omit [FloorRing α] in
lemma inRange_of_scale {A : α} (hA : 0 ≤ A) (h : maxSpan f m K * A ≤ N) {k : ℕ} (hk : k < m * K) :
    above f K k * A ≤ N :=
  (mul_le_mul_of_nonneg_right (above_spec hk).2 hA).trans h

omit [FloorRing α] in
lemma flat_of_span (h : ¬ 0 < maxSpan f m K) {k : ℕ} (hk : k < m * K) : above f K k = 0 := by
  obtain ⟨hlow, hhigh⟩ := above_spec (f := f) hk
  exact le_antisymm (hhigh.trans (not_lt.mp h)) hlow

lemma affine_u4 (f : ℕ → α) (m K : ℕ) : Affine 15 f m K
    ⟨(quantizeLutU4Compander f m K 15).1, (quantizeLutU4Compander f m K 15).2,
      ∑ s ∈ Finset.range m, segMin f K s⟩ := by
  simp only [quantizeLutU4Compander]
  split_ifs with h
  · have hA : 0 < 15 / maxSpan f m K := div_pos (by norm_num) h
    refine ⟨fun _ _ => rfl, hA.le, fun k hk => inRange_of_scale hA.le ?_ hk,
      fun hzero => absurd hzero hA.ne', rfl⟩
    rw [mul_div_cancel₀ _ h.ne']
    norm_num
  · refine ⟨fun _ _ => rfl, le_rfl, fun k _ => ?_, fun _ k hk => flat_of_span h hk, rfl⟩
    rw [mul_zero]
    positivity

lemma affine_u8 (f : ℕ → α) {m : ℕ} (hm : 0 < m) (K : ℕ) :
    Affine 255 f m K (quantizeLutU8Scaled f m K) := by
  have hm' : (0 : α) < m := by exact_mod_cast hm
  set A : α :=
    if 0 < maxSpan f m K then
      (if (4294967295 : α) / (m * 255) < 255 / maxSpan f m K then 4294967295 / (m * 255)
        else 255 / maxSpan f m K)
    else 0 with hA
  have hscale : (quantizeLutU8Scaled f m K).scale = A := rfl
  have hlut : ∀ k < m * K,
      (quantizeLutU8Scaled f m K).lut k = level (255 : ℕ) (above f K k * A) := fun _ _ => rfl
  by_cases h : 0 < maxSpan f m K
  · have hcap : (0 : α) < 4294967295 / (m * 255) := by positivity
    have hfull : 0 < 255 / maxSpan f m K := div_pos (by norm_num) h
    have hpos : 0 < A ∧ A ≤ 255 / maxSpan f m K := by
      rw [hA, if_pos h]
      split_ifs with hlt
      · exact ⟨hcap, hlt.le⟩
      · exact ⟨hfull, le_rfl⟩
    refine ⟨hlut, hpos.1.le, fun k hk => inRange_of_scale hpos.1.le ?_ hk,
      fun hzero => absurd hzero hpos.1.ne', rfl⟩
    calc maxSpan f m K * A ≤ maxSpan f m K * (255 / maxSpan f m K) :=
          mul_le_mul_of_nonneg_left hpos.2 h.le
      _ = (255 : ℕ) := by rw [mul_div_cancel₀ _ h.ne']; norm_num
  · have hzero : A = 0 := by rw [hA, if_neg h]
    refine ⟨hlut, by rw [hscale, hzero], fun k _ => ?_, fun _ k hk => flat_of_span h hk, rfl⟩
    rw [hscale, hzero, mul_zero]
    positivity

lemma level_spec (hN : N ≤ 255) {x : α} (hx : 0 ≤ x) (hxN : x ≤ N) :
    (level N x).toNat ≤ N ∧ |((level N x).toNat : α) - x| ≤ 1 / 2 := by
  obtain ⟨⟨hlow, hhigh⟩, hclose⟩ := roundHalf_spec hx hxN
  have hnat : (level N x).toNat = (roundHalf x).toNat := by
    rw [level, min_eq_right hhigh, max_eq_right hlow]
    have hsize : UInt8.size = 256 := rfl
    exact UInt8.toNat_ofNat_of_lt (by omega)
  have hcast : ((level N x).toNat : α) = (roundHalf x : α) := by
    rw [hnat, ← Int.cast_natCast, Int.toNat_of_nonneg hlow]
  rw [hcast]
  exact ⟨by omega, hclose⟩

lemma Affine.sums (h : Affine N f m K T) (hN : N ≤ 255) {code : ℕ → ℕ} (hcode : ∀ s, code s < K) :
    let n := ∑ s ∈ Finset.range m, (T.lut (s * K + code s)).toNat
    let x := T.scale * (∑ s ∈ Finset.range m, f (s * K + code s) - T.offset)
    (n ≤ m * N ∧ x ≤ m * N) ∧ |(n : α) - x| ≤ m * (1 / 2) ∧
      (T.scale = 0 → ∑ s ∈ Finset.range m, f (s * K + code s) = T.offset ∧ n = 0) := by
  intro n x
  have hk : ∀ s < m, s * K + code s < m * K := fun s hs =>
    calc s * K + code s < (s + 1) * K := by rw [Nat.succ_mul]; have := hcode s; omega
      _ ≤ m * K := Nat.mul_le_mul_right K hs
  have hseg : ∀ s < m, above f K (s * K + code s) = f (s * K + code s) - segMin f K s :=
    fun s _ => by
      have hK : 0 < K := Nat.zero_lt_of_lt (hcode s)
      rw [above, Nat.mul_comm, Nat.mul_add_div hK, Nat.div_eq_of_lt (hcode s), Nat.add_zero]
  have hx : x = ∑ s ∈ Finset.range m, above f K (s * K + code s) * T.scale := by
    simp only [x]
    rw [h.offset, ← Finset.sum_sub_distrib, Finset.mul_sum]
    refine Finset.sum_congr rfl fun s hs => ?_
    rw [hseg s (Finset.mem_range.mp hs), mul_comm]
  have hlevel : ∀ s < m, (T.lut (s * K + code s)).toNat ≤ N ∧
      |((T.lut (s * K + code s)).toNat : α) - above f K (s * K + code s) * T.scale| ≤ 1 / 2 :=
    fun s hs => by
      rw [h.lut _ (hk s hs)]
      exact level_spec hN (mul_nonneg (above_spec (hk s hs)).1 h.scale) (h.inRange _ (hk s hs))
  refine ⟨⟨?_, ?_⟩, ?_, fun hflat => ⟨?_, ?_⟩⟩
  · have hle := Finset.sum_le_card_nsmul (Finset.range m) (fun s => (T.lut (s * K + code s)).toNat) N
      fun s hs => (hlevel s (Finset.mem_range.mp hs)).1
    simpa using hle
  · have hle := Finset.sum_le_card_nsmul (Finset.range m)
      (fun s => above f K (s * K + code s) * T.scale) (N : α)
      fun s hs => h.inRange _ (hk s (Finset.mem_range.mp hs))
    rw [hx]
    simpa using hle
  · rw [hx]
    simp only [n]
    rw [Nat.cast_sum]
    exact abs_sum_sub_sum_le fun s hs => (hlevel s hs).2
  · rw [h.offset]
    refine Finset.sum_congr rfl fun s hs => ?_
    have hs' := Finset.mem_range.mp hs
    have habove := h.flat hflat _ (hk s hs')
    rw [hseg s hs'] at habove
    exact sub_eq_zero.mp habove
  · refine Finset.sum_eq_zero fun s hs => ?_
    have hclose := (hlevel s (Finset.mem_range.mp hs)).2
    rw [hflat, mul_zero, sub_zero, Nat.abs_cast] at hclose
    have hlt : ((T.lut (s * K + code s)).toNat : α) < 1 := hclose.trans_lt (by norm_num)
    exact Nat.lt_one_iff.mp (by exact_mod_cast hlt)

end Tables

/-! ### Setups -/

section Setups

variable {c : LocalPqCoder} {query : ℕ → α} {leaf : Leaf α} {s s₀ : Setup α}

def boundQ (c : LocalPqCoder) (leaf : Leaf α) : Quant.PqQuantizer α :=
  setCodebookData (newQuantizer c) leaf.codebook

/-- The table of the query in the leaf, before it is quantized. -/
def boundLut (c : LocalPqCoder) (query : ℕ → α) (leaf : Leaf α) : ℕ → α :=
  (boundQ c leaf).preprocessQuery fun d => query d - leaf.centroid d

def boundTable (c : LocalPqCoder) (query : ℕ → α) (leaf : Leaf α) : ByteLut α :=
  if c.bits = 8 then quantizeLutU8Scaled (boundLut c query leaf) c.m4 (2 ^ c.bits)
  else
    let t := quantizeLutU4Compander (boundLut c query leaf) c.m4 (2 ^ c.bits) 15
    ⟨t.1, t.2, ∑ sg ∈ Finset.range c.m4, segMin (boundLut c query leaf) (2 ^ c.bits) sg⟩

def boundSetup (c : LocalPqCoder) (query : ℕ → α) (leaf : Leaf α) : Setup α :=
  let t := boundTable c query leaf
  { residual := fun d => query d - leaf.centroid d, lut := t.lut, queryCopy := query
    leafQ := boundQ c leaf, lutScale := t.scale, lutOffset := t.offset }

lemma buildTable_eq (c : LocalPqCoder) (query : ℕ → α) (leaf : Leaf α) :
    buildTable c (boundQ c leaf) (fun d => query d - leaf.centroid d) =
      .ok (boundTable c query leaf) := by
  have hbits : (boundQ c leaf).bits = c.bits := rfl
  rw [buildTable, boundTable]
  split_ifs with hb
  · rfl
  · have hfour : c.bits = 4 := c.bitsOk.resolve_right hb
    have hcheck : ¬ ((boundQ c leaf).bits ≠ 4 ∨ (boundQ c leaf).K ≠ 16) := by
      rw [Quant.PqQuantizer.K, hbits, hfour]
      decide
    rw [buildFastscanLut4, if_neg hcheck]
    rfl

lemma bindLeaf_eq (hq : s₀.queryCopy = query)
    (hQ : ∀ cb, setCodebookData s₀.leafQ cb = setCodebookData (newQuantizer c) cb) :
    bindLeaf c s₀ leaf = .ok (boundSetup c query leaf) := by
  subst hq
  have hbound : setCodebookData s₀.leafQ leaf.codebook = boundQ c leaf := hQ _
  rw [bindLeaf, hbound, buildTable_eq c s₀.queryCopy leaf]
  rfl

lemma Made.spec (h : Made c query s) : s.queryCopy = query ∧
    ∀ cb, setCodebookData s.leafQ cb = setCodebookData (newQuantizer c) cb := by
  induction h with
  | start => exact ⟨rfl, fun _ => rfl⟩
  | bound _ hbind ih =>
    rw [bindLeaf_eq ih.1 ih.2] at hbind
    cases hbind
    exact ⟨rfl, fun _ => rfl⟩

lemma BoundTo.eq (h : BoundTo c query leaf s) : s = boundSetup c query leaf := by
  obtain ⟨s₀, hmade, hbind⟩ := h
  rw [bindLeaf_eq hmade.spec.1 hmade.spec.2] at hbind
  cases hbind
  rfl

lemma boundTo_boundSetup (c : LocalPqCoder) (query : ℕ → α) (leaf : Leaf α) :
    BoundTo c query leaf (boundSetup c query leaf) :=
  ⟨scanSetup c query, .start, bindLeaf_eq rfl fun _ => rfl⟩

def top (c : LocalPqCoder) : ℕ := if c.bits = 8 then 255 else 15

lemma top_le (c : LocalPqCoder) : top c ≤ 255 := by
  rw [top]
  split_ifs <;> norm_num

variable [IsStrictOrderedRing α]

lemma affine_boundTable (c : LocalPqCoder) (query : ℕ → α) (leaf : Leaf α) :
    Affine (top c) (boundLut c query leaf) c.m4 (2 ^ c.bits) (boundTable c query leaf) := by
  rw [boundTable, top]
  split_ifs
  · exact affine_u8 _ c.m4_pos _
  · exact affine_u4 _ _ _

/-! ### Estimates -/

omit [FloorRing α] in
lemma kernelSum_close {t : Target} (hwide : WideEnough t c) {n : ℕ} {x : α}
    (hn : n ≤ c.m4 * top c) (hx : x ≤ c.m4 * top c) (h : |(n : α) - x| ≤ c.m4 * (1 / 2)) :
    |(kernelSum t c n : α) - x| ≤ c.m4 * (1 / 2) := by
  unfold kernelSum
  split_ifs with hb
  · exact h
  · rw [top, if_neg hb] at hn hx
    have hwide' := hwide.resolve_left hb
    cases t with
    | portable => exact h
    | neon =>
      have hfits : n % 65536 = n := Nat.mod_eq_of_lt (by dsimp only at hwide'; omega)
      simpa only [hfits] using h
    | avx2 | avx512 =>
      dsimp only at hwide' ⊢
      rcases Nat.le_total n 65535 with hle | hge
      · rwa [min_eq_left hle]
      · rw [min_eq_right hge]
        have hge' : (65535 : α) ≤ n := by exact_mod_cast hge
        have hm : (29 : α) * c.m4 ≤ 131070 := by
          have : 29 * c.m4 ≤ 131070 := by omega
          exact_mod_cast this
        obtain ⟨hlow, hhigh⟩ := abs_le.mp h
        push_cast at hx ⊢
        exact abs_le.mpr ⟨by linarith, by linarith⟩

/-- What `to_key` makes of a sum. -/
def estimate (s : Setup α) (n : ℕ) : α :=
  (n : α) / (if 0 < s.lutScale then s.lutScale else 1) + s.lutOffset

/-- **Estimates are off by half a step for each segment at most.** -/
lemma abs_estimate_sub_le {t : Target} (hwide : WideEnough t c) (query : ℕ → α) (leaf : Leaf α)
    (i : ℕ) :
    let s := boundSetup c query leaf
    |estimate s (kernelSum t c (entrySum c s leaf i)) - exactDist c s leaf i| ≤ tolerance c s := by
  intro s
  have haffine := affine_boundTable c query leaf
  obtain ⟨⟨hn, hx⟩, hclose, hflat⟩ := haffine.sums (top_le c) fun sg => rowCode_lt c leaf i sg
  have hdist : exactDist c s leaf i =
      ∑ sg ∈ Finset.range c.m4, boundLut c query leaf (sg * 2 ^ c.bits + rowCode c leaf i sg) :=
    exactDist_eq rfl rfl
  set d := ∑ sg ∈ Finset.range c.m4, boundLut c query leaf (sg * 2 ^ c.bits + rowCode c leaf i sg)
  have hsum : entrySum c s leaf i = ∑ sg ∈ Finset.range c.m4,
      ((boundTable c query leaf).lut (sg * 2 ^ c.bits + rowCode c leaf i sg)).toNat := rfl
  rw [hdist, hsum]
  set n := ∑ sg ∈ Finset.range c.m4,
    ((boundTable c query leaf).lut (sg * 2 ^ c.bits + rowCode c leaf i sg)).toNat
  have hscale : s.lutScale = (boundTable c query leaf).scale := rfl
  have hoffset : s.lutOffset = (boundTable c query leaf).offset := rfl
  rw [estimate, tolerance, hscale, hoffset]
  set A := (boundTable c query leaf).scale
  set B := (boundTable c query leaf).offset
  rcases (show 0 ≤ A from haffine.scale).eq_or_lt with hzero | hpos
  · obtain ⟨hd, hn0⟩ := hflat hzero.symm
    have hkernel : kernelSum t c n = 0 := Nat.le_zero.mp (hn0 ▸ kernelSum_le t c n)
    rw [hkernel, if_pos hzero.symm, hd]
    simp
  · have hkernel := kernelSum_close hwide hn hx hclose
    have hsplit : (kernelSum t c n : α) / A + B - d = (kernelSum t c n - A * (d - B)) / A := by
      field_simp
      ring
    rw [if_pos hpos, if_neg hpos.ne', hsplit, abs_div, abs_of_pos hpos, div_le_div_iff₀ hpos (by positivity)]
    calc |(kernelSum t c n : α) - A * (d - B)| * (2 * A) ≤ c.m4 * (1 / 2) * (2 * A) :=
          mul_le_mul_of_nonneg_right hkernel (by positivity)
      _ = c.m4 * A := by ring

omit [FloorRing α] [IsStrictOrderedRing α] in
lemma rowKey_eq {κ : Type} (encode : α → κ) (t : Target) (s : Setup α) {i : ℕ}
    (h : Scanned c leaf i) : rowKey c encode t s leaf i =
      ↑(encode (estimate s (kernelSum t c (entrySum c s leaf i)))) := by
  have hnat := toNat_acc (c := c) t s leaf i
  have hsmall : entrySum c s leaf i ≤ c.m4 * 255 := by
    have hle := Finset.sum_le_card_nsmul (Finset.range c.m4)
      (fun sg => (s.lut (sg * 2 ^ c.bits + rowCode c leaf i sg)).toNat) 255
      fun _ _ => Nat.le_of_lt_succ (UInt8.toNat_lt _)
    rw [Finset.card_range, smul_eq_mul] at hle
    exact hle
  have hkernel := (kernelSum_le t c (entrySum c s leaf i)).trans hsmall
  have hne : (blocks c s leaf).acc t (i / codesPerBlockRead c.bits) (i % codesPerBlockRead c.bits) ≠
      0xFFFFFFFF := by
    intro hraw
    have hm := m4_lt c
    rw [hraw] at hnat
    have hmax : (0xFFFFFFFF : UInt32).toNat = 4294967295 := rfl
    omega
  rw [rowKey, out_eq_acc h, toKey, if_neg hne, hnat]
  rfl

end Setups

/-! ### Leaves of ones and zeros -/

section Marked

variable [IsStrictOrderedRing α] {c : LocalPqCoder} {P : ℕ → Bool}

/-- A leaf of one row with code 1 everywhere. Each entry of its codebook has length one or zero. -/
def markedLeaf (α : Type) [Field α] (c : LocalPqCoder) (P : ℕ → Bool) : Leaf α where
  centroid _ := 0
  codebook p := if p % (c.dim / c.m4) = 0 ∧ P (p / (c.dim / c.m4)) then 1 else 0
  count := 1
  codes _ := 0x11

omit [LinearOrder α] [FloorRing α] [IsStrictOrderedRing α] in
lemma boundLut_markedLeaf (k : ℕ) :
    boundLut c (fun _ => 0) (markedLeaf α c P) k = if P k then 1 else 0 := by
  have hw : 0 < c.dim / c.m4 := Nat.div_pos
    (Nat.le_of_dvd c.dim_pos (Nat.dvd_of_mod_eq_zero c.divides)) c.m4_pos
  set q := boundQ c (markedLeaf α c P) with hq
  have hsub : q.subDim = c.dim / c.m4 := rfl
  have hnorms : q.centroidSqnorms (k / q.K * q.K + k % q.K) =
      SegmentedVec.dot q.subDim (q.centroid (k / q.K) (k % q.K)) (q.centroid (k / q.K) (k % q.K)) := by
    rw [Nat.mul_comm, Nat.div_add_mod]
    rfl
  have hdist : q.preprocessQuery (fun _ => 0) k = SegmentedVec.sqDist q.subDim (fun _ => 0)
      (q.centroid (k / q.K) (k % q.K)) := by
    rw [Quant.PqQuantizer.preprocessQuery]
    unfold Quant.PqQuantizer.preprocessQueryAs
    have hmetric : q.metric = .l2Sq := rfl
    simp only [hmetric]
    split_ifs
    · rw [hnorms, ← SegmentedVec.sqDist_eq]
      rfl
    · rfl
  have hcentroid : ∀ j < q.subDim, q.centroid (k / q.K) (k % q.K) j = if j = 0 ∧ P k then 1 else 0 := by
    intro j hj
    have hpos : k / q.K * q.K * q.subDim + k % q.K * q.subDim + j = k * q.subDim + j := by
      rw [← Nat.add_mul, Nat.mul_comm (k / q.K), Nat.div_add_mod]
    rw [Quant.PqQuantizer.centroid, SegmentedVec.shift, hpos]
    show (if (k * q.subDim + j) % q.subDim = 0 ∧ P ((k * q.subDim + j) / q.subDim) then (1 : α) else 0) = _
    rw [Nat.mul_comm, Nat.mul_add_mod, Nat.mod_eq_of_lt hj, Nat.mul_add_div (by omega),
      Nat.div_eq_of_lt hj, Nat.add_zero]
  have hlut : boundLut c (fun _ => 0) (markedLeaf α c P) k = q.preprocessQuery (fun _ => 0) k := by
    rw [boundLut]
    congr 1
    funext d
    exact sub_zero 0
  rw [hlut, hdist, SegmentedVec.sqDist, Finset.sum_eq_single 0]
  · rw [hcentroid 0 (hsub ▸ hw)]
    split_ifs with h₁ h₂ h₂
    · ring
    · exact absurd h₁.2 h₂
    · exact absurd ⟨rfl, h₂⟩ h₁
    · ring
  · intro j hj hne
    rw [hcentroid j (Finset.mem_range.mp hj), if_neg fun h => hne h.1]
    ring
  · intro hmem
    exact absurd (Finset.mem_range.mpr (hsub ▸ hw)) hmem

omit [LinearOrder α] [FloorRing α] [IsStrictOrderedRing α] in
lemma rowCode_markedLeaf (hb : c.bits = 4) (i sg : ℕ) : rowCode c (markedLeaf α c P) i sg = 1 := by
  rw [rowCode, hb]
  simp only [widthOf, if_true, cell, markedLeaf]
  split_ifs <;> rfl

omit [LinearOrder α] [FloorRing α] [IsStrictOrderedRing α] in
lemma scanned_markedLeaf (hb : c.bits = 4) : Scanned c (markedLeaf α c P) 0 := by
  have hcount : (markedLeaf α c P).count.toNat = 1 := rfl
  rw [Scanned, hb, hcount]
  decide

omit [IsStrictOrderedRing α] in
lemma exactDist_markedLeaf (hb : c.bits = 4) (i : ℕ) :
    exactDist c (boundSetup c (fun _ => 0) (markedLeaf α c P)) (markedLeaf α c P) i =
      ∑ sg ∈ Finset.range c.m4, if P (sg * 16 + 1) then 1 else 0 := by
  have hdist : exactDist c (boundSetup c (fun _ => 0) (markedLeaf α c P)) (markedLeaf α c P) i =
      ∑ sg ∈ Finset.range c.m4, boundLut c (fun _ => 0) (markedLeaf α c P)
        (sg * 2 ^ c.bits + rowCode c (markedLeaf α c P) i sg) := exactDist_eq rfl rfl
  rw [hdist]
  refine Finset.sum_congr rfl fun sg _ => ?_
  rw [rowCode_markedLeaf hb, hb, boundLut_markedLeaf, show (2 : ℕ) ^ 4 = 16 from rfl]

/-- All entries but the first of each segment are one: the scale is 15, and so is each byte of the
row. -/
lemma estimate_ones (hb : c.bits = 4) (t : Target) :
    let leaf := markedLeaf α c fun k => k % 16 ≠ 0
    let s := boundSetup c (fun _ => 0) leaf
    s.lutScale = 15 ∧
      estimate s (kernelSum t c (entrySum c s leaf 0)) = kernelSum t c (c.m4 * 15) / 15 := by
  intro leaf s
  set f := boundLut c (fun _ => 0) leaf with hf
  have hentry : ∀ k, f k = if k % 16 ≠ 0 then 1 else 0 := fun k => by
    rw [hf, boundLut_markedLeaf]
    simp
  have hmin : ∀ sg, segMin f 16 sg = 0 := fun sg => by
    have hfirst : f (sg * 16) = 0 := by rw [hentry, if_neg (by omega)]
    have hnonneg : ∀ k, 0 ≤ f k := fun k => by
      rw [hentry]
      split_ifs <;> norm_num
    refine le_antisymm ?_ ?_
    · exact (least_le _ _ _).1.trans_eq hfirst
    · rcases least_eq (fun k => f (sg * 16 + k)) (f (sg * 16)) (List.range' 1 (16 - 1)) with h | ⟨k, -, h⟩
      · rw [segMin, h]
        exact hnonneg _
      · rw [segMin, h]
        exact hnonneg _
  have habove : ∀ k, above f 16 k = if k % 16 ≠ 0 then 1 else 0 := fun k => by
    rw [above, hmin, sub_zero, hentry]
  have hspan : maxSpan f c.m4 16 = 1 := by
    refine le_antisymm (greatest_le zero_le_one fun k _ => ?_) ?_
    · rw [habove]
      split_ifs <;> norm_num
    · have hone := (le_greatest (above f 16) 0 (List.range (c.m4 * 16))).2 1
        (List.mem_range.mpr (by have := c.m4_pos; omega))
      rwa [habove, if_pos (by norm_num)] at hone
  have htable : boundTable c (fun _ => 0) leaf = ⟨fun k => level 15 (above f 16 k * 15), 15, 0⟩ := by
    rw [boundTable, if_neg (by rw [hb]; norm_num), hb]
    simp only [quantizeLutU4Compander, ← hf, Nat.reducePow, hspan, hmin, Finset.sum_const_zero]
    norm_num
  have hsum : entrySum c s leaf 0 = c.m4 * 15 := by
    have hlut : s.lut = fun k => level 15 (above f 16 k * 15) := congrArg ByteLut.lut htable
    have hbyte : ∀ sg, (s.lut (sg * 2 ^ c.bits + rowCode c leaf 0 sg)).toNat = 15 := fun sg => by
      have hpos : (sg * 2 ^ 4 + 1) % 16 ≠ 0 := by omega
      rw [hlut, rowCode_markedLeaf hb, hb]
      dsimp only
      rw [habove, if_pos hpos, one_mul, level]
      have hround : roundHalf (15 : α) = 15 := by
        rw [roundHalf_eq (by norm_num)]
        exact round_ofNat 15
      rw [hround]
      rfl
    rw [entrySum, Finset.sum_congr rfl fun sg _ => hbyte sg, Finset.sum_const, Finset.card_range,
      smul_eq_mul]
  have hscale : s.lutScale = 15 := congrArg ByteLut.scale htable
  have hoffset : s.lutOffset = 0 := congrArg ByteLut.offset htable
  refine ⟨hscale, ?_⟩
  rw [hsum, estimate, hscale, hoffset, if_pos (by norm_num), add_zero]

lemma estimate_flat (hb : c.bits = 4) (t : Target) {n : ℕ} (hn : n ≤ c.m4) :
    let leaf := markedLeaf α c fun k => k / 16 < n
    let s := boundSetup c (fun _ => 0) leaf
    (s.lutScale = 0 ∧ exactDist c s leaf 0 = n) ∧
      estimate s (kernelSum t c (entrySum c s leaf 0)) = n := by
  intro leaf s
  set f := boundLut c (fun _ => 0) leaf with hf
  have hentry : ∀ k, f k = if k / 16 < n then 1 else 0 := fun k => by
    rw [hf, boundLut_markedLeaf]
    simp
  have hmin : ∀ sg, segMin f 16 sg = f (sg * 16) := fun sg => by
    rcases least_eq (fun k => f (sg * 16 + k)) (f (sg * 16)) (List.range' 1 (16 - 1)) with h | ⟨k, hk, h⟩
    · exact h
    · have hk' := List.mem_range'_1.mp hk
      rw [segMin, h, hentry, hentry, show (sg * 16 + k) / 16 = sg * 16 / 16 by omega]
  have hflat : ∀ k, above f 16 k = 0 := fun k => by
    rw [above, hmin, hentry, hentry, show k / 16 * 16 / 16 = k / 16 by omega, sub_self]
  have hspan : ¬ 0 < maxSpan f c.m4 16 := by
    refine not_lt.mpr (greatest_le le_rfl fun k _ => ?_)
    rw [hflat]
  have hscale : s.lutScale = 0 := by
    show (boundTable c (fun _ => 0) leaf).scale = 0
    rw [boundTable, if_neg (by rw [hb]; norm_num), hb]
    simp only [quantizeLutU4Compander, ← hf, Nat.reducePow, if_neg hspan]
  have hdist : exactDist c s leaf 0 = n := by
    rw [exactDist_markedLeaf hb]
    have hcard : (Finset.range c.m4).filter (fun sg => (sg * 16 + 1) / 16 < n) = Finset.range n := by
      ext sg
      rw [Finset.mem_filter, Finset.mem_range, Finset.mem_range]
      omega
    simp only [decide_eq_true_eq]
    rw [Finset.sum_boole, hcard, Finset.card_range]
  obtain ⟨-, -, hzero⟩ := (affine_boundTable c (fun _ => 0) leaf).sums (top_le c)
    fun sg => rowCode_lt c leaf 0 sg
  obtain ⟨hoffset, hsum⟩ := hzero hscale
  have hsum' : entrySum c s leaf 0 = 0 := hsum
  have hoffset' : s.lutOffset = n := by
    rw [← hdist, exactDist_eq rfl rfl]
    exact hoffset.symm
  have hkernel : kernelSum t c 0 = 0 := Nat.le_zero.mp (kernelSum_le t c 0)
  refine ⟨⟨hscale, hdist⟩, ?_⟩
  rw [hsum', hkernel, estimate, hoffset', Nat.cast_zero, zero_div, zero_add]

end Marked

/-! ### Keys -/

section Keys

variable [IsStrictOrderedRing α] {c : LocalPqCoder} {κ : Type} [LinearOrder κ]

lemma keysComparable_of_wide {encode : α → κ} (hmono : StrictMono encode) {t : Target}
    (hwide : WideEnough t c) : KeysComparable encode t c := by
  intro query leaf₁ leaf₂ s₁ s₂ i₁ i₂ hs₁ hs₂ hi₁ hi₂ hapart
  rw [hs₁.eq, hs₂.eq] at hapart ⊢
  rw [rowKey_eq encode t _ hi₁, rowKey_eq encode t _ hi₂]
  have hcast : StrictMono fun x : α => (↑(encode x) : WithTop κ) := WithTop.coe_strictMono.comp hmono
  have hclose := cmp_eq_of_estimates (abs_estimate_sub_le hwide query leaf₁ i₁)
    (abs_estimate_sub_le hwide query leaf₂ i₂) hapart
  exact (hcast.cmp_map_eq _ _).trans hclose

/-- A leaf whose distances are all known has its key at `n`, where the kernel has made a distance of
`m4` in the other leaf no more than that. -/
lemma not_keysComparable {encode : α → κ} (hmono : StrictMono encode) (hb : c.bits = 4) {t : Target}
    {n : ℕ} (hkernel : kernelSum t c (c.m4 * 15) ≤ n * 15) (hn : c.m4 < (c.m4 - n) * 30) :
    ¬ KeysComparable encode t c := by
  intro h
  have hle : n ≤ c.m4 := by omega
  obtain ⟨hscale, hones⟩ := estimate_ones (α := α) hb t
  obtain ⟨⟨hflat, hdist⟩, hexact⟩ := estimate_flat (α := α) hb t hle
  set leaf₁ := markedLeaf α c fun k => k % 16 ≠ 0
  set leaf₂ := markedLeaf α c fun k => k / 16 < n
  set s₁ := boundSetup c (fun _ => 0) leaf₁
  set s₂ := boundSetup c (fun _ => 0) leaf₂
  have hsum : exactDist c s₁ leaf₁ 0 = c.m4 := by
    rw [exactDist_markedLeaf hb]
    simp
  have hgap : (c.m4 : α) < (c.m4 - n) * 30 := by
    rw [← Nat.cast_sub hle]
    exact_mod_cast hn
  have hlt : (n : α) < c.m4 := by
    have hpos : (0 : α) ≤ c.m4 := Nat.cast_nonneg _
    linarith
  have hcmp := h (fun _ => 0) leaf₁ leaf₂ s₁ s₂ 0 0 (boundTo_boundSetup _ _ _)
    (boundTo_boundSetup _ _ _) (scanned_markedLeaf hb) (scanned_markedLeaf hb) (by
      rw [tolerance, tolerance, hscale, hflat, if_neg (by norm_num), if_pos rfl, hsum, hdist,
        abs_of_pos (sub_pos.mpr hlt), add_zero, div_lt_iff₀ (by norm_num)]
      linarith)
  have hsmall : estimate s₁ (kernelSum t c (entrySum c s₁ leaf₁ 0)) ≤ n := by
    rw [hones, div_le_iff₀ (by norm_num)]
    exact_mod_cast hkernel
  rw [hsum, hdist, hlt.cmp_eq_gt, rowKey_eq encode t s₁ (scanned_markedLeaf hb),
    rowKey_eq encode t s₂ (scanned_markedLeaf hb), cmp_eq_gt_iff, hexact] at hcmp
  exact absurd (hmono.monotone hsmall) (not_le.mpr (WithTop.coe_lt_coe.mp hcmp))

/-- **Keys of different leaves are comparable** for codes of eight bits, and for codes of four bits
where the kernel adds in 32 bits, as far as 4369 segments where its lanes of 16 bits wrap, and as far
as 4519 where they stop at the largest number. -/
theorem keysComparable_iff (encode : α → κ) (hmono : StrictMono encode) (t : Target)
    (c : LocalPqCoder) : KeysComparable encode t c ↔ WideEnough t c := by
  refine ⟨fun h => ?_, keysComparable_of_wide hmono⟩
  by_contra hnarrow
  unfold WideEnough at hnarrow
  rw [not_or] at hnarrow
  obtain ⟨hb8, hm⟩ := hnarrow
  have hb : c.bits = 4 := c.bitsOk.resolve_right hb8
  have hlt := m4_lt c
  have hkernel := kernelSum_four hb8 t (c.m4 * 15)
  cases t with
  | portable => exact hm trivial
  | neon =>
    dsimp only at hm hkernel
    exact not_keysComparable hmono hb (n := c.m4 - 4369) (by rw [hkernel]; omega) (by omega) h
  | avx2 | avx512 =>
    dsimp only at hm hkernel
    exact not_keysComparable hmono hb (n := 4369) (by rw [hkernel]; omega) (by omega) h

lemma smallCoder_m4_pos : 0 < 4 := by decide

lemma smallCoder_bitsOk : 4 = 4 ∨ 4 = 8 := .inl rfl

def smallCoder : LocalPqCoder :=
  { dim := 8, m4 := 4, bits := 4, schema := { columns := [] }, innerProduct := false
    dim_pos := by decide, dim_lt := by decide, m4_pos := smallCoder_m4_pos, divides := by decide
    bitsOk := smallCoder_bitsOk }

theorem keysComparable_four_segments :
    KeysComparable (fun x : ℚ => x) .avx2 smallCoder ↔ WideEnough .avx2 smallCoder :=
  keysComparable_iff (fun x : ℚ => x) strictMono_id .avx2 smallCoder

def wideCoder : LocalPqCoder :=
  { dim := 4370, m4 := 4370, bits := 4, schema := { columns := [] }, innerProduct := false
    dim_pos := by decide, dim_lt := by decide, m4_pos := by decide, divides := by decide
    bitsOk := smallCoder_bitsOk }

/-- The sum 65550 wraps to 14, below the 15 of a row at distance 1. -/
theorem sum_of_4370_segments_wraps : ¬ KeysComparable (fun x : ℚ => x) .neon wideCoder :=
  not_keysComparable strictMono_id rfl (n := 1) (by decide) (by decide)

end Keys

end SextantTree.LocalKeys
