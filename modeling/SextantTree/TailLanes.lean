import SextantTree.BlockKernels
import SextantTree.PqScanSpec

/-!
What a scan of a leaf with product-quantized codes puts into the heap, from the bytes of its blocks
on: the kernels give every lane of a block a sum, and the lanes behind the last row have to be
turned into sentinels before the heap sees them.
-/

namespace SextantTree

open BoundedHeap BlockKernels

/-! ### The kernel for one block of eight-bit codes -/

/-- The sum of a lane, as each target looks the codes up. -/
def laneAcc (t : Target) (codeBlock lut8 : BlockKernels.Bytes) (m j : ℕ) : UInt32 :=
  (List.range m).foldl (fun acc s =>
    let c := codeBlock (s * 16 + j)
    acc + (match t with
      | .neon => lookupNeon (load lut8 (s * 256)) c
      | _ => lut8 (s * 256 + c.toNat)).toUInt32) 0

/-- `mask_q0` to `mask_q3`, by lane. -/
def maskQuads (validMask : UInt16) (j : ℕ) : UInt32 :=
  if validMask &&& (1 : UInt16) <<< UInt16.ofNat j ≠ 0 then 0xFFFFFFFF else 0

/-- `vbslq_u32`. -/
def bsl (mask a b : UInt32) : UInt32 := (mask &&& a) ||| (~~~mask &&& b)

/-- `fastscan_block16`. -/
def fastscanBlock16At (t : Target) (codeBlock lut8 : BlockKernels.Bytes) (m : ℕ)
    (validMask : UInt16) (j : ℕ) : UInt32 :=
  match t with
  | .neon => bsl (maskQuads validMask j) (laneAcc t codeBlock lut8 m j) 0xFFFFFFFF
  | _ =>
    if (validMask >>> UInt16.ofNat j) &&& 1 = 0 then 0xFFFFFFFF else laneAcc t codeBlock lut8 m j

lemma testBit_shiftRight (x : UInt16) {j : ℕ} (hj : j < 16) :
    (x >>> UInt16.ofNat j) &&& 1 = 0 ↔ x.toNat.testBit j = false := by
  have hword : (UInt16.ofNat j).toNat = j := UInt16.toNat_ofNat_of_lt (hj.trans (by decide))
  rw [← UInt16.toNat_inj, UInt16.toNat_and, UInt16.toNat_shiftRight, hword, Nat.mod_eq_of_lt hj]
  simp [Nat.testBit, Nat.and_comm]

lemma maskQuads_eq (x : UInt16) {j : ℕ} (hj : j < 16) :
    maskQuads x j = if x.toNat.testBit j then 0xFFFFFFFF else 0 := by
  have hword : (UInt16.ofNat j).toNat = j := UInt16.toNat_ofNat_of_lt (hj.trans (by decide))
  have hpow : 1 <<< j % 2 ^ 16 = 2 ^ j := by
    rw [Nat.one_shiftLeft]
    exact Nat.mod_eq_of_lt (Nat.pow_lt_pow_right (by omega) hj)
  have hbit : x &&& (1 : UInt16) <<< UInt16.ofNat j ≠ 0 ↔ x.toNat.testBit j = true := by
    have hone : (1 : UInt16).toNat = 1 := rfl
    rw [Ne, ← UInt16.toNat_inj, UInt16.toNat_and, UInt16.toNat_shiftLeft, hone, hword,
      Nat.mod_eq_of_lt hj, hpow, Nat.and_two_pow]
    cases x.toNat.testBit j <;> simp
  rw [maskQuads]
  simp only [hbit]

lemma bsl_full (a b : UInt32) (c : Bool) :
    bsl (if c then 0xFFFFFFFF else 0) a b = if c then a else b := by
  have hall : ∀ x : UInt32, 0xFFFFFFFF &&& x = x := fun _ => UInt32.neg_one_and
  cases c
  · show (0 &&& a) ||| (0xFFFFFFFF &&& b) = b
    rw [hall, UInt32.zero_and, UInt32.zero_or]
  · show (0xFFFFFFFF &&& a) ||| (0 &&& b) = a
    rw [hall, UInt32.zero_and, UInt32.or_zero]

/-- **The two forms of the kernel** mask the same lanes. -/
lemma fastscanBlock16At_eq (t : Target) (codeBlock lut8 : BlockKernels.Bytes) (m : ℕ) (x : UInt16)
    {j : ℕ} (hj : j < 16) : fastscanBlock16At t codeBlock lut8 m x j =
      if x.toNat.testBit j then laneAcc t codeBlock lut8 m j else 0xFFFFFFFF := by
  cases t with
  | neon => rw [fastscanBlock16At, maskQuads_eq x hj, bsl_full]
  | avx2 | avx512 | portable =>
    simp only [fastscanBlock16At, testBit_shiftRight x hj]
    cases x.toNat.testBit j <;> rfl

/-! ### What a scan inserts -/

namespace RawScanHeap

/-- The entries that `fill` pushes. -/
def pushed : RawScanHeap → List HeapEntry → List HeapEntry
  | _, [] => []
  | s, e :: rest =>
    if ¬ e.IsReal then pushed s rest
    else e :: if (s.push e).full then [] else pushed (s.push e) rest

/-- The entries that replace the front, one after the other. -/
def placed (pq8 : Bool) : RawScanHeap → List HeapEntry → List HeapEntry
  | _, [] => []
  | s, e :: rest =>
    (if (pq8 = true ∧ ¬ e.IsReal) ∨ ¬ s.shouldReplace e then [] else [e]) ++
      placed pq8 (s.displace pq8 e) rest

lemma mem_pushed {s : RawScanHeap} {es : List HeapEntry} {e : HeapEntry} (h : e ∈ s.pushed es) :
    e ∈ es := by
  induction es generalizing s with
  | nil => exact h
  | cons d es ih =>
    rw [pushed] at h
    by_cases hreal : d.IsReal
    · rw [if_neg (not_not.2 hreal)] at h
      rcases List.mem_cons.1 h with rfl | h
      · exact List.mem_cons_self
      · split_ifs at h
        · cases h
        · exact List.mem_cons_of_mem d (ih h)
    · rw [if_pos hreal] at h
      exact List.mem_cons_of_mem d (ih h)

lemma mem_placed {pq8 : Bool} {s : RawScanHeap} {es : List HeapEntry} {e : HeapEntry}
    (h : e ∈ s.placed pq8 es) : e ∈ es := by
  induction es generalizing s with
  | nil => exact h
  | cons d es ih =>
    rw [placed] at h
    rcases List.mem_append.1 h with h | h
    · split_ifs at h
      · cases h
      · rw [List.mem_singleton.1 h]
        exact List.mem_cons_self
    · exact List.mem_cons_of_mem d (ih h)

end RawScanHeap

namespace PqLeaf

variable (a : Arch) (slot : ℕ) (l : PqLeaf)

def blockInserts (s : RawScanHeap) (b : ℕ) : List HeapEntry :=
  let lanes := l.lanes a slot b
  let filled := if s.full then s else s.fill lanes
  (if s.full then [] else s.pushed lanes) ++
    if ¬ filled.full then []
    else if filled.front < u32Min (l.out a b) l.codesPerBlock then []
    else filled.placed l.pq8 lanes

def insertsFrom : RawScanHeap → List ℕ → List HeapEntry
  | _, [] => []
  | s, b :: bs => l.blockInserts a slot s b ++ insertsFrom (l.scanBlock a slot s b) bs

/-- The entries `scan_leaf` puts into the heap, in their order. -/
def inserts (s : RawScanHeap) : List HeapEntry :=
  if l.rows = 0 then [] else l.insertsFrom a slot s (List.range l.nBlocks)

variable {a slot l}

lemma mem_blockInserts {s : RawScanHeap} {b : ℕ} {e : HeapEntry}
    (h : e ∈ l.blockInserts a slot s b) : e ∈ l.lanes a slot b := by
  rw [blockInserts] at h
  rcases List.mem_append.1 h with h | h
  · split_ifs at h
    · cases h
    · exact RawScanHeap.mem_pushed h
  · split_ifs at h
    all_goals first
      | exact RawScanHeap.mem_placed h
      | cases h

lemma mem_inserts {s : RawScanHeap} {e : HeapEntry} (h : e ∈ l.inserts a slot s) :
    l.rows ≠ 0 ∧ ∃ b < l.nBlocks, e ∈ l.lanes a slot b := by
  rw [inserts] at h
  split_ifs at h with hrows
  · cases h
  · refine ⟨hrows, ?_⟩
    have key : ∀ (bs : List ℕ) (s : RawScanHeap), e ∈ l.insertsFrom a slot s bs →
        ∃ b ∈ bs, e ∈ l.lanes a slot b := by
      intro bs
      induction bs with
      | nil => exact fun s h => absurd h List.not_mem_nil
      | cons b bs ih =>
        intro s h
        rw [insertsFrom] at h
        rcases List.mem_append.1 h with h | h
        · exact ⟨b, List.mem_cons_self, mem_blockInserts h⟩
        · obtain ⟨b', hb', he⟩ := ih _ h
          exact ⟨b', List.mem_cons_of_mem b hb', he⟩
    obtain ⟨b, hb, he⟩ := key _ _ h
    exact ⟨b, List.mem_range.1 hb, he⟩

end PqLeaf

/-! ### Leaves of bytes -/

def BlockKernels.Target.arch : Target → Arch
  | .neon => .aarch64
  | _ => .other

/-- A leaf of the global or the local coder with the table of a query. -/
structure PqBlocks where
  /-- Whether `pq_bits` is 8, and not 4. -/
  pq8 : Bool
  m4 : UInt16
  count : UInt32
  /-- The bytes from `leaf_codes_offset` on. -/
  codes : BlockKernels.Bytes
  lut : BlockKernels.Bytes
  /-- For the local coder, the dequantized estimate of a sum. -/
  estimate : Option (UInt32 → UInt32)

namespace PqBlocks

variable (t : Target) (x : PqBlocks)

def acc (b j : ℕ) : UInt32 :=
  let blk := load x.codes (b * x.m4.toNat * 16)
  if x.pq8 then laneAcc t blk x.lut x.m4.toNat j else pq4Block32 t blk x.lut x.m4.toNat j

def leaf : PqLeaf := ⟨x.pq8, x.count.toNat, x.acc t, x.estimate⟩

/-- A lane of a block as `scan_leaf` computes it: the kernel for eight bits is handed the mask, the
one for four bits is followed by the mask helper in the tail block. -/
def out (b j : ℕ) : UInt32 :=
  let blk := load x.codes (b * x.m4.toNat * 16)
  let mask := (x.leaf t).validMask b
  if x.pq8 then
    (x.leaf t).toKey (fastscanBlock16At t blk x.lut x.m4.toNat (UInt16.ofNat mask) j)
  else if mask ≠ 0xFFFFFFFF then
    (x.leaf t).toKey (u32MaskSentinel32 t.arch (pq4Block32 t blk x.lut x.m4.toNat) mask j)
  else (x.leaf t).toKey (pq4Block32 t blk x.lut x.m4.toNat j)

variable {t x}

end PqBlocks

/-! ### A heap with room -/

namespace RawScanHeap

lemma push_size (s : RawScanHeap) (e : HeapEntry) :
    (s.push e).size = s.size + 1 ∧ (s.push e).w = s.w := by
  rw [push]
  split <;> exact ⟨rfl, rfl⟩

lemma pushed_of_room (s : RawScanHeap) (es : List HeapEntry) (h : s.size + es.length < s.w) :
    s.pushed es = es.filter (HeapEntry.IsReal ·) ∧ (s.fill es).size ≤ s.size + es.length ∧
      (s.fill es).w = s.w := by
  induction es generalizing s with
  | nil => exact ⟨rfl, le_rfl, rfl⟩
  | cons e es ih =>
    rw [List.length_cons] at h
    rw [pushed, fill, List.length_cons]
    by_cases hreal : e.IsReal
    · obtain ⟨hsize, hw⟩ := s.push_size e
      have hroom : ¬ (s.push e).full := by
        simp only [full, decide_eq_true_eq, hsize, hw]
        omega
      obtain ⟨h₁, h₂, h₃⟩ := ih (s.push e) (by omega)
      rw [if_neg (not_not.2 hreal), if_neg (not_not.2 hreal), if_neg hroom,
        List.filter_cons, if_pos (decide_eq_true hreal), h₁]
      dsimp only
      rw [if_neg hroom]
      exact ⟨rfl, by omega, h₃.trans hw⟩
    · obtain ⟨h₁, h₂, h₃⟩ := ih s (by omega)
      rw [if_pos hreal, if_pos hreal, List.filter_cons,
        if_neg (by simpa using hreal)]
      exact ⟨h₁, by omega, h₃⟩

end RawScanHeap

namespace PqLeaf

variable {a : Arch} {slot : ℕ} {l : PqLeaf}

lemma mem_insertsFrom_of_room {bs : List ℕ} {s : RawScanHeap}
    (h : s.size + l.codesPerBlock * bs.length < s.w) {b : ℕ} (hb : b ∈ bs) {e : HeapEntry}
    (he : e ∈ l.lanes a slot b) (hreal : e.IsReal) : e ∈ l.insertsFrom a slot s bs := by
  induction bs generalizing s with
  | nil => exact absurd hb List.not_mem_nil
  | cons b' bs ih =>
    have hlanes : ∀ i, (l.lanes a slot i).length = l.codesPerBlock := fun i => by
      rw [lanes, List.length_map, List.length_range]
    rw [List.length_cons, Nat.mul_succ] at h
    obtain ⟨hpushed, hsize, hw⟩ := RawScanHeap.pushed_of_room s (l.lanes a slot b')
      (by rw [hlanes]; omega)
    rw [hlanes] at hsize
    have hroom : ¬ s.full := by
      simp only [RawScanHeap.full, decide_eq_true_eq]
      omega
    have hfill : ¬ (s.fill (l.lanes a slot b')).full := by
      simp only [RawScanHeap.full, decide_eq_true_eq, hw]
      omega
    have hblock : l.scanBlock a slot s b' = s.fill (l.lanes a slot b') := by
      rw [scanBlock, if_neg hroom, if_pos hfill]
    rw [insertsFrom, hblock, List.mem_append]
    rcases List.mem_cons.1 hb with rfl | hb
    · left
      rw [blockInserts, if_neg hroom, List.mem_append, hpushed]
      exact .inl (List.mem_filter.2 ⟨he, decide_eq_true hreal⟩)
    · exact .inr (ih (by omega) hb)

end PqLeaf

/-! ### Only rows -/

variable (t : Target) (x : PqBlocks)

/-- Whatever the heap holds, an entry that a scan of the leaf inserts with a distance that is no
sentinel is one of a row. -/
def AdmitsRows : Prop :=
  ∀ slot s, ∀ e ∈ (x.leaf t).inserts t.arch slot s, e.IsReal → e.localIdx < x.count.toNat

/-- There are no tail lanes that the helper leaves alone: it masks them all, no lane is behind the
last row, the number of blocks wraps to none, or the local coder estimates the canonical sentinel
for each of them. -/
def TailMasked : Prop :=
  t ≠ .neon ∨ x.pq8 = true ∨ x.count.toNat % 32 = 0 ∨ 2 ^ 32 < x.count.toNat + 32 ∨
    ∃ estimate, x.estimate = some estimate ∧
      ∀ j, 16 ≤ j → x.count.toNat % 32 ≤ j → j < 32 →
        estimate (x.acc t (x.count.toNat / 32) j) = 0x7FFFFFFF

variable {t x}

lemma AdmitsRows.of_fits (hfit : (x.leaf t).count + (x.leaf t).codesPerBlock ≤ 2 ^ 32)
    (haligned : t.arch = .aarch64 → (x.leaf t).pq8 = false → (x.leaf t).count % 32 = 0) :
    AdmitsRows t x := by
  intro slot s e he hreal
  obtain ⟨-, b, hb, he⟩ := PqLeaf.mem_inserts he
  obtain ⟨j, hj, rfl⟩ := List.mem_map.1 he
  have hout := PqLeaf.out_eq hfit haligned hb (List.mem_range.1 hj)
  by_contra hbehind
  have hlt : ¬ b * (x.leaf t).codesPerBlock + j < (x.leaf t).count := hbehind
  rw [if_neg hlt] at hout
  refine hreal ?_
  show ((x.leaf t).out t.arch b j).toNat = 2 ^ 32 - 1
  rw [hout]
  rfl

lemma AdmitsRows.of_wrapped (h : 2 ^ 32 < x.count.toNat + (x.leaf t).codesPerBlock) :
    AdmitsRows t x := by
  intro slot s e he _
  have hlt := x.count.toNat_lt
  obtain ⟨-, b, hb, -⟩ := PqLeaf.mem_inserts he
  have hrows : (x.leaf t).rows = x.count.toNat := Nat.mod_eq_of_lt hlt
  have hzero : (x.leaf t).nBlocks = 0 := by
    rw [PqLeaf.nBlocks, hrows]
    rcases (x.leaf t).codesPerBlock_cases with ⟨-, hc⟩ | ⟨-, hc⟩
    all_goals rw [hc] at h ⊢; omega
  omega

/-- Only one pattern, that of no number with all bits of its payload set, is encoded as the
sentinel. -/
lemma f32ToDistKey_eq_sentinel (bits : UInt32) :
    f32ToDistKey bits = 0xFFFFFFFF ↔ bits = 0x7FFFFFFF := by
  have hlt := bits.toNat_lt
  have hsign : bits &&& 0x80000000 ≠ 0 ↔ 2 ^ 31 ≤ bits.toNat := by
    have hpow : (0x80000000 : UInt32).toNat = 2 ^ 31 := rfl
    rw [Ne, ← UInt32.toNat_inj, UInt32.toNat_and, hpow, Nat.and_two_pow,
      Nat.testBit_eq_decide_div_mod_eq]
    by_cases h : bits.toNat / 2 ^ 31 % 2 = 1
    · rw [decide_eq_true h]
      simp
      omega
    · rw [decide_eq_false h]
      simp
      omega
  rw [f32ToDistKey]
  by_cases h : bits &&& 0x80000000 ≠ 0
  · rw [if_pos h, ← UInt32.toNat_inj, ← UInt32.toNat_inj, UInt32.toNat_not]
    have hge := hsign.1 h
    simp only [UInt32.reduceToNat, UInt32.size]
    omega
  · rw [if_neg h, ← UInt32.toNat_inj, ← UInt32.toNat_inj, UInt32.toNat_or, Nat.or_comm]
    have hge := mt hsign.2 h
    have hor := Nat.two_pow_add_eq_or_of_lt (i := 31) (b := bits.toNat) (by omega) 1
    rw [Nat.mul_one] at hor
    simp only [UInt32.reduceToNat]
    rw [show (2147483648 : ℕ) = 2 ^ 31 from rfl, ← hor]
    omega

lemma toKey_eq_sentinel {l : PqLeaf} {raw : UInt32} (hraw : raw ≠ 0xFFFFFFFF) :
    l.toKey raw = 0xFFFFFFFF ↔
      ∃ estimate, l.estimate = some estimate ∧ estimate raw = 0x7FFFFFFF := by
  cases hl : l.estimate with
  | none => simp [PqLeaf.toKey, hl, hraw]
  | some estimate => simp [PqLeaf.toKey, hl, hraw, f32ToDistKey_eq_sentinel]

lemma acc_neon_ne (hpq : x.pq8 = false) (b j : ℕ) : x.acc .neon b j ≠ 0xFFFFFFFF := by
  intro h
  have hlane : (x.acc .neon b j).toNat < 2 ^ 16 := by
    rw [PqBlocks.acc, hpq]
    exact UInt16.toNat_lt _
  rw [h] at hlane
  exact absurd hlane (by decide)

lemma out_upper (hpq : x.pq8 = false) (b : ℕ) {j : ℕ} (hj : 16 ≤ j) :
    (x.leaf .neon).out .aarch64 b j = (x.leaf .neon).toKey (x.acc .neon b j) := by
  have hkind : ¬ (x.leaf .neon).pq8 = true := by simp [PqBlocks.leaf, hpq]
  rw [PqLeaf.out, if_neg hkind]
  split
  · rw [u32MaskSentinel32.eq_1, if_neg (by omega)]
    rfl
  · rfl

lemma AdmitsRows.of_estimates (hpq : x.pq8 = false) (hfit : x.count.toNat + 32 ≤ 2 ^ 32)
    {estimate : UInt32 → UInt32} (hsome : x.estimate = some estimate)
    (hval : ∀ j, 16 ≤ j → x.count.toNat % 32 ≤ j → j < 32 →
      estimate (x.acc .neon (x.count.toNat / 32) j) = 0x7FFFFFFF) : AdmitsRows .neon x := by
  have hc : (x.leaf .neon).codesPerBlock = 32 := by simp [PqLeaf.codesPerBlock, PqBlocks.leaf, hpq]
  have hfit' : (x.leaf .neon).count + (x.leaf .neon).codesPerBlock ≤ 2 ^ 32 := by
    rw [hc]
    exact hfit
  have hkind : ¬ (x.leaf .neon).pq8 = true := by simp [PqBlocks.leaf, hpq]
  have hblocks : (x.leaf .neon).nBlocks = (x.count.toNat + 32 - 1) / 32 := by
    rw [PqLeaf.nBlocks_eq hfit', hc]
    rfl
  intro slot s e he hreal
  obtain ⟨-, b, hb, he⟩ := PqLeaf.mem_inserts he
  obtain ⟨j, hj, rfl⟩ := List.mem_map.1 he
  have hj32 : j < 32 := hc ▸ List.mem_range.1 hj
  have hbit := PqLeaf.testBit_validMask hfit' hb (List.mem_range.1 hj)
  show b * (x.leaf .neon).codesPerBlock + j < (x.leaf .neon).count
  by_contra hbehind
  rw [decide_eq_false hbehind] at hbit
  have hcount : (x.leaf .neon).count = x.count.toNat := rfl
  rw [hc, hcount] at hbehind
  have hlast : b = x.count.toNat / 32 := by
    rw [hblocks] at hb
    omega
  have hout : (x.leaf .neon).out .aarch64 b j = 0xFFFFFFFF := by
    by_cases hj16 : 16 ≤ j
    · rw [out_upper hpq b hj16, toKey_eq_sentinel (acc_neon_ne hpq _ _)]
      refine ⟨estimate, hsome, ?_⟩
      rw [hlast]
      exact hval j hj16 (by omega) hj32
    · have hmask : (x.leaf .neon).validMask b ≠ 0xFFFFFFFF := by
        intro hmask
        rw [hmask, show 0xFFFFFFFF = 2 ^ 32 - 1 from rfl, Nat.testBit_two_pow_sub_one,
          decide_eq_true hj32] at hbit
        cases hbit
      rw [PqLeaf.out, if_neg hkind, if_pos hmask, u32MaskSentinel32.eq_1, if_pos (by omega), hbit,
        if_neg Bool.false_ne_true]
      have hones : (x.leaf .neon).acc b j ||| 0xFFFFFFFF = 0xFFFFFFFF := UInt32.or_neg_one
      rw [hones]
      exact PqLeaf.toKey_sentinel _
  refine hreal ?_
  show ((x.leaf .neon).out .aarch64 b j).toNat = 2 ^ 32 - 1
  rw [hout]
  rfl

/-- **A scan admits only rows** exactly when no tail lane escapes the mask. -/
theorem scan_admits_rows_iff (t : Target) (x : PqBlocks) : AdmitsRows t x ↔ TailMasked t x := by
  have hlt := x.count.toNat_lt
  constructor
  · intro h
    by_contra hnot
    simp only [TailMasked, not_or, not_not] at hnot
    obtain ⟨rfl, hpq, htail, hwrap, hest⟩ := hnot
    rw [Bool.not_eq_true] at hpq
    obtain ⟨j, hj16, hjt, hj32, hkey⟩ : ∃ j, 16 ≤ j ∧ x.count.toNat % 32 ≤ j ∧ j < 32 ∧
        (x.leaf .neon).toKey (x.acc .neon (x.count.toNat / 32) j) ≠ 0xFFFFFFFF := by
      by_contra hall
      push Not at hall
      have hsentinel : ∀ j, 16 ≤ j → x.count.toNat % 32 ≤ j → j < 32 → ∃ estimate,
          x.estimate = some estimate ∧
            estimate (x.acc .neon (x.count.toNat / 32) j) = 0x7FFFFFFF := fun j h1 h2 h3 =>
        (toKey_eq_sentinel (acc_neon_ne hpq _ _)).1 (hall j h1 h2 h3)
      obtain ⟨estimate, hsome, -⟩ := hsentinel 31 (by omega) (by omega) (by omega)
      refine hest ⟨estimate, hsome, fun j h1 h2 h3 => ?_⟩
      obtain ⟨_, hsome', hval⟩ := hsentinel j h1 h2 h3
      rw [hsome] at hsome'
      cases hsome'
      exact hval
    have hc : (x.leaf .neon).codesPerBlock = 32 := by
      simp [PqLeaf.codesPerBlock, PqBlocks.leaf, hpq]
    have hfit : (x.leaf .neon).count + (x.leaf .neon).codesPerBlock ≤ 2 ^ 32 := by
      rw [hc]
      exact not_lt.1 hwrap
    have hrows : (x.leaf .neon).rows = x.count.toNat := PqLeaf.rows_eq hfit
    have hblocks : (x.leaf .neon).nBlocks = (x.count.toNat + 32 - 1) / 32 := by
      rw [PqLeaf.nBlocks_eq hfit, hc]
      rfl
    set e := HeapEntry.make ((x.leaf .neon).out .aarch64 (x.count.toNat / 32) j).toNat 0
      (x.count.toNat / 32 * 32 + j) with he
    have hmem : e ∈ (x.leaf .neon).inserts .aarch64 0
        ⟨0, heapInit, 32 * (x.leaf .neon).nBlocks + 1⟩ := by
      rw [PqLeaf.inserts, if_neg (by rw [hrows]; omega)]
      refine PqLeaf.mem_insertsFrom_of_room ?_ (b := x.count.toNat / 32) ?_ ?_ ?_
      · rw [hc, List.length_range]
        show 0 + 32 * _ < 32 * _ + 1
        omega
      · rw [List.mem_range, hblocks]
        omega
      · rw [PqLeaf.lanes, hc]
        exact List.mem_map.2 ⟨j, List.mem_range.2 hj32, rfl⟩
      · intro hreal
        refine hkey ?_
        rw [← out_upper hpq _ hj16, ← UInt32.toNat_inj]
        exact hreal
    have hreal : e.IsReal := by
      intro hreal
      refine hkey ?_
      rw [← out_upper hpq _ hj16, ← UInt32.toNat_inj]
      exact hreal
    have hrow : x.count.toNat / 32 * 32 + j < x.count.toNat := h 0 _ e hmem hreal
    omega
  · intro h
    by_cases hfit : (x.leaf t).count + (x.leaf t).codesPerBlock ≤ 2 ^ 32
    · by_cases haligned : t.arch = .aarch64 → (x.leaf t).pq8 = false → (x.leaf t).count % 32 = 0
      · exact .of_fits hfit haligned
      · -- a tail block of an unmasked target: only the estimates are left
        simp only [Classical.not_imp] at haligned
        obtain ⟨harch, hpq, htail⟩ := haligned
        have ht : t = .neon := by cases t <;> first | rfl | cases harch
        have hpq' : x.pq8 = false := hpq
        have htail' : x.count.toNat % 32 ≠ 0 := htail
        subst ht
        have hc : (x.leaf .neon).codesPerBlock = 32 := by
          simp [PqLeaf.codesPerBlock, PqBlocks.leaf, hpq']
        rw [hc] at hfit
        rcases h with h | h | h | h | ⟨estimate, hsome, hval⟩
        · exact absurd rfl h
        · rw [hpq'] at h
          cases h
        · exact absurd h htail'
        · exact absurd hfit (not_le.2 h)
        · exact .of_estimates hpq' hfit hsome hval
    · refine .of_wrapped ?_
      exact not_le.1 hfit

/-- A leaf of one row in one segment of four bits, whose table scores the zero code best: the
padding has a key of its own. -/
def paddedLeaf : PqBlocks where
  pq8 := false
  m4 := 1
  count := 1
  codes k := if k = 0 then 5 else 0
  lut k := UInt8.ofNat k
  estimate := none

/-- One row, whose key is 5; the heap takes the padding of lane 16 in its place. -/
theorem padding_is_inserted :
    (paddedLeaf.leaf .neon).inserts .aarch64 0 (.init 1) = [.make 5 0 0, .make 0 0 16] ∧
      ¬ AdmitsRows .neon paddedLeaf := by
  refine ⟨by decide +kernel, fun h => ?_⟩
  have hrow := h 0 (.init 1) (.make 0 0 16) (by decide +kernel) (by decide)
  exact absurd hrow (by decide)

end SextantTree
