import SextantTree.LeafCodesSpec

/-!
The codes of a leaf from one rewrite to the next. A leaf is flushed or encoded as a group, then rows
are appended and rows are taken out; the codes that are read back are the list of the codes that went
in. What can fail is the arithmetic of `flush_leaf` and `append_encode`, which have the number of
blocks, and `flush_leaf` the place of a code in its input, in 32 bits.
-/

namespace SextantTree.LeafCodes

open ByteMem PackedCells

structure PqShape where
  m4 : ℕ
  bits : ℕ
  bitsOk : BitsOk bits
  pos : 0 < m4

/-- A list of bytes as memory, clear behind it. -/
def memOf (b : List UInt8) : Mem := fun i => b.getD i 0

lemma holds_memOf (b : List UInt8) : Holds (memOf b) 0 b := by
  intro i x hx
  rw [Nat.zero_add, memOf, List.getD_eq_getElem?_getD, hx]
  rfl

/-- Byte `k` of item `i`, in a run of items of one width. -/
lemma memOf_flatMap {α : Type*} {xs : List α} {x : α} {f : α → List UInt8} {w i k : ℕ}
    (hw : ∀ x, (f x).length = w) (hx : xs[i]? = some x) (hk : k < w) :
    memOf (xs.flatMap f) (i * w + k) = memOf (f x) k := by
  have hitem := (holds_memOf (xs.flatMap f)).item (fun x _ => hw x) hx
  rw [Nat.zero_add, Nat.mul_comm] at hitem
  have hx := List.getElem?_eq_getElem (show k < (f x).length by rwa [hw x])
  rw [hitem k _ hx, memOf, List.getD_eq_getElem?_getD, hx, Option.getD_some]

namespace PqShape

variable (sh : PqShape)

/-- The bytes of a code. -/
abbrev size : ℕ := codeSize sh.m4 sh.bits

/-- The rows of a block. -/
abbrev lanes : ℕ := codesPerBlock sh.bits

abbrev width : Width := widthOf sh.bits

lemma size_pos : 0 < sh.size := by
  have := sh.pos
  simp only [size, codeSize]
  rcases sh.bitsOk with h | h <;> rw [h] <;> omega

lemma lanes_le : sh.lanes ≤ 32 := codesPerBlock_le sh.bits

end PqShape

/-- A packed code as `encode` leaves it: the bytes were cleared, and segments are all that was
written. -/
structure Code (sh : PqShape) where
  bytes : List UInt8
  length_bytes : bytes.length = sh.size
  pad : ∀ s, sh.m4 ≤ s → cell sh.width (memOf bytes) s = 0

variable {sh : PqShape}

def codesMem (codes : List (Code sh)) : Mem := memOf (codes.flatMap Code.bytes)

/-- Code `i` of a list. -/
def codeAt (codes : List (Code sh)) (i : ℕ) : Mem := memOf ((codes.map Code.bytes).getD i [])

/-- What `extract_codes` leaves in a cleared buffer, code by code. -/
def extractedCodes (sh : PqShape) (leaf : Mem) (base count : ℕ) : List (List UInt8) :=
  (List.range count).map fun i =>
    peek (extractCodes leaf base count sh.m4 sh.bits fun _ => 0) (i * sh.size) sh.size

section Reading

variable {codes : List (Code sh)} {i k s : ℕ}

lemma codeAt_eq (c : Code sh) (h : codes[i]? = some c) : codeAt codes i = memOf c.bytes := by
  rw [codeAt, List.getD_eq_getElem?_getD, List.getElem?_map, h]
  rfl

lemma codesMem_apply (hi : i < codes.length) (hk : k < sh.size) :
    codesMem codes (i * sh.size + k) = codeAt codes i k := by
  have hc := List.getElem?_eq_getElem hi
  rw [codeAt_eq _ hc]
  exact memOf_flatMap Code.length_bytes hc hk

lemma byteOf_lt_size (hs : s < sh.m4) : byteOf sh.width s < sh.size := by
  have hcells := lt_codeCells sh.bitsOk hs
  rcases sh.bitsOk with h | h
  · simp only [PqShape.width, PqShape.size, codeCells, h, widthOf, byteOf, if_true] at hcells ⊢
    omega
  · simp only [PqShape.width, PqShape.size, codeCells, h, widthOf, byteOf, Nat.reduceEqDiff,
      if_false] at hcells ⊢
    omega

lemma lt_codeCells_of_byteOf (h : byteOf sh.width s < sh.size) : s < codeCells sh.m4 sh.bits := by
  rcases sh.bitsOk with hb | hb
  · simp only [PqShape.width, PqShape.size, codeCells, hb, widthOf, byteOf, if_true] at h ⊢
    omega
  · simp only [PqShape.width, PqShape.size, codeCells, hb, widthOf, byteOf, Nat.reduceEqDiff,
      if_false] at h ⊢
    omega

lemma packedSegments_codesMem (hi : i < codes.length) (hs : s < sh.m4) :
    packedSegments sh.bits sh.m4 (codesMem codes) i s = cell sh.width (codeAt codes i) s := by
  rw [packedSegments, segmentOf_eq sh.bitsOk hs]
  exact cell_congr (codesMem_apply hi (byteOf_lt_size hs))

/-- The leaf holds the codes of the list, and its other lanes are clear. -/
def HoldsList (base : ℕ) (leaf : Mem) (codes : List (Code sh)) : Prop :=
  HoldsCodes sh.bits sh.m4 base leaf codes.length fun i s => cell sh.width (codeAt codes i) s

/-- **What a leaf holds is what is read back.** -/
lemma extractedCodes_of_holds {base : ℕ} {leaf : Mem} (h : HoldsList base leaf codes) :
    extractedCodes sh leaf base codes.length = codes.map Code.bytes := by
  obtain ⟨hin, hout⟩ := extractCodes_spec sh.bitsOk sh.m4 base leaf (fun _ => 0) codes.length
  refine List.ext_getElem (by simp [extractedCodes]) fun i h₁ h₂ => ?_
  have hi : i < codes.length := by simpa using h₂
  have hbytes : codeAt codes i = memOf codes[i].bytes := codeAt_eq _ (List.getElem?_eq_getElem hi)
  simp only [extractedCodes, List.getElem_map, List.getElem_range]
  refine List.ext_getElem (by rw [length_peek, codes[i].length_bytes]) fun k hk₁ hk₂ => ?_
  have hk : k < sh.size := by rwa [length_peek] at hk₁
  have hget : codes[i].bytes[k] = memOf codes[i].bytes k := by
    rw [memOf, List.getD_eq_getElem?_getD, List.getElem?_eq_getElem hk₂]
    rfl
  rw [hget]
  simp only [peek, List.getElem_map, List.getElem_range]
  -- A byte is equal when its cells are; behind the last segment both are clear.
  refine eq_of_cells (w := sh.width)
    (m := fun k => extractCodes leaf base codes.length sh.m4 sh.bits (fun _ => 0) (i * sh.size + k))
    (i := k) fun s hs => ?_
  rw [cell_shift]
  by_cases hlt : s < sh.m4
  · rw [hin i hi s hlt, h.rows i hi s hlt, hbytes]
  · rw [codes[i].pad s (not_lt.mp hlt), hout _ fun j hj t ht heq => ?_]
    · exact cell_zero _ _
    · by_cases hji : j = i
      · subst hji
        have := segAddr_inj heq
        omega
      · exact segAddr_ne hji (lt_codeCells sh.bitsOk ht)
          (lt_codeCells_of_byteOf (by rw [hs]; exact hk)) heq

lemma rows_of_extractedCodes (codes : List (Code sh)) {base : ℕ} {leaf : Mem}
    (h : extractedCodes sh leaf base codes.length = codes.map Code.bytes) (hi : i < codes.length)
    (hs : s < sh.m4) : cell sh.width leaf (laneAddr sh.bits sh.m4 base i s) =
      cell sh.width (codeAt codes i) s := by
  have hrow := congrArg (fun l => memOf (l.getD i [])) h
  simp only [extractedCodes, List.getD_eq_getElem?_getD, List.getElem?_map,
    List.getElem?_range hi, Option.map_some, Option.getD_some] at hrow
  obtain ⟨hin, -⟩ := extractCodes_spec sh.bitsOk sh.m4 base leaf (fun _ => 0) codes.length
  have hbyte := byteOf_lt_size hs
  rw [← hin i hi s hs, ← cell_shift]
  refine cell_congr ?_
  have hat := congrFun hrow (byteOf sh.width s)
  rw [memOf, List.getD_eq_getElem?_getD, List.getElem?_eq_getElem (by rwa [length_peek]),
    Option.getD_some] at hat
  simp only [peek, List.getElem_map, List.getElem_range] at hat
  rw [codeAt, List.getD_eq_getElem?_getD, List.getElem?_map]
  exact hat

end Reading

/-! ### Runs -/

/-- `flush_leaf` counts the blocks right, and the last code starts below 4 GiB. -/
def FlushFits (sh : PqShape) (count : ℕ) : Prop :=
  count + sh.lanes - 1 < 2 ^ 32 ∧ (count - 1) * sh.size < 2 ^ 32

/-- `append_encode` counts the old blocks right. -/
def AppendFits (sh : PqShape) (oldCount : ℕ) : Prop := oldCount + sh.lanes - 1 < 2 ^ 32

/-- The blocks for `count` rows are clear. -/
def Clear (sh : PqShape) (base : ℕ) (m : Mem) (count : ℕ) : Prop :=
  ClearTo sh.bits sh.m4 base m ((count + sh.lanes - 1) / sh.lanes)

/-- A leaf and the codes that went into it: flushed, or encoded as a group into a clear buffer, then
rewritten into clear buffers. The numbers of rows have 32 bits. -/
inductive CodeLeaf (sh : PqShape) (base : ℕ) : Mem → List (Code sh) → Prop
  | flushed (codes : List (Code sh)) (m : Mem) (hcount : codes.length < 2 ^ 32)
      (hfits : FlushFits sh codes.length) :
      CodeLeaf sh base (flushCodes (codesMem codes) base codes.length sh.m4 sh.bits m) codes
  | grouped (codes : List (Code sh)) (m : Mem) (hcount : codes.length < 2 ^ 32)
      (hclear : Clear sh base m codes.length) :
      CodeLeaf sh base (groupCodes (codesMem codes) base codes.length sh.m4 sh.bits m) codes
  | appended {old : Mem} {codes : List (Code sh)} (hold : CodeLeaf sh base old codes)
      (new : List (Code sh)) (m : Mem) (hcount : codes.length + new.length < 2 ^ 32)
      (hfits : AppendFits sh codes.length)
      (hclear : Clear sh base m (codes.length + new.length)) :
      CodeLeaf sh base
        (appendCodes old codes.length base sh.m4 sh.bits new.length (codeAt new) m) (codes ++ new)
  | compacted {old : Mem} {codes : List (Code sh)} (hold : CodeLeaf sh base old codes)
      (keep : List (Fin codes.length)) (m : Mem) (hcount : keep.length < 2 ^ 32)
      (hclear : Clear sh base m keep.length) :
      CodeLeaf sh base (compactCodes old base sh.m4 sh.bits (keep.map (·.1)) m)
        (keep.map codes.get)

section Steps

variable {base : ℕ} {old m : Mem} {codes new : List (Code sh)}

lemma codeAt_append (i : ℕ) : codeAt (codes ++ new) i =
    if i < codes.length then codeAt codes i else codeAt new (i - codes.length) := by
  simp only [codeAt, List.map_append, List.getD_eq_getElem?_getD]
  split
  · rw [List.getElem?_append_left (by simpa using ‹_›)]
  · rw [List.getElem?_append_right (by simpa using not_lt.mp ‹_›), List.length_map]

lemma holdsList_flush (m : Mem) (hfits : FlushFits sh codes.length) :
    HoldsList base (flushCodes (codesMem codes) base codes.length sh.m4 sh.bits m) codes := by
  refine (flushCodes_spec (codesMem codes) m sh.bits sh.m4 base codes.length hfits.1).1.congr ?_
  intro i hi s hs
  have hstart : i * sh.size ≤ (codes.length - 1) * sh.size := Nat.mul_le_mul_right _ (by omega)
  rw [flushSegments_eq (hstart.trans_lt hfits.2)]
  exact packedSegments_codesMem hi hs

lemma holdsList_group (hclear : Clear sh base m codes.length) :
    HoldsList base (groupCodes (codesMem codes) base codes.length sh.m4 sh.bits m) codes :=
  (groupCodes_spec (codesMem codes) m sh.bits sh.m4 base codes.length hclear).1.congr
    fun _ hi _ hs => packedSegments_codesMem hi hs

lemma holdsList_append (hold : HoldsList base old codes)
    (hcount : codes.length + new.length < 2 ^ 32) (hfits : AppendFits sh codes.length)
    (hclear : Clear sh base m (codes.length + new.length)) :
    HoldsList base (appendCodes old codes.length base sh.m4 sh.bits new.length (codeAt new) m)
      (codes ++ new) := by
  obtain ⟨hspec, -⟩ := appendCodes_spec m sh.bits sh.m4 base codes.length new.length (codeAt new)
    hold hcount hfits hclear
  rw [HoldsList, List.length_append]
  refine hspec.congr fun i _ s hs => ?_
  rw [codeAt_append]
  split
  · rfl
  · exact segmentOf_eq sh.bitsOk hs _

lemma holdsList_compact (hold : HoldsList base old codes) (keep : List (Fin codes.length))
    (hclear : Clear sh base m keep.length) :
    HoldsList base (compactCodes old base sh.m4 sh.bits (keep.map (·.1)) m) (keep.map codes.get) := by
  obtain ⟨hspec, -⟩ := compactCodes_spec old m sh.bits sh.m4 base (keep.map (·.1))
    (by rw [List.length_map]; exact hclear)
  rw [List.length_map] at hspec
  rw [HoldsList, List.length_map]
  refine hspec.congr fun i hi s hs => ?_
  have hget : codeAt (keep.map codes.get) i = codeAt codes keep[i].1 := by
    rw [codeAt_eq (codes.get keep[i]) (by rw [List.getElem?_map, List.getElem?_eq_getElem hi]; rfl),
      codeAt_eq (codes.get keep[i]) (List.getElem?_eq_getElem keep[i].2)]
  rw [hget, movedSegment_eq sh.bitsOk, List.getD_eq_getElem?_getD, List.getElem?_map,
    List.getElem?_eq_getElem hi]
  exact hold.rows _ keep[i].2 s hs

end Steps

lemma CodeLeaf.holds {base : ℕ} {leaf : Mem} {codes : List (Code sh)}
    (h : CodeLeaf sh base leaf codes) : HoldsList base leaf codes := by
  induction h with
  | flushed codes m _ hfits => exact holdsList_flush m hfits
  | grouped codes m _ hclear => exact holdsList_group hclear
  | appended _ new m hcount hfits hclear ih => exact holdsList_append ih hcount hfits hclear
  | compacted _ keep m _ hclear ih => exact holdsList_compact ih keep hclear

/-! ### Exactly when -/

/-- Every list of `count` codes is read back after `flush_leaf`. -/
def FlushSurvives (sh : PqShape) (base count : ℕ) : Prop :=
  ∀ (codes : List (Code sh)) (m : Mem), codes.length = count →
    extractedCodes sh (flushCodes (codesMem codes) base count sh.m4 sh.bits m) base count =
      codes.map Code.bytes

/-- Every group of `count` codes is read back after `encode_group`. -/
def GroupSurvives (sh : PqShape) (base count : ℕ) : Prop :=
  ∀ (codes : List (Code sh)) (m : Mem), codes.length = count → Clear sh base m count →
    extractedCodes sh (groupCodes (codesMem codes) base count sh.m4 sh.bits m) base count =
      codes.map Code.bytes

/-- Every leaf of `oldCount` rows has its codes and behind them the new ones after `n` rows are
appended. -/
def AppendSurvives (sh : PqShape) (base oldCount n : ℕ) : Prop :=
  ∀ (old : Mem) (codes new : List (Code sh)) (m : Mem), CodeLeaf sh base old codes →
    codes.length = oldCount → new.length = n → Clear sh base m (oldCount + n) →
    extractedCodes sh (appendCodes old oldCount base sh.m4 sh.bits n (codeAt new) m) base
      (oldCount + n) = (codes ++ new).map Code.bytes

section Exact

variable {base count : ℕ}

lemma memOf_replicate (n : ℕ) : memOf (List.replicate n 0) = fun _ => 0 := by
  funext i
  rw [memOf, List.getD_eq_getElem?_getD, List.getElem?_replicate]
  split <;> rfl

def zeroCode (sh : PqShape) : Code sh where
  bytes := List.replicate sh.size 0
  length_bytes := List.length_replicate
  pad s _ := by
    rw [memOf_replicate]
    exact cell_zero _ _

lemma memOf_one (n i : ℕ) : memOf (1 :: List.replicate n 0) i = if i = 0 then 1 else 0 := by
  cases i with
  | zero => rfl
  | succ i =>
    rw [memOf, List.getD_cons_succ, if_neg (Nat.succ_ne_zero i)]
    exact congrFun (memOf_replicate n) i

lemma length_oneCode (sh : PqShape) :
    ((1 : UInt8) :: List.replicate (sh.size - 1) 0).length = sh.size := by
  have := sh.size_pos
  rw [List.length_cons, List.length_replicate]
  omega

lemma pad_oneCode (sh : PqShape) (s : ℕ) (hs : sh.m4 ≤ s) :
    cell sh.width (memOf (1 :: List.replicate (sh.size - 1) 0)) s = 0 := by
  have hpos := sh.pos
  unfold PqShape.width widthOf
  split
  · simp only [cell, memOf_one]
    by_cases h : s / 2 = 0
    · rw [if_neg (by omega), if_pos h]
      rfl
    · simp only [if_neg h]
      split <;> rfl
  · rw [cell, memOf_one, if_neg (by omega)]

def oneCode (sh : PqShape) : Code sh where
  bytes := 1 :: List.replicate (sh.size - 1) 0
  length_bytes := length_oneCode sh
  pad := pad_oneCode sh

lemma cell_oneCode : cell sh.width (memOf (oneCode sh).bytes) 0 = 1 := by
  have hone : memOf (oneCode sh).bytes 0 = 1 := memOf_one _ 0
  unfold PqShape.width widthOf
  split
  · simp only [cell, Nat.zero_mod, Nat.zero_div, if_true, hone]
    rfl
  · exact hone

lemma not_flushSurvives_of_wrap (hcount : count < 2 ^ 32) (h : 2 ^ 32 ≤ count + sh.lanes - 1) :
    ¬ FlushSurvives sh base count := by
  intro hs
  have hread := hs (List.replicate count (oneCode sh)) (fun _ => 0) List.length_replicate
  have hpos : 0 < (List.replicate count (oneCode sh)).length := by
    rw [List.length_replicate]
    have := sh.lanes_le
    omega
  rw [flushCodes, blockCount_of_wrap hcount h] at hread
  have hrow := rows_of_extractedCodes _ (by rw [List.length_replicate]; exact hread) hpos sh.pos
  rw [codeAt_eq (oneCode sh) (by rw [List.length_replicate] at hpos; simp [hpos]), cell_oneCode] at hrow
  exact absurd (hrow.symm.trans (cell_zero _ _)) (by decide)

/-- A list whose last code starts at 4 GiB or behind it: the last code is taken from the front of
the input. -/
lemma flush_loses_last {n : ℕ} (hblocks : n + 1 + sh.lanes - 1 < 2 ^ 32) (h : 2 ^ 32 ≤ n * sh.size)
    (m : Mem) :
    extractedCodes sh (flushCodes (codesMem (List.replicate n (zeroCode sh) ++ [oneCode sh])) base
      (n + 1) sh.m4 sh.bits m) base (n + 1) ≠
      (List.replicate n (zeroCode sh) ++ [oneCode sh]).map Code.bytes := by
  intro hread
  set codes := List.replicate n (zeroCode sh) ++ [oneCode sh] with hcodes
  have hlen : codes.length = n + 1 := by simp [hcodes]
  have hrow := rows_of_extractedCodes codes (i := n) (s := 0)
    (by rw [hlen]; exact hread) (by omega) sh.pos
  rw [codeAt_eq (oneCode sh) (by simp [hcodes]), cell_oneCode] at hrow
  have hwritten := (flushCodes_spec (codesMem codes) m sh.bits sh.m4 base (n + 1)
    hblocks).1.rows n (by omega) 0 sh.pos
  -- The bytes before the last code are clear.
  have hfront : ∀ q < n * sh.size, codesMem codes q = 0 := by
    intro q hq
    have hdiv : q / sh.size < n := (Nat.div_lt_iff_lt_mul sh.size_pos).mpr hq
    have hmod := Nat.mod_lt q sh.size_pos
    rw [← Nat.div_add_mod' q sh.size, codesMem_apply (by omega) hmod,
      codeAt_eq (zeroCode sh) (by
        rw [hcodes, List.getElem?_append_left (by simpa using hdiv), List.getElem?_replicate,
          if_pos hdiv])]
    exact congrFun (memOf_replicate _) _
  have hstart : n * sh.size % 2 ^ 32 < n * sh.size :=
    (Nat.mod_lt _ (by decide)).trans_le h
  have hzero : flushSegments sh.bits sh.m4 (codesMem codes) n 0 = 0 := by
    rw [flushSegments, segmentOf_eq sh.bitsOk sh.pos, ← cell_zero (widthOf sh.bits) 0]
    refine cell_congr ?_
    have hbyte : byteOf (widthOf sh.bits) 0 = 0 := by
      unfold widthOf
      split <;> rfl
    rw [hbyte, Nat.add_zero]
    exact hfront _ hstart
  exact absurd (hrow.symm.trans (hwritten.trans hzero)) (by decide)

lemma not_flushSurvives_of_long (hblocks : count + sh.lanes - 1 < 2 ^ 32)
    (h : 2 ^ 32 ≤ (count - 1) * sh.size) : ¬ FlushSurvives sh base count := by
  intro hs
  obtain ⟨n, rfl⟩ : ∃ n, count = n + 1 := by
    refine ⟨count - 1, ?_⟩
    by_contra hne
    rw [show count - 1 = 0 by omega] at h
    omega
  rw [Nat.add_sub_cancel] at h
  exact flush_loses_last hblocks h (fun _ => 0) (hs _ _ (by simp))

lemma flushSurvives_iff (base : ℕ) (hcount : count < 2 ^ 32) :
    FlushSurvives sh base count ↔ FlushFits sh count := by
  constructor
  · intro hs
    by_contra hfits
    rw [FlushFits, not_and_or, not_lt, not_lt] at hfits
    by_cases hblocks : count + sh.lanes - 1 < 2 ^ 32
    · exact not_flushSurvives_of_long hblocks (hfits.resolve_left (by omega)) hs
    · exact not_flushSurvives_of_wrap hcount (not_lt.mp hblocks) hs
  · rintro hfits codes m rfl
    exact extractedCodes_of_holds (holdsList_flush m hfits)

lemma groupSurvives (sh : PqShape) (base count : ℕ) : GroupSurvives sh base count := by
  rintro codes m rfl hclear
  exact extractedCodes_of_holds (holdsList_group hclear)

lemma not_appendSurvives_of_wrap {oldCount n : ℕ} (hcount : oldCount + n < 2 ^ 32)
    (h : 2 ^ 32 ≤ oldCount + sh.lanes - 1) : ¬ AppendSurvives sh base oldCount n := by
  intro hs
  have hclear : ∀ k, Clear sh base (fun _ => 0) k := fun k i _ s _ => cell_zero _ _
  have hlanes := sh.lanes_le
  set codes := List.replicate oldCount (oneCode sh) with hcodes
  have hlen : codes.length = oldCount := by simp [hcodes]
  have hread := hs _ codes (List.replicate n (zeroCode sh)) (fun _ => 0)
    (.grouped codes (fun _ => 0) (by omega) (hclear _)) hlen List.length_replicate (hclear _)
  have hrow := rows_of_extractedCodes (codes ++ List.replicate n (zeroCode sh)) (i := 0)
    (s := 0) (by rw [List.length_append, hlen, List.length_replicate]; exact hread)
    (by rw [List.length_append]; omega) sh.pos
  have hget : (codes ++ List.replicate n (zeroCode sh))[0]? = some (oneCode sh) := by
    rw [List.getElem?_append_left (by omega), hcodes, List.getElem?_replicate, if_pos (by omega)]
  obtain ⟨-, hout, -⟩ := appendRows_spec sh.bits sh.m4 base oldCount n
    (codeAt (List.replicate n (zeroCode sh))) hcount (fun _ => 0)
  have hzero := hout 0 _ (.inl (by omega)) (fun s _ => cell_zero (widthOf sh.bits) _) 0 sh.pos
  rw [codeAt_eq _ hget, cell_oneCode, appendCodes_eq, blockCount_of_wrap (by omega) h, Nat.zero_mul,
    show ∀ b : Mem, peek b base 0 = [] from fun _ => rfl, poke_nil] at hrow
  exact absurd (hrow.symm.trans hzero) (by decide)

lemma appendSurvives_iff (base : ℕ) {oldCount n : ℕ} (hcount : oldCount + n < 2 ^ 32) :
    AppendSurvives sh base oldCount n ↔ AppendFits sh oldCount := by
  constructor
  · intro hs
    by_contra hfits
    exact not_appendSurvives_of_wrap hcount (not_lt.mp hfits) hs
  · rintro hfits old codes new m hold rfl rfl hclear
    rw [← List.length_append]
    exact extractedCodes_of_holds (holdsList_append hold.holds hcount hfits hclear)

end Exact

end SextantTree.LeafCodes
