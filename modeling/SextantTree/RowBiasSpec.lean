import SextantTree.RowBias

/-!
Biases and codes of the scalar families. Building and appending write a bias with the code it is of,
and a split of global levels moves the two together; a split of local levels makes new codes and
keeps the biases of the old ones.
-/

namespace SextantTree.RowBias

open ByteMem SegmentedVec LeafCodes ScalarLloydMax PackedCells

variable {α : Type} [Field α] [LinearOrder α]

/-! ### Bytes -/

lemma word_two (m : Mem) (pos : ℕ) :
    word m 2 pos = (m pos).toNat + 256 * (m (pos + 1)).toNat := by
  simp [word, peek, leNat, List.range_succ]

lemma word_two_congr {m m' : Mem} {pos pos' : ℕ} (h : ∀ k < 2, m (pos + k) = m' (pos' + k)) :
    word m 2 pos = word m' 2 pos' := by
  rw [word_two, word_two, h 1 (by decide)]
  exact congrArg (·.toNat + _) (h 0 (by decide))

lemma word_halves {m : Mem} {pos i : ℕ} {f : ℕ → UInt16}
    (h : ∀ k < 2, m (pos + k) = halves f (i * 2 + k)) : word m 2 pos = (f i).toNat := by
  have hlt := (f i).toNat_lt
  have h₀ : m pos = UInt8.ofNat (f i).toNat := by
    refine (h 0 (by decide)).trans ?_
    rw [halves, if_pos (by omega), show (i * 2 + 0) / 2 = i by omega]
  have h₁ : m (pos + 1) = UInt8.ofNat ((f i).toNat / 256) := by
    refine (h 1 (by decide)).trans ?_
    rw [halves, if_neg (by omega), show (i * 2 + 1) / 2 = i by omega]
  rw [word_two, h₀, h₁, UInt8.toNat_ofNat', UInt8.toNat_ofNat']
  omega

lemma nibbleAt_eq (m : Mem) (out d : ℕ) : nibbleAt m out d = cell .nibble m (2 * out + d) := by
  have hbyte : (2 * out + d) / 2 = out + d / 2 := by omega
  have hhalf : (2 * out + d) % 2 = 0 ↔ d % 2 = 0 := by omega
  simp only [nibbleAt, cell, hbyte, hhalf]

lemma nibbleAt_congr {m m' : Mem} {out out' d : ℕ} (h : m (out + d / 2) = m' (out' + d / 2)) :
    nibbleAt m out d = nibbleAt m' out' d := by
  rw [nibbleAt, nibbleAt, h]

lemma nibbleAt_encodeOne {dim d : ℕ} (level : ℕ → UInt8) (out : ℕ) (m : Mem) (hd : d < dim) :
    nibbleAt (encodeOne dim level out m) out d = level d &&& 0x0F := by
  have hfits : ∀ d, Fits .nibble (level d &&& 0x0F) := fun d => by
    rw [Fits, toNat_low]
    omega
  have hput : ∀ m s, putNibble out m s (level s &&& 0x0F) =
      setCell .nibble m (2 * out + s) (level s &&& 0x0F) := fun m s => putNibble_eq out m _
  rw [nibbleAt_eq, encodeOne]
  induction dim with
  | zero => exact absurd hd (Nat.not_lt_zero d)
  | succ n ih =>
    rw [List.range_succ, List.foldl_append, List.foldl_cons, List.foldl_nil, hput]
    rcases Nat.lt_succ_iff_lt_or_eq.1 hd with hlt | rfl
    · rw [cell_setCell_ne (hfits n) (by omega), ih hlt]
    · exact cell_setCell_self (hfits d)

lemma nibble_ofNat {c : ℕ} (h : c ≤ 15) : (UInt8.ofNat c &&& 0x0F).toNat = c := by
  rw [toNat_low, UInt8.toNat_ofNat']
  omega

/-! ### Vectors -/

section Vectors

variable (H : HalfUnit α)

lemma Levels.pick_le (lv : Levels) (x : ℕ → α) (d : ℕ) : lv.pick H x d ≤ 15 := by
  simp only [Levels.pick]
  split_ifs
  · exact le_rfl
  · exact Nat.zero_le _
  · exact le_rfl
  · exact Nat.zero_le _
  · exact Nat.findGreatest_le _

variable {H} in
lemma normBias_congr {dim : ℕ} {x y : ℕ → α} (h : ∀ d < dim, x d = y d) :
    H.normBias dim x = H.normBias dim y := by
  rw [HalfUnit.normBias, HalfUnit.normBias, dot_congr h h]

omit [LinearOrder α] in
lemma decode_congr {q : ScalarLloydMaxQuantizer α} (four : q.bits = 4) {a b : Mem}
    (h : ∀ k < q.codeSize, a k = b k) {d : ℕ} (hd : d < q.dim) : q.decode a d = q.decode b d := by
  rw [ScalarLloydMaxQuantizer.decode, ScalarLloydMaxQuantizer.decode, if_pos four, if_pos four,
    h (d / 2) (by rw [ScalarLloydMaxQuantizer.codeSize, four]; omega)]

end Vectors

namespace Coder

variable {H : HalfUnit α} {ss : ℕ} {c : Coder α} {sqrt : α → α} {leaf : Leaf}

/-! ### Rows -/

lemma consistent_of_slm {q : ScalarLloydMaxQuantizer α} {four : q.bits = 4} {i : ℕ} (code : Mem)
    (hcode : ∀ k < q.codeSize, leaf.bytes (leafCodesOffset ss + (i * q.codeSize + k)) = code k)
    (hbias : (scalarLm q four).biasAt ss leaf i = (H.normBias q.dim (q.decode code)).toNat) :
    (scalarLm q four).biasAt ss leaf i =
      (H.normBias q.dim ((scalarLm q four).decodeOne H ss leaf.bytes i)).toNat := by
  rw [hbias]
  exact congrArg UInt16.toNat (normBias_congr fun d hd => (decode_congr four hcode hd).symm)

lemma consistent_of_lsc {dim i : ℕ} (lv : Levels) (x : ℕ → α)
    (hlo : ∀ d < dim, word leaf.bytes 2 (lscLevelsOffset ss + d * 2) = (lv.lo d).toNat)
    (hsteps : ∀ d < dim,
      word leaf.bytes 2 (lscLevelsOffset ss + dim * 2 + d * 2) = (lv.steps d).toNat)
    (hcode : ∀ d < dim, nibbleAt leaf.bytes (lscCodesOffset ss dim + i * lscCodeSize dim) d =
      UInt8.ofNat (lv.pick H x d) &&& 0x0F)
    (hbias : (localScalar (α := α) dim).biasAt ss leaf i = (lv.bias H dim x).toNat) :
    (localScalar (α := α) dim).biasAt ss leaf i =
      (H.normBias dim ((localScalar dim).decodeOne H ss leaf.bytes i)).toNat := by
  rw [hbias, Levels.bias]
  refine congrArg UInt16.toNat (normBias_congr fun d hd => ?_)
  simp only [decodeOne]
  rw [hlo d hd, hsteps d hd, hcode d hd, nibble_ofNat (lv.pick_le H x d), Levels.value]

lemma putLevels_words {dim : ℕ} (lv : Levels) (m : Mem) {leaf : Mem}
    (h : ∀ p < lscCodesOffset ss dim, leaf p =
      putLevels dim ss (halves lv.lo) (halves lv.steps) m p) :
    (∀ d < dim, word leaf 2 (lscLevelsOffset ss + d * 2) = (lv.lo d).toNat) ∧
      ∀ d < dim, word leaf 2 (lscLevelsOffset ss + dim * 2 + d * 2) = (lv.steps d).toNat := by
  simp only [putLevels, lscCodesOffset, lscLevelsOffset, poke_peek_apply] at h ⊢
  refine ⟨fun d hd => word_halves fun k hk => ?_, fun d hd => word_halves fun k hk => ?_⟩
  · rw [h _ (by omega), if_neg (by omega), if_pos (by omega)]
    congr 1
    omega
  · rw [h _ (by omega), if_pos (by omega)]
    congr 1
    omega

/-! ### Building -/

lemma consistent_flush (rows : List (ℕ → α)) (m : Mem) :
    c.Consistent H ss (c.flush H ss sqrt rows m) := by
  intro i hi
  cases c with
  | scalarLm q four =>
    obtain ⟨hcodes, hbiases⟩ := (flatRows_copy (fun p =>
      q.encode (rows.getD (p / q.codeSize) fun _ => 0) (p % q.codeSize)) (some (halves fun i =>
        H.normBias q.dim (q.decode (q.encode (rows.getD i fun _ => 0))))) q.codeSize
          (leafCodesOffset ss) rows.length true m).1
    refine consistent_of_slm (q.encode (rows.getD i fun _ => 0)) (fun k hk => ?_) ?_
    · refine (hcodes i hi k hk).trans ?_
      rw [Nat.mul_comm i, Nat.mul_add_div (by omega), Nat.div_eq_of_lt hk, Nat.add_zero,
        Nat.mul_add_mod, Nat.mod_eq_of_lt hk]
    · refine word_halves (f := fun i =>
        H.normBias q.dim (q.decode (q.encode (rows.getD i fun _ => 0)))) fun k hk => ?_
      rw [Nat.add_assoc]
      exact hbiases rfl i hi k hk
  | localScalar dim =>
    set x : ℕ → ℕ → α := fun i d => H.round (rows.getD i (fun _ => 0) d) with hx
    set lv := fitLocalScalarLevels H sqrt x rows.length with hlv
    set level : ℕ → ℕ → UInt8 := fun i d => UInt8.ofNat (lv.pick H (x i) d) with hlevel
    set codes := (List.range rows.length).foldl
      (fun b i => encodeOne dim (level i) (i * lscCodeSize dim) b) (fun _ => 0) with hcodesDef
    obtain ⟨⟨hcodes, hbiases⟩, hframe⟩ := flatRows_copy codes
      (some (halves fun i => lv.bias H dim (x i))) (lscCodeSize dim) (lscCodesOffset ss dim)
      rows.length true (putLevels dim ss (halves lv.lo) (halves lv.steps) (poke m 88 [3]))
    obtain ⟨hlo, hsteps⟩ := putLevels_words lv (poke m 88 [3]) fun p hp => hframe p (.inl hp)
    have hbias : (localScalar (α := α) dim).biasAt ss
        ((localScalar dim).flush H ss sqrt rows m) i = (lv.bias H dim (x i)).toNat := by
      refine word_halves (f := fun i => lv.bias H dim (x i)) fun k hk => ?_
      rw [Nat.add_assoc]
      exact hbiases rfl i hi k hk
    refine consistent_of_lsc lv (x i) hlo hsteps (fun d hd => ?_) hbias
    have hk : d / 2 < lscCodeSize dim := by
      rw [lscCodeSize]
      omega
    have hmade := (encodeRows_spec dim 0 rows.length level fun _ => 0).1 i hi (d / 2) hk rfl
    simp only [Nat.zero_add] at hmade
    have hbyte := (hcodes i hi (d / 2) hk).trans hmade
    have hnibble : nibbleAt ((localScalar dim).flush H ss sqrt rows m).bytes
        (lscCodesOffset ss dim + i * lscCodeSize dim) d = nibbleAt (lscCode dim (level i)) 0 d :=
      nibbleAt_congr (by rw [Nat.zero_add, Nat.add_assoc]; exact hbyte)
    rw [hnibble]
    exact nibbleAt_encodeOne (level i) 0 _ hd

/-! ### Appending -/

lemma consistent_append (h : c.Consistent H ss leaf) {rows : List (ℕ → α)}
    (hcount : leaf.count + rows.length < 2 ^ 32) :
    c.Consistent H ss (c.append H ss leaf rows) := by
  intro i hi
  cases c with
  | scalarLm q four =>
    set code : ℕ → Mem := fun ai => q.encode (rows.getD ai fun _ => 0) with hcodeDef
    obtain ⟨⟨hcodes, hbiases⟩, -⟩ := appendFlat_spec true (leafCodesOffset ss)
      (fun ai pos m => poke m pos (peek (code ai) 0 q.codeSize))
      (fun ai => halves fun _ => H.normBias q.dim (q.decode (code ai)))
      (fun ai _ => localPut_poke q.codeSize (code ai)) rfl hcount leaf.bytes
      (fresh ss leaf.bytes)
    by_cases hold : i < leaf.count
    · have hbias : (scalarLm q four).biasAt ss ((scalarLm q four).append H ss leaf rows) i =
          (scalarLm q four).biasAt ss leaf i := by
        refine word_two_congr fun k hk => ?_
        rw [Nat.add_assoc, Nat.add_assoc (_ + _)]
        exact (hbiases rfl i hi k hk).trans (if_pos hold)
      rw [hbias, h i hold]
      exact congrArg UInt16.toNat (normBias_congr fun d hd => decode_congr four (fun k hk =>
        ((hcodes i hi k hk).trans (if_pos hold)).symm) hd)
    · refine consistent_of_slm (code (i - leaf.count)) (fun k hk => ?_) ?_
      · refine (hcodes i hi k hk).trans ?_
        rw [if_neg hold, poke_peek_apply, if_pos (by omega)]
        congr 1
        omega
      · refine word_halves (i := 0)
          (f := fun _ => H.normBias q.dim (q.decode (code (i - leaf.count)))) fun k hk => ?_
        rw [Nat.add_assoc, Nat.zero_mul, Nat.zero_add]
        exact (hbiases rfl i hi k hk).trans (if_neg hold)
  | localScalar dim =>
    set lv : Levels :=
      { lo := fun d => UInt16.ofNat (word leaf.bytes 2 (lscLevelsOffset ss + d * 2))
        steps := fun d => UInt16.ofNat (word leaf.bytes 2 (lscLevelsOffset ss + dim * 2 + d * 2)) }
      with hlv
    set level : ℕ → ℕ → UInt8 := fun ai d =>
      UInt8.ofNat (lv.pick H (rows.getD ai fun _ => 0) d) with hlevel
    set m := poke (fresh ss leaf.bytes) (lscLevelsOffset ss) (peek leaf.bytes (lscLevelsOffset ss)
      (lscCodesOffset ss dim - lscLevelsOffset ss)) with hm
    obtain ⟨⟨hcodes, hbiases⟩, hframe⟩ := appendFlat_spec true (lscCodesOffset ss dim)
      (fun ai pos m => encodeOne dim (level ai) pos m)
      (fun ai => halves fun _ => lv.bias H dim (rows.getD ai fun _ => 0))
      (fun ai _ => localPut_encodeOne (level ai)) rfl hcount leaf.bytes m
    have hsame : ∀ p, lscLevelsOffset ss ≤ p → p < lscCodesOffset ss dim →
        ((localScalar dim).append H ss leaf rows).bytes p = leaf.bytes p := fun p h₁ h₂ => by
      refine (hframe p (.inl h₂)).trans ?_
      rw [hm, poke_peek_apply, if_pos (by omega)]
      congr 1
      omega
    have hend : lscCodesOffset ss dim = lscLevelsOffset ss + dim * 2 + dim * 2 := by
      simp only [lscCodesOffset, lscLevelsOffset]
      omega
    have hlo : ∀ d < dim, word ((localScalar dim).append H ss leaf rows).bytes 2
        (lscLevelsOffset ss + d * 2) = word leaf.bytes 2 (lscLevelsOffset ss + d * 2) :=
      fun d hd => word_two_congr fun k hk => hsame _ (by omega) (by omega)
    have hsteps : ∀ d < dim, word ((localScalar dim).append H ss leaf rows).bytes 2
        (lscLevelsOffset ss + dim * 2 + d * 2) =
          word leaf.bytes 2 (lscLevelsOffset ss + dim * 2 + d * 2) :=
      fun d hd => word_two_congr fun k hk => hsame _ (by omega) (by omega)
    have hword : ∀ pos, (UInt16.ofNat (word leaf.bytes 2 pos)).toNat = word leaf.bytes 2 pos :=
      fun pos => by
        have := word_lt leaf.bytes 2 pos
        rw [UInt16.toNat_ofNat']
        omega
    by_cases hold : i < leaf.count
    · have hbias : (localScalar (α := α) dim).biasAt ss ((localScalar dim).append H ss leaf rows) i =
          (localScalar (α := α) dim).biasAt ss leaf i := by
        refine word_two_congr fun k hk => ?_
        rw [Nat.add_assoc, Nat.add_assoc (_ + _)]
        exact (hbiases rfl i hi k hk).trans (if_pos hold)
      rw [hbias, h i hold]
      refine congrArg UInt16.toNat (normBias_congr fun d hd => ?_)
      have hk : d / 2 < lscCodeSize dim := by
        rw [lscCodeSize]
        have hd' : d < dim := hd
        omega
      have hnibble : nibbleAt ((localScalar dim).append H ss leaf rows).bytes
          (lscCodesOffset ss dim + i * lscCodeSize dim) d =
            nibbleAt leaf.bytes (lscCodesOffset ss dim + i * lscCodeSize dim) d :=
        nibbleAt_congr (by
          rw [Nat.add_assoc]
          exact (hcodes i hi (d / 2) hk).trans (if_pos hold))
      simp only [decodeOne]
      rw [hlo d hd, hsteps d hd, hnibble]
    · refine consistent_of_lsc lv (rows.getD (i - leaf.count) fun _ => 0)
        (fun d hd => (hlo d hd).trans (hword _).symm)
        (fun d hd => (hsteps d hd).trans (hword _).symm) (fun d hd => ?_) ?_
      · have hk : d / 2 < lscCodeSize dim := by
          rw [lscCodeSize]
          omega
        have hnibble : nibbleAt ((localScalar dim).append H ss leaf rows).bytes
            (lscCodesOffset ss dim + i * lscCodeSize dim) d =
              nibbleAt (encodeOne dim (level (i - leaf.count))
                (lscCodesOffset ss dim + i * lscCodeSize dim) m)
                (lscCodesOffset ss dim + i * lscCodeSize dim) d :=
          nibbleAt_congr (by
            rw [Nat.add_assoc]
            exact (hcodes i hi (d / 2) hk).trans (if_neg hold))
        rw [hnibble]
        exact nibbleAt_encodeOne _ _ _ hd
      · refine word_halves (i := 0)
          (f := fun _ => lv.bias H dim (rows.getD (i - leaf.count) fun _ => 0)) fun k hk => ?_
        rw [Nat.add_assoc, Nat.zero_mul, Nat.zero_add]
        exact (hbiases rfl i hi k hk).trans (if_neg hold)

/-! ### Splitting -/

lemma groups_lt {count : ℕ} {side : ℕ → Bool} :
    (∀ i ∈ (groups count side).1, i < count) ∧ ∀ i ∈ (groups count side).2, i < count := by
  rw [groups]
  split_ifs
  all_goals
    exact ⟨fun i hi => List.mem_range.1 (List.mem_filter.1 hi).1,
      fun i hi => List.mem_range.1 (List.mem_filter.1 hi).1⟩

lemma consistent_regroup {q : ScalarLloydMaxQuantizer α} {four : q.bits = 4}
    (h : (scalarLm q four).Consistent H ss leaf) {group : List ℕ}
    (hgroup : ∀ i ∈ group, i < leaf.count) :
    (scalarLm q four).Consistent H ss ((scalarLm q four).regroup H ss sqrt leaf group) := by
  intro i hi
  have hi' : i < group.length := hi
  have hrow : group.getD i 0 < leaf.count := by
    rw [List.getD_eq_getElem _ _ hi']
    exact hgroup _ (List.getElem_mem hi')
  obtain ⟨hcodes, hbiases⟩ := (flatRows_copy
    (gather q.codeSize leaf.bytes (leafCodesOffset ss) group)
    (some (gather 2 leaf.bytes (leafCodesOffset ss + leaf.count * q.codeSize) group)) q.codeSize
    (leafCodesOffset ss) group.length true (fresh ss leaf.bytes)).1
  -- the row ids come behind the rows
  have hlow : ∀ p < leafCodesOffset ss + group.length * q.codeSize + group.length * 2,
      ((scalarLm q four).regroup H ss sqrt leaf group).bytes p =
        putBiases true (leafCodesOffset ss + group.length * q.codeSize) group.length
          (some (gather 2 leaf.bytes (leafCodesOffset ss + leaf.count * q.codeSize) group))
          (poke (fresh ss leaf.bytes) (leafCodesOffset ss) (peek (gather q.codeSize leaf.bytes
            (leafCodesOffset ss) group) 0 (group.length * q.codeSize))) p := fun p hp =>
    poke_apply_of_lt (by
      simp only [scalarRowidsOffset, scalarBiasBytes, if_true]
      omega)
  have hbias : (scalarLm q four).biasAt ss ((scalarLm q four).regroup H ss sqrt leaf group) i =
      (scalarLm q four).biasAt ss leaf (group.getD i 0) := by
    refine word_two_congr fun k hk => ?_
    have hpos : leafCodesOffset ss + group.length * q.codeSize + i * 2 + k <
        leafCodesOffset ss + group.length * q.codeSize + group.length * 2 := by omega
    refine (hlow _ hpos).trans ?_
    rw [Nat.add_assoc, Nat.add_assoc (_ + _)]
    refine (hbiases rfl i hi' k hk).trans ?_
    simp only [biasByte, gather]
    rw [show (i * 2 + k) / 2 = i by omega, show (i * 2 + k) % 2 = k by omega]
    rfl
  have hcode : ∀ k < q.codeSize, leaf.bytes (leafCodesOffset ss + (group.getD i 0 * q.codeSize + k)) =
      ((scalarLm q four).regroup H ss sqrt leaf group).bytes
        (leafCodesOffset ss + (i * q.codeSize + k)) := by
    intro k hk
    have := row_lt hi' hk
    rw [hlow _ (by omega)]
    refine ((hcodes i hi' k hk).trans ?_).symm
    rw [gather, Nat.mul_comm i, Nat.mul_add_div (by omega), Nat.div_eq_of_lt hk, Nat.add_zero,
      Nat.mul_add_mod, Nat.mod_eq_of_lt hk]
  rw [hbias, h _ hrow]
  exact congrArg UInt16.toNat (normBias_congr fun d hd => decode_congr four hcode hd)

/-! ### Runs -/

/-- The levels of a leaf are its own, and a split fits them again. -/
def Refits : Coder α → Prop
  | scalarLm _ _ => False
  | localScalar _ => True

/-- Row numbers of an appended leaf fit their 32 bits, and no leaf with levels of its own is split. -/
def Meets (c : Coder α) (index : List Leaf) : Op α → Prop
  | .insert j rows => ∀ leaf, index[j]? = some leaf → leaf.count + rows.length < 2 ^ 32
  | .split j _ => c.Refits → index[j]? = none

lemma consistent_step {index : List Leaf} {op : Op α} (h : ∀ leaf ∈ index, c.Consistent H ss leaf)
    (hmeets : c.Meets index op) :
    ∀ leaf ∈ c.step H ss sqrt index op, c.Consistent H ss leaf := by
  cases op with
  | insert j rows =>
    rw [step]
    cases hj : index[j]? with
    | none => exact h
    | some old =>
      intro leaf hleaf
      rcases List.mem_or_eq_of_mem_set hleaf with hmem | rfl
      · exact h leaf hmem
      · exact consistent_append (h old (List.mem_of_getElem? hj)) (hmeets old hj)
  | split j side =>
    rw [step]
    cases hj : index[j]? with
    | none => exact h
    | some old =>
      cases c with
      | localScalar dim => exact absurd (hmeets trivial) (by rw [hj]; exact Option.some_ne_none _)
      | scalarLm q four =>
        have hold := h old (List.mem_of_getElem? hj)
        intro leaf hleaf
        rcases List.mem_append.1 hleaf with hset | hnew
        · rcases List.mem_or_eq_of_mem_set hset with hmem | rfl
          · exact h leaf hmem
          · exact consistent_regroup hold groups_lt.1
        · obtain rfl := List.mem_singleton.1 hnew
          exact consistent_regroup hold groups_lt.2

lemma consistent_of_reach {index : List Leaf} (h : c.Reach H ss sqrt c.Meets index) :
    ∀ leaf ∈ index, c.Consistent H ss leaf := by
  induction h with
  | build leaves =>
    intro leaf hleaf
    obtain ⟨l, -, rfl⟩ := List.mem_map.1 hleaf
    exact consistent_flush l.1 l.2
  | step op _ hmeets ih => exact consistent_step ih hmeets

/-! ### Ranking -/

/-- The squared norm of what a row decodes to is neither clamped nor rounded. -/
def Exact (H : HalfUnit α) (ss : ℕ) (c : Coder α) (leaf : Leaf) (i : ℕ) : Prop :=
  H.round (min (dot c.dim (c.decodeOne H ss leaf.bytes i) (c.decodeOne H ss leaf.bytes i)) 65504) =
    dot c.dim (c.decodeOne H ss leaf.bytes i) (c.decodeOne H ss leaf.bytes i)

omit [LinearOrder α] in
lemma sqDist_expand (n : ℕ) (x y : ℕ → α) :
    sqDist n x y = dot n y y - 2 * dot n x y + dot n x x := by
  simp only [sqDist, dot, Finset.mul_sum, ← Finset.sum_sub_distrib, ← Finset.sum_add_distrib]
  exact Finset.sum_congr rfl fun i _ => by ring

lemma key_eq {i : ℕ} (h : c.Consistent H ss leaf) (hi : i < leaf.count) (hexact : Exact H ss c leaf i)
    (query : ℕ → α) : c.key H ss leaf i query =
      sqDist c.dim query (c.decodeOne H ss leaf.bytes i) - dot c.dim query query := by
  rw [key, h i hi, sqDist_expand, HalfUnit.normBias, ← HalfUnit.round, hexact, add_sub_cancel_right]

/-- **Biases stay with their codes** in every run in which no leaf with levels of its own is split,
and rows of all leaves are then ranked as their decoded distances are. -/
theorem biases_consistent [IsStrictOrderedRing α] {index : List Leaf}
    (h : c.Reach H ss sqrt c.Meets index) :
    (∀ leaf ∈ index, c.Consistent H ss leaf) ∧
    ∀ leaf ∈ index, ∀ leaf' ∈ index, ∀ i < leaf.count, ∀ i' < leaf'.count,
      Exact H ss c leaf i → Exact H ss c leaf' i' → ∀ query,
        (c.key H ss leaf i query < c.key H ss leaf' i' query ↔
          sqDist c.dim query (c.decodeOne H ss leaf.bytes i) <
            sqDist c.dim query (c.decodeOne H ss leaf'.bytes i')) := by
  have hall := consistent_of_reach h
  refine ⟨hall, fun leaf hleaf leaf' hleaf' i hi i' hi' he he' query => ?_⟩
  rw [key_eq (hall leaf hleaf) hi he, key_eq (hall leaf' hleaf') hi' he']
  exact sub_lt_sub_iff_right _

/-! ### A leaf of four rows -/

section Examples

def ratSqrt (x : ℚ) : ℚ := (Nat.sqrt x.num.natAbs : ℚ) / (Nat.sqrt x.den : ℚ)

/-- Four rows of one dimension, of mean 0 and standard deviation 25. -/
def fourRows : List (ℕ → ℚ) := [fun _ => -35, fun _ => -5, fun _ => 5, fun _ => 35]

def fourLeaf : Leaf := (localScalar 1).flush binary16 0 ratSqrt fourRows fun _ => 0

theorem biases_consistent_fourRows : (localScalar 1).Consistent binary16 0 fourLeaf :=
  (biases_consistent (.build [(fourRows, fun _ => 0)])).1 fourLeaf
    (List.mem_singleton.2 rfl)

/-- The upper half of the rows decodes to 9 and 36; alone it has finer levels, and 9 becomes 507/64
with the bias of 9. -/
theorem split_keeps_stale_bias : ¬ ∀ (c : Coder ℚ) (index : List Leaf),
    c.Reach binary16 0 ratSqrt (fun _ _ => True) index →
      ∀ leaf ∈ index, c.Consistent binary16 0 leaf := by
  intro h
  have hrun : (localScalar 1).Reach binary16 0 ratSqrt (fun _ _ => True)
      [(localScalar 1).regroup binary16 0 ratSqrt fourLeaf [0, 1],
        (localScalar 1).regroup binary16 0 ratSqrt fourLeaf [2, 3]] :=
    .step (.split 0 fun i => decide (2 ≤ i)) (.build [(fourRows, fun _ => 0)]) trivial
  have hrow := h _ _ hrun _ (List.mem_cons_of_mem _ (List.mem_singleton.2 rfl)) 0 (by decide)
  have hbias : (localScalar (α := ℚ) 1).biasAt 0
      ((localScalar 1).regroup binary16 0 ratSqrt fourLeaf [2, 3]) 0 = 21776 := by decide +kernel
  have hnorm : (binary16.normBias (localScalar (α := ℚ) 1).dim ((localScalar 1).decodeOne binary16 0
      ((localScalar 1).regroup binary16 0 ratSqrt fourLeaf [2, 3]).bytes 0)).toNat = 21464 := by
    decide +kernel
  rw [hbias, hnorm] at hrow
  exact absurd hrow (by decide)

end Examples

end Coder

end SextantTree.RowBias
