import SextantTree.Summary

/-!
What a summary says of a row (`Covers`), that a written summary covers every row it was
written for, and exactly when pruning by a fresh leaf summary loses a row.

The per-row test casts the comparand into the column's domain, the summary test compares
with the widened values in double. The two disagree when an extreme stored value lies
between the comparand and its cast.
-/

namespace SextantTree

open FilterHash

/-! ## Sections -/

section Sections

variable {α : Type}

lemma entryOf_concat (l : List (ℕ × α)) (e : ℕ × α) (c : ℕ) :
    entryOf (l ++ [e]) c = if e.1 = c then some e.2 else entryOf l c := by
  simp [entryOf]

lemma entryOf_eq_none {l : List (ℕ × α)} {c : ℕ} (h : ∀ e ∈ l, e.1 ≠ c) : entryOf l c = none := by
  induction l using List.reverseRecOn with
  | nil => rfl
  | append_singleton l e ih =>
    rw [entryOf_concat, if_neg (h e (by simp))]
    exact ih fun e' he' => h e' (by simp [he'])

lemma mem_of_entryOf {l : List (ℕ × α)} {c : ℕ} {a : α} (h : entryOf l c = some a) :
    (c, a) ∈ l := by
  induction l using List.reverseRecOn with
  | nil => cases h
  | append_singleton l e ih =>
    rw [entryOf_concat] at h
    split at h
    next hc =>
      cases h
      simp [← hc]
    · exact List.mem_append_left _ (ih h)

lemma entryOf_eq_some {l : List (ℕ × α)} {c : ℕ} {a : α} (hnd : (l.map Prod.fst).Nodup)
    (h : (c, a) ∈ l) : entryOf l c = some a := by
  induction l using List.reverseRecOn with
  | nil => cases h
  | append_singleton l e ih =>
    rw [List.map_append, List.nodup_append] at hnd
    rw [entryOf_concat]
    rcases List.mem_append.mp h with hl | he
    · have hne : e.1 ≠ c := fun heq =>
        hnd.2.2 c (List.mem_map_of_mem hl) e.1 (by simp) heq.symm
      rw [if_neg hne]
      exact ih hnd.1 hl
    · rw [List.mem_singleton] at he
      simp [← he]

variable (s : Schema) (sel : ColumnType → Bool)

lemma mem_sectionOf {f : ℕ → α} {e : ℕ × α} :
    e ∈ s.sectionOf sel f ↔
      ∃ c col, s.columns[c]? = some col ∧ sel col.type = true ∧ e = (c % 256, f c) := by
  simp only [Schema.sectionOf, List.mem_map, List.mem_filter, Prod.exists]
  constructor
  · rintro ⟨col, c, ⟨hmem, hsel⟩, rfl⟩
    exact ⟨c, col, List.mk_mem_zipIdx_iff_getElem?.mp hmem, hsel, rfl⟩
  · rintro ⟨c, col, hcol, hsel, rfl⟩
    exact ⟨col, c, ⟨List.mk_mem_zipIdx_iff_getElem?.mpr hcol, hsel⟩, rfl⟩

lemma keys_sectionOf (f : ℕ → α) :
    (s.sectionOf sel f).map Prod.fst = (s.sectionOf sel id).map Prod.fst := by
  simp [Schema.sectionOf, Function.comp_def]

variable {s}

lemma nodup_sectionOf (hs : s.Addressable) (f : ℕ → α) :
    ((s.sectionOf sel f).map Prod.fst).Nodup := by
  have hkeys : (s.sectionOf sel f).map Prod.fst =
      ((s.columns.zipIdx.filter fun x => sel x.1.type).map Prod.snd).map (· % 256) := by
    simp [Schema.sectionOf, Function.comp_def]
  have hlt : ∀ c ∈ (s.columns.zipIdx.filter fun x => sel x.1.type).map Prod.snd, c < 256 := by
    intro c hc
    obtain ⟨x, hx, rfl⟩ := List.mem_map.mp hc
    exact (List.mem_zipIdx' (List.mem_of_mem_filter hx)).1.trans_le hs.1
  rw [hkeys, List.map_congr_left fun c hc => Nat.mod_eq_of_lt (hlt c hc), List.map_id']
  have hsub := (List.filter_sublist (p := fun x : FilterColumn × ℕ => sel x.1.type)
    (l := s.columns.zipIdx)).map Prod.snd
  refine hsub.nodup ?_
  rw [List.zipIdx_map_snd]
  exact List.nodup_range'

lemma entryOf_sectionOf (hs : s.Addressable) {f : ℕ → α} {c : ℕ} {col : FilterColumn}
    (h : s.columns[c]? = some col) (hsel : sel col.type = true) :
    entryOf (s.sectionOf sel f) c = some (f c) := by
  have hc : c < s.columns.length := (List.getElem?_eq_some_iff.mp h).1
  have hmem : (c, f c) ∈ s.sectionOf sel f :=
    (mem_sectionOf s sel).mpr ⟨c, col, h, hsel, by rw [Nat.mod_eq_of_lt (hc.trans_le hs.1)]⟩
  exact entryOf_eq_some (nodup_sectionOf sel hs f) hmem

end Sections

/-! ## Ranges -/

section Ranges

lemma foldl_add_mono (vs : List ℚ) (r : NumRange) :
    (vs.foldl NumRange.add r).min ≤ r.min ∧ r.max ≤ (vs.foldl NumRange.add r).max := by
  induction vs generalizing r with
  | nil => simp
  | cons v vs ih =>
    have hstep : (r.add v).min ≤ r.min ∧ r.max ≤ (r.add v).max := by
      simp only [NumRange.add]
      constructor
      · split <;> linarith
      · split <;> linarith
    exact ⟨(ih _).1.trans hstep.1, hstep.2.trans (ih _).2⟩

lemma foldl_add_bounds {vs : List ℚ} {r : NumRange} {v : ℚ} (hv : v ∈ vs) :
    (vs.foldl NumRange.add r).min ≤ v ∧ v ≤ (vs.foldl NumRange.add r).max := by
  induction vs generalizing r with
  | nil => cases hv
  | cons w vs ih =>
    rcases List.mem_cons.mp hv with rfl | hv
    · have hstep : (r.add v).min ≤ v ∧ v ≤ (r.add v).max := by
        simp only [NumRange.add]
        constructor
        · split <;> linarith
        · split <;> linarith
      have hmono := foldl_add_mono vs (r.add v)
      exact ⟨hmono.1.trans hstep.1, hstep.2.trans hmono.2⟩
    · exact ih hv

lemma foldl_add_attained (vs : List ℚ) (r : NumRange) :
    ((vs.foldl NumRange.add r).min = r.min ∨ (vs.foldl NumRange.add r).min ∈ vs) ∧
      ((vs.foldl NumRange.add r).max = r.max ∨ (vs.foldl NumRange.add r).max ∈ vs) := by
  induction vs generalizing r with
  | nil => simp
  | cons v vs ih =>
    obtain ⟨hmin, hmax⟩ := ih (r.add v)
    have hmin' : (r.add v).min = r.min ∨ (r.add v).min = v := by
      simp only [NumRange.add]
      split <;> simp
    have hmax' : (r.add v).max = r.max ∨ (r.add v).max = v := by
      simp only [NumRange.add]
      split <;> simp
    simp only [List.foldl_cons, List.mem_cons]
    constructor
    · rcases hmin with h | h
      · rcases hmin' with h' | h' <;> simp [h, h']
      · simp [h]
    · rcases hmax with h | h
      · rcases hmax' with h' | h' <;> simp [h, h']
      · simp [h]

variable {T : Type} [LinearOrder T]

/-- `lo` and `hi` are the smallest and the largest of the values. -/
structure Extremes (vals : List T) (lo hi : T) : Prop where
  lo_mem : lo ∈ vals
  hi_mem : hi ∈ vals
  lo_le : ∀ x ∈ vals, lo ≤ x
  le_hi : ∀ x ∈ vals, x ≤ hi

lemma exists_extremes {vals : List T} {x : T} (hx : x ∈ vals) : ∃ lo hi, Extremes vals lo hi := by
  have hne : vals.toFinset.Nonempty := ⟨x, by simpa using hx⟩
  obtain ⟨lo, hlo, hlo'⟩ := vals.toFinset.exists_min_image id hne
  obtain ⟨hi, hhi, hhi'⟩ := vals.toFinset.exists_max_image id hne
  simp only [List.mem_toFinset, id] at hlo hhi hlo' hhi'
  exact ⟨lo, hi, hlo, hhi, hlo', hhi'⟩

lemma range_of_extremes {toD : T → ℚ} (hmono : Monotone toD) {vals : List T} {lo hi : T}
    (h : Extremes vals lo hi) (hbound : ∀ x ∈ vals, |toD x| ≤ dblMax) :
    (vals.map toD).foldl NumRange.add .empty = ⟨toD lo, toD hi⟩ := by
  obtain ⟨hmin, hmax⟩ := foldl_add_attained (vals.map toD) .empty
  have hlo := foldl_add_bounds (r := .empty) (List.mem_map_of_mem (f := toD) h.lo_mem)
  have hhi := foldl_add_bounds (r := .empty) (List.mem_map_of_mem (f := toD) h.hi_mem)
  have hlo' := abs_le.mp (hbound lo h.lo_mem)
  have hhi' := abs_le.mp (hbound hi h.hi_mem)
  have h₁ : ((vals.map toD).foldl NumRange.add .empty).min = toD lo := by
    apply le_antisymm hlo.1
    rcases hmin with heq | hmem
    · rw [heq]
      exact hlo'.2
    · obtain ⟨x, hx, hx'⟩ := List.mem_map.mp hmem
      rw [← hx']
      exact hmono (h.lo_le x hx)
  have h₂ : ((vals.map toD).foldl NumRange.add .empty).max = toD hi := by
    apply le_antisymm _ hhi.2
    rcases hmax with heq | hmem
    · rw [heq]
      exact hhi'.1
    · obtain ⟨x, hx, hx'⟩ := List.mem_map.mp hmem
      rw [← hx']
      exact hmono (h.le_hi x hx)
  rw [← h₁, ← h₂]

/-- The comparand and its cast lie on different sides of an extreme stored value: the
comparison in double excludes the value, the comparison in the column's domain does not. -/
def Displaced (toD : T → ℚ) (roundTo : ℚ → T) (p : Predicate) (lo hi : T) : Prop :=
  match p.op with
  | .eq => (p.value < toD lo ∧ lo ≤ roundTo p.value) ∨ (toD hi < p.value ∧ roundTo p.value ≤ hi)
  | .lt => p.value ≤ toD lo ∧ lo < roundTo p.value
  | .le => p.value < toD lo ∧ lo ≤ roundTo p.value
  | .gt => toD hi ≤ p.value ∧ roundTo p.value < hi
  | .ge => toD hi < p.value ∧ roundTo p.value ≤ hi
  | .between => (toD hi < p.value ∧ roundTo p.value ≤ hi) ∨
      (p.value2 < toD lo ∧ lo ≤ roundTo p.value2)
  | _ => False

lemma rangeMayMatch_iff {π : Platform} {roundTo : ℚ → T} {toD : T → ℚ} {p : Predicate}
    {vals : List T} {lo hi x : T} (h : Extremes vals lo hi) (hx : x ∈ vals)
    (hpass : typedCompare π roundTo p x = true) :
    rangeMayMatch ⟨toD lo, toD hi⟩ p = true ↔ ¬ Displaced toD roundTo p lo hi := by
  have hlo := h.lo_le x hx
  have hhi := h.le_hi x hx
  unfold typedCompare at hpass
  unfold rangeMayMatch Displaced
  cases hop : p.op <;> simp only [hop] at hpass ⊢ <;>
    simp only [Bool.not_eq_true', Bool.or_eq_false_iff, decide_eq_false_iff_not, not_false_eq_true,
      not_or, not_and, beq_iff_eq, decide_eq_true_eq, Bool.and_eq_true] at hpass ⊢
  case eq =>
    subst hpass
    simp [hlo, hhi]
  case lt => simp [hlo.trans_lt hpass]
  case le => simp [hlo.trans hpass]
  case gt => simp [hpass.trans_le hhi]
  case ge => simp [hpass.trans hhi]
  case between => simp [hpass.1.trans hhi, hlo.trans hpass.2]

end Ranges

/-! ## The three numeric domains -/

def Cell.asInt32 : Cell → Option ℤ
  | .int32 v => some v.toInt
  | _ => none

def Cell.asInt64 : Cell → Option ℤ
  | .int64 v => some v.toInt
  | _ => none

def Cell.asFloat : Cell → Option ℚ
  | .float v => some v.val
  | _ => none

/-- `int64_t` to double. -/
def int64ToDouble (v : ℤ) : ℚ := Rounding.roundInt 53 v

lemma int64ToDouble_mono : Monotone int64ToDouble := fun _ _ h =>
  Int.cast_le.mpr (Rounding.roundInt_mono (by norm_num) h)

lemma two_pow_le_dblMax : (2 : ℚ) ^ 128 ≤ dblMax := by
  calc (2 : ℚ) ^ 128 ≤ 2 ^ 971 := pow_le_pow_right₀ (by norm_num) (by norm_num)
    _ ≤ dblMax := le_mul_of_one_le_left (by positivity) (by norm_num)

lemma abs_int32_le (v : Int32) : |((v.toInt : ℤ) : ℚ)| ≤ dblMax := by
  have h₁ := v.le_toInt
  have h₂ := v.toInt_lt
  have : |((v.toInt : ℤ) : ℚ)| ≤ 2 ^ 31 := by
    rw [abs_le]
    constructor
    · exact_mod_cast h₁
    · exact_mod_cast h₂.le
  exact this.trans (le_trans (by norm_num) two_pow_le_dblMax)

lemma abs_int64_le (v : Int64) : |int64ToDouble v.toInt| ≤ dblMax := by
  have hlo : Rounding.roundInt 53 (-2 ^ 63) = -2 ^ 63 := by decide +kernel
  have hhi : Rounding.roundInt 53 (2 ^ 63) = 2 ^ 63 := by decide +kernel
  have h₁ := int64ToDouble_mono v.le_toInt
  have h₂ := int64ToDouble_mono v.toInt_lt.le
  simp only [int64ToDouble, hlo, hhi] at h₁ h₂
  push_cast at h₁ h₂
  have : |int64ToDouble v.toInt| ≤ 2 ^ 63 := abs_le.mpr ⟨h₁, h₂⟩
  exact this.trans (le_trans (by norm_num) two_pow_le_dblMax)

lemma abs_float_le (v : Binary32) : |v.val| ≤ dblMax := by
  obtain ⟨q, m, e, hm, -, he, rfl⟩ := v
  have hm' : |(m : ℚ)| ≤ 2 ^ 24 := by exact_mod_cast hm.le
  have he' : (2 : ℚ) ^ e ≤ 2 ^ (104 : ℤ) := zpow_le_zpow_right₀ (by norm_num) he
  have hpos : (0 : ℚ) < 2 ^ e := by positivity
  calc |(m : ℚ) * 2 ^ e| = |(m : ℚ)| * 2 ^ e := by rw [abs_mul, abs_of_pos hpos]
    _ ≤ 2 ^ 24 * 2 ^ (104 : ℤ) := mul_le_mul hm' he' hpos.le (by norm_num)
    _ ≤ dblMax := le_trans (by norm_num) two_pow_le_dblMax

section Pruning

variable {s : Schema} (π : Platform)

lemma mem_columnCells {rows : List (FilterRow s)} {c : ℕ} {v : Cell} :
    v ∈ columnCells rows c ↔ ∃ row ∈ rows, row.get c = some v := by
  simp [columnCells]

lemma type_of_mem_columnCells {rows : List (FilterRow s)} {c : ℕ} {col : FilterColumn} {v : Cell}
    (hcol : s.columns[c]? = some col) (hv : v ∈ columnCells rows c) : v.type = col.type := by
  obtain ⟨row, -, hrow⟩ := mem_columnCells.mp hv
  exact row.type_get hcol hrow

/-- An extreme of the stored values is displaced. -/
def StraddledBy {T : Type} [LinearOrder T] (toD : T → ℚ) (roundTo : ℚ → T) (p : Predicate)
    (vals : List T) : Prop :=
  ∃ lo hi, Extremes vals lo hi ∧ Displaced toD roundTo p lo hi

/-- An extreme value of the predicate's column lies between the comparand and its cast. -/
def Straddled (rows : List (FilterRow s)) (r : Resolved) : Prop :=
  match (s.columns[r.col]?).map FilterColumn.type with
  | some ColumnType.int32 => StraddledBy (fun v : ℤ => (v : ℚ)) (roundToInt32 π) r.pred
      ((columnCells rows r.col).filterMap Cell.asInt32)
  | some ColumnType.int64 => StraddledBy int64ToDouble (roundToInt64 π) r.pred
      ((columnCells rows r.col).filterMap Cell.asInt64)
  | some ColumnType.float => StraddledBy id (toFloat π) r.pred
      ((columnCells rows r.col).filterMap Cell.asFloat)
  | _ => False

lemma straddledBy_iff {T : Type} [LinearOrder T] {f : Cell → Option T} {g : T → ℚ}
    {roundTo : ℚ → T} {p : Predicate} (hmono : Monotone g)
    (hread : ∀ v x, f v = some x → readNumeric v = g x ∧ |g x| ≤ dblMax) {cells : List Cell}
    (hall : ∀ v ∈ cells, ∃ x, f v = some x) {v : Cell} {x : T} (hv : v ∈ cells)
    (hx : f v = some x) (hpass : typedCompare π roundTo p x = true) :
    rangeMayMatch ((cells.map readNumeric).foldl NumRange.add .empty) p = true ↔
      ¬ StraddledBy g roundTo p (cells.filterMap f) := by
  have hmap : cells.map readNumeric = (cells.filterMap f).map g := by
    clear hv
    induction cells with
    | nil => rfl
    | cons w cells ih =>
      obtain ⟨y, hy⟩ := hall w (by simp)
      rw [List.map_cons, List.filterMap_cons_some hy, List.map_cons, (hread w y hy).1,
        ih fun w' hw' => hall w' (by simp [hw'])]
  have hbound : ∀ y ∈ cells.filterMap f, |g y| ≤ dblMax := by
    intro y hy
    obtain ⟨w, -, hw⟩ := List.mem_filterMap.mp hy
    exact (hread w y hw).2
  have hmem : x ∈ cells.filterMap f := List.mem_filterMap.mpr ⟨v, hv, hx⟩
  rw [hmap]
  constructor
  · rintro hmay ⟨lo, hi, hext, hdis⟩
    rw [range_of_extremes hmono hext hbound] at hmay
    exact (rangeMayMatch_iff hext hmem hpass).mp hmay hdis
  · intro hnot
    obtain ⟨lo, hi, hext⟩ := exists_extremes hmem
    rw [range_of_extremes hmono hext hbound]
    exact (rangeMayMatch_iff hext hmem hpass).mpr fun hdis => hnot ⟨lo, hi, hext, hdis⟩

/-- On a numeric column with a passing row, the range test fails just when an extreme value
is straddled. -/
lemma numeric_mayMatch_iff {rows : List (FilterRow s)} {row : FilterRow s} {r : Resolved}
    {col : FilterColumn} (hrow : row ∈ rows) (hcol : s.columns[r.col]? = some col)
    (hnum : col.type.isNumeric = true) (hnull : r.pred.op ≠ .isNull)
    (hnotNull : r.pred.op ≠ .isNotNull) (hpass : evalPredicate π r.pred (row.get r.col) = true) :
    rangeMayMatch (columnRange rows r.col) r.pred = true ↔ ¬ Straddled π rows r := by
  cases hget : row.get r.col with
  | none =>
    rw [hget] at hpass
    simp [evalPredicate, hnull] at hpass
  | some v =>
    have htype := row.type_get hcol hget
    have hmem : v ∈ columnCells rows r.col := mem_columnCells.mpr ⟨row, hrow, hget⟩
    have hcells : ∀ w ∈ columnCells rows r.col, w.type = col.type := fun w hw =>
      type_of_mem_columnCells hcol hw
    rw [hget] at hpass
    simp only [evalPredicate, beq_iff_eq, hnull, hnotNull, if_false] at hpass
    unfold columnRange Straddled
    rw [hcol]
    cases v with
    | int32 v =>
      have hty : col.type = .int32 := htype.symm
      simp only [Option.map_some, hty]
      refine straddledBy_iff π Int.cast_mono ?_ ?_ hmem rfl hpass
      · rintro (w | w | w | w | w | w) x h <;> cases h
        exact ⟨rfl, abs_int32_le w⟩
      · intro w hw
        have := (hcells w hw).trans hty
        cases w <;> simp [Cell.type, Cell.asInt32] at this ⊢
    | int64 v =>
      have hty : col.type = .int64 := htype.symm
      simp only [Option.map_some, hty]
      refine straddledBy_iff π int64ToDouble_mono ?_ ?_ hmem rfl hpass
      · rintro (w | w | w | w | w | w) x h <;> cases h
        exact ⟨rfl, abs_int64_le w⟩
      · intro w hw
        have := (hcells w hw).trans hty
        cases w <;> simp [Cell.type, Cell.asInt64] at this ⊢
    | float v =>
      have hty : col.type = .float := htype.symm
      simp only [Option.map_some, hty]
      refine straddledBy_iff π monotone_id ?_ ?_ hmem rfl hpass
      · rintro (w | w | w | w | w | w) x h <;> cases h
        exact ⟨rfl, abs_float_le w⟩
      · intro w hw
        have := (hcells w hw).trans hty
        cases w <;> simp [Cell.type, Cell.asFloat] at this ⊢
    | bool v => simp [← htype, Cell.type, ColumnType.isNumeric] at hnum
    | string v => simp [← htype, Cell.type, ColumnType.isNumeric] at hnum
    | set v => simp [← htype, Cell.type, ColumnType.isNumeric] at hnum

/-! ## Filters of string and set columns -/

lemma bloomCheck_writeBloom {base : ℕ} {hashes : List UInt32} {h : UInt32} (hh : h ∈ hashes) :
    bloomCheck (writeBloom base hashes) h = true := by
  unfold bloomCheck writeBloom
  dsimp only
  split
  · exact Bloom.mayContain_ofKeys _ (List.mem_eraseDups.mpr hh)
  · simp [Bloom.mayContain]

/-- Every probe position of `h` is one of a stored hash. -/
def ProbesHit (hashes : List UInt32) (h : UInt32) : Prop :=
  ∀ i ∈ bloomProbes (bloomBits hashes.eraseDups.length) h,
    ∃ k ∈ hashes, i ∈ bloomProbes (bloomBits hashes.eraseDups.length) k

lemma bloomBits_pos (n : ℕ) : bloomBits n ≠ 0 := by
  unfold bloomBits
  dsimp only
  split
  · norm_num
  · assumption

lemma bloomCheck_writeBloom_iff {hashes : List UInt32} {h : UInt32} (hne : hashes ≠ []) :
    bloomCheck (writeBloom 0 hashes) h = true ↔
      (hashes.eraseDups.length ≤ kBloomThreshold → ProbesHit hashes h) := by
  have hne' : hashes.eraseDups ≠ [] := by
    obtain ⟨k, hk⟩ := List.exists_mem_of_ne_nil _ hne
    exact List.ne_nil_of_mem (List.mem_eraseDups.mpr hk)
  unfold bloomCheck writeBloom
  dsimp only
  split
  next hc =>
    have hsize : (Bloom.ofKeys bloomProbes (bloomBits hashes.eraseDups.length) 0
        hashes.eraseDups).size ≠ 0 := bloomBits_pos _
    rw [Bloom.mayContain_iff]
    simp only [Bloom.testBit_ofKeys, hsize, false_or, Nat.zero_testBit, List.mem_eraseDups,
      Bool.false_eq_true]
    exact ⟨fun h₁ _ => h₁, fun h₁ => h₁ hc.2⟩
  next hc =>
    have : ¬ hashes.eraseDups.length ≤ kBloomThreshold := fun hle => hc ⟨hne', hle⟩
    simp [Bloom.mayContain, this]

lemma mem_stringHashes {rows : List (FilterRow s)} {c : ℕ} {v : Bytes}
    (h : Cell.string v ∈ columnCells rows c) : filterHash v ∈ stringHashes rows c :=
  List.mem_filterMap.mpr ⟨_, h, rfl⟩

lemma mem_setHashes {rows : List (FilterRow s)} {c : ℕ} {elems : List Bytes} {q : Bytes}
    (h : Cell.set elems ∈ columnCells rows c) (hq : q ∈ elems) :
    filterHash q ∈ setHashes rows c :=
  List.mem_flatMap.mpr ⟨_, h, List.mem_map_of_mem hq⟩

/-- An `In` list against a string column that leaves out the empty string in its first
operand: the row test takes the empty operand for a value, the summary test skips it. The
leaf stores an empty string, and no listed value gets through its filter. -/
structure HiddenEmpty (rows : List (FilterRow s)) (r : Resolved) : Prop where
  op : r.pred.op = .inList
  type : (s.columns[r.col]?).map FilterColumn.type = some .string
  strValue : r.pred.strValue = []
  values : r.pred.values ≠ []
  stored : Cell.string [] ∈ columnCells rows r.col
  few : (stringHashes rows r.col).eraseDups.length ≤ kBloomThreshold
  missed : ∀ q ∈ r.pred.values, ¬ ProbesHit (stringHashes rows r.col) (filterHash q)

lemma anyMayMatch_of_mem {b : Bloom} {p : Predicate} {q : Bytes} (hq : q ∈ p.queryVals)
    (hb : bloomCheck b (filterHash q) = true) : anyMayMatch b p = true := by
  simp only [anyMayMatch, Bool.or_eq_true, List.any_eq_true]
  exact Or.inl ⟨q, hq, hb⟩

lemma mem_queryVals {p : Predicate} {q : Bytes} :
    q ∈ p.queryVals ↔ (q = p.strValue ∧ p.strValue ≠ []) ∨ q ∈ p.values := by
  unfold Predicate.queryVals
  cases h : p.strValue <;> simp

/-- A passing string the filter admits gets the summary through, unless it is an empty one
matched by an empty operand. -/
lemma stringMayMatch_of_eval {b : Bloom} {p : Predicate} {sv : Bytes}
    (hb : bloomCheck b (filterHash sv) = true) (h : evalString p sv = true)
    (hne : p.op = .inList → sv = [] → p.strValue = [] → sv ∈ p.values) :
    stringMayMatch b p = true := by
  unfold evalString at h
  unfold stringMayMatch
  cases hop : p.op <;> simp only [hop] at h ⊢
  case eq =>
    split at h
    · cases h
    · rwa [← beq_iff_eq.mp h]
  case inList =>
    refine anyMayMatch_of_mem (mem_queryVals.mpr ?_) hb
    simp only [Bool.or_eq_true, beq_iff_eq, List.any_eq_true] at h
    rcases h with h | ⟨q, hq, rfl⟩
    · by_cases hs : p.strValue = []
      · exact Or.inr (hne hop (h.trans hs) hs)
      · exact Or.inl ⟨h, hs⟩
    · exact Or.inr hq

lemma setMayMatch_of_eval {b : Bloom} {p : Predicate} {elems : List Bytes}
    (hb : ∀ q ∈ elems, bloomCheck b (filterHash q) = true) (h : evalSet p elems = true) :
    setMayMatch b p = true := by
  have hmem : ∀ q, (setContainsHash elems (filterHash q) && setContainsString elems q) = true →
      bloomCheck b (filterHash q) = true := by
    intro q hq
    simp only [Bool.and_eq_true, setContainsString, List.any_eq_true, beq_iff_eq] at hq
    obtain ⟨-, q', hq', rfl⟩ := hq
    exact hb _ hq'
  unfold evalSet at h
  unfold setMayMatch
  cases hop : p.op <;> simp only [hop] at h ⊢
  case contains => exact hmem _ h
  case containsAny =>
    obtain ⟨q, hq, hq'⟩ := List.any_eq_true.mp h
    exact anyMayMatch_of_mem hq (hmem q hq')
  case containsAll =>
    rw [List.all_eq_true] at h ⊢
    exact fun q hq => hmem q (h q hq)

lemma string_mayMatch_iff {rows : List (FilterRow s)} {row : FilterRow s} {r : Resolved}
    {col : FilterColumn} {sv : Bytes} (hrow : row ∈ rows) (hcol : s.columns[r.col]? = some col)
    (hget : row.get r.col = some (.string sv)) (hpass : evalString r.pred sv = true) :
    stringMayMatch (writeBloom 0 (stringHashes rows r.col)) r.pred = true ↔
      ¬ HiddenEmpty rows r := by
  have hmem : Cell.string sv ∈ columnCells rows r.col := mem_columnCells.mpr ⟨row, hrow, hget⟩
  have hne : stringHashes rows r.col ≠ [] := List.ne_nil_of_mem (mem_stringHashes hmem)
  have htype := row.type_get hcol hget
  constructor
  · rintro hmay ⟨hop, -, hstr, hvals, -, hfew, hmiss⟩
    have hq : r.pred.queryVals = r.pred.values := by simp [Predicate.queryVals, hstr]
    simp only [stringMayMatch, hop, anyMayMatch, hq, Bool.or_eq_true, List.any_eq_true,
      List.isEmpty_iff, hvals, or_false] at hmay
    obtain ⟨q, hq, hb⟩ := hmay
    exact hmiss q hq ((bloomCheck_writeBloom_iff hne).mp hb hfew)
  · intro hhid
    by_cases hcase : r.pred.op = .inList ∧ sv = [] ∧ r.pred.strValue = [] ∧ sv ∉ r.pred.values
    · obtain ⟨hop, rfl, hstr, -⟩ := hcase
      have hq : r.pred.queryVals = r.pred.values := by simp [Predicate.queryVals, hstr]
      simp only [stringMayMatch, hop, anyMayMatch, hq, Bool.or_eq_true, List.any_eq_true,
        List.isEmpty_iff]
      by_contra hnone
      simp only [not_or, not_exists, not_and] at hnone
      -- every listed value was rejected, so the filter is in use and misses each of them
      have hmiss : ∀ q ∈ r.pred.values, (stringHashes rows r.col).eraseDups.length ≤
          kBloomThreshold ∧ ¬ ProbesHit (stringHashes rows r.col) (filterHash q) := by
        intro q hq
        have := mt (bloomCheck_writeBloom_iff hne).mpr (hnone.1 q hq)
        exact ⟨by_contra fun hc => this fun hle => absurd hle hc, fun hc => this fun _ => hc⟩
      obtain ⟨q₀, hq₀⟩ := List.exists_mem_of_ne_nil _ hnone.2
      exact hhid ⟨hop, by rw [hcol, Option.map_some, ← htype]; rfl, hstr, hnone.2, hmem,
        (hmiss q₀ hq₀).1, fun q hq => (hmiss q hq).2⟩
    · exact stringMayMatch_of_eval (bloomCheck_writeBloom (mem_stringHashes hmem)) hpass
        fun hop hsv hstr => by_contra fun hn => hcase ⟨hop, hsv, hstr, hn⟩

lemma not_straddled_of_displaced {rows : List (FilterRow s)} {r : Resolved}
    (h : ∀ (T : Type) (_ : LinearOrder T) (toD : T → ℚ) (roundTo : ℚ → T) (lo hi : T),
      ¬ Displaced toD roundTo r.pred lo hi) : ¬ Straddled π rows r := by
  unfold Straddled
  split
  · rintro ⟨lo, hi, -, hd⟩
    exact h _ _ _ _ lo hi hd
  · rintro ⟨lo, hi, -, hd⟩
    exact h _ _ _ _ lo hi hd
  · rintro ⟨lo, hi, -, hd⟩
    exact h _ _ _ _ lo hi hd
  · exact id

lemma entryOf_numeric_write (hs : s.Addressable) {buf : Summary} {rows : List (FilterRow s)} {c : ℕ}
    {col : FilterColumn} (hcol : s.columns[c]? = some col) (hty : col.type.isNumeric = true) :
    entryOf (writeFilterSummary buf rows).numeric c = some (columnRange rows c) :=
  entryOf_sectionOf (·.isNumeric) hs hcol hty

lemma entryOf_strings_write (hs : s.Addressable) {buf : Summary} {rows : List (FilterRow s)} {c : ℕ}
    {col : FilterColumn} (hcol : s.columns[c]? = some col) (hty : col.type = .string) :
    entryOf (writeFilterSummary buf rows).strings c =
      some (writeBloom ((entryOf buf.strings c).elim 0 Bloom.bits) (stringHashes rows c)) := by
  simp only [writeFilterSummary]
  exact entryOf_sectionOf _ hs hcol (by simp [hty])

lemma entryOf_sets_write (hs : s.Addressable) {buf : Summary} {rows : List (FilterRow s)} {c : ℕ}
    {col : FilterColumn} (hcol : s.columns[c]? = some col) (hty : col.type = .set) :
    entryOf (writeFilterSummary buf rows).sets c =
      some (writeBloom ((entryOf buf.sets c).elim 0 Bloom.bits) (setHashes rows c)) := by
  simp only [writeFilterSummary]
  exact entryOf_sectionOf _ hs hcol (by simp [hty])

lemma predMayMatch_iff (hs : s.Addressable) {rows : List (FilterRow s)} {row : FilterRow s} {r : Resolved}
    (hfit : r.Fits s) (hgeo : r.pred.op.isGeo = false) (hrow : row ∈ rows)
    (hpass : evalResolved π row r = true) :
    predMayMatch π s (writeFilterSummary .zero rows) r = true ↔
      ¬ Straddled π rows r ∧ ¬ HiddenEmpty rows r := by
  obtain ⟨col, hcol, -⟩ := hfit
  simp only [evalResolved, hgeo, Bool.false_eq_true, if_false] at hpass
  by_cases hnull : r.pred.op = .isNull ∨ r.pred.op = .isNotNull
  · have hst : ¬ Straddled π rows r := by
      apply not_straddled_of_displaced
      intro T _ toD roundTo lo hi hd
      rcases hnull with h | h <;> simp [Displaced, h] at hd
    have hhid : ¬ HiddenEmpty rows r := by
      rintro ⟨hop, -⟩
      rcases hnull with h | h <;> simp [h] at hop
    have hmay : predMayMatch π s (writeFilterSummary .zero rows) r = true := by
      unfold predMayMatch
      rcases hnull with h | h <;> simp [h]
    simp [hst, hhid, hmay]
  · obtain ⟨h₁, h₂⟩ := not_or.mp hnull
    have hstep : predMayMatch π s (writeFilterSummary .zero rows) r =
        columnMayMatch (writeFilterSummary .zero rows) r.col r.pred col.type := by
      simp [predMayMatch, h₁, h₂, hgeo, hcol]
    rw [hstep]
    by_cases hnum : col.type.isNumeric = true
    · have hhid : ¬ HiddenEmpty rows r := by
        intro h
        have htype := h.type
        simp only [hcol, Option.map_some, Option.some.injEq] at htype
        simp [htype, ColumnType.isNumeric] at hnum
      have hentry : entryOf (writeFilterSummary Summary.zero rows).numeric r.col =
          some (columnRange rows r.col) := entryOf_numeric_write hs hcol hnum
      have hcm : columnMayMatch (writeFilterSummary .zero rows) r.col r.pred col.type =
          rangeMayMatch (columnRange rows r.col) r.pred := by
        cases hty : col.type <;> simp_all [columnMayMatch, ColumnType.isNumeric]
      rw [hcm, numeric_mayMatch_iff π hrow hcol hnum h₁ h₂ hpass]
      simp [hhid]
    · have hst : ¬ Straddled π rows r := by
        unfold Straddled
        rw [hcol]
        cases hty : col.type <;> simp_all [ColumnType.isNumeric]
      cases hget : row.get r.col with
      | none =>
        rw [hget] at hpass
        simp [evalPredicate, h₁] at hpass
      | some v =>
        have htype := row.type_get hcol hget
        have hmem : v ∈ columnCells rows r.col := mem_columnCells.mpr ⟨row, hrow, hget⟩
        rw [hget] at hpass
        simp only [evalPredicate, beq_iff_eq, h₁, h₂, if_false] at hpass
        have hhid : col.type ≠ .string → ¬ HiddenEmpty rows r := by
          rintro hne ⟨-, htype', -⟩
          simp only [hcol, Option.map_some, Option.some.injEq] at htype'
          exact hne htype'
        cases v with
        | int32 v => simp [← htype, Cell.type, ColumnType.isNumeric] at hnum
        | int64 v => simp [← htype, Cell.type, ColumnType.isNumeric] at hnum
        | float v => simp [← htype, Cell.type, ColumnType.isNumeric] at hnum
        | bool v =>
          have := hhid (by simp [← htype, Cell.type])
          simp [← htype, Cell.type, columnMayMatch, hst, this]
        | string sv =>
          have hentry : entryOf (writeFilterSummary Summary.zero rows).strings r.col =
              some (writeBloom 0 (stringHashes rows r.col)) :=
            entryOf_strings_write hs hcol htype.symm
          simp only [← htype, Cell.type, columnMayMatch, hentry, Option.getD_some,
            string_mayMatch_iff hrow hcol hget hpass, hst, not_false_eq_true, true_and]
        | set elems =>
          have hentry : entryOf (writeFilterSummary Summary.zero rows).sets r.col =
              some (writeBloom 0 (setHashes rows r.col)) := entryOf_sets_write hs hcol htype.symm
          have := hhid (by simp [← htype, Cell.type])
          simp only [← htype, Cell.type, columnMayMatch, hentry, Option.getD_some, hst, this,
            not_false_eq_true, true_and, iff_true]
          exact setMayMatch_of_eval
            (fun q hq => bloomCheck_writeBloom (mem_setHashes hmem hq)) hpass

lemma summaryMayMatch_iff {sum : Summary} {rs : List Resolved} (hne : s.columns ≠ []) :
    summaryMayMatch π s sum rs = true ↔ ∀ r ∈ rs, predMayMatch π s sum r = true := by
  have hsize : s.summarySize ≠ 0 := by
    simp [Schema.summarySize, hne]
  unfold summaryMayMatch
  cases rs with
  | nil => simp
  | cons r rs => simp [hsize]

/-- **When pruning by a fresh leaf summary loses no row.** Where one byte tells the columns apart,
it loses none exactly when no row of the leaf passes, or no predicate has an extreme stored value
between its comparand and the cast of it, nor hides an empty string from an `In` list. -/
theorem summary_prunes_no_row_iff (hs : s.Addressable) {preds : List Predicate} {rs : List Resolved}
    (hres : resolvePredColumns s preds = .ok rs) (hgeo : ∀ p ∈ preds, p.op.isGeo = false)
    (rows : List (FilterRow s)) :
    ((∃ row ∈ rows, evalAllPredicates π row rs = true) →
        summaryMayMatch π s (writeFilterSummary .zero rows) rs = true) ↔
      (∀ row ∈ rows, evalAllPredicates π row rs = false) ∨
        ∀ r ∈ rs, ¬ Straddled π rows r ∧ ¬ HiddenEmpty rows r := by
  have hfit := resolvePredColumns_fits hres
  -- with a passing row, both sides come down to the predicates one by one
  have hrow : ∀ row ∈ rows, evalAllPredicates π row rs = true →
      (summaryMayMatch π s (writeFilterSummary .zero rows) rs = true ↔
        ∀ r ∈ rs, ¬ Straddled π rows r ∧ ¬ HiddenEmpty rows r) := by
    intro row hrow hpass
    have hone : ∀ r ∈ rs, (predMayMatch π s (writeFilterSummary .zero rows) r = true ↔
        ¬ Straddled π rows r ∧ ¬ HiddenEmpty rows r) := fun r hr =>
      predMayMatch_iff π hs (hfit r hr).1 (hgeo _ (hfit r hr).2) hrow
        (List.all_eq_true.mp hpass r hr)
    cases rs with
    | nil => simp [summaryMayMatch]
    | cons r rs =>
      have hcols : s.columns ≠ [] := by
        obtain ⟨col, hcol, -⟩ := (hfit r (by simp)).1
        intro hnil
        simp [hnil] at hcol
      rw [summaryMayMatch_iff π hcols]
      exact forall₂_congr hone
  constructor
  · intro h
    by_cases hex : ∃ row ∈ rows, evalAllPredicates π row rs = true
    · obtain ⟨row, hmem, hpass⟩ := hex
      exact Or.inr ((hrow row hmem hpass).mp (h ⟨row, hmem, hpass⟩))
    · left
      intro row hmem
      exact Bool.eq_false_iff.mpr fun hpass => hex ⟨row, hmem, hpass⟩
  · rintro (hnone | hall) ⟨row, hmem, hpass⟩
    · rw [hnone row hmem] at hpass
      cases hpass
    · exact (hrow row hmem hpass).mpr hall

end Pruning

section Examples

/-- A target on which nothing below depends: the open cases saturate. -/
def saturating : Platform where
  llroundOut d := if d < 0 then Int64.minValue else Int64.maxValue
  floatOut d := if d < 0 then -(2 ^ 128) else 2 ^ 128
  stod _ := none
  cosDeg _ := 1
  haversineKm _ _ _ _ := 0

def intSchema : Schema := { columns := [{ name := "n", type := .int32 }] }

lemma intSchema_addressable : intSchema.Addressable := by decide

/-- The row with `n = 3`. -/
def threeRow : FilterRow intSchema := ⟨[some (.int32 3)], by decide⟩

def eqPred (v : ℚ) : Predicate := { column := "n", op := .eq, value := v }

/-- The predicate `n = 3` keeps its row. -/
theorem summary_prunes_no_row_three :
    resolvePredColumns intSchema [eqPred 3] = .ok [⟨eqPred 3, 0, none⟩] ∧
      summaryMayMatch saturating intSchema (writeFilterSummary .zero [threeRow])
        [⟨eqPred 3, 0, none⟩] = true := by
  refine ⟨rfl, ?_⟩
  refine (@summary_prunes_no_row_iff intSchema saturating intSchema_addressable [eqPred 3] _ rfl
    (by decide) [threeRow]).mpr (Or.inr ?_) ⟨threeRow, by simp, by decide +kernel⟩
  intro r hr
  obtain rfl := List.mem_singleton.mp hr
  refine ⟨?_, fun h => by cases h.op⟩
  rintro ⟨lo, hi, hext, hd⟩
  have hlo : lo = 3 := List.mem_singleton.mp hext.lo_mem
  have hhi : hi = 3 := List.mem_singleton.mp hext.hi_mem
  subst hlo hhi
  simp [Displaced, eqPred] at hd

/-- The predicate `n = 2.5` is cast to `n = 3` for the row and left as it is for the
summary, which rules the leaf out. -/
theorem summary_prunes_row_at_half :
    resolvePredColumns intSchema [eqPred 2.5] = .ok [⟨eqPred 2.5, 0, none⟩] ∧
      (∀ p ∈ [eqPred 2.5], p.op.isGeo = false) ∧
      evalAllPredicates saturating threeRow [⟨eqPred 2.5, 0, none⟩] = true ∧
      summaryMayMatch saturating intSchema (writeFilterSummary .zero [threeRow])
        [⟨eqPred 2.5, 0, none⟩] = false := by
  refine ⟨rfl, by decide, by decide +kernel, by decide +kernel⟩

end Examples

end SextantTree
