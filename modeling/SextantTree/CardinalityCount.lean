import SextantTree.CardinalityFold

/-!
How often each value was added, read off a column of the cardinality table.
-/

namespace SextantTree.Cardinality

open SatCounter FilterHash CardinalityTable

variable {A : CardinalityPlatform} {s : Schema} {spec : Option CardinalitySpec}
  {col dst src : ColumnCardinality} {t : CardinalityTable}

/-! Hashes. -/

/-- The count under a hash, `0` without one. -/
def freqCount (col : ColumnCardinality) (h : UInt32) : ℕ :=
  (col.freq.lookup h).elim 0 UInt32.toNat

@[simp] lemma counter32_val (c : UInt32) : counter32.val c = c.toNat := rfl
@[simp] lemma counter32_top : counter32.top = 2 ^ 32 - 1 := rfl

lemma lookup_isSome {α β : Type} [BEq α] [LawfulBEq α] {es : List (α × β)} {h : α} :
    (es.lookup h).isSome = true ↔ h ∈ es.map (·.1) := by
  induction es with
  | nil => simp
  | cons e es ih =>
    rw [List.lookup_cons]
    by_cases he : h = e.1
    · simp [he]
    · have : (h == e.1) = false := by simpa using he
      simp only [this, List.map_cons, List.mem_cons, he, false_or]
      exact ih

lemma countOf_eq_lookup {es : List (UInt32 × UInt32)} (hnd : (es.map (·.1)).Nodup) (h : UInt32) :
    counter32.countOf id es h = (es.lookup h).elim 0 UInt32.toNat := by
  induction es with
  | nil => rfl
  | cons e es ih =>
    obtain ⟨hnot, hnd⟩ := List.nodup_cons.1 hnd
    rw [countOf_cons, List.lookup_cons, id]
    by_cases he : h = e.1
    · subst he
      have hzero : counter32.countOf id es e.1 = 0 :=
        countOf_eq_zero fun x hx heq => hnot (List.mem_map.2 ⟨x, hx, heq⟩)
      simp [hzero]
    · have hb : (h == e.1) = false := by simpa using he
      rw [if_neg (Ne.symm he), ih hnd, Nat.zero_add]
      simp [hb]

lemma countOf_le_top {es : List (UInt32 × UInt32)} (hnd : (es.map (·.1)).Nodup) (h : UInt32) :
    counter32.countOf id es h ≤ counter32.top := by
  rw [countOf_eq_lookup hnd]
  cases es.lookup h with
  | none => exact Nat.zero_le _
  | some n =>
    have := n.toNat_lt
    change n.toNat ≤ 2 ^ 32 - 1
    omega

lemma counts_bump {es : List (UInt32 × UInt32)} {h : UInt32} (c : UInt32)
    (hnd : (es.map (·.1)).Nodup) (hmem : h ∈ es.map (·.1)) :
    counter32.Counts id es h (counter32.val c)
      (es.map fun e => if e.1 = h then (e.1, satAdd e.2 c) else e) := by
  induction es with
  | nil => simp at hmem
  | cons e es ih =>
    obtain ⟨hnot, hnd⟩ := List.nodup_cons.1 hnd
    rw [List.map_cons]
    by_cases he : e.1 = h
    · subst he
      have hsame : (es.map fun d => if d.1 = e.1 then (d.1, satAdd d.2 c) else d) = es := by
        refine (List.map_congr_left fun d hd => ?_).trans (List.map_id es)
        exact if_neg fun heq => hnot (List.mem_map.2 ⟨d, hd, heq⟩)
      rw [hsame, if_pos rfl]
      exact counts_head rfl
        (countOf_eq_zero fun d hd heq => hnot (List.mem_map.2 ⟨d, hd, heq⟩)) c
    · rw [if_neg he]
      exact (ih hnd (by simpa [Ne.symm he] using hmem)).cons he

lemma overflowed_freqAdd {cap : ℕ} {h c : UInt32}
    (hover : (freqAdd cap col h c).overflowed = false) : col.overflowed = false := by
  unfold freqAdd at hover
  split_ifs at hover
  · exact hover
  · exact hover

lemma freqAdd_spec {cap : ℕ} {h c : UInt32} (hnd : (col.freq.map (·.1)).Nodup)
    (hover : (freqAdd cap col h c).overflowed = false) :
    ((freqAdd cap col h c).freq.map (·.1)).Nodup ∧
      counter32.Counts id col.freq h c.toNat (freqAdd cap col h c).freq := by
  unfold freqAdd at hover ⊢
  split_ifs at hover ⊢ with hmem hroom
  · refine ⟨?_, counts_bump c hnd (lookup_isSome.1 hmem)⟩
    have hkeys : ∀ es : List (UInt32 × UInt32),
        (es.map fun e => if e.1 = h then (e.1, satAdd e.2 c) else e).map (·.1)
          = es.map (·.1) := by
      intro es
      rw [List.map_map]
      refine List.map_congr_left fun e _ => ?_
      simp only [Function.comp_apply]
      split_ifs <;> rfl
    simpa only [hkeys] using hnd
  · have hnot : h ∉ col.freq.map (·.1) := fun hm => hmem (lookup_isSome.2 hm)
    refine ⟨?_, fun x => ?_⟩
    · simp only [List.map_append, List.map_cons, List.map_nil]
      exact List.nodup_append.2 ⟨hnd, by simp, by
        intro a ha b hb
        obtain rfl := List.mem_singleton.1 hb
        rintro rfl
        exact hnot ha⟩
    · rw [countOf_append, countOf_cons]
      by_cases hx : x = h
      · subst hx
        have hzero : counter32.countOf id col.freq x = 0 :=
          countOf_eq_zero fun e he heq => hnot (List.mem_map.2 ⟨e, he, heq⟩)
        have hc := c.toNat_lt
        rw [if_pos rfl, hzero]
        simp only [id, if_true, countOf_nil, counter32_val, counter32_top]
        omega
      · simp [hx, Ne.symm hx]

lemma foldl_freqAdd_spec {ι : Type} {f : ColumnCardinality → ι → ColumnCardinality} {cap : ℕ}
    {hash count : ι → UInt32}
    (hfreq : ∀ col x, (f col x).freq = (freqAdd cap col (hash x) (count x)).freq)
    (hflag : ∀ col x, (f col x).overflowed = (freqAdd cap col (hash x) (count x)).overflowed)
    (xs : List ι) (hnd : (col.freq.map (·.1)).Nodup)
    (hover : (xs.foldl f col).overflowed = false) :
    col.overflowed = false ∧ ((xs.foldl f col).freq.map (·.1)).Nodup ∧
      ∀ h, counter32.countOf id (xs.foldl f col).freq h
        = min (counter32.countOf id col.freq h
            + counter32.countOf id (xs.map fun x => (hash x, count x)) h) counter32.top := by
  induction xs using List.reverseRecOn with
  | nil =>
    refine ⟨hover, hnd, fun h => ?_⟩
    have := countOf_le_top hnd h
    simp only [List.foldl_nil, List.map_nil, countOf_nil]
    omega
  | append_singleton xs x ih =>
    rw [List.foldl_append, List.foldl_cons, List.foldl_nil] at hover ⊢
    rw [hflag] at hover
    obtain ⟨hcol, hnd', hcount⟩ := ih (overflowed_freqAdd hover)
    obtain ⟨hnd'', hadd⟩ := freqAdd_spec hnd' hover
    refine ⟨hcol, by rw [hfreq]; exact hnd'', fun h => ?_⟩
    rw [hfreq, hadd h, hcount h, List.map_append, countOf_append, List.map_cons, countOf_cons]
    by_cases hx : h = hash x
    · subst hx
      simp only [if_true, id, List.map_nil, countOf_nil, counter32_val]
      omega
    · have hx' : ¬ id (hash x, count x).1 = h := Ne.symm hx
      rw [if_neg hx, if_neg hx']
      simp

lemma addHashes_spec (hmode : col.mode.counts = true) (cap : ℕ) (hs : List UInt32)
    (hnd : (col.freq.map (·.1)).Nodup) (hover : (addHashes cap hs col).overflowed = false) :
    col.overflowed = false ∧ ((addHashes cap hs col).freq.map (·.1)).Nodup ∧
      ∀ h, counter32.countOf id (addHashes cap hs col).freq h
        = min (counter32.countOf id col.freq h + hs.count h) counter32.top := by
  unfold addHashes at hover ⊢
  rw [if_pos hmode] at hover ⊢
  have hfree : ∀ (col : ColumnCardinality) (h c : UInt32) (hll : List UInt8),
      (freqAdd cap { col with hll := hll } h c).freq = (freqAdd cap col h c).freq ∧
        (freqAdd cap { col with hll := hll } h c).overflowed
          = (freqAdd cap col h c).overflowed := by
    intro col h c hll
    unfold freqAdd
    split_ifs <;> exact ⟨rfl, rfl⟩
  obtain ⟨hcol, hnd', hcount⟩ := foldl_freqAdd_spec (f := addHash cap)
    (fun col h => (hfree col h 1 _).1)
    (fun col h => (hfree col h 1 _).2) hs (by exact hnd) hover
  refine ⟨hcol, hnd', fun h => ?_⟩
  rw [hcount h]
  have hones : counter32.countOf id (hs.map fun x => (x, (1 : UInt32))) h = hs.count h := by
    clear hover hcol hnd' hcount
    induction hs with
    | nil => rfl
    | cons x hs ih =>
      rw [List.map_cons, countOf_cons, ih, List.count_cons, Nat.add_comm]
      simp
  rw [hones]

lemma addHashes_keeps (cap : ℕ) (hs : List UInt32) :
    (addHashes cap hs col).numericHist = col.numericHist ∧
      (addHashes cap hs col).bins = col.bins ∧ (addHashes cap hs col).binTotal = col.binTotal ∧
      (addHashes cap hs col).binned = col.binned ∧ (addHashes cap hs col).mode = col.mode ∧
      ((addHashes cap hs col).overflowed = false → col.overflowed = false) := by
  unfold addHashes
  split_ifs
  · induction hs using List.reverseRecOn with
    | nil => exact ⟨rfl, rfl, rfl, rfl, rfl, id⟩
    | append_singleton hs h ih =>
      rw [List.foldl_append, List.foldl_cons, List.foldl_nil]
      generalize hs.foldl (addHash cap) { col with adds := col.adds + 1 } = col' at ih ⊢
      unfold addHash freqAdd
      split_ifs
      · exact ih
      · exact ih
      · exact ⟨ih.1, ih.2.1, ih.2.2.1, ih.2.2.2.1, ih.2.2.2.2.1, fun hf => by cases hf⟩
  · exact ⟨rfl, rfl, rfl, rfl, rfl, id⟩

/-! Numbers. -/

/-- The count under a value; `none` stands for the NaNs. -/
def histCount (col : ColumnCardinality) (k : Option ℤ) : ℕ :=
  counter32.countOf Double.key col.numericHist k

/-- A map of numbers that are in the order, each once. -/
def Orderly (h : List (UInt64 × UInt32)) : Prop :=
  (∀ e ∈ h, Double.key e.1 ≠ none) ∧ h.Pairwise fun a b => Double.lt a.1 b.1 = true

/-- A map that holds a NaN, which every other number is the same as. -/
def Nans (h : List (UInt64 × UInt32)) : Prop :=
  ∃ v n, h = [(v, n)] ∧ Double.key v = none

lemma lt_iff {a b : UInt64} :
    Double.lt a b = true ↔ ∃ x y, Double.key a = some x ∧ Double.key b = some y ∧ x < y := by
  unfold Double.lt
  split <;> simp_all

lemma lt_eq_false_of_none {a b : UInt64} (h : Double.key a = none ∨ Double.key b = none) :
    Double.lt a b = false := by
  rw [← Bool.not_eq_true, lt_iff]
  rintro ⟨x, y, hx, hy, -⟩
  rcases h with h | h <;> simp_all

lemma histAdd_nan {h : List (UInt64 × UInt32)} {v : UInt64} (c : UInt32)
    (hnan : Nans h ∨ Double.key v = none) :
    histAdd h v c = match h with
      | [] => [(v, c)]
      | (k, n) :: rest => (k, satAdd n c) :: rest := by
  cases h with
  | nil => rfl
  | cons e rest =>
    have hnone : Double.key e.1 = none ∨ Double.key v = none := by
      refine hnan.imp_left ?_
      rintro ⟨w, n, hw, hkey⟩
      obtain rfl := (List.cons.inj hw).1
      exact hkey
    simp [histAdd, lt_eq_false_of_none hnone, lt_eq_false_of_none hnone.symm]

lemma mem_histAdd {h : List (UInt64 × UInt32)} {v : UInt64} {c : UInt32} {e : UInt64 × UInt32}
    (he : e ∈ histAdd h v c) : e.1 = v ∨ ∃ d ∈ h, d.1 = e.1 := by
  induction h with
  | nil =>
    obtain rfl := List.mem_singleton.1 he
    exact .inl rfl
  | cons d rest ih =>
    simp only [histAdd] at he
    split_ifs at he
    · rcases List.mem_cons.1 he with rfl | he
      · exact .inr ⟨_, List.mem_cons_self, rfl⟩
      · refine (ih he).imp_right ?_
        rintro ⟨d', hd', heq⟩
        exact ⟨d', List.mem_cons_of_mem d hd', heq⟩
    · rcases List.mem_cons.1 he with rfl | he
      · exact .inl rfl
      · exact .inr ⟨e, he, rfl⟩
    · rcases List.mem_cons.1 he with rfl | he
      · exact .inr ⟨_, List.mem_cons_self, rfl⟩
      · exact .inr ⟨e, List.mem_cons_of_mem d he, rfl⟩

lemma val_le_top (c : UInt32) : counter32.val c ≤ counter32.top := by
  have := c.toNat_lt
  rw [counter32_val, counter32_top]
  omega

lemma Orderly.above {e : UInt64 × UInt32} {rest : List (UInt64 × UInt32)} {y : ℤ}
    (h : Orderly (e :: rest)) (hy : Double.key e.1 = some y) :
    ∀ d ∈ rest, ∃ z, Double.key d.1 = some z ∧ y < z := by
  intro d hd
  obtain ⟨y', z, hy', hz, hlt⟩ := lt_iff.1 ((List.pairwise_cons.1 h.2).1 d hd)
  rw [hy] at hy'
  obtain rfl := Option.some.inj hy'
  exact ⟨z, hz, hlt⟩

lemma Orderly.tail {e : UInt64 × UInt32} {rest : List (UInt64 × UInt32)}
    (h : Orderly (e :: rest)) : Orderly rest :=
  ⟨fun d hd => h.1 d (List.mem_cons_of_mem e hd), (List.pairwise_cons.1 h.2).2⟩

lemma Orderly.countOf_eq_zero {h : List (UInt64 × UInt32)} {x : ℤ}
    (hbelow : ∀ d ∈ h, ∃ z, Double.key d.1 = some z ∧ x < z) :
    counter32.countOf Double.key h (some x) = 0 := by
  refine SatCounter.countOf_eq_zero fun d hd heq => ?_
  obtain ⟨z, hz, hlt⟩ := hbelow d hd
  rw [hz] at heq
  have := Option.some.inj heq
  omega

lemma orderly_histAdd {h : List (UInt64 × UInt32)} {v : UInt64} {x : ℤ} (c : UInt32)
    (ho : Orderly h) (hx : Double.key v = some x) :
    Orderly (histAdd h v c) ∧
      counter32.Counts Double.key h (some x) (counter32.val c) (histAdd h v c) := by
  have hv : Double.key v ≠ none := by
    rw [hx]
    simp
  induction h with
  | nil =>
    refine ⟨⟨fun d hd => ?_, by simp [histAdd]⟩, counts_new hx rfl (val_le_top c)⟩
    obtain rfl := List.mem_singleton.1 hd
    exact hv
  | cons e rest ih =>
    obtain ⟨y, hy⟩ := Option.ne_none_iff_exists'.1 (ho.1 e List.mem_cons_self)
    have habove := ho.above hy
    have hfirst := (List.pairwise_cons.1 ho.2).1
    simp only [histAdd]
    split_ifs with hlt hgt
    · -- it belongs further on
      obtain ⟨⟨hk, hs⟩, hcount⟩ := ih ho.tail
      refine ⟨⟨?_, List.pairwise_cons.2 ⟨fun d hd => ?_, hs⟩⟩, hcount.cons ?_⟩
      · rintro d hd
        rcases List.mem_cons.1 hd with rfl | hd
        · exact ho.1 _ List.mem_cons_self
        · exact hk d hd
      · rcases mem_histAdd hd with heq | ⟨d', hd', heq⟩
        · rw [heq]
          exact hlt
        · rw [← heq]
          exact hfirst d' hd'
      · obtain ⟨y', x', hy', hx', hxy⟩ := lt_iff.1 hlt
        rw [hy']
        rw [hx] at hx'
        rintro ⟨⟩
        obtain rfl := Option.some.inj hx'
        exact lt_irrefl _ hxy
    · -- it belongs in front
      obtain ⟨x', y', hx', hy', hxy⟩ := lt_iff.1 hgt
      have hbelow : ∀ d ∈ e :: rest, ∃ z, Double.key d.1 = some z ∧ x < z := by
        rw [hx] at hx'
        obtain rfl := Option.some.inj hx'
        intro d hd
        rcases List.mem_cons.1 hd with rfl | hd
        · exact ⟨y', hy', hxy⟩
        · obtain ⟨z, hz, hyz⟩ := habove d hd
          rw [hy] at hy'
          obtain rfl := Option.some.inj hy'
          exact ⟨z, hz, by omega⟩
      refine ⟨⟨?_, List.pairwise_cons.2 ⟨fun d hd => ?_, ho.2⟩⟩,
        counts_new hx (Orderly.countOf_eq_zero hbelow) (val_le_top c)⟩
      · rintro d hd
        rcases List.mem_cons.1 hd with rfl | hd
        · exact hv
        · exact ho.1 d hd
      · obtain ⟨z, hz, hxz⟩ := hbelow d hd
        exact lt_iff.2 ⟨x, z, hx, hz, hxz⟩
    · -- neither is below the other
      have hsame : x = y := by
        rw [lt_iff] at hlt hgt
        push Not at hlt hgt
        have := hlt y x hy hx
        have := hgt x y hx hy
        omega
      subst hsame
      refine ⟨⟨?_, List.pairwise_cons.2 ⟨hfirst, ho.tail.2⟩⟩,
        counts_head hy (Orderly.countOf_eq_zero habove) c⟩
      rintro d hd
      rcases List.mem_cons.1 hd with rfl | hd
      · exact ho.1 e List.mem_cons_self
      · exact ho.tail.1 d hd

/-- A histogram of one kind of numbers, those that are in the order or the NaNs. -/
def OfKind (g : Bool) (h : List (UInt64 × UInt32)) : Prop :=
  if g then Orderly h else h = [] ∨ Nans h

lemma ofKind_nil (g : Bool) : OfKind g [] := by
  cases g with
  | true => exact ⟨by simp, by simp⟩
  | false => exact .inl rfl

lemma OfKind.key {g : Bool} {h : List (UInt64 × UInt32)} (ho : OfKind g h) :
    ∀ e ∈ h, (Double.key e.1).isSome = g := by
  cases g with
  | true =>
    intro e he
    exact Option.isSome_iff_ne_none.2 (ho.1 e he)
  | false =>
    rintro e he
    rcases ho with rfl | ⟨v, n, rfl, hv⟩
    · simp at he
    · obtain rfl := List.mem_singleton.1 he
      simp [hv]

lemma ofKind_histAdd {g : Bool} {h : List (UInt64 × UInt32)} {v : UInt64} (c : UInt32)
    (ho : OfKind g h) (hv : (Double.key v).isSome = g) :
    OfKind g (histAdd h v c) ∧
      counter32.Counts Double.key h (Double.key v) (counter32.val c) (histAdd h v c) := by
  cases g with
  | true =>
    obtain ⟨x, hx⟩ := Option.isSome_iff_exists.1 hv
    rw [hx]
    exact orderly_histAdd c ho hx
  | false =>
    have hnone : Double.key v = none := by simpa using hv
    rw [hnone]
    rcases ho with rfl | ⟨w, n, rfl, hw⟩
    · exact ⟨.inr ⟨v, c, rfl, hnone⟩, counts_new hnone rfl (val_le_top c)⟩
    · rw [histAdd_nan c (.inr hnone)]
      exact ⟨.inr ⟨w, satAdd n c, rfl, hw⟩, counts_head hw rfl c⟩

lemma ofKind_histMerge {g : Bool} {h h' : List (UInt64 × UInt32)} (ho : OfKind g h)
    (ho' : OfKind g h') (htop : ∀ k, counter32.countOf Double.key h k ≤ counter32.top) :
    OfKind g (histMerge h h') ∧ ∀ k, counter32.countOf Double.key (histMerge h h') k
      = min (counter32.countOf Double.key h k + counter32.countOf Double.key h' k)
          counter32.top :=
  countOf_foldl (P := OfKind g) (f := fun h e => histAdd h e.1 e.2) h'
    (fun _ e he ho => ofKind_histAdd e.2 ho (ho'.key e he)) ho htop

/-- The numbers of a histogram that was fed with both kinds: one kind only. -/
def Unmixed (h : List (UInt64 × UInt32)) : Prop := Orderly h ∨ Nans h

lemma unmixed_histAdd {h : List (UInt64 × UInt32)} (v : UInt64) (c : UInt32) (hu : Unmixed h) :
    Unmixed (histAdd h v c) := by
  rcases hu with ho | hn
  · cases hv : Double.key v with
    | some x => exact .inl (orderly_histAdd c ho hv).1
    | none =>
      rw [histAdd_nan c (.inr hv)]
      cases h with
      | nil => exact .inr ⟨v, c, rfl, hv⟩
      | cons e rest =>
        -- the NaN goes to the first key
        refine .inl ⟨fun d hd => ?_, List.pairwise_cons.2 (List.pairwise_cons.1 ho.2)⟩
        rcases List.mem_cons.1 hd with rfl | hd
        · exact ho.1 e List.mem_cons_self
        · exact ho.1 d (List.mem_cons_of_mem e hd)
  · rw [histAdd_nan c (.inl hn)]
    obtain ⟨w, n, rfl, hw⟩ := hn
    exact .inr ⟨w, satAdd n c, rfl, hw⟩

lemma unmixed_histMerge {h : List (UInt64 × UInt32)} (h' : List (UInt64 × UInt32))
    (hu : Unmixed h) : Unmixed (histMerge h h') := by
  unfold histMerge
  induction h' generalizing h with
  | nil => exact hu
  | cons e rest ih => exact ih (unmixed_histAdd e.1 e.2 hu)

/-! Folded columns. -/

lemma evaluateColumn_of_counts (h : (evaluateColumn A col).mode.counts = true) :
    ∃ mode, evaluateColumn A col = { col with mode := mode } := by
  unfold evaluateColumn at h ⊢
  by_cases hwait : col.mode ≠ .auto ∨ col.adds.toNat < kCardinalitySample
  · rw [if_pos hwait]
    exact ⟨col.mode, rfl⟩
  · rw [if_neg hwait] at h ⊢
    generalize (if col.isNumeric then
        A.ofNat (if col.binned then Nat.min col.binTotal.toNat col.adds.toNat
          else col.numericHist.length)
      else distinctEstimate A col) = distinct at h ⊢
    dsimp only at h ⊢
    split_ifs at h ⊢
    · cases h
    · exact ⟨.on, rfl⟩

lemma mergeHashes_spec (cap : ℕ) (hnd : (dst.freq.map (·.1)).Nodup)
    (hover : (mergeHashes A cap dst src).overflowed = false) :
    dst.overflowed = false ∧ src.overflowed = false ∧
      ((mergeHashes A cap dst src).freq.map (·.1)).Nodup ∧
      ∀ h, counter32.countOf id (mergeHashes A cap dst src).freq h
        = min (counter32.countOf id dst.freq h + counter32.countOf id src.freq h)
            counter32.top := by
  unfold mergeHashes at hover ⊢
  obtain ⟨hflag, hnd', hcount⟩ := foldl_freqAdd_spec
    (f := fun col e => freqAdd cap col e.1 e.2)
    (fun _ _ => rfl) (fun _ _ => rfl) (A.walk src.freq)
    (by exact hnd) hover
  rw [Bool.or_eq_false_iff] at hflag
  refine ⟨hflag.1, hflag.2, hnd', fun h => ?_⟩
  rw [hcount h, List.map_id'' (fun _ => rfl), countOf_perm (A.walk_perm src.freq)]

lemma mergeHashes_keeps (cap : ℕ) :
    (mergeHashes A cap dst src).numericHist = dst.numericHist ∧
      (mergeHashes A cap dst src).bins = dst.bins ∧
      (mergeHashes A cap dst src).binTotal = dst.binTotal ∧
      (mergeHashes A cap dst src).binned = dst.binned ∧
      (mergeHashes A cap dst src).mode = dst.mode ∧
      ((mergeHashes A cap dst src).overflowed = false →
        dst.overflowed = false ∧ src.overflowed = false) := by
  unfold mergeHashes
  induction A.walk src.freq using List.reverseRecOn with
  | nil => exact ⟨rfl, rfl, rfl, rfl, rfl, by simp⟩
  | append_singleton es e ih =>
    rw [List.foldl_append, List.foldl_cons, List.foldl_nil]
    generalize es.foldl (fun col e => freqAdd cap col e.1 e.2)
      { dst with
        adds := dst.adds + src.adds
        overflowed := dst.overflowed || src.overflowed
        hll := hllUnion dst.hll src.hll } = col' at ih ⊢
    unfold freqAdd
    split_ifs
    · exact ih
    · exact ih
    · exact ⟨ih.1, ih.2.1, ih.2.2.1, ih.2.2.2.1, ih.2.2.2.2.1, fun hf => by cases hf⟩

end SextantTree.Cardinality
