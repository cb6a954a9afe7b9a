import SextantTree.Cardinality
import SextantTree.SaturatingCounts

/-!
What a column of the cardinality table has counted: every number that was added stands in its
histogram or in its bins, as long as no counter is at its top and no bins are merged into a column
without any numbers.
-/

namespace SextantTree.Cardinality

open SatCounter

variable {A : CardinalityPlatform} {col dst src : ColumnCardinality} {cap : ℕ} {v : UInt64}
  {c : UInt32}

lemma toNat_satAdd (a c : UInt32) : (satAdd a c).toNat = min (a.toNat + c.toNat) (2 ^ 32 - 1) := by
  have ha := a.toNat_lt
  have hc := c.toNat_lt
  have hmax : maxCount.toNat = 2 ^ 32 - 1 := rfl
  have hsub : (maxCount - a).toNat = 2 ^ 32 - 1 - a.toNat := by
    rw [UInt32.toNat_sub_of_le]
    · rfl
    · rw [UInt32.le_iff_toNat_le, hmax]
      omega
  unfold satAdd
  split_ifs with h
  · rw [UInt32.lt_iff_toNat_lt, hsub] at h
    omega
  · rw [UInt32.lt_iff_toNat_lt, hsub] at h
    rw [UInt32.toNat_add]
    omega

def counter32 : SatCounter UInt32 where
  top := 2 ^ 32 - 1
  val := UInt32.toNat
  add := satAdd
  val_add := toNat_satAdd

/-! Bins. -/

lemma length_addToBin (bins : List UInt32) (i : ℕ) (c : UInt32) :
    (addToBin bins i c).length = bins.length := by
  simp [addToBin]

lemma binIndex_lt (A : CardinalityPlatform) (f : UInt64) : binIndex A f < kCardinalityNumBins := by
  unfold binIndex
  dsimp only
  split_ifs with h
  · decide
  · omega

lemma gains_addToBin {bins : List UInt32} {i : ℕ} (hi : i < bins.length) (c : UInt32) :
    counter32.Gains bins [c] (addToBin bins i c) :=
  gains_modify hi c

lemma gains_zero (l : List UInt32) : counter32.Gains l [0] l := by
  refine ⟨?_, ?_, ?_⟩ <;> simp [counter32]

lemma map_getD_range {bins : List UInt32} (h : bins.length = kCardinalityNumBins) :
    (List.range kCardinalityNumBins).map (fun i => bins.getD i 0) = bins := by
  refine List.ext_getElem (by simp [h]) fun i hi _ => ?_
  have : i < bins.length := by simpa [h] using hi
  simp [this]

lemma total_zeros (n : ℕ) : counter32.total (List.replicate n 0) = 0 := by
  simp [total, counter32]

lemma gains_redistribute {place : ℕ → ℕ} {bins : List UInt32}
    (hplace : ∀ i, place i < kCardinalityNumBins) (h : bins.length = kCardinalityNumBins) :
    (redistribute place bins).length = kCardinalityNumBins ∧
      counter32.Gains bins [] (redistribute place bins) := by
  obtain ⟨hlen, hg⟩ := gains_foldl (S := counter32)
    (P := fun nb : List UInt32 => nb.length = kCardinalityNumBins)
    (f := fun nb i => if bins.getD i 0 = 0 then nb else addToBin nb (place i) (bins.getD i 0))
    (w := fun i => bins.getD i 0) (List.range kCardinalityNumBins)
    (fun nb i _ hnb => by
      by_cases hz : bins.getD i 0 = 0
      · simp only [hz]
        exact ⟨hnb, gains_zero nb⟩
      · simp only [if_neg hz]
        exact ⟨by rw [length_addToBin, hnb], gains_addToBin (by rw [hnb]; exact hplace i) _⟩)
    (s := List.replicate kCardinalityNumBins 0) List.length_replicate
  rw [map_getD_range h] at hg
  refine ⟨hlen, ?_, fun hf => hg.full (.inr (hf.resolve_right (not_full_nil counter32))), ?_⟩
  · have hle := hg.le
    rw [total_zeros, Nat.zero_add] at hle
    exact hle
  · intro hn
    have heq := hg.eq hn
    rw [total_zeros, Nat.zero_add] at heq
    exact heq

/-- A column with its bins in place, and their total where no bin stands at the top. -/
structure BinsOk (col : ColumnCardinality) : Prop where
  length : col.bins.length = kCardinalityNumBins
  total : ¬ counter32.Full col.bins → col.binTotal.toNat = counter32.total col.bins

lemma total_le_of_length (l : List UInt32) : counter32.total l ≤ l.length * (2 ^ 32 - 1) := by
  induction l with
  | nil => simp
  | cons a l ih =>
    have ha := a.toNat_lt
    simp only [total_cons, List.length_cons, Nat.succ_mul]
    have : counter32.val a = a.toNat := rfl
    omega

lemma rescaleBins_eq (h : col.bins.length = kCardinalityNumBins) (lo hi : UInt64) :
    ∃ bins, rescaleBins A col lo hi = { col with bins := bins, frameLo := lo, frameHi := hi } ∧
      bins.length = kCardinalityNumBins ∧ counter32.Gains col.bins [] bins := by
  unfold rescaleBins
  split_ifs
  · exact ⟨col.bins, rfl, h, .refl _⟩
  · obtain ⟨hlen, hg⟩ := gains_redistribute
      (fun i => binIndex_lt A _) h
    exact ⟨_, rfl, hlen, hg⟩

lemma extend_eq (extend : Bool) (h : col.bins.length = kCardinalityNumBins) (v : UInt64) :
    ∃ bins lo hi, (if extend then extendFrame A col v else col)
        = { col with bins := bins, frameLo := lo, frameHi := hi } ∧
      bins.length = kCardinalityNumBins ∧ counter32.Gains col.bins [] bins := by
  cases extend with
  | true =>
    obtain ⟨bins, hbins, hrest⟩ := rescaleBins_eq (A := A) h _ _
    exact ⟨bins, _, _, hbins, hrest⟩
  | false => exact ⟨col.bins, col.frameLo, col.frameHi, rfl, h, .refl _⟩

lemma binAdd_eq (h : col.bins.length = kCardinalityNumBins) (v : UInt64) (c : UInt32) :
    ∃ bins lo hi flo fhi,
      binAdd A col v c
        = { col with
            bins := bins
            binMin := lo
            binMax := hi
            frameLo := flo
            frameHi := fhi
            binTotal := col.binTotal + c.toUInt64 } ∧
      bins.length = kCardinalityNumBins ∧ counter32.Gains col.bins [c] bins := by
  have hne : col.bins ≠ [] := by
    intro hnil
    rw [hnil] at h
    exact absurd h (by decide)
  unfold binAdd startBins
  rw [if_neg hne]
  dsimp only
  have hgrown : { col with
      binMin := Double.min col.binMin v
      binMax := Double.max col.binMax v
      binTotal := col.binTotal + c.toUInt64 }.bins.length = kCardinalityNumBins := h
  obtain ⟨bins, lo, hi, hext, hlen, hg⟩ := extend_eq (A := A)
    (Double.lt v col.frameLo || Double.lt col.frameHi v) hgrown v
  rw [hext]
  dsimp only at hg ⊢
  have hidx : (if Double.lt lo hi then binIndex A (A.div (A.sub v lo) (A.sub hi lo)) else 0)
      < kCardinalityNumBins := by
    split_ifs
    · exact binIndex_lt A _
    · decide
  refine ⟨_, _, _, _, _, rfl, ?_, ?_⟩
  · rw [length_addToBin, hlen]
  · exact hg.trans (gains_addToBin (by rw [hlen]; exact hidx) c)

structure SameRest (col col' : ColumnCardinality) : Prop where
  freq : col'.freq = col.freq
  mode : col'.mode = col.mode
  isNumeric : col'.isNumeric = col.isNumeric
  est : col'.estDistinctStored = col.estDistinctStored

lemma SameRest.refl (col : ColumnCardinality) : SameRest col col := ⟨rfl, rfl, rfl, rfl⟩

lemma SameRest.trans {col col' col'' : ColumnCardinality} (h : SameRest col col')
    (h' : SameRest col' col'') : SameRest col col'' :=
  ⟨h'.freq.trans h.freq, h'.mode.trans h.mode, h'.isNumeric.trans h.isNumeric,
    h'.est.trans h.est⟩

structure OnlyBins (col col' : ColumnCardinality) : Prop extends SameRest col col' where
  numericHist : col'.numericHist = col.numericHist
  binned : col'.binned = col.binned
  overflowed : col'.overflowed = col.overflowed

lemma OnlyBins.refl (col : ColumnCardinality) : OnlyBins col col := ⟨.refl col, rfl, rfl, rfl⟩

lemma OnlyBins.trans {col col' col'' : ColumnCardinality} (h : OnlyBins col col')
    (h' : OnlyBins col' col'') : OnlyBins col col'' :=
  ⟨h.toSameRest.trans h'.toSameRest, h'.numericHist.trans h.numericHist,
    h'.binned.trans h.binned, h'.overflowed.trans h.overflowed⟩

lemma BinsOk.add (h : BinsOk col) (v : UInt64) (c : UInt32) :
    BinsOk (binAdd A col v c) ∧ counter32.Gains col.bins [c] (binAdd A col v c).bins ∧
      OnlyBins col (binAdd A col v c) := by
  obtain ⟨bins, lo, hi, flo, fhi, heq, hlen, hg⟩ := binAdd_eq (A := A) h.length v c
  rw [heq]
  refine ⟨⟨hlen, fun hn => ?_⟩, hg, ⟨rfl, rfl, rfl, rfl⟩, rfl, rfl, rfl⟩
  have hold := h.total fun hf => hn (hg.full (.inl hf))
  have hnew := hg.eq hn
  have hbound := total_le_of_length bins
  have hc : counter32.total [c] = c.toNat := by simp [counter32]
  rw [hlen] at hbound
  rw [hc] at hnew
  simp only [kCardinalityNumBins] at hbound
  change (col.binTotal + c.toUInt64).toNat = counter32.total bins
  rw [UInt64.toNat_add, UInt32.toNat_toUInt64, hold, ← hnew]
  omega

lemma BinsOk.foldl {ι : Type} {v : ι → UInt64} {count : ι → UInt32} (xs : List ι)
    (h : BinsOk col) {f : ColumnCardinality → ι → ColumnCardinality}
    (hf : ∀ col x, f col x = col ∧ count x = 0 ∨ f col x = binAdd A col (v x) (count x)) :
    BinsOk (xs.foldl f col) ∧ counter32.Gains col.bins (xs.map count) (xs.foldl f col).bins ∧
      OnlyBins col (xs.foldl f col) := by
  obtain ⟨⟨hok, hsame⟩, hg⟩ := gains_foldl (S := counter32)
    (P := fun col' => BinsOk col' ∧ OnlyBins col col') (f := f)
    (w := count) xs (s := col) (fun col' x _ hcol' => by
      rcases hf col' x with ⟨heq, hz⟩ | heq
      · rw [heq, hz]
        exact ⟨hcol', gains_zero _⟩
      · rw [heq]
        obtain ⟨hok, hg, hsame⟩ := hcol'.1.add (A := A) (v x) (count x)
        exact ⟨⟨hok, hcol'.2.trans hsame⟩, hg⟩)
    ⟨h, .refl col⟩
  exact ⟨hok, hg, hsame⟩

/-! Columns of numbers. -/

def counters (col : ColumnCardinality) : List UInt32 :=
  if col.binned then col.bins else col.numericHist.map (·.2)

/-- Once a column has gone over to bins, these are in place and the histogram is empty. -/
structure NumbersOk (col : ColumnCardinality) : Prop where
  bins : col.binned = true → BinsOk col
  hist : col.binned = true → col.numericHist = []
  overflowed : col.binned = true → col.overflowed = true

lemma counters_of_binned (h : col.binned = true) : counters col = col.bins := if_pos h

lemma counters_of_exact (h : col.binned = false) :
    counters col = col.numericHist.map (·.2) := by
  simp [counters, h]

lemma numericToBinned_spec (hb : col.binned = false) (hne : col.numericHist ≠ []) :
    NumbersOk (numericToBinned A col) ∧
      counter32.Gains (counters col) [] (counters (numericToBinned A col)) ∧
      (numericToBinned A col).binned = true ∧ (numericToBinned A col).overflowed = true ∧
      SameRest col (numericToBinned A col) := by
  unfold numericToBinned
  rw [if_neg hne]
  dsimp only
  have hstart : BinsOk
      { col with
        bins := List.replicate kCardinalityNumBins 0
        binMin := (col.numericHist.map (·.1)).headD 0
        binMax := (col.numericHist.map (·.1)).getLastD 0
        frameLo := (col.numericHist.map (·.1)).headD 0
        frameHi := (col.numericHist.map (·.1)).getLastD 0
        binTotal := 0 } :=
    ⟨List.length_replicate, fun _ => (total_zeros _).symm⟩
  obtain ⟨hok, hg, hsame⟩ := hstart.foldl (A := A) (v := fun e : UInt64 × UInt32 => e.1)
    (f := fun col e => binAdd A col e.1 e.2) col.numericHist
    fun _ _ => .inr rfl
  refine ⟨⟨fun _ => ⟨hok.length, hok.total⟩, fun _ => rfl, fun _ => rfl⟩, ?_, rfl, rfl,
    ⟨hsame.freq, hsame.mode, hsame.isNumeric, hsame.est⟩⟩
  rw [counters_of_exact hb, counters_of_binned rfl]
  dsimp only
  refine ⟨?_, fun hf => hg.full (.inr (hf.resolve_right (not_full_nil counter32))), ?_⟩
  · have hle := hg.le
    rw [total_zeros, Nat.zero_add] at hle
    exact hle
  · intro hn
    have heq := hg.eq hn
    rw [total_zeros, Nat.zero_add] at heq
    exact heq

lemma gains_histAdd (h : List (UInt64 × UInt32)) (v : UInt64) (c : UInt32) :
    counter32.Gains (h.map (·.2)) [c] ((histAdd h v c).map (·.2)) := by
  induction h with
  | nil => exact gains_new c []
  | cons e rest ih =>
    simp only [histAdd]
    split_ifs
    · exact ih.cons _
    · exact gains_new c _
    · exact gains_head _ c _

lemma histAdd_ne_nil (h : List (UInt64 × UInt32)) (v : UInt64) (c : UInt32) :
    histAdd h v c ≠ [] := by
  cases h with
  | nil => simp [histAdd]
  | cons e rest =>
    simp only [histAdd]
    split_ifs <;> simp

lemma gains_histMerge (dst src : List (UInt64 × UInt32)) :
    counter32.Gains (dst.map (·.2)) (src.map (·.2)) ((histMerge dst src).map (·.2)) :=
  (gains_foldl (S := counter32) (P := fun _ => True) (f := fun h e => histAdd h e.1 e.2)
    src
    (fun h e _ _ => ⟨trivial, gains_histAdd h e.1 e.2⟩) trivial).2

/-- What an operation on the numbers keeps of the rest. -/
structure Numbers (col col' : ColumnCardinality) : Prop extends SameRest col col' where
  ok : NumbersOk col'
  overflowed : col'.overflowed = false → col.overflowed = false

lemma overCap_spec (hb : col.binned = false) (hne : col.numericHist ≠ []) (q : Prop)
    [Decidable q] :
    Numbers col (if q then numericToBinned A col else col) ∧
      counter32.Gains (counters col) []
        (counters (if q then numericToBinned A col else col)) := by
  split_ifs
  · obtain ⟨hok, hg, hbin, hover, hrest⟩ := numericToBinned_spec (A := A) hb hne
    refine ⟨⟨hrest, hok, fun hf => ?_⟩, hg⟩
    rw [hover] at hf
    cases hf
  · refine ⟨⟨.refl col, ⟨?_, ?_, ?_⟩, fun hf => hf⟩, .refl _⟩ <;> simp [hb]

lemma addNumericColumn_spec (h : NumbersOk col) (hmode : col.mode.counts = true) (cap : ℕ)
    (v : UInt64) :
    Numbers col (addNumericColumn A cap v col) ∧
      counter32.Gains (counters col) [1] (counters (addNumericColumn A cap v col)) := by
  unfold addNumericColumn
  rw [if_pos hmode]
  dsimp only
  by_cases hb : col.binned = true
  · have hok := h.bins hb
    have hstart : BinsOk { col with adds := col.adds + 1 } := ⟨hok.length, hok.total⟩
    obtain ⟨hnew, hg, hsame⟩ := hstart.add (A := A) v 1
    have hbin := hsame.binned.trans hb
    rw [if_pos hb]
    have hrest : SameRest col (binAdd A { col with adds := col.adds + 1 } v 1) :=
      ⟨hsame.freq, hsame.mode, hsame.isNumeric, hsame.est⟩
    refine ⟨⟨hrest, ⟨fun _ => hnew, fun _ => ?_, fun _ => ?_⟩, fun hf => ?_⟩, ?_⟩
    · rw [hsame.numericHist]
      exact h.hist hb
    · rw [hsame.overflowed]
      exact h.overflowed hb
    · rw [hsame.overflowed] at hf
      exact hf
    · rw [counters_of_binned hb, counters_of_binned hbin]
      exact hg
  · have hb' : col.binned = false := by simpa using hb
    rw [if_neg hb]
    have hadded : { col with
        adds := col.adds + 1, numericHist := histAdd col.numericHist v 1 }.binned = false := hb'
    obtain ⟨hnum, hg⟩ := overCap_spec (A := A) hadded (histAdd_ne_nil _ _ _)
      (col.numericHist.length < (histAdd col.numericHist v 1).length ∧ cap ≠ 0 ∧
        cap < (histAdd col.numericHist v 1).length)
    have hrest := hnum.toSameRest
    refine ⟨⟨⟨hrest.freq, hrest.mode, hrest.isNumeric, hrest.est⟩, hnum.ok, hnum.overflowed⟩, ?_⟩
    have hadd := gains_histAdd col.numericHist v 1
    rw [← counters_of_exact hb'] at hadd
    rw [counters_of_exact hadded] at hg
    exact hadd.trans hg

/-- Bins of another column come into a column without any numbers of its own. -/
def Loses (dst src : ColumnCardinality) : Prop :=
  src.binned = true ∧ dst.binned = false ∧ dst.numericHist = []

instance (dst src : ColumnCardinality) : Decidable (Loses dst src) := by
  unfold Loses
  infer_instance

lemma mergeIntoBins_spec (h : NumbersOk dst) (hs : NumbersOk src) (hb : dst.binned = true) :
    Numbers dst (if src.binned then binsMerge A dst src
        else src.numericHist.foldl (fun col e => binAdd A col e.1 e.2) dst) ∧
      counter32.Gains (counters dst) (counters src)
        (counters (if src.binned then binsMerge A dst src
          else src.numericHist.foldl (fun col e => binAdd A col e.1 e.2) dst)) ∧
      (if src.binned then binsMerge A dst src
        else src.numericHist.foldl (fun col e => binAdd A col e.1 e.2) dst).binned = true := by
  have hwrap : ∀ {col : ColumnCardinality} {cs : List UInt32}, BinsOk col →
      counter32.Gains dst.bins cs col.bins → OnlyBins dst col →
      Numbers dst col ∧ counter32.Gains (counters dst) cs (counters col) ∧
        col.binned = true := by
    intro col cs hok hg hsame
    have hbin := hsame.binned.trans hb
    refine ⟨⟨hsame.toSameRest, ⟨fun _ => hok, fun _ => ?_, fun _ => ?_⟩, fun hf => ?_⟩, ?_, hbin⟩
    · rw [hsame.numericHist]
      exact h.hist hb
    · rw [hsame.overflowed]
      exact h.overflowed hb
    · rw [hsame.overflowed] at hf
      exact hf
    · rw [counters_of_binned hb, counters_of_binned hbin]
      exact hg
  by_cases hsb : src.binned = true
  · rw [if_pos hsb, counters_of_binned hsb]
    obtain ⟨hok, hg, hsame⟩ := (h.bins hb).foldl (A := A)
      (f := fun col b =>
        if src.bins.getD b 0 = 0 then col
        else binAdd A col (A.add src.binMin (A.mul (binMiddle A b) (A.sub src.binMax src.binMin)))
          (src.bins.getD b 0))
      (List.range kCardinalityNumBins) (fun col b => by
        by_cases hz : src.bins.getD b 0 = 0
        · exact .inl ⟨if_pos hz, hz⟩
        · exact .inr (if_neg hz))
    rw [map_getD_range (hs.bins hsb).length] at hg
    exact hwrap hok hg hsame
  · have hsb' : src.binned = false := by simpa using hsb
    rw [if_neg hsb, counters_of_exact hsb']
    obtain ⟨hok, hg, hsame⟩ := (h.bins hb).foldl (A := A)
      (v := fun e : UInt64 × UInt32 => e.1)
      (f := fun col e => binAdd A col e.1 e.2) src.numericHist fun _ _ => .inr rfl
    exact hwrap hok hg hsame

lemma mergeNumbers_of_binned (hb : dst.binned = true) :
    mergeNumbers A cap dst src = if src.binned then binsMerge A dst src
      else src.numericHist.foldl (fun col e => binAdd A col e.1 e.2) dst := by
  have hto : (src.binned && !dst.binned) = false := by simp [hb]
  unfold mergeNumbers
  simp only [hto, Bool.false_eq_true, if_false]
  rw [if_pos hb]

lemma mergeNumbers_of_exact (hb : dst.binned = false) (hsb : src.binned = false) :
    mergeNumbers A cap dst src =
      if cap ≠ 0 ∧ cap < (histMerge dst.numericHist src.numericHist).length then
        numericToBinned A { dst with numericHist := histMerge dst.numericHist src.numericHist }
      else { dst with numericHist := histMerge dst.numericHist src.numericHist } := by
  have hto : (src.binned && !dst.binned) = false := by simp [hsb]
  unfold mergeNumbers
  simp only [hto, Bool.false_eq_true, if_false]
  rw [if_neg (by simp [hb])]

variable (cap) in
lemma mergeNumbers_of_bins (hb : dst.binned = false) (hsb : src.binned = true) :
    mergeNumbers A cap dst src = mergeNumbers A cap (numericToBinned A dst) src ∨
      numericToBinned A dst = dst := by
  by_cases hbin : (numericToBinned A dst).binned = true
  · left
    rw [mergeNumbers_of_binned hbin]
    have hto : (src.binned && !dst.binned) = true := by simp [hb, hsb]
    unfold mergeNumbers
    simp only [hto, if_true]
    rw [if_pos hbin]
  · right
    unfold numericToBinned at hbin ⊢
    split_ifs at hbin ⊢
    · rfl
    · exact absurd rfl hbin

lemma mergeNumbers_spec (h : NumbersOk dst) (hs : NumbersOk src) (hkeep : ¬ Loses dst src)
    (cap : ℕ) :
    Numbers dst (mergeNumbers A cap dst src) ∧
      counter32.Gains (counters dst) (counters src) (counters (mergeNumbers A cap dst src)) := by
  by_cases hb : dst.binned = true
  · -- bins take in what there is
    rw [mergeNumbers_of_binned hb]
    obtain ⟨hnum, hg, -⟩ := mergeIntoBins_spec (A := A) h hs hb
    exact ⟨hnum, hg⟩
  · have hb' : dst.binned = false := by simpa using hb
    by_cases hsb : src.binned = true
    · -- the histogram goes over to bins first
      have hne : dst.numericHist ≠ [] := fun hnil => hkeep ⟨hsb, hb', hnil⟩
      obtain ⟨hok, hg, hbin, hover, hrest⟩ := numericToBinned_spec (A := A) hb' hne
      have heq : mergeNumbers A cap dst src = mergeNumbers A cap (numericToBinned A dst) src := by
        refine (mergeNumbers_of_bins cap hb' hsb).resolve_right fun hself => ?_
        rw [hself, hb'] at hbin
        cases hbin
      rw [heq, mergeNumbers_of_binned hbin]
      obtain ⟨hnum, hg', -⟩ := mergeIntoBins_spec (A := A) hok hs hbin
      refine ⟨⟨hrest.trans hnum.toSameRest, hnum.ok, fun hf => ?_⟩, hg.trans hg'⟩
      have := hnum.overflowed hf
      rw [hover] at this
      cases this
    · have hsb' : src.binned = false := by simpa using hsb
      rw [mergeNumbers_of_exact hb' hsb']
      have hadd := gains_histMerge dst.numericHist src.numericHist
      rw [← counters_of_exact hb', ← counters_of_exact hsb'] at hadd
      have hcounters : counters
          { dst with numericHist := histMerge dst.numericHist src.numericHist }
          = (histMerge dst.numericHist src.numericHist).map (·.2) := counters_of_exact hb'
      by_cases hnil : histMerge dst.numericHist src.numericHist = []
      · rw [if_neg (by simp [hnil]), hcounters]
        exact ⟨⟨⟨rfl, rfl, rfl, rfl⟩, ⟨by simp [hb'], by simp [hb'], by simp [hb']⟩, fun hf => hf⟩,
          hadd⟩
      · have hmerged : { dst with
            numericHist := histMerge dst.numericHist src.numericHist }.binned = false := hb'
        obtain ⟨hnum, hg⟩ := overCap_spec (A := A) hmerged hnil (cap ≠ 0 ∧ cap < (histMerge dst.numericHist src.numericHist).length)
        rw [hcounters] at hg
        have hgains := hadd.trans hg
        rw [List.append_nil] at hgains
        have hrest := hnum.toSameRest
        exact ⟨⟨⟨hrest.freq, hrest.mode, hrest.isNumeric, hrest.est⟩, hnum.ok, hnum.overflowed⟩,
          hgains⟩

lemma mergeNumbers_of_loses (hs : NumbersOk src) (h : Loses dst src) (cap : ℕ) :
    mergeNumbers A cap dst src = dst := by
  obtain ⟨hsb, hb, hnil⟩ := h
  have hto : (src.binned && !dst.binned) = true := by simp [hb, hsb]
  have hself : numericToBinned A dst = dst := if_pos hnil
  have hmerge : ({ dst with numericHist := histMerge dst.numericHist src.numericHist } :
      ColumnCardinality) = dst := by
    simp [histMerge, hs.hist hsb]
  unfold mergeNumbers
  simp only [hto, if_true, hself]
  rw [if_neg (by simp [hb]), if_neg (by simp [histMerge, hs.hist hsb, hnil]), hmerge]

end SextantTree.Cardinality
