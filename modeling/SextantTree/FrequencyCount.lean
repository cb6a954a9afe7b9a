import SextantTree.FrequencySketchSpec

/-!
Runs of the frequency sketch beside the counts they estimate: each key is counted up to fifteen, and
every reset halves the counts.
-/

namespace SextantTree.FrequencySketch

open Nibbles

/-! ### A new sketch -/

lemma smear {v : UInt32} (h : v.toNat < 2 ^ 31) (k : UInt32) :
    v.toNat ≤ (v ||| (v >>> k)).toNat ∧ (v ||| (v >>> k)).toNat < 2 ^ 31 := by
  rw [UInt32.toNat_or, UInt32.toNat_shiftRight]
  exact ⟨Nat.left_le_or, Nat.or_lt_two_pow h (lt_of_le_of_lt (Nat.shiftRight_le _ _) h)⟩

lemma ceilingPowerOfTwo_spec {v : UInt32} (hpos : 0 < v.toNat) (h : v.toNat ≤ 2 ^ 31) :
    v.toNat ≤ (ceilingPowerOfTwo v).toNat ∧ (ceilingPowerOfTwo v).toNat ≤ 2 ^ 31 := by
  have hv : (v - 1).toNat = v.toNat - 1 := by
    rw [UInt32.toNat_sub_of_le]
    · rfl
    · exact UInt32.le_iff_toNat_le.2 hpos
  have h0 : (v - 1).toNat < 2 ^ 31 := by omega
  obtain ⟨h1, h1'⟩ := smear h0 1
  obtain ⟨h2, h2'⟩ := smear h1' 2
  obtain ⟨h3, h3'⟩ := smear h2' 4
  obtain ⟨h4, h4'⟩ := smear h3' 8
  obtain ⟨h5, h5'⟩ := smear h4' 16
  unfold ceilingPowerOfTwo
  dsimp only
  rw [UInt32.toNat_add, Nat.mod_eq_of_lt (by rw [show (1 : UInt32).toNat = 1 from rfl]; omega),
    show (1 : UInt32).toNat = 1 from rfl]
  omega

/-! ### The counts -/

/-- The counts of the keys after a call for `key`; `aged` when it triggered a reset. -/
def tally (counts : UInt64 → ℕ) (key : UInt64) (aged : Bool) : UInt64 → ℕ := fun h =>
  let n := if h = key then min 15 (counts h + 1) else counts h
  if aged then n / 2 else n

/-- The calls of `increment` for these keys. -/
def run : List UInt64 → FrequencySketch → (UInt64 → ℕ) →
    Option (FrequencySketch × (UInt64 → ℕ))
  | [], s, counts => some (s, counts)
  | key :: keys, s, counts => do
    let (_, due) ← s.add key
    let s ← s.increment key
    run keys s (tally counts key due)

/-- What holds between the calls: the table has the blocks of the mask, the counters add up to no more
than the additions since the resets allow, and no count is above its counters. -/
structure Counting (s : FrequencySketch) (counts : UInt64 → ℕ) (t : List UInt64) : Prop where
  table : s.table = some t
  blocks : 8 * (s.blockMask.toNat + 1) ≤ t.length
  few : t.length < 2 ^ 32
  young : s.size.toNat < s.sampleSize.toNat
  total : tableTotal t ≤ 4 * s.size.toNat + 3
  below : ∀ key, ∀ i ∈ rows, counts key
    ≤ counter t (counterOf s.blockMask key i).1.toNat (counterOf s.blockMask key i).2.toNat

lemma ensureCapacity_new (maximumEntries : UInt32) :
    ensureCapacity {} maximumEntries =
      { table := some (List.replicate
          (ceilingPowerOfTwo (max maximumEntries minSketchSize)).toNat 0)
        sampleSize := 10 * max maximumEntries minSketchSize
        blockMask := (ceilingPowerOfTwo (max maximumEntries minSketchSize) >>> 3) - 1
        size := 0 } := by
  unfold ensureCapacity
  dsimp only
  exact if_neg Bool.false_ne_true

lemma toNat_blockMask {n : UInt32} (h : 8 ≤ n.toNat) : ((n >>> 3) - 1).toNat + 1 = n.toNat / 8 := by
  have hshift : (n >>> 3).toNat = n.toNat / 8 := by
    rw [UInt32.toNat_shiftRight, Nat.shiftRight_eq_div_pow]
    rfl
  have hone : (1 : UInt32).toNat ≤ (n >>> 3).toNat := by
    rw [hshift]
    change 1 ≤ _
    omega
  rw [UInt32.toNat_sub_of_le _ _ (UInt32.le_iff_toNat_le.2 hone), hshift]
  change n.toNat / 8 - 1 + 1 = _
  omega

lemma tableTotal_replicate (n : ℕ) : tableTotal (List.replicate n 0) = 0 := by
  simp [tableTotal, Nibbles.total, nibble]

lemma sample_pos {m : ℕ} (hpos : 0 < m) (h : m < 2 ^ 31) : 0 < 10 * m % 2 ^ 32 := by
  refine Nat.pos_of_ne_zero fun h0 => ?_
  have hdvd : 2 * 2 ^ 31 ∣ 2 * (5 * m) := by
    rw [← Nat.mul_assoc]
    exact Nat.dvd_of_mod_eq_zero h0
  have hfive : 2 ^ 31 ∣ 5 * m := Nat.dvd_of_mul_dvd_mul_left (by decide) hdvd
  have hm : 2 ^ 31 ∣ m := (Nat.Coprime.pow_left 31 (by decide)).dvd_of_dvd_mul_left hfive
  exact absurd (Nat.le_of_dvd hpos hm) (not_le.2 h)

lemma counting_new {maximumEntries : UInt32} (h : maximumEntries.toNat < 2 ^ 31) :
    ∃ t, Counting (ensureCapacity {} maximumEntries) (fun _ => 0) t := by
  have hmax : (max maximumEntries minSketchSize).toNat = max maximumEntries.toNat 256 :=
    UInt32.toNat_max ..
  rw [ensureCapacity_new]
  generalize max maximumEntries minSketchSize = maximum at hmax ⊢
  have hsample : 0 < (10 * maximum).toNat := by
    rw [UInt32.toNat_mul]
    exact sample_pos (by omega) (by omega)
  obtain ⟨hle, hge⟩ := ceilingPowerOfTwo_spec (v := maximum) (by omega) (by omega)
  generalize ceilingPowerOfTwo maximum = n at hle hge ⊢
  refine ⟨List.replicate n.toNat 0, ⟨rfl, ?_, ?_, hsample, ?_, fun _ _ _ => Nat.zero_le _⟩⟩
  · dsimp only
    rw [toNat_blockMask (by omega), List.length_replicate]
    omega
  · rw [List.length_replicate]
    omega
  · rw [tableTotal_replicate]
    exact Nat.zero_le _

section Step

variable {s : FrequencySketch} {counts : UInt64 → ℕ} {t : List UInt64} {key : UInt64}

lemma exists_foldlM {step : UInt32 → UInt32 → Option UInt32} {n : ℕ}
    (hstep : ∀ i ∈ rows, ∀ f : UInt32, n ≤ f.toNat → ∃ f', step f i = some f' ∧ n ≤ f'.toNat) :
    ∀ is : List UInt32, (∀ i ∈ is, i ∈ rows) → ∀ f : UInt32, n ≤ f.toNat →
      ∃ f', is.foldlM step f = some f' ∧ n ≤ f'.toNat := by
  intro is
  induction is with
  | nil => exact fun _ f hf => ⟨f, rfl, hf⟩
  | cons i is ih =>
    intro his f hf
    obtain ⟨f', hf', hle⟩ := hstep i (his i List.mem_cons_self) f hf
    rw [List.foldlM_cons, hf']
    exact ih (fun j hj => his j (List.mem_cons_of_mem i hj)) f' hle

lemma Counting.frequency (h : Counting s counts t) (key : UInt64) :
    ∃ f, s.frequency key = some f ∧ min 15 (counts key) ≤ f.toNat := by
  obtain ⟨block, hblock, hrows⟩ :=
    counterOf_spec (by have := h.blocks; have := h.few; omega :
      8 * (s.blockMask.toNat + 1) < 2 ^ 32) key
  unfold FrequencySketch.frequency
  rw [h.table]
  refine exists_foldlM (fun i hi f hf => ?_) rows (fun _ hi => hi) 15 (min_le_left _ _)
  obtain ⟨hindex, b, hb, hslot⟩ := hrows i hi
  have hi4 : i.toNat < 4 := by
    rcases mem_rows.1 hi with rfl | rfl | rfl | rfl <;> decide
  have hlt : (counterOf s.blockMask key i).1.toNat < t.length := by
    have := h.blocks
    omega
  have hword : t[(counterOf s.blockMask key i).1.toNat]?
      = some t[(counterOf s.blockMask key i).1.toNat] := List.getElem?_eq_getElem hlt
  have hcounter : counter t (counterOf s.blockMask key i).1.toNat
      (counterOf s.blockMask key i).2.toNat
      = nibble t[(counterOf s.blockMask key i).1.toNat].toNat
        (counterOf s.blockMask key i).2.toNat := by
    rw [counter, List.getD_eq_getElem?_getD, hword]
    rfl
  have hbelow := h.below key i hi
  refine ⟨min f ((t[(counterOf s.blockMask key i).1.toNat] >>>
    ((counterOf s.blockMask key i).2 <<< 2).toUInt64) &&& 0xf).toUInt32,
    (congrArg (· >>= _) hword).trans rfl, ?_⟩
  rw [UInt32.toNat_min, toNat_counter hindex, ← hcounter]
  exact le_min hf ((min_le_right _ _).trans hbelow)

/-- What a call does to the counters, and to `size_`. -/
structure Added (s : FrequencySketch) (t : List UInt64) (key : UInt64) (s' : FrequencySketch)
    (t' : List UInt64) (due : Bool) : Prop where
  add : s.add key = some (s', due)
  table : s'.table = some t'
  mask : s'.blockMask = s.blockMask
  sampleSize : s'.sampleSize = s.sampleSize
  length : t'.length = t.length
  raised : ∀ slot k, Uses s.blockMask key rows slot k →
    counter t' slot k = min 15 (counter t slot k + 1)
  others : ∀ slot k, ¬ Uses s.blockMask key rows slot k → counter t' slot k = counter t slot k
  total : tableTotal t' ≤ 4 * s'.size.toNat + 3
  notDue : due = false → s'.size.toNat < s'.sampleSize.toNat
  isDue : due = true → s'.size = s.sampleSize

lemma Counting.add (h : Counting s counts t) (key : UInt64) :
    ∃ s' t' due, Added s t key s' t' due := by
  obtain ⟨t', added, hfold, hlen, hcounter, htotal, hsame⟩ :=
    incrementRows_spec h.blocks h.few key rows (fun _ hi => hi) (by decide) false
  have hrows : rows.length = 4 := rfl
  have hold := h.total
  have hyoung := h.young
  have hadd : s.add key = if added then
      some ({ s with table := some t', size := s.size + 1 }, decide (s.size + 1 = s.sampleSize))
      else some ({ s with table := some t' }, false) := by
    unfold FrequencySketch.add
    rw [h.table]
    dsimp only
    rw [hfold]
    simp only [Option.bind_eq_bind, Option.bind_some, Option.pure_def]
  cases added with
  | false =>
    obtain ⟨rfl, -⟩ := hsame rfl
    exact ⟨_, t', false, hadd, rfl, rfl, rfl, rfl, fun slot k => (hcounter slot k).1,
      fun slot k => (hcounter slot k).2, hold, fun _ => hyoung, fun h => nomatch h⟩
  | true =>
    have hsize : (s.size + 1).toNat = s.size.toNat + 1 := by
      have := UInt32.toNat_lt s.sampleSize
      rw [UInt32.toNat_add, show (1 : UInt32).toNat = 1 from rfl]
      exact Nat.mod_eq_of_lt (by omega)
    refine ⟨_, t', _, hadd, rfl, rfl, rfl, hlen, fun slot k => (hcounter slot k).1,
      fun slot k => (hcounter slot k).2, ?_, fun hdue => ?_, fun hdue => by simpa using hdue⟩
    · dsimp only
      omega
    · have hne : s.size + 1 ≠ s.sampleSize := by simpa using hdue
      have hne' : (s.size + 1).toNat ≠ s.sampleSize.toNat := fun he => hne (UInt32.toNat_inj.1 he)
      dsimp only
      omega

def words (s : FrequencySketch) : List UInt64 := s.table.getD []

lemma reset_spec (ht : s.table = some t) (hfew : t.length < 2 ^ 32)
    (htotal : tableTotal t ≤ 4 * s.size.toNat + 3) :
    (oddCounters t >>> 2).toUInt32.toNat = tableOdds t / 4 ∧ tableOdds t / 4 ≤ s.size.toNat ∧
      s.reset.size.toNat = (s.size.toNat - tableOdds t / 4) / 2 := by
  have hodds : tableOdds t ≤ tableTotal t := by
    rw [tableTotal_halved t]
    omega
  have hle : tableOdds t / 4 ≤ s.size.toNat := by omega
  have hsize := UInt32.toNat_lt s.size
  have hshift : (oddCounters t >>> 2).toNat = tableOdds t / 4 := by
    rw [UInt64.toNat_shiftRight, toNat_oddCounters hfew, Nat.shiftRight_eq_div_pow]
    rfl
  have hcast : (oddCounters t >>> 2).toUInt32.toNat = tableOdds t / 4 := by
    rw [UInt64.toNat_toUInt32, hshift]
    exact Nat.mod_eq_of_lt (by omega)
  refine ⟨hcast, hle, ?_⟩
  unfold FrequencySketch.reset
  dsimp only
  rw [ht, Option.getD_some, UInt32.toNat_shiftRight, UInt32.toNat_sub_of_le _ _
    (UInt32.le_iff_toNat_le.2 (hcast ▸ hle)), hcast, Nat.shiftRight_eq_div_pow]
  rfl

lemma words_reset (ht : s.table = some t) :
    s.reset.words = t.map fun (w : UInt64) => (w >>> 1) &&& resetMask := by
  simp [FrequencySketch.reset, words, ht]

lemma Added.counting {s' : FrequencySketch} {t' : List UInt64} {due : Bool}
    (h : Counting s counts t) (hadd : Added s t key s' t' due) :
    ∃ t'', Counting (if due then s'.reset else s') (tally counts key due) t'' := by
  have hraise : ∀ key', ∀ i ∈ rows, (if key' = key then min 15 (counts key' + 1) else counts key')
      ≤ counter t' (counterOf s'.blockMask key' i).1.toNat (counterOf s'.blockMask key' i).2.toNat := by
    intro key' i hi
    rw [hadd.mask]
    have hbelow := h.below key' i hi
    have hle := counter_le t (counterOf s.blockMask key' i).1.toNat
      (counterOf s.blockMask key' i).2.toNat
    by_cases huse : Uses s.blockMask key rows (counterOf s.blockMask key' i).1.toNat
        (counterOf s.blockMask key' i).2.toNat
    · rw [hadd.raised _ _ huse]
      split_ifs <;> omega
    · have hne : key' ≠ key := by
        rintro rfl
        exact huse ⟨i, hi, rfl, rfl⟩
      rw [hadd.others _ _ huse, if_neg hne]
      exact hbelow
  have hblocks : 8 * (s'.blockMask.toNat + 1) ≤ t'.length := by
    rw [hadd.mask, hadd.length]
    exact h.blocks
  have hfew : t'.length < 2 ^ 32 := hadd.length ▸ h.few
  cases due with
  | false =>
    exact ⟨t', hadd.table, hblocks, hfew, hadd.notDue rfl, hadd.total, hraise⟩
  | true =>
    obtain ⟨-, hle, hsize⟩ := reset_spec hadd.table hfew hadd.total
    have hold := h.young
    have hfull : s'.size.toNat = s.sampleSize.toNat := by rw [hadd.isDue rfl]
    have hhalf := tableTotal_halved t'
    refine ⟨t'.map fun (w : UInt64) => (w >>> 1) &&& resetMask, ?_, ?_, ?_, ?_, ?_, ?_⟩
    · simp [FrequencySketch.reset, hadd.table]
    · rw [List.length_map]
      exact hblocks
    · rw [List.length_map]
      exact hfew
    · change s'.reset.size.toNat < s'.sampleSize.toNat
      rw [hsize, hadd.sampleSize]
      omega
    · change _ ≤ 4 * s'.reset.size.toNat + 3
      have htotal := hadd.total
      rw [hsize]
      omega
    · intro key' i hi
      have hindex : (counterOf s'.blockMask key' i).2.toNat < 16 := by
        obtain ⟨block, -, hrows⟩ :=
          counterOf_spec (by omega : 8 * (s'.blockMask.toNat + 1) < 2 ^ 32) key'
        exact (hrows i hi).1
      change _ ≤ counter _ (counterOf s'.blockMask key' i).1.toNat
        (counterOf s'.blockMask key' i).2.toNat
      rw [counter_halved _ _ hindex]
      exact Nat.div_le_div_right (hraise key' i hi)

/-- What is promised of a sketch beside the counts: no estimate is too low; the next call raises the
counters of its key, which saturate, and no other; a reset halves each counter, and takes from `size_`
a fourth of the odd ones, which is no more than it holds. -/
structure Sound (s : FrequencySketch) (counts : UInt64 → ℕ) : Prop where
  estimate : ∀ key, ∃ f, s.frequency key = some f ∧ min 15 (counts key) ≤ f.toNat
  next : ∀ key, ∃ s' due, s.add key = some (s', due) ∧
    s.increment key = some (if due then s'.reset else s') ∧
    (∀ slot k, Uses s.blockMask key rows slot k →
      counter s'.words slot k = min 15 (counter s.words slot k + 1)) ∧
    (∀ slot k, ¬ Uses s.blockMask key rows slot k →
      counter s'.words slot k = counter s.words slot k) ∧
    (due = true →
      (oddCounters s'.words >>> 2).toUInt32.toNat = tableOdds s'.words / 4 ∧
        (oddCounters s'.words >>> 2).toUInt32 ≤ s'.size ∧
        ∀ slot k, k < 16 → counter s'.reset.words slot k = counter s'.words slot k / 2)

lemma Counting.sound (h : Counting s counts t) : Sound s counts := by
  refine ⟨h.frequency, fun key => ?_⟩
  obtain ⟨s', t', due, hadd⟩ := h.add key
  have hwords : s.words = t := by rw [words, h.table]; rfl
  have hwords' : s'.words = t' := by rw [words, hadd.table]; rfl
  refine ⟨s', due, hadd.add, ?_, ?_, ?_, fun _ => ?_⟩
  · simp only [FrequencySketch.increment, hadd.add, Option.bind_eq_bind, Option.bind_some,
      Option.pure_def]
  · rw [hwords, hwords']
    exact hadd.raised
  · rw [hwords, hwords']
    exact hadd.others
  · obtain ⟨hcast, hle, -⟩ := reset_spec hadd.table (hadd.length ▸ h.few) hadd.total
    rw [hwords', words_reset hadd.table]
    exact ⟨hcast, UInt32.le_iff_toNat_le.2 (hcast ▸ hle), fun slot k hk => counter_halved t' slot hk⟩

lemma Counting.run (h : Counting s counts t) (keys : List UInt64) :
    ∃ s' counts', run keys s counts = some (s', counts') ∧ Sound s' counts' := by
  induction keys generalizing s counts t with
  | nil => exact ⟨s, counts, rfl, h.sound⟩
  | cons key keys ih =>
    obtain ⟨s₁, t₁, due, hadd⟩ := h.add key
    obtain ⟨t₂, hcounting⟩ := hadd.counting h
    obtain ⟨s', counts', hrun, hsound⟩ := ih hcounting
    refine ⟨s', counts', ?_, hsound⟩
    simp only [FrequencySketch.run, FrequencySketch.increment, hadd.add, Option.bind_eq_bind,
      Option.bind_some, Option.pure_def]
    exact hrun

end Step

/-- Every run of calls on a sketch of fewer than `2 ^ 31` entries ends, and leaves a sketch that never
underestimates and whose counters and `size_` keep to their fields. -/
theorem run_sound (maximumEntries : UInt32) (h : maximumEntries.toNat < 2 ^ 31)
    (keys : List UInt64) :
    ∃ s counts, run keys (ensureCapacity {} maximumEntries) (fun _ => 0) = some (s, counts) ∧
      Sound s counts := by
  obtain ⟨t, hnew⟩ := counting_new h
  exact hnew.run keys

theorem run_sound_cache : ∃ s counts,
    run [100, 200, 100] (ensureCapacity {} 256) (fun _ => 0) = some (s, counts) ∧ Sound s counts :=
  run_sound 256 (by decide) [100, 200, 100]

/-- A sketch of `2 ^ 31 + 1` entries has a table without words: the first call reads behind its end. -/
theorem ceiling_overflows :
    (2 ^ 31 + 1 : UInt32).toNat = 2 ^ 31 + 1 ∧ (ensureCapacity {} (2 ^ 31 + 1)).words = [] ∧
      run [0] (ensureCapacity {} (2 ^ 31 + 1)) (fun _ => 0) = none ∧
      ¬ ∀ keys : List UInt64, ∃ s counts,
        run keys (ensureCapacity {} (2 ^ 31 + 1)) (fun _ => 0) = some (s, counts) ∧
          Sound s counts := by
  have hnone : run [0] (ensureCapacity {} (2 ^ 31 + 1)) (fun _ => 0) = none := rfl
  refine ⟨rfl, rfl, hnone, fun h => ?_⟩
  obtain ⟨s, counts, hrun, -⟩ := h [0]
  rw [hnone] at hrun
  cases hrun

end SextantTree.FrequencySketch
