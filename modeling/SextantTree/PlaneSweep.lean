import SextantTree.PlaneSpec

/-!
The sweep over a stored plane. Every access of layout v2, and of layout v1 through the mapping or an
entry of the plane cache, reads the blocks of the leaf; the fallback of a refused pin is already at
the rows and is moved to them once more. The factors of layout v1 are read from the start of the
array for every leaf.
-/

namespace SextantTree.Plane

open ByteMem Pages
open BlockKernels (Target pq4ScanMany)

variable {t : Target} {k : Codec} {pm : PlaneMeta}

/-! ### The cache -/

/-- Where the entries of a cache are and how many pages they have. -/
abbrev CacheShape := List (ℕ × ℕ)

def copies (mem : Mem) (sh : CacheShape) : Cache := sh.map fun x => fill mem x.1 x.2

/-- No entry has the pages, nobody fills one, and the fill is not admitted. -/
def refused (sh : CacheShape) (adm : Admission) (page pages : ℕ) : Bool :=
  !((sh.find? (·.1 == page)).any fun x => decide (pages ≤ x.2)) &&
    !(adm.filledMeanwhile.any fun m => decide (pages ≤ m)) && !adm.admitted

lemma cached_copies (mem : Mem) (sh : CacheShape) (page : ℕ) :
    cached (copies mem sh) page = (sh.find? (·.1 == page)).map fun x => fill mem x.1 x.2 := by
  rw [cached, copies, List.find?_map]
  rfl

lemma covers_fill (mem : Mem) (page n pages : ℕ) :
    (fill mem page n).covers pages = decide (pages ≤ n) := by
  have hpos : 0 < kPageSize := by decide
  rw [Entry.covers, fill, length_peek]
  exact decide_eq_decide.mpr (Nat.mul_le_mul_right_iff hpos)

lemma fill_ptr {mem : Mem} {page n i : ℕ} (hi : i < n * kPageSize) :
    (fill mem page n).ptr i = mem (page * kPageSize + i) := by
  rw [Entry.ptr, fill, List.getD_eq_getElem _ _ (by simpa using hi)]
  simp [peek]

lemma pin_reads {mem : Mem} {sh : CacheShape} {adm : Admission} {page pages : ℕ} (fallback : Ptr)
    (h : refused sh adm page pages = false) {i : ℕ} (hi : i < pages * kPageSize) :
    (pin mem (copies mem sh) adm page pages fallback).1 i = mem (page * kPageSize + i) := by
  have hle : ∀ {n : ℕ}, pages ≤ n → i < n * kPageSize := fun hn =>
    hi.trans_le (Nat.mul_le_mul_right _ hn)
  unfold pin
  rw [cached_copies]
  split
  next e he =>
    obtain ⟨x, hx, rfl⟩ := Option.map_eq_some_iff.mp (Option.filter_eq_some_iff.mp he).1
    have hcov := (Option.filter_eq_some_iff.mp he).2
    rw [covers_fill, decide_eq_true_eq] at hcov
    have hpage : x.1 = page := by simpa using List.find?_some hx
    rw [← hpage]
    exact fill_ptr (hle hcov)
  next hnone =>
    have hmiss : ((sh.find? (·.1 == page)).any fun x => decide (pages ≤ x.2)) = false := by
      cases hf : sh.find? (·.1 == page) with
      | none => rfl
      | some x =>
        rw [hf, Option.map_some, Option.filter_some, covers_fill] at hnone
        by_contra hcon
        simp only [Option.any_some, Bool.not_eq_false] at hcon
        rw [if_pos hcon] at hnone
        cases hnone
    rw [refused, hmiss] at h
    dsimp only
    split
    next m hm => exact fill_ptr (hle (by simpa using (Option.filter_eq_some_iff.mp hm).2))
    next hm =>
      have hother : (adm.filledMeanwhile.any fun m => decide (pages ≤ m)) = false := by
        cases hf : adm.filledMeanwhile with
        | none => rfl
        | some m =>
          rw [hf, Option.filter_some] at hm
          by_contra hcon
          simp only [Option.any_some, Bool.not_eq_false] at hcon
          rw [if_pos hcon] at hm
          cases hm
      rw [hother] at h
      have hadm : adm.admitted = true := by simpa using h
      rw [if_pos hadm]
      exact fill_ptr hi

lemma pin_fallback {mem : Mem} {sh : CacheShape} {adm : Admission} {page pages : ℕ} (fallback : Ptr)
    (h : refused sh adm page pages = true) :
    (pin mem (copies mem sh) adm page pages fallback).1 = fallback := by
  simp only [refused, Bool.and_eq_true, Bool.not_eq_true'] at h
  obtain ⟨⟨hmiss, hother⟩, hadm⟩ := h
  have h₁ : (cached (copies mem sh) page).filter (·.covers pages) = none := by
    rw [cached_copies]
    cases hf : sh.find? (·.1 == page) with
    | none => rfl
    | some x =>
      rw [hf, Option.any_some] at hmiss
      rw [Option.map_some, Option.filter_some, covers_fill, hmiss]
      rfl
  have h₂ : adm.filledMeanwhile.filter (fun m => decide (pages ≤ m)) = none := by
    cases hf : adm.filledMeanwhile with
    | none => rfl
    | some m =>
      rw [hf, Option.any_some] at hother
      rw [Option.filter_some, hother]
      rfl
  unfold pin
  rw [h₁]
  dsimp only
  rw [h₂]
  dsimp only
  rw [if_neg (by rw [hadm]; exact Bool.false_ne_true)]

/-! ### A stored plane -/

/-- The file has the plane the writer makes of the members of each leaf. -/
structure Stored (f : PlaneFile) (k : Codec) (mem : Mem) (members : ℕ → List Proj) : Prop where
  counts : ∀ l < f.n, f.counts l = (members l).length
  blob : f.v2 = false → ∃ pre blob, pre.length = f.preBytes ∧
    finalize f.pm pre f.n (fun l => encodeLeaf k f.pm (members l)) f.counts = some blob ∧
    Holds mem (f.planePage * kPageSize) blob
  rows : f.v2 = true → ∀ l < f.n, ∃ rows,
    detachLeafBlocks f.pm (encodeLeaf k f.pm (members l)) (f.counts l) = some rows ∧
    Holds mem (f.leafPage l * kPageSize + f.leafPlaneOffset l) rows

namespace Stored

variable {f : PlaneFile} {mem : Mem} {members : ℕ → List Proj} (h : Stored f k mem members)
include h

lemma parts (hv : f.v2 = false) :
    (f.pm.pv = true → Holds mem (f.planePage * kPageSize + f.preBytes)
      ((List.range f.n).flatMap fun l => leafAlphas (encodeLeaf k f.pm (members l)) (f.counts l))) ∧
    Holds mem (f.planePage * kPageSize + f.blocksOffsetInBlob)
      ((List.range f.n).flatMap fun l =>
        leafBlocks f.pm (encodeLeaf k f.pm (members l)) (f.counts l)) := by
  obtain ⟨pre, blob, hpre, hfin, hmem⟩ := h.blob hv
  unfold finalize at hfin
  split at hfin
  · cases hfin
  · cases hfin
    have hrest := hmem.right
    rw [hpre] at hrest
    refine ⟨fun hpv => ?_, ?_⟩
    · have hleft := hrest.left
      rwa [if_pos hpv] at hleft
    · have hright := hrest.right
      unfold PlaneFile.blocksOffsetInBlob PlaneFile.alphaBytes
      cases hpv : f.pm.pv with
      | false => simpa [hpv] using hright
      | true =>
        rw [hpv, if_pos rfl, length_flatMap_range fun l _ => length_leafAlphas _ _, Nat.add_assoc] at hright
        rw [if_pos rfl]
        exact hright

lemma blocks_v1 (hv : f.v2 = false) {l : ℕ} (hl : l < f.n) :
    Holds mem (f.fbyte l) (leafBlocks f.pm (encodeLeaf k f.pm (members l)) (f.counts l)) :=
  (h.parts hv).2.piece (fun _ _ => length_leafBlocks _ _) hl

lemma alphas_v1 (hv : f.v2 = false) (hpv : f.pm.pv = true) {l : ℕ} (hl : l < f.n) :
    Holds mem (f.planePage * kPageSize + f.preBytes + total (fun l => 2 * f.counts l) l)
      (leafAlphas (encodeLeaf k f.pm (members l)) (f.counts l)) :=
  ((h.parts hv).1 hpv).piece (fun _ _ => length_leafAlphas _ _) hl

lemma scan_v1 (hv : f.v2 = false) {l : ℕ} (hl : l < f.n) {lut : ℕ → UInt8}
    (hfit : SumsFit t f.pm lut (f.counts l) (slotCode k f.pm (members l))) (shift : ℚ) {blk : Ptr}
    (hblk : Holds blk 0 (leafBlocks f.pm (encodeLeaf k f.pm (members l)) (f.counts l)))
    (hfirst : f.pm.pv = true → f.counts l = 0 ∨ total f.counts l = 0) :
    scanLeafMaxU8At t k f.pm (f.counts l) blk lut shift (f.blobAlpha mem) =
      leafMax k f.pm lut shift (members l) := by
  have hpack := encodeLeaf_packs k f.pm (members l)
  rw [h.counts l hl] at hblk hfit ⊢
  refine scan_eq_leafMax hfit shift (hpack.codes hblk) (fun hpv => by simp [PlaneFile.blobAlpha, hpv])
    fun hpv => ⟨_, by rw [PlaneFile.blobAlpha, if_pos hpv], fun i pr hi => ?_⟩
  have hal := h.alphas_v1 hv hpv hl
  obtain ⟨hlt, -⟩ := List.getElem?_eq_some_iff.mp hi
  have hzero : total (fun l => 2 * f.counts l) l = 0 := by
    have htotal : total f.counts l = 0 := by
      rcases hfirst hpv with h0 | h0
      · rw [h.counts l hl] at h0
        omega
      · exact h0
    unfold total at htotal ⊢
    rw [List.sum_eq_zero_iff] at htotal ⊢
    intro x hx
    obtain ⟨j, hj, rfl⟩ := List.mem_map.mp hx
    have := htotal _ (List.mem_map_of_mem hj)
    omega
  rw [hzero, Nat.add_zero, h.counts l hl] at hal
  exact hpack.alphaAt_eq hpv hal hi

lemma scan_v2 (hv : f.v2 = true) {l : ℕ} (hl : l < f.n) {lut : ℕ → UInt8}
    (hfit : SumsFit t f.pm lut (f.counts l) (slotCode k f.pm (members l))) (shift : ℚ)
    (cache : Option (Cache × Admission)) :
    f.sweepLeaf t k mem cache lut shift l = leafMax k f.pm lut shift (members l) := by
  have hpack := encodeLeaf_packs k f.pm (members l)
  obtain ⟨rows, hrows, hmem⟩ := h.rows hv l hl
  unfold detachLeafBlocks at hrows
  split at hrows
  · cases hrows
  · cases hrows
    unfold PlaneFile.sweepLeaf
    rw [if_pos hv]
    have hblk := holds_add hmem.left
    have hal := hmem.right
    rw [length_leafBlocks] at hal
    rw [h.counts l hl] at hblk hal hfit ⊢
    dsimp only
    refine scan_eq_leafMax hfit shift (hpack.codes hblk) (fun hpv => by simp [hpv]) fun hpv =>
      ⟨_, by rw [if_pos hpv], fun i pr hi => ?_⟩
    rw [if_pos hpv] at hal
    have := hpack.alphaAt_eq hpv hal hi
    have hptr : Ptr.add (Ptr.add mem (f.leafPage l * kPageSize + f.leafPlaneOffset l))
        (blocksFor (members l).length * f.pm.blockBytes) =
        Ptr.add mem (f.leafPage l * kPageSize + f.leafPlaneOffset l +
          blocksFor (members l).length * f.pm.blockBytes) := by
      funext j
      simp [Ptr.add, Nat.add_assoc]
    rw [hptr]
    exact this

end Stored

/-! ### Which reads are right -/

/-- The sweep scans the rows and the factors of the leaf itself: always in layout v2, and in layout
v1 when the factors are those of the first members and a refused pin is at a page boundary. -/
def ScansOwnRows (f : PlaneFile) (cache : Option (CacheShape × Admission)) (l : ℕ) : Prop :=
  f.v2 = true ∨ ((f.pm.pv = true → total f.counts l = 0) ∧
    ∀ sh adm, cache = some (sh, adm) →
      refused sh adm (f.fbyte l / kPageSize) (f.rowPages l) = true →
      f.pgoff l = 0 ∨ f.pm.segments = 0)

/-- A leaf scores the maximum over its members, whatever they and the query are. -/
def ScoresMembers (t : Target) (f : PlaneFile) (cache : Option (CacheShape × Admission)) (l : ℕ) :
    Prop :=
  ∀ (k : Codec) (mem : Mem) (members : ℕ → List Proj) (lut : ℕ → UInt8) (shift : ℚ),
    Stored f k mem members →
    f.sweepLeaf t k mem (cache.map fun c => (copies mem c.1, c.2)) lut shift l =
      leafMax k f.pm lut shift (members l)

lemma holds_of_length_zero {blk : Ptr} {b : List UInt8} (h : b.length = 0) : Holds blk 0 b := by
  rw [List.length_eq_zero_iff.mp h]
  exact holds_nil _ _

lemma holds_pinned {f : PlaneFile} {mem : Mem} {sh : CacheShape} {adm : Admission} {l : ℕ}
    {b : List UInt8} (hb : b.length = blocksFor (f.counts l) * f.pm.blockBytes)
    (hmem : Holds mem (f.fbyte l) b)
    (h : refused sh adm (f.fbyte l / kPageSize) (f.rowPages l) = false) (fallback : Ptr) :
    Holds ((pin mem (copies mem sh) adm (f.fbyte l / kPageSize) (f.rowPages l) fallback).1.add
      (f.pgoff l)) 0 b := by
  intro i x hx
  obtain ⟨hi, -⟩ := List.getElem?_eq_some_iff.mp hx
  have hsplit : f.fbyte l / kPageSize * kPageSize + f.pgoff l = f.fbyte l :=
    Nat.div_add_mod' _ _
  have hin : f.pgoff l + i < f.rowPages l * kPageSize := by
    unfold PlaneFile.rowPages
    rw [← hb]
    unfold kPageSize
    omega
  rw [Nat.zero_add, Ptr.add, pin_reads fallback h hin, ← Nat.add_assoc, hsplit]
  exact hmem i x hx

lemma scoresMembers_of {f : PlaneFile} {cache : Option (CacheShape × Admission)} {l : ℕ} (hl : l < f.n)
    (hown : f.counts l = 0 ∨ LanesFit t f.pm ∧ ScansOwnRows f cache l) : ScoresMembers t f cache l := by
  intro k mem members lut shift h
  have hfit : SumsFit t f.pm lut (f.counts l) (slotCode k f.pm (members l)) := by
    rcases hown with h0 | ⟨hlanes, -⟩
    · exact .inr fun i hi => by omega
    · exact hlanes.sums lut _ _
  by_cases hv : f.v2 = true
  · exact h.scan_v2 hv hl hfit shift _
  · rw [Bool.not_eq_true] at hv
    have hfirst : f.pm.pv = true → f.counts l = 0 ∨ total f.counts l = 0 := by
      intro hpv
      rcases hown with h0 | ⟨-, h2 | ⟨hown, -⟩⟩
      · exact .inl h0
      · rw [hv] at h2
        cases h2
      · exact .inr (hown hpv)
    have hblocks := h.blocks_v1 hv hl
    have hlen : (leafBlocks f.pm (encodeLeaf k f.pm (members l)) (f.counts l)).length =
        blocksFor (f.counts l) * f.pm.blockBytes := length_leafBlocks _ _
    unfold PlaneFile.sweepLeaf
    rw [if_neg (by rw [hv]; exact Bool.false_ne_true)]
    cases cache with
    | none => exact h.scan_v1 hv hl hfit shift (holds_add hblocks) hfirst
    | some c =>
      obtain ⟨sh, adm⟩ := c
      refine h.scan_v1 hv hl hfit shift ?_ hfirst
      cases href : refused sh adm (f.fbyte l / kPageSize) (f.rowPages l) with
      | false => exact holds_pinned hlen hblocks href _
      | true =>
        rw [pin_fallback _ href]
        rcases hown with h0 | ⟨-, h2 | ⟨-, hown⟩⟩
        · refine holds_of_length_zero ?_
          rw [hlen, h0]
          simp [blocksFor, kVecsPerBlock]
        · rw [hv] at h2
          cases h2
        · rcases hown sh adm rfl href with h0 | h0
          · have hzero : Ptr.add (Ptr.add mem (f.fbyte l)) (f.pgoff l) = Ptr.add mem (f.fbyte l) := by
              funext i
              simp [Ptr.add, h0]
            rw [hzero]
            exact holds_add hblocks
          · refine holds_of_length_zero ?_
            rw [hlen, PlaneMeta.blockBytes, h0]
            simp

/-! ### Members that tell the wrong reads apart -/

/-- A file with the plane of some members and nothing else. -/
def planeMem (f : PlaneFile) (k : Codec) (members : ℕ → List Proj) : Mem :=
  poke (fun _ => 0) (f.planePage * kPageSize)
    ((finalize f.pm (List.replicate f.preBytes 0) f.n (fun l => encodeLeaf k f.pm (members l))
      f.counts).getD [])

lemma finalize_some (f : PlaneFile) (k : Codec) (pre : List UInt8) {members : ℕ → List Proj}
    (hcounts : ∀ l < f.n, f.counts l = (members l).length) :
    finalize f.pm pre f.n (fun l => encodeLeaf k f.pm (members l)) f.counts =
      some (pre ++ ((if f.pm.pv then (List.range f.n).flatMap fun l =>
          leafAlphas (encodeLeaf k f.pm (members l)) (f.counts l) else []) ++
        (List.range f.n).flatMap fun l =>
          leafBlocks f.pm (encodeLeaf k f.pm (members l)) (f.counts l))) := by
  rw [finalize, if_neg]
  rintro ⟨hpv, l, hl, hlt⟩
  have := (encodeLeaf_packs k f.pm (members l)).nAlphas hpv
  rw [← hcounts l hl] at this
  exact absurd hlt (by simpa using this)

lemma stored_planeMem {f : PlaneFile} (k : Codec) {members : ℕ → List Proj} (hv : f.v2 = false)
    (hcounts : ∀ l < f.n, f.counts l = (members l).length) :
    Stored f k (planeMem f k members) members := by
  refine ⟨hcounts, fun _ => ⟨List.replicate f.preBytes 0, _, by simp, finalize_some f k _ hcounts, ?_⟩,
    fun h2 => by rw [hv] at h2; cases h2⟩
  rw [planeMem, finalize_some f k _ hcounts]
  exact holds_poke_self _ _ _

lemma foldl_max_le {l : List ℕ} {sc : ℕ → ℚ} {a c : ℚ} (ha : a ≤ c) (h : ∀ i ∈ l, sc i ≤ c) :
    l.foldl (fun best i => max best (sc i)) a ≤ c := by
  induction l generalizing a with
  | nil => exact ha
  | cons i l ih =>
    exact ih (max_le ha (h i List.mem_cons_self)) fun j hj => h j (List.mem_cons_of_mem _ hj)

lemma le_foldl_max_init (l : List ℚ) (a : ℚ) : a ≤ l.foldl max a := by
  induction l generalizing a with
  | nil => exact le_rfl
  | cons x l ih => exact (le_max_left a x).trans (ih _)

lemma le_foldl_max {l : List ℚ} {x : ℚ} (h : x ∈ l) (a : ℚ) : x ≤ l.foldl max a := by
  induction l generalizing a with
  | nil => cases h
  | cons y l ih =>
    rcases List.mem_cons.mp h with rfl | h
    · exact (le_max_right a x).trans (le_foldl_max_init l _)
    · exact ih h _

def oneTwoCodec (centroid : ℕ → ℚ) : Codec where
  centroid _ c := centroid c
  toHalf q := if q = 2 then 0x4000 else 0x3C00
  ofHalf u := if u = 0x4000 then 2 else 1

lemma one_le_ofHalf (centroid : ℕ → ℚ) (u : UInt16) : 1 ≤ (oneTwoCodec centroid).ofHalf u := by
  change (1 : ℚ) ≤ if u = 0x4000 then 2 else 1
  split <;> norm_num

lemma memberAlpha_const (a : ℚ) :
    memberAlpha (oneTwoCodec fun _ => 1) pm (fun _ => a) = (oneTwoCodec fun _ => 1).toHalf a := by
  have hpos : (0 : ℚ) < pm.rank := by exact_mod_cast pm.rank_pos
  have hone : (1 : ℚ) ≤ pm.rank := by exact_mod_cast pm.rank_pos
  have hdvc : ((List.range pm.rank).map fun e => a * (oneTwoCodec fun _ => 1).centroid e
      (nibble (oneTwoCodec fun _ => 1) pm (fun _ => a) e)).sum = pm.rank * a := by
    simp [oneTwoCodec]
  have hdcc : ((List.range pm.rank).map fun e => (oneTwoCodec fun _ => 1).centroid e
      (nibble (oneTwoCodec fun _ => 1) pm (fun _ => a) e) * (oneTwoCodec fun _ => 1).centroid e
      (nibble (oneTwoCodec fun _ => 1) pm (fun _ => a) e)).sum = pm.rank := by
    simp [oneTwoCodec]
  rw [memberAlpha, alpha, hdvc, hdcc, if_pos (lt_of_lt_of_le (by norm_num) hone),
    mul_div_cancel_left₀ a hpos.ne']

lemma exists_first {counts : ℕ → ℕ} {l : ℕ} (h : 0 < total counts l) :
    ∃ j < l, 0 < counts j ∧ total counts j = 0 := by
  induction l with
  | zero => simp at h
  | succ l ih =>
    by_cases hl : 0 < total counts l
    · obtain ⟨j, hj, hrest⟩ := ih hl
      exact ⟨j, by omega, hrest⟩
    · rw [total_succ] at h
      exact ⟨l, by omega, by omega, by omega⟩

lemma codeSum_zero (pm : PlaneMeta) (code : ℕ → ℕ) : codeSum pm (fun _ => 0) code = 0 := by
  simp [codeSum]

lemma codes_self (pm : PlaneMeta) (blk : Ptr) (count : ℕ) : Codes pm blk count (nibbleAt pm blk) :=
  fun _ _ _ _ => rfl

lemma not_scoresMembers_factor {f : PlaneFile} {cache : Option (CacheShape × Admission)} {l : ℕ}
    (hl : l < f.n) (hv : f.v2 = false) (hpv : f.pm.pv = true) (hcount : 0 < f.counts l)
    (hbefore : 0 < total f.counts l) : ¬ ScoresMembers t f cache l := by
  intro hscores
  set k := oneTwoCodec fun _ => 1 with hk
  set members : ℕ → List Proj := fun j => List.replicate (f.counts j) fun _ => if j = l then 1 else 2
    with hmembers
  have hst : Stored f k (planeMem f k members) members :=
    stored_planeMem k hv fun j _ => by simp [hmembers]
  have heq := hscores k _ members (fun _ => 0) 1 hst
  obtain ⟨j, hj, hjpos, hjfirst⟩ := exists_first hbefore
  -- the array starts with the factors of leaf `j`
  have htwo : alphaAt k (Ptr.add (planeMem f k members) (f.planePage * kPageSize + f.preBytes)) 0 = 2 := by
    have hal := hst.alphas_v1 hv hpv (hj.trans hl)
    have hzero : total (fun l => 2 * f.counts l) j = 0 := by
      unfold total at hjfirst ⊢
      rw [List.sum_eq_zero_iff] at hjfirst ⊢
      intro x hx
      obtain ⟨i, hi, rfl⟩ := List.mem_map.mp hx
      have := hjfirst _ (List.mem_map_of_mem hi)
      omega
    rw [hzero, Nat.add_zero, hst.counts j (hj.trans hl)] at hal
    have hfirst : (members j)[0]? = some fun _ => 2 := by
      rw [hmembers, List.getElem?_replicate, if_pos hjpos, if_neg hj.ne]
    rw [(encodeLeaf_packs k f.pm (members j)).alphaAt_eq hpv hal hfirst, hk, memberAlpha_const]
    rfl
  have hsweep : ∀ blk : Ptr, 2 ≤ scanLeafMaxU8At t k f.pm (f.counts l) blk (fun _ => 0) 1
      (f.blobAlpha (planeMem f k members)) := by
    intro blk
    rw [PlaneFile.blobAlpha, if_pos hpv, scan_alpha (codes_self f.pm blk (f.counts l))
      (.inr fun i _ => by rw [codeSum_zero]; norm_num)]
    have hmem : alphaAt k (Ptr.add (planeMem f k members) (f.planePage * kPageSize + f.preBytes)) 0 *
        ((codeSum f.pm (fun _ => 0) (nibbleAt f.pm blk 0) : ℕ) + 1 : ℚ) ∈
        (List.range (f.counts l)).map fun i => alphaAt k (Ptr.add (planeMem f k members)
          (f.planePage * kPageSize + f.preBytes)) i *
          ((codeSum f.pm (fun _ => 0) (nibbleAt f.pm blk i) : ℕ) + 1 : ℚ) :=
      List.mem_map_of_mem (List.mem_range.mpr hcount)
    have := le_foldl_max hmem lowestFloat
    rw [List.foldl_map, htwo, codeSum_zero] at this
    simpa using this
  have hleft : 2 ≤ f.sweepLeaf t k (planeMem f k members)
      (cache.map fun c => (copies (planeMem f k members) c.1, c.2)) (fun _ => 0) 1 l := by
    unfold PlaneFile.sweepLeaf
    rw [if_neg (by rw [hv]; exact Bool.false_ne_true)]
    cases cache <;> exact hsweep _
  have hright : leafMax k f.pm (fun _ => 0) 1 (members l) ≤ 1 := by
    have hscore : ∀ x ∈ (members l).map (memberScore k f.pm (fun _ => 0) 1), x = 1 := by
      intro x hx
      obtain ⟨pr, hpr, rfl⟩ := List.mem_map.mp hx
      obtain rfl : pr = fun _ => 1 := by simpa [hmembers] using (List.eq_of_mem_replicate hpr)
      have hone : (oneTwoCodec fun _ => 1).ofHalf ((oneTwoCodec fun _ => 1).toHalf 1) = 1 := rfl
      rw [memberScore, if_pos hpv, codeSum_zero, hk, memberAlpha_const, hone]
      norm_num
    have hlow : lowestFloat ≤ 1 := by norm_num [lowestFloat]
    rw [leafMax, if_pos hpv]
    generalize (members l).map (memberScore k f.pm (fun _ => 0) 1) = xs at hscore
    have hid : xs = (List.range xs.length).map fun _ => (1 : ℚ) := by
      rw [List.map_const', List.length_range]
      exact List.eq_replicate_of_mem hscore
    rw [hid, List.foldl_map]
    exact foldl_max_le hlow fun _ _ => le_rfl
  rw [heq] at hleft
  linarith

/-! A member with one code that is not zero, among members that have none. -/

def zeroMember : Proj := fun _ => -1

def oneMember : Proj := fun e => if e = 0 then 1 else -1

def stepCodec : Codec := oneTwoCodec fun c => c

lemma encodeDim_step (e : ℕ) : encodeDim stepCodec (-1) e = 0 ∧ encodeDim stepCodec 1 e = 1 := by
  have h : ∀ v : ℚ, encodeDim stepCodec v e = (List.range 16).foldl
      (fun best c : ℕ => if |v - (c : ℚ)| < |v - (best : ℚ)| then c else best) 0 := fun _ => rfl
  rw [h, h]
  constructor <;> decide +kernel

lemma nibble_zeroMember (pm : PlaneMeta) (g : ℕ) : nibble stepCodec pm zeroMember g = 0 := by
  unfold nibble
  split
  · norm_num [zeroMember]
  · exact (encodeDim_step g).1

lemma nibble_oneMember (pm : PlaneMeta) (g : ℕ) :
    nibble stepCodec pm oneMember g = if g = 0 then 1 else 0 := by
  unfold nibble
  split
  · by_cases hg : g = 0
    · subst hg
      simp [oneMember, List.range_succ]
    · norm_num [oneMember, hg]
  · by_cases hg : g = 0
    · rw [oneMember, if_pos hg, if_pos hg]
      exact (encodeDim_step g).2
    · rw [oneMember, if_neg hg, if_neg hg]
      exact (encodeDim_step g).1

lemma blocks_zero (ws : List (ℕ × Proj)) {x : ℕ} (hws : ∀ w ∈ ws, ∀ g < pm.segments,
    bytePos pm w.1 g = x → nibble k pm w.2 g = 0) : ∀ ls : LeafState, ls.blocks x = 0 →
    (ws.foldl (encodeInto k pm) ls).blocks x = 0 := by
  induction ws with
  | nil => exact fun ls h => h
  | cons w ws ih =>
    intro ls h
    rw [List.foldl_cons]
    refine ih (fun w hw => hws w (List.mem_cons_of_mem _ hw)) _ ?_
    have hw := hws w List.mem_cons_self
    have key : ∀ n ≤ pm.segments, ((List.range n).foldl (setNibble pm w.1 (nibble k pm w.2))
        ls.blocks) x = 0 := by
      intro n
      induction n with
      | zero => exact fun _ => h
      | succ n ihn =>
        intro hn
        rw [List.range_succ, List.foldl_append, List.foldl_cons, List.foldl_nil, setNibble]
        by_cases hx : x = bytePos pm w.1 n
        · rw [← hx, Function.update_self, ihn (by omega), hw n (by omega) hx.symm]
          unfold setLaneNibble
          split <;> rfl
        · rw [Function.update_of_ne hx]
          exact ihn (by omega)
    exact key _ le_rfl

lemma flatMap_zero {g : ℕ → List UInt8} {f : ℕ → ℕ} {n p : ℕ} (hg : ∀ i < n, (g i).length = f i)
    (h : ∀ j < n, ∀ i x, (g j)[i]? = some x → total f j + i ≠ p → x = 0) :
    ∀ i x, ((List.range n).flatMap g)[i]? = some x → i ≠ p → x = 0 := by
  induction n with
  | zero => simp
  | succ n ih =>
    intro i x hx hp
    have hlen : ((List.range n).flatMap g).length = total f n :=
      length_flatMap_range fun i hi => hg i (by omega)
    rw [flatMap_range_succ] at hx
    by_cases hi : i < ((List.range n).flatMap g).length
    · rw [List.getElem?_append_left hi] at hx
      exact ih (fun i hi => hg i (by omega)) (fun j hj => h j (by omega)) i x hx hp
    · rw [List.getElem?_append_right (by omega)] at hx
      exact h n (by omega) _ x hx (by omega)

/-- A leaf with one code that is not zero, in its first slot. -/
def oneCodeMembers (f : PlaneFile) (l j : ℕ) : List Proj :=
  if j = l then oneMember :: List.replicate (f.counts l - 1) zeroMember
  else List.replicate (f.counts j) zeroMember

lemma length_oneCodeMembers {f : PlaneFile} {l : ℕ} (hcount : 0 < f.counts l) (j : ℕ) :
    f.counts j = (oneCodeMembers f l j).length := by
  unfold oneCodeMembers
  by_cases hj : j = l
  · subst hj
    rw [if_pos rfl, List.length_cons, List.length_replicate]
    omega
  · rw [if_neg hj, List.length_replicate]

lemma nibble_oneCodeMembers {f : PlaneFile} {l j i : ℕ} {pr : Proj}
    (h : (oneCodeMembers f l j)[i]? = some pr) (g : ℕ) (hne : ¬ (j = l ∧ i = 0 ∧ g = 0)) :
    nibble stepCodec f.pm pr g = 0 := by
  unfold oneCodeMembers at h
  by_cases hj : j = l
  · rw [if_pos hj] at h
    cases i with
    | zero =>
      obtain rfl : oneMember = pr := by simpa using h
      rw [nibble_oneMember, if_neg fun hg => hne ⟨hj, rfl, hg⟩]
    | succ i =>
      rw [List.getElem?_cons_succ] at h
      obtain rfl := List.eq_of_mem_replicate (List.mem_of_getElem? h)
      exact nibble_zeroMember _ _
  · rw [if_neg hj] at h
    obtain rfl := List.eq_of_mem_replicate (List.mem_of_getElem? h)
    exact nibble_zeroMember _ _

lemma blocks_oneCode {f : PlaneFile} {l j x : ℕ} (hne : ¬ (j = l ∧ x = 0)) :
    (encodeLeaf stepCodec f.pm (oneCodeMembers f l j)).blocks x = 0 := by
  refine blocks_zero _ (fun w hw g hg hx => ?_) .empty rfl
  obtain ⟨y, hy, rfl⟩ := List.mem_map.mp hw
  refine nibble_oneCodeMembers (List.mem_zipIdx_iff_getElem?.mp hy) g ?_
  rintro ⟨hj, hi, rfl⟩
  refine hne ⟨hj, ?_⟩
  rw [← hx, Prod.fst_swap, hi]
  simp [bytePos, kVecsPerBlock]

lemma planeMem_oneCode {f : PlaneFile} {l : ℕ} (hcount : 0 < f.counts l) {y : ℕ} (hy : 0 < y) :
    planeMem f stepCodec (oneCodeMembers f l) (f.fbyte l + y) = 0 := by
  have hcounts : ∀ j < f.n, f.counts j = (oneCodeMembers f l j).length := fun j _ =>
    length_oneCodeMembers hcount j
  rw [planeMem, finalize_some f stepCodec _ hcounts, Option.getD_some, poke,
    if_pos (by unfold PlaneFile.fbyte; omega)]
  set alphas : List UInt8 := if f.pm.pv then (List.range f.n).flatMap fun j =>
    leafAlphas (encodeLeaf stepCodec f.pm (oneCodeMembers f l j)) (f.counts j) else [] with halphas
  have hlen : alphas.length = f.alphaBytes := by
    rw [halphas, PlaneFile.alphaBytes]
    split
    · exact length_flatMap_range fun j _ => length_leafAlphas _ _
    · rfl
  have hpos : f.fbyte l + y - f.planePage * kPageSize =
      f.preBytes + (alphas.length + (f.blockOff l + y)) := by
    rw [hlen]
    unfold PlaneFile.fbyte PlaneFile.blocksOffsetInBlob
    omega
  rw [hpos, List.getElem?_append_right (by simp), List.length_replicate, Nat.add_sub_cancel_left,
    List.getElem?_append_right (by omega), Nat.add_sub_cancel_left]
  cases hx : ((List.range f.n).flatMap fun j =>
      leafBlocks f.pm (encodeLeaf stepCodec f.pm (oneCodeMembers f l j)) (f.counts j))[f.blockOff l + y]? with
  | none => rfl
  | some x =>
    refine flatMap_zero (fun j _ => length_leafBlocks _ _) (p := f.blockOff l) ?_ _ x hx (by omega)
    intro j hj i z hz hne
    rw [leafBlocks, if_pos (by
      rw [hcounts j hj]
      exact (encodeLeaf_packs stepCodec f.pm _).nBlocks)] at hz
    obtain ⟨hi, rfl⟩ := List.getElem?_eq_some_iff.mp hz
    simp only [peek, List.getElem_map, List.getElem_range, Nat.zero_add]
    refine blocks_oneCode ?_
    rintro ⟨rfl, rfl⟩
    exact hne rfl

def oneLut : ℕ → UInt8 := fun x => if x = 1 then 1 else 0

lemma codeSum_oneLut_zero (pm : PlaneMeta) : codeSum pm oneLut (fun _ => 0) = 0 := by
  rw [codeSum, List.sum_eq_zero_iff]
  intro x hx
  obtain ⟨g, -, rfl⟩ := List.mem_map.mp hx
  rw [oneLut, if_neg (by omega)]
  rfl

lemma one_le_codeSum_oneMember (h : 0 < pm.segments) :
    1 ≤ codeSum pm oneLut (nibble stepCodec pm oneMember) := by
  have hmem : (oneLut (0 * 16 + nibble stepCodec pm oneMember 0)).toNat ∈ (List.range pm.segments).map
      fun g => (oneLut (g * 16 + nibble stepCodec pm oneMember g)).toNat :=
    List.mem_map.mpr ⟨0, List.mem_range.mpr h, rfl⟩
  have hone : (oneLut (0 * 16 + nibble stepCodec pm oneMember 0)).toNat = 1 := by
    rw [nibble_oneMember, if_pos rfl]
    rfl
  rw [hone] at hmem
  exact List.single_le_sum (fun _ _ => Nat.zero_le _) _ hmem

lemma not_scoresMembers_rows {f : PlaneFile} {sh : CacheShape} {adm : Admission} {l : ℕ}
    (hv : f.v2 = false) (hcount : 0 < f.counts l) (hseg : 0 < f.pm.segments)
    (href : refused sh adm (f.fbyte l / kPageSize) (f.rowPages l) = true) (hoff : f.pgoff l ≠ 0) :
    ¬ ScoresMembers t f (some (sh, adm)) l := by
  intro hscores
  set members := oneCodeMembers f l with hmembers
  have heq := hscores stepCodec _ members oneLut 0
    (stored_planeMem stepCodec hv fun j _ => length_oneCodeMembers hcount j)
  set mem := planeMem f stepCodec members with hmem
  have hcodes : Codes f.pm (Ptr.add (Ptr.add mem (f.fbyte l)) (f.pgoff l)) (f.counts l)
      fun _ _ => 0 := by
    intro i _ g _
    have hzero : Ptr.add (Ptr.add mem (f.fbyte l)) (f.pgoff l) (bytePos f.pm i g) = 0 :=
      planeMem_oneCode hcount (by omega)
    rw [nibbleAt, hzero]
    unfold laneNibble
    split <;> rfl
  have hfit : SumsFit t f.pm oneLut (f.counts l) fun _ _ => 0 :=
    .inr fun i _ => by rw [codeSum_oneLut_zero]; norm_num
  have hleft : f.sweepLeaf t stepCodec mem (some (copies mem sh, adm)) oneLut 0 l ≤ 0 := by
    unfold PlaneFile.sweepLeaf
    rw [if_neg (by rw [hv]; exact Bool.false_ne_true)]
    dsimp only
    rw [pin_fallback _ href]
    cases hpv : f.pm.pv with
    | false =>
      rw [PlaneFile.blobAlpha, hpv, if_neg Bool.false_ne_true, scan_plain hcodes hfit, codeSum_oneLut_zero,
        cast_foldl_max]
      exact foldl_max_le (by simp) fun _ _ => by simp
    | true =>
      rw [PlaneFile.blobAlpha, hpv, if_pos rfl, scan_alpha hcodes hfit, codeSum_oneLut_zero]
      exact foldl_max_le (by norm_num [lowestFloat]) fun _ _ => by simp
  have hright : 1 ≤ leafMax stepCodec f.pm oneLut 0 (members l) := by
    have hin : oneMember ∈ members l := by simp [hmembers, oneCodeMembers]
    refine le_trans ?_ (le_foldl_max (List.mem_map_of_mem hin) _)
    have hsum : (1 : ℚ) ≤ codeSum f.pm oneLut (nibble stepCodec f.pm oneMember) := by
      exact_mod_cast one_le_codeSum_oneMember hseg
    unfold memberScore
    split
    · have hhalf : 1 ≤ stepCodec.ofHalf (memberAlpha stepCodec f.pm oneMember) := one_le_ofHalf _ _
      rw [add_zero]
      exact le_trans hsum (le_mul_of_one_le_left (by linarith) hhalf)
    · exact hsum
  rw [Option.map_some] at heq
  rw [heq] at hleft
  linarith

/-! Members without a code that is not zero: the plane of such leaves is all zeros. -/

def zeroCodec : Codec := { stepCodec with toHalf := fun _ => 0, ofHalf := fun _ => 1 }

def zeroMembers (f : PlaneFile) (j : ℕ) : List Proj := List.replicate (f.counts j) zeroMember

lemma blocks_zeroMembers (f : PlaneFile) (j x : ℕ) :
    (encodeLeaf zeroCodec f.pm (zeroMembers f j)).blocks x = 0 := by
  refine blocks_zero _ (fun w hw g _ _ => ?_) .empty rfl
  obtain ⟨y, hy, rfl⟩ := List.mem_map.mp hw
  have hzero : y.1 = zeroMember :=
    List.eq_of_mem_replicate (List.mem_of_getElem? (List.mem_zipIdx_iff_getElem?.mp hy))
  rw [Prod.snd_swap, hzero]
  exact nibble_zeroMember f.pm g

lemma alphas_zero (ws : List (ℕ × Proj)) (i : ℕ) : ∀ ls : LeafState, ls.alphas i = 0 →
    (ws.foldl (encodeInto zeroCodec pm) ls).alphas i = 0 := by
  induction ws with
  | nil => exact fun ls h => h
  | cons w ws ih =>
    intro ls h
    rw [List.foldl_cons]
    refine ih _ ?_
    simp only [encodeInto]
    split
    case isTrue =>
      rw [Function.update_apply]
      split
      · rfl
      · exact h
    case isFalse => exact h

lemma holds_zero {pos : ℕ} {b : List UInt8} (h : ∀ x ∈ b, x = 0) : Holds (fun _ => 0) pos b :=
  fun _ x hx => (h x (List.mem_of_getElem? hx)).symm

lemma leafBlocks_zeroMembers (f : PlaneFile) (j : ℕ) :
    ∀ x ∈ leafBlocks f.pm (encodeLeaf zeroCodec f.pm (zeroMembers f j)) (f.counts j), x = 0 := by
  intro x hx
  rw [leafBlocks] at hx
  split at hx
  case isTrue =>
    obtain ⟨i, -, rfl⟩ := List.mem_map.mp hx
    exact blocks_zeroMembers f j _
  case isFalse => exact List.eq_of_mem_replicate hx

lemma leafAlphas_zeroMembers (f : PlaneFile) (j : ℕ) :
    ∀ x ∈ leafAlphas (encodeLeaf zeroCodec f.pm (zeroMembers f j)) (f.counts j), x = 0 := by
  intro x hx
  obtain ⟨i, -, hx⟩ := List.mem_flatMap.mp hx
  rw [encodeLeaf, alphas_zero _ i .empty rfl] at hx
  exact List.eq_of_mem_replicate (show x ∈ List.replicate 2 0 from hx)

lemma stored_zero (f : PlaneFile) : Stored f zeroCodec (fun _ => 0) (zeroMembers f) := by
  have hcounts : ∀ l < f.n, f.counts l = (zeroMembers f l).length := fun l _ => by simp [zeroMembers]
  refine ⟨hcounts, fun _ => ⟨List.replicate f.preBytes 0, _, by simp,
    finalize_some f zeroCodec _ hcounts, holds_zero fun x hx => ?_⟩, fun _ l hl => ?_⟩
  · rcases List.mem_append.mp hx with hx | hx
    · exact List.eq_of_mem_replicate hx
    rcases List.mem_append.mp hx with hx | hx
    · split at hx
      · obtain ⟨j, -, hx⟩ := List.mem_flatMap.mp hx
        exact leafAlphas_zeroMembers f j x hx
      · cases hx
    · obtain ⟨j, -, hx⟩ := List.mem_flatMap.mp hx
      exact leafBlocks_zeroMembers f j x hx
  · have hpack := encodeLeaf_packs zeroCodec f.pm (zeroMembers f l)
    have hblocks := hpack.nBlocks
    have halphas := hpack.nAlphas
    rw [← hcounts l hl] at hblocks halphas
    refine ⟨_, if_neg ?_, holds_zero fun x hx => ?_⟩
    · rintro (h | ⟨hpv, h⟩)
      · omega
      · exact absurd (halphas hpv) (by omega)
    · rcases List.mem_append.mp hx with hx | hx
      · exact leafBlocks_zeroMembers f l x hx
      · split at hx
        · exact leafAlphas_zeroMembers f l x hx
        · cases hx

/-- No score exceeds a lane of 16 bits, whatever bytes are scanned. -/
lemma scan_le (ht : t ≠ .portable) (count : ℕ) (blk : Ptr) (lut : ℕ → UInt8) (alphas : Option Ptr) :
    scanLeafMaxU8At t zeroCodec pm count blk lut 0 alphas ≤ 65535 := by
  have hsum : ∀ b j, j < validLanes count b →
      (pq4ScanMany t blk lut pm.segments (laneMask count) b j).toNat ≤ 65535 := by
    intro b j hj
    rw [pq4ScanMany, if_pos (by rw [testBit_laneMask, decide_eq_true hj])]
    exact BlockKernels.pq4Block32_le _ _ _ _ ht
  cases alphas with
  | none =>
    refine (Nat.cast_le (α := ℚ) (n := 65535)).mpr ?_
    refine List.foldlRecOn (motive := (· ≤ 65535)) _ _ (Nat.zero_le _) fun best hbest b _ => ?_
    refine List.foldlRecOn (motive := (· ≤ 65535)) _ _ hbest fun best hbest j _ => ?_
    split
    case isTrue hvalid =>
      refine max_le hbest (hsum b j ?_)
      by_contra hout
      exact hvalid (pq4ScanMany_invalid blk lut (Nat.not_lt.mp hout))
    case isFalse => exact hbest
  | some p =>
    refine List.foldlRecOn (motive := fun acc : ℚ × ℕ => acc.1 ≤ 65535) _ _ (by norm_num [lowestFloat])
      fun acc hacc b _ => ?_
    refine List.foldlRecOn (motive := fun acc : ℚ × ℕ => acc.1 ≤ 65535) _ _ hacc fun acc hacc j hj => ?_
    have hone : alphaAt zeroCodec p acc.2 = 1 := rfl
    refine max_le hacc ?_
    rw [hone, one_mul, add_zero]
    exact_mod_cast hsum b j (List.mem_range.mp hj)

lemma not_scoresMembers_wide {f : PlaneFile} {cache : Option (CacheShape × Admission)} {l : ℕ}
    (hcount : 0 < f.counts l) (hwide : ¬ LanesFit t f.pm) : ¬ ScoresMembers t f cache l := by
  intro hscores
  rw [LanesFit, not_or, Nat.not_le] at hwide
  have heq := hscores zeroCodec _ (zeroMembers f) (fun _ => 255) 0 (stored_zero f)
  have hleft : f.sweepLeaf t zeroCodec (fun _ => 0) (cache.map fun c => (copies (fun _ => 0) c.1, c.2))
      (fun _ => 255) 0 l ≤ 65535 := by
    unfold PlaneFile.sweepLeaf
    split
    · exact scan_le hwide.1 _ _ _ _
    · split
      · exact scan_le hwide.1 _ _ _ _
      · exact scan_le hwide.1 _ _ _ _
  have hright : (f.pm.segments * 255 : ℕ) ≤ leafMax zeroCodec f.pm (fun _ => 255) 0 (zeroMembers f l) := by
    have hin : zeroMember ∈ zeroMembers f l := List.mem_replicate.mpr ⟨hcount.ne', rfl⟩
    have hscore : memberScore zeroCodec f.pm (fun _ => 255) 0 zeroMember = (f.pm.segments * 255 : ℕ) := by
      have hsum : codeSum f.pm (fun _ => 255) (nibble zeroCodec f.pm zeroMember) = f.pm.segments * 255 := by
        simp [codeSum]
      have hone : zeroCodec.ofHalf (memberAlpha zeroCodec f.pm zeroMember) = 1 := rfl
      rw [memberScore, hsum, hone, one_mul, add_zero, ite_self]
    rw [← hscore]
    exact le_foldl_max (List.mem_map_of_mem hin) _
  rw [heq] at hleft
  have hle : f.pm.segments * 255 ≤ 65535 := by exact_mod_cast hright.trans hleft
  omega

/-- Two leaves of one member each, rank four, the plane on page two behind 128 bytes. -/
def twoLeafPlane (encoding : PlaneEncoding) (v2 : Bool) : PlaneFile where
  pm := ⟨encoding, 4, by decide, by decide⟩
  v2 := v2
  n := 2
  counts _ := 1
  planePage := 2
  preBytes := 128
  leafPage l := 3 + l
  leafPlaneOffset _ := 256

end SextantTree.Plane
