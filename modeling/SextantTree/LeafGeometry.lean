import SextantTree.LeafWritersSpec

/-!
The layout of a leaf against its writers. The regions that `geometry` and `extent_bytes` describe lie
one behind the other for every family. The writers put codes, biases, row ids and the state of the
leaf there, except that the two product-quantized families count their blocks in 32 bits.
-/

namespace SextantTree.LeafCodes

open ByteMem

/-! ### Regions -/

/-- What a build accepts: a number of segments above zero, and codes of 2, 4 or 8 bits. -/
def Family.Accepted : Family → Prop
  | .globalPq m4 bits => 0 < m4 ∧ (bits = 2 ∨ bits = 4 ∨ bits = 8)
  | .localPq _ m4 bits => 0 < m4 ∧ (bits = 2 ∨ bits = 4 ∨ bits = 8)
  | .scalarLm _ _ => True
  | .localScalar _ _ => True

/-- What the leaf keeps for itself: start and size of each region. -/
def Family.stateRegions (ss : ℕ) : Family → List (ℕ × ℕ)
  | .globalPq _ _ => []
  | .localPq dim m4 bits => [(localCentroidOffset ss, localCentroidBytes dim),
      (localCodebookOffset ss dim, localCodebookBytes m4 dim bits)]
  | .scalarLm _ _ => []
  | .localScalar dim _ => [(lscLevelsOffset ss, 2 * dim * 2)]

def Family.codeBytes (count : ℕ) : Family → ℕ
  | .globalPq m4 bits => (count + codesPerBlock bits - 1) / codesPerBlock bits * (m4 * 16)
  | .localPq _ m4 bits => (count + codesPerBlock bits - 1) / codesPerBlock bits * (m4 * 16)
  | .scalarLm cs _ => count * cs
  | .localScalar dim _ => count * lscCodeSize dim

def Family.biasBytes (count : ℕ) : Family → ℕ
  | .globalPq _ _ => 0
  | .localPq _ _ _ => 0
  | .scalarLm _ hasIpBias => scalarBiasBytes count hasIpBias
  | .localScalar _ hasIpBias => scalarBiasBytes count hasIpBias

/-- Header, summary, state, codes, biases, row ids and filter columns: start and size. -/
def Family.regions (fam : Family) (ss count fcb : ℕ) : List (ℕ × ℕ) :=
  let g := fam.geometry ss count
  (0, 112) :: (112, ss) :: (fam.stateRegions ss ++
    [(g.codesOffset, fam.codeBytes count),
      (g.codesOffset + fam.codeBytes count, fam.biasBytes count),
      (g.rowidsOffset, count * 8), (g.filterOffset, fcb)])

/-- Regions one behind the other, so that no two have a byte in common. -/
def Ordered (rs : List (ℕ × ℕ)) : Prop := rs.Pairwise fun r t => r.1 + r.2 ≤ t.1

lemma le_alignUp (n k : ℕ) (hk : 0 < k) : n ≤ (n + k - 1) / k * k := by
  have := Nat.lt_div_mul_add (a := n + k - 1) hk
  omega

lemma summary_le_codes (ss : ℕ) : 112 + ss ≤ leafCodesOffset ss := le_alignUp (112 + ss) 8 (by decide)

lemma summary_le_centroid (ss : ℕ) : 112 + ss ≤ localCentroidOffset ss :=
  le_alignUp (112 + ss) 16 (by decide)

lemma centroid_le_codebook (ss dim : ℕ) :
    localCentroidOffset ss + localCentroidBytes dim ≤ localCodebookOffset ss dim :=
  le_alignUp _ 16 (by decide)

lemma codebook_le_codes (ss dim m4 bits : ℕ) :
    localCodebookOffset ss dim + localCodebookBytes m4 dim bits ≤ localCodesOffset ss dim m4 bits :=
  le_alignUp _ 8 (by decide)

lemma blocks_mod {bits count : ℕ} (hcount : count < 2 ^ 32) :
    (count + codesPerBlock bits - 1) / codesPerBlock bits % 2 ^ 32 =
      (count + codesPerBlock bits - 1) / codesPerBlock bits := by
  refine Nat.mod_eq_of_lt ?_
  have hpos := codesPerBlock_pos bits
  rw [Nat.div_lt_iff_lt_mul hpos]
  have : codesPerBlock bits = 32 ∨ codesPerBlock bits = 16 := by
    unfold codesPerBlock
    split <;> simp
  omega

section Layout

variable (fam : Family) (ss count fcb : ℕ)

lemma filterOffset_add (hcount : count < 2 ^ 32) :
    (fam.geometry ss count).filterOffset + fcb = fam.extentBytes count ss fcb := by
  cases fam with
  | globalPq m4 bits =>
    simp only [Family.geometry, Family.extentBytes, leafRowidsOffset, leafExtentBytes,
      blocks_mod hcount]
  | localPq dim m4 bits =>
    simp only [Family.geometry, Family.extentBytes, localRowidsOffset, localCodedExtentBytes,
      blocks_mod hcount]
  | scalarLm cs hasIpBias => rfl
  | localScalar dim hasIpBias => rfl

lemma rowidsOffset_eq : (fam.geometry ss count).rowidsOffset =
    (fam.geometry ss count).codesOffset + fam.codeBytes count + fam.biasBytes count := by
  cases fam <;> rfl

lemma filterOffset_eq : (fam.geometry ss count).filterOffset =
    (fam.geometry ss count).rowidsOffset + count * 8 := by
  cases fam <;> rfl

lemma stateRegions_ordered : Ordered (fam.stateRegions ss) ∧
    (∀ r ∈ fam.stateRegions ss, 112 + ss ≤ r.1 ∧ r.1 + r.2 ≤ (fam.geometry ss count).codesOffset) ∧
    112 + ss ≤ (fam.geometry ss count).codesOffset := by
  have h₁ := summary_le_codes ss
  have h₂ := summary_le_centroid ss
  cases fam with
  | globalPq m4 bits => exact ⟨.nil, fun _ h => absurd h (by simp [Family.stateRegions]), h₁⟩
  | localPq dim m4 bits =>
    have h₃ := centroid_le_codebook ss dim
    have h₄ := codebook_le_codes ss dim m4 bits
    simp only [Family.stateRegions, Family.geometry, Ordered]
    refine ⟨by simpa using h₃, fun r hr => ?_, by omega⟩
    simp only [List.mem_cons, List.not_mem_nil, or_false] at hr
    rcases hr with rfl | rfl <;> constructor <;> dsimp only <;> omega
  | scalarLm cs hasIpBias => exact ⟨.nil, fun _ h => absurd h (by simp [Family.stateRegions]), h₁⟩
  | localScalar dim hasIpBias =>
    simp only [Family.stateRegions, Family.geometry, lscLevelsOffset, lscCodesOffset, Ordered]
    refine ⟨List.pairwise_singleton _ _, fun r hr => ?_, by omega⟩
    obtain rfl := List.mem_singleton.mp hr
    exact ⟨h₁, le_rfl⟩

/-- **The regions are in order.** -/
lemma regions_ordered : Ordered (fam.regions ss count fcb) := by
  obtain ⟨hstate, hin, hcodes⟩ := stateRegions_ordered fam ss count
  have hrow := rowidsOffset_eq fam ss count
  have hfilter := filterOffset_eq fam ss count
  simp only [Ordered, Family.regions, List.pairwise_cons, List.pairwise_append]
  refine ⟨fun r hr => ?_, fun r hr => ?_, hstate, ?_, fun r hr t ht => ?_⟩
  · simp only [List.mem_cons, List.mem_append, List.not_mem_nil, or_false] at hr
    rcases hr with rfl | hr | rfl | rfl | rfl | rfl
    · exact le_rfl
    · have := hin r hr
      omega
    all_goals dsimp only; omega
  · simp only [List.mem_cons, List.mem_append, List.not_mem_nil, or_false] at hr
    rcases hr with hr | rfl | rfl | rfl | rfl
    · exact (hin r hr).1
    all_goals dsimp only; omega
  · simp only [List.mem_cons, List.not_mem_nil, or_false, forall_eq_or_imp, forall_eq,
      false_imp_iff, implies_true, List.Pairwise.nil, and_true]
    omega
  · have := hin r hr
    simp only [List.mem_cons, List.not_mem_nil, or_false] at ht
    rcases ht with rfl | rfl | rfl | rfl <;> dsimp only <;> omega

/-- **The regions are inside the extent.** -/
lemma regions_inside (hcount : count < 2 ^ 32) :
    ∀ r ∈ fam.regions ss count fcb, r.1 + r.2 ≤ fam.extentBytes count ss fcb := by
  obtain ⟨-, hin, hcodes⟩ := stateRegions_ordered fam ss count
  have hrow := rowidsOffset_eq fam ss count
  have hfilter := filterOffset_eq fam ss count
  rw [← filterOffset_add fam ss count fcb hcount]
  intro r hr
  simp only [Family.regions, List.mem_cons, List.mem_append, List.not_mem_nil, or_false] at hr
  rcases hr with rfl | rfl | hr | rfl | rfl | rfl | rfl
  · dsimp only; omega
  · dsimp only; omega
  · have := hin r hr
    omega
  all_goals dsimp only; omega

end Layout

/-! ### Product-quantized leaves -/

/-- The blocks for `count` rows are clear. -/
def ClearBlocks (bits m4 base : ℕ) (m : Mem) (count : ℕ) : Prop :=
  ClearTo bits m4 base m ((count + codesPerBlock bits - 1) / codesPerBlock bits)

/-- Only the fields of the header that a coder owns and a region are written. -/
def OnlyWrites (lo hi : ℕ) (m m' : Mem) : Prop :=
  ∀ p, p < 88 ∨ 100 ≤ p → p < lo ∨ hi ≤ p → m' p = m p

/-- The writers of `GlobalPqCoder` against a geometry for `count` rows. -/
structure GlobalAgrees (m4 bits ss count : ℕ) (g : LeafGeometry) : Prop where
  flush : ∀ codes m : Mem, (globalFlush m4 bits ss count codes m).2 = g.rowidsOffset ∧
    HoldsCodes bits m4 g.codesOffset (globalFlush m4 bits ss count codes m).1 count
      (flushSegments bits m4 codes) ∧
    Untouched g.codesOffset g.rowidsOffset m (globalFlush m4 bits ss count codes m).1
  group : ∀ codes rowIds m : Mem, ClearBlocks bits m4 g.codesOffset m count →
    HoldsCodes bits m4 g.codesOffset (globalGroup m4 bits ss count codes rowIds m) count
      (packedSegments bits m4 codes) ∧
    Holds (globalGroup m4 bits ss count codes rowIds m) g.rowidsOffset (peek rowIds 0 (count * 8)) ∧
    Untouched g.codesOffset g.filterOffset m (globalGroup m4 bits ss count codes rowIds m)
  append : ∀ (oldCount n : ℕ) (old m : Mem) (new : ℕ → Mem) (c : ℕ → ℕ → UInt8),
    oldCount + n = count →
    HoldsCodes bits m4 ((Family.globalPq m4 bits).geometry ss oldCount).codesOffset old oldCount c →
    ClearBlocks bits m4 g.codesOffset m count →
    HoldsCodes bits m4 g.codesOffset (globalAppend m4 bits ss oldCount n old new m) count
      (fun i => if i < oldCount then c i else
        segmentOf bits (codeSize m4 bits) (new (i - oldCount))) ∧
    Untouched g.codesOffset g.rowidsOffset m (globalAppend m4 bits ss oldCount n old new m)
  compact : ∀ (old m : Mem) (keep : List ℕ), keep.length = count →
    ClearBlocks bits m4 g.codesOffset m count →
    HoldsCodes bits m4 g.codesOffset (globalCompact m4 bits ss old keep m) count
      (fun i => movedSegment bits old
        (g.codesOffset + keep.getD i 0 / codesPerBlock bits * (m4 * 16))
        (keep.getD i 0 % codesPerBlock bits)) ∧
    Untouched g.codesOffset g.rowidsOffset m (globalCompact m4 bits ss old keep m)

section Pq

variable {bits m4 base count : ℕ} {m m' : Mem}

lemma HoldsCodes.of_agree {c : ℕ → ℕ → UInt8} (h : HoldsCodes bits m4 base m count c)
    (heq : ∀ p, base ≤ p →
      p < base + (count + codesPerBlock bits - 1) / codesPerBlock bits * (m4 * 16) → m' p = m p) :
    HoldsCodes bits m4 base m' count c := by
  have hrow : ∀ i d, i / codesPerBlock bits < (count + codesPerBlock bits - 1) / codesPerBlock bits →
      RowHolds bits m4 base m i d → RowHolds bits m4 base m' i d := by
    intro i d hi hd
    refine hd.congr fun s hs => PackedCells.cell_congr ?_
    have hbyte := byteOf_laneAddr bits base i hs
    have hend := Nat.mul_le_mul_right (m4 * 16) (show i / codesPerBlock bits + 1 ≤ _ from hi)
    rw [Nat.add_mul, Nat.one_mul] at hend
    exact heq _ (by omega) (by omega)
  exact ⟨fun i hi => hrow i _ (div_lt_of_lt hi) (h.rows i hi), fun i hi hlt => hrow i _ hlt (h.rest i hi hlt)⟩

lemma holdsCodes_poke {c : ℕ → ℕ → UInt8} (h : HoldsCodes bits m4 base m count c) {pos : ℕ}
    (hpos : base + (count + codesPerBlock bits - 1) / codesPerBlock bits * (m4 * 16) ≤ pos)
    (b : List UInt8) : HoldsCodes bits m4 base (poke m pos b) count c :=
  h.of_agree fun _ _ hp => poke_apply_of_lt (hp.trans_le hpos)

lemma globalAgrees (ss : ℕ) (hfits : count + codesPerBlock bits - 1 < 2 ^ 32) :
    GlobalAgrees m4 bits ss count ((Family.globalPq m4 bits).geometry ss count) := by
  have hblocks : blockCount bits count = (count + codesPerBlock bits - 1) / codesPerBlock bits :=
    blockCount_eq hfits
  refine ⟨fun codes m => ?_, fun codes rowIds m hclear => ?_, ?_, ?_⟩
  · obtain ⟨hrows, hframe⟩ := flushCodes_spec codes m bits m4 (leafCodesOffset ss) count hfits
    refine ⟨?_, hrows, hframe⟩
    simp only [globalFlush, hblocks, Family.geometry]
  · obtain ⟨hrows, hframe⟩ := groupCodes_spec codes m bits m4 (leafCodesOffset ss) count hclear
    simp only [globalGroup, hblocks, Family.geometry]
    refine ⟨holdsCodes_poke hrows le_rfl _, holds_poke_self _ _ _, fun p hp => ?_⟩
    simp only [leafRowidsOffset] at hp ⊢
    rw [poke_peek_apply, if_neg (by omega)]
    exact hframe p (by omega)
  · rintro oldCount n old m new c rfl hold hclear
    have hsum : oldCount + n < 2 ^ 32 := by
      have := codesPerBlock_pos bits
      omega
    exact appendCodes_spec m bits m4 (leafCodesOffset ss) oldCount n new hold hsum (by omega) hclear
  · rintro old m keep rfl hclear
    exact compactCodes_spec old m bits m4 (leafCodesOffset ss) keep hclear

lemma blockCount_ne (hm : 0 < m4) (hcount : count < 2 ^ 32)
    (h : 2 ^ 32 ≤ count + codesPerBlock bits - 1) : blockCount bits count * (m4 * 16) ≠
      (count + codesPerBlock bits - 1) / codesPerBlock bits * (m4 * 16) := by
  have hpos := codesPerBlock_pos bits
  have hle := codesPerBlock_le bits
  have hone : 0 < (count + codesPerBlock bits - 1) / codesPerBlock bits :=
    Nat.div_pos (by omega) hpos
  have := Nat.mul_pos hone (show 0 < m4 * 16 by omega)
  rw [blockCount_of_wrap hcount h, Nat.zero_mul]
  omega

lemma globalAgrees_iff (ss : ℕ) (hm : 0 < m4) (hcount : count < 2 ^ 32) :
    GlobalAgrees m4 bits ss count ((Family.globalPq m4 bits).geometry ss count) ↔
      count + codesPerBlock bits - 1 < 2 ^ 32 := by
  constructor
  · intro h
    by_contra hwrap
    have hret := (h.flush (fun _ => 0) fun _ => 0).1
    simp only [globalFlush, Family.geometry, leafRowidsOffset] at hret
    exact blockCount_ne hm hcount (not_lt.mp hwrap) (by omega)
  · exact globalAgrees ss

/-! ### Product quantization of a leaf -/

structure StateHolds (dim m4 bits ss : ℕ) (centroid codebook m : Mem) : Prop where
  centroid : ∀ k < dim * 4, m (localCentroidOffset ss + k) = centroid k
  codebook : ∀ k < m4 * 2 ^ bits * (dim / m4) * 4, m (localCodebookOffset ss dim + k) = codebook k

/-- The writers of `LocalPqCoder` against a geometry for `count` rows. -/
structure LocalAgrees (dim m4 bits ss count : ℕ) (g : LeafGeometry) : Prop where
  flush : ∀ centroid codebook codes m : Mem,
    (localFlush dim m4 bits ss count centroid codebook codes m).2 = g.rowidsOffset ∧
    HoldsCodes bits m4 g.codesOffset (localFlush dim m4 bits ss count centroid codebook codes m).1
      count (flushSegments bits m4 codes) ∧
    StateHolds dim m4 bits ss centroid codebook
      (localFlush dim m4 bits ss count centroid codebook codes m).1 ∧
    OnlyWrites (localCentroidOffset ss) g.rowidsOffset m
      (localFlush dim m4 bits ss count centroid codebook codes m).1
  group : ∀ centroid codebook codes rowIds m : Mem,
    HoldsCodes bits m4 g.codesOffset
      (localGroup dim m4 bits ss count centroid codebook codes rowIds m) count
      (flushSegments bits m4 codes) ∧
    StateHolds dim m4 bits ss centroid codebook
      (localGroup dim m4 bits ss count centroid codebook codes rowIds m) ∧
    Holds (localGroup dim m4 bits ss count centroid codebook codes rowIds m) g.rowidsOffset
      (peek rowIds 0 (count * 8)) ∧
    OnlyWrites (localCentroidOffset ss) g.filterOffset m
      (localGroup dim m4 bits ss count centroid codebook codes rowIds m)
  append : ∀ (oldCount n : ℕ) (old m : Mem) (new : ℕ → Mem) (c : ℕ → ℕ → UInt8),
    oldCount + n = count →
    HoldsCodes bits m4 ((Family.localPq dim m4 bits).geometry ss oldCount).codesOffset old oldCount c →
    ClearBlocks bits m4 g.codesOffset m count →
    HoldsCodes bits m4 g.codesOffset (localAppend dim m4 bits ss oldCount n old new m) count
      (fun i => if i < oldCount then c i else
        segmentOf bits (codeSize m4 bits) (new (i - oldCount))) ∧
    (∀ p, localCentroidOffset ss ≤ p → p < g.codesOffset →
      localAppend dim m4 bits ss oldCount n old new m p = old p) ∧
    Untouched (localCentroidOffset ss) g.rowidsOffset m (localAppend dim m4 bits ss oldCount n old new m)

variable {dim ss : ℕ}

lemma codebook_fits (m4 dim : ℕ) (hbits : bits = 2 ∨ bits = 4 ∨ bits = 8) :
    m4 * 2 ^ bits * (dim / m4) * 4 ≤ localCodebookBytes m4 dim bits := by
  refine Nat.mul_le_mul_right 4 (Nat.mul_le_mul_right _ (Nat.mul_le_mul_left m4 ?_))
  rcases hbits with rfl | rfl | rfl <;> decide

lemma localState_spec (dim m4 ss : ℕ) (hbits : bits = 2 ∨ bits = 4 ∨ bits = 8) (centroid codebook m : Mem) :
    StateHolds dim m4 bits ss centroid codebook (localState dim m4 bits ss centroid codebook m) ∧
      OnlyWrites (localCentroidOffset ss) (localCodesOffset ss dim m4 bits) m
        (localState dim m4 bits ss centroid codebook m) := by
  have hfit := codebook_fits m4 dim hbits
  have h₁ := summary_le_centroid ss
  have h₂ := centroid_le_codebook ss dim
  have h₃ := codebook_le_codes ss dim m4 bits
  simp only [localCentroidBytes] at h₂
  refine ⟨⟨fun k hk => ?_, fun k hk => ?_⟩, fun p hp hout => ?_⟩
  · simp only [localState, poke_peek_apply]
    rw [if_neg (by omega), if_pos (by omega)]
    congr 1
    omega
  · simp only [localState, poke_peek_apply]
    rw [if_pos (by omega)]
    congr 1
    omega
  · simp only [localState, poke_peek_apply]
    rw [if_neg (by omega), if_neg (by omega)]
    have hfield : ∀ (m : Mem) (pos : ℕ) (b : List UInt8), 88 ≤ pos → pos + b.length ≤ 100 →
        poke m pos b p = m p := by
      intro m pos b h₁ h₂
      rcases hp with hp | hp
      · exact poke_apply_of_lt (by omega)
      · exact poke_apply_of_le (by omega)
    rw [hfield _ 96 _ (by omega) (by rw [length_leBytes]), hfield _ 92 _ (by omega)
      (by rw [length_leBytes]; omega), hfield _ 88 _ (by omega) (by simp)]

lemma StateHolds.of_agree {centroid codebook : Mem} (hbits : bits = 2 ∨ bits = 4 ∨ bits = 8)
    (h : StateHolds dim m4 bits ss centroid codebook m)
    (heq : ∀ p, p < localCodesOffset ss dim m4 bits → m' p = m p) :
    StateHolds dim m4 bits ss centroid codebook m' := by
  have hfit := codebook_fits m4 dim hbits
  have h₂ := centroid_le_codebook ss dim
  have h₃ := codebook_le_codes ss dim m4 bits
  simp only [localCentroidBytes] at h₂
  exact ⟨fun k hk => (heq _ (by omega)).trans (h.centroid k hk),
    fun k hk => (heq _ (by omega)).trans (h.codebook k hk)⟩

lemma localAgrees (ss : ℕ) (hbits : bits = 2 ∨ bits = 4 ∨ bits = 8)
    (hfits : count + codesPerBlock bits - 1 < 2 ^ 32) :
    LocalAgrees dim m4 bits ss count ((Family.localPq dim m4 bits).geometry ss count) := by
  have hblocks : blockCount bits count = (count + codesPerBlock bits - 1) / codesPerBlock bits :=
    blockCount_eq hfits
  have h₂ := centroid_le_codebook ss dim
  have h₃ := codebook_le_codes ss dim m4 bits
  have hflush := fun centroid codebook codes m : Mem => flushCodes_spec codes
    (localState dim m4 bits ss centroid codebook m) bits m4 (localCodesOffset ss dim m4 bits) count hfits
  refine ⟨fun centroid codebook codes m => ?_, fun centroid codebook codes rowIds m => ?_, ?_⟩
  · obtain ⟨hrows, hframe⟩ := hflush centroid codebook codes m
    obtain ⟨hstate, honly⟩ := localState_spec dim m4 ss hbits centroid codebook m
    refine ⟨?_, hrows, hstate.of_agree hbits fun p hp => hframe p (.inl hp), fun p hp hout => ?_⟩
    · simp only [localFlush, hblocks, Family.geometry]
    · simp only [Family.geometry, localRowidsOffset] at hout
      exact (hframe p (by omega)).trans (honly p hp (by omega))
  · obtain ⟨hrows, hframe⟩ := hflush centroid codebook codes m
    obtain ⟨hstate, honly⟩ := localState_spec dim m4 ss hbits centroid codebook m
    simp only [localGroup, hblocks, Family.geometry]
    refine ⟨holdsCodes_poke hrows le_rfl _, ?_, holds_poke_self _ _ _, fun p hp hout => ?_⟩
    · refine hstate.of_agree hbits fun p hp => ?_
      rw [poke_apply_of_lt (by simp only [localRowidsOffset]; omega)]
      exact hframe p (.inl hp)
    · simp only [localRowidsOffset] at hout ⊢
      rw [poke_peek_apply, if_neg (by omega)]
      exact (hframe p (by omega)).trans (honly p hp (by omega))
  · rintro oldCount n old m new c rfl hold hclear
    have hsum : oldCount + n < 2 ^ 32 := by
      have := codesPerBlock_pos bits
      omega
    have hcopy : ∀ p, localCodesOffset ss dim m4 bits ≤ p → poke m (localCentroidOffset ss)
        (peek old (localCentroidOffset ss)
          (localCodesOffset ss dim m4 bits - localCentroidOffset ss)) p = m p := by
      intro p hp
      rw [poke_peek_apply, if_neg (by omega)]
    obtain ⟨hrows, hframe⟩ := appendCodes_spec (poke m (localCentroidOffset ss)
      (peek old (localCentroidOffset ss) (localCodesOffset ss dim m4 bits - localCentroidOffset ss)))
      bits m4 (localCodesOffset ss dim m4 bits) oldCount n new hold hsum (by omega) (by
        intro i hi
        refine (hclear i hi).congr fun s hs => PackedCells.cell_congr (hcopy _ ?_)
        exact (Nat.le_add_right _ _).trans
          (byteOf_laneAddr bits (localCodesOffset ss dim m4 bits) i hs).1)
    refine ⟨hrows, fun p h₁ h₂ => ?_, fun p hp => ?_⟩
    · simp only [Family.geometry] at h₂
      refine (hframe p (.inl h₂)).trans ?_
      rw [poke_peek_apply, if_pos (by omega)]
      congr 1
      omega
    · simp only [Family.geometry, localRowidsOffset] at hp
      refine (hframe p (by omega)).trans ?_
      rw [poke_peek_apply, if_neg (by omega)]

lemma localAgrees_iff (ss : ℕ) (hm : 0 < m4) (hbits : bits = 2 ∨ bits = 4 ∨ bits = 8)
    (hcount : count < 2 ^ 32) :
    LocalAgrees dim m4 bits ss count ((Family.localPq dim m4 bits).geometry ss count) ↔
      count + codesPerBlock bits - 1 < 2 ^ 32 := by
  constructor
  · intro h
    by_contra hwrap
    have hret := (h.flush (fun _ => 0) (fun _ => 0) (fun _ => 0) fun _ => 0).1
    simp only [localFlush, Family.geometry, localRowidsOffset] at hret
    exact blockCount_ne hm hcount (not_lt.mp hwrap) (by omega)
  · exact localAgrees ss hbits

end Pq

/-! ### Scalar leaves -/

/-- The writers of `ScalarLmCoder` against a geometry for `count` rows. -/
structure SlmAgrees (cs : ℕ) (hasIpBias : Bool) (ss count : ℕ) (g : LeafGeometry) : Prop where
  flush : ∀ (codes m : Mem) (biases : Option Mem),
    (slmFlush cs hasIpBias ss count codes biases m).2 = g.rowidsOffset ∧
    FlatRows cs hasIpBias g.codesOffset count (slmFlush cs hasIpBias ss count codes biases m).1
      (fun i k => codes (i * cs + k))
      (fun i k => biasByte biases m (g.codesOffset + count * cs) (i * 2 + k)) ∧
    Untouched g.codesOffset g.rowidsOffset m (slmFlush cs hasIpBias ss count codes biases m).1
  group : ∀ (codes rowIds m : Mem) (biases : Option Mem),
    FlatRows cs hasIpBias g.codesOffset count
      (slmGroup cs hasIpBias ss count codes biases rowIds m) (fun i k => codes (i * cs + k))
      (fun i k => biasByte biases m (g.codesOffset + count * cs) (i * 2 + k)) ∧
    Holds (slmGroup cs hasIpBias ss count codes biases rowIds m) g.rowidsOffset
      (peek rowIds 0 (count * 8)) ∧
    Untouched g.codesOffset g.filterOffset m (slmGroup cs hasIpBias ss count codes biases rowIds m)
  append : ∀ (oldCount n : ℕ) (old m : Mem) (code bias : ℕ → Mem), oldCount + n = count →
    FlatRows cs hasIpBias g.codesOffset count
      (slmAppend cs hasIpBias ss oldCount count n old code bias m)
      (fun i k => if i < oldCount then old (g.codesOffset + (i * cs + k)) else code (i - oldCount) k)
      (fun i k => if i < oldCount then old (g.codesOffset + oldCount * cs + (i * 2 + k))
        else bias (i - oldCount) k) ∧
    Untouched g.codesOffset g.rowidsOffset m
      (slmAppend cs hasIpBias ss oldCount count n old code bias m)

def LevelsHold (dim ss : ℕ) (lo steps m : Mem) : Prop :=
  ∀ k < dim * 2, m (lscLevelsOffset ss + k) = lo k ∧
    m (lscLevelsOffset ss + dim * 2 + k) = steps k

def ClearBytes (lo hi : ℕ) (m : Mem) : Prop := ∀ p, lo ≤ p → p < hi → m p = 0

/-- The writers of `LocalScalarCoder` against a geometry for `count` rows. -/
structure LscAgrees (dim : ℕ) (hasIpBias : Bool) (ss count : ℕ) (g : LeafGeometry) : Prop where
  flush : ∀ (lo steps biases m : Mem) (level : ℕ → ℕ → UInt8),
    (lscFlush dim hasIpBias ss count lo steps level biases m).2 = g.rowidsOffset ∧
    FlatRows (lscCodeSize dim) hasIpBias g.codesOffset count
      (lscFlush dim hasIpBias ss count lo steps level biases m).1
      (fun i k => lscCode dim (level i) k) (fun i k => biases (i * 2 + k)) ∧
    LevelsHold dim ss lo steps (lscFlush dim hasIpBias ss count lo steps level biases m).1 ∧
    OnlyWrites (lscLevelsOffset ss) g.rowidsOffset m
      (lscFlush dim hasIpBias ss count lo steps level biases m).1
  group : ∀ (lo steps rowIds m : Mem) (biases : Option Mem) (level : ℕ → ℕ → UInt8),
    ClearBytes g.codesOffset g.rowidsOffset m →
    FlatRows (lscCodeSize dim) hasIpBias g.codesOffset count
      (lscGroup dim hasIpBias ss count lo steps level biases rowIds m)
      (fun i k => lscCode dim (level i) k) (fun i k => biasByte biases (fun _ => 0) 0 (i * 2 + k)) ∧
    LevelsHold dim ss lo steps (lscGroup dim hasIpBias ss count lo steps level biases rowIds m) ∧
    Holds (lscGroup dim hasIpBias ss count lo steps level biases rowIds m) g.rowidsOffset
      (peek rowIds 0 (count * 8)) ∧
    OnlyWrites (lscLevelsOffset ss) g.filterOffset m
      (lscGroup dim hasIpBias ss count lo steps level biases rowIds m)
  append : ∀ (oldCount n : ℕ) (old m : Mem) (level : ℕ → ℕ → UInt8) (bias : ℕ → Mem),
    oldCount + n = count → ClearBytes g.codesOffset g.rowidsOffset m →
    FlatRows (lscCodeSize dim) hasIpBias g.codesOffset count
      (lscAppend dim hasIpBias ss oldCount count n old level bias m)
      (fun i k => if i < oldCount then old (g.codesOffset + (i * lscCodeSize dim + k))
        else lscCode dim (level (i - oldCount)) k)
      (fun i k => if i < oldCount then
          old (g.codesOffset + oldCount * lscCodeSize dim + (i * 2 + k))
        else bias (i - oldCount) k) ∧
    (∀ p, lscLevelsOffset ss ≤ p → p < g.codesOffset →
      lscAppend dim hasIpBias ss oldCount count n old level bias m p = old p) ∧
    Untouched (lscLevelsOffset ss) g.rowidsOffset m
      (lscAppend dim hasIpBias ss oldCount count n old level bias m)

section Scalar

variable {cs dim ss count base : ℕ} {hasIpBias : Bool} {m m' : Mem}

lemma FlatRows.of_agree {code bias : ℕ → ℕ → UInt8} (h : FlatRows cs hasIpBias base count m code bias)
    (heq : ∀ p, base ≤ p → p < base + count * cs + scalarBiasBytes count hasIpBias → m' p = m p) :
    FlatRows cs hasIpBias base count m' code bias := by
  refine ⟨fun i hi k hk => ?_, fun hb i hi k hk => ?_⟩
  · have := row_lt hi hk
    rw [heq _ (by omega) (by omega)]
    exact h.codes i hi k hk
  · have := row_lt hi hk
    have hsize := scalarBiasBytes_of_true hb count
    rw [heq _ (by omega) (by omega)]
    exact h.biases hb i hi k hk

lemma FlatRows.congr {code bias code' bias' : ℕ → ℕ → UInt8}
    (h : FlatRows cs hasIpBias base count m code bias)
    (hcode : ∀ i < count, ∀ k < cs, code i k = code' i k)
    (hbias : hasIpBias = true → ∀ i < count, ∀ k < 2, bias i k = bias' i k) :
    FlatRows cs hasIpBias base count m code' bias' :=
  ⟨fun i hi k hk => (h.codes i hi k hk).trans (hcode i hi k hk),
    fun hb i hi k hk => (h.biases hb i hi k hk).trans (hbias hb i hi k hk)⟩

lemma slmAgrees (cs : ℕ) (hasIpBias : Bool) (ss : ℕ) (hcount : count < 2 ^ 32) :
    SlmAgrees cs hasIpBias ss count ((Family.scalarLm cs hasIpBias).geometry ss count) := by
  refine ⟨fun codes m biases => ?_, fun codes rowIds m biases => ?_, ?_⟩
  · obtain ⟨hrows, hframe⟩ := flatRows_copy codes biases cs (leafCodesOffset ss) count hasIpBias m
    exact ⟨rfl, hrows, hframe⟩
  · obtain ⟨hrows, hframe⟩ := flatRows_copy codes biases cs (leafCodesOffset ss) count hasIpBias m
    simp only [slmGroup, Family.geometry]
    refine ⟨hrows.of_agree fun p _ hp => poke_apply_of_lt hp, holds_poke_self _ _ _, fun p hp => ?_⟩
    simp only [scalarRowidsOffset] at hp ⊢
    rw [poke_peek_apply, if_neg (by omega)]
    exact hframe p (by omega)
  · rintro oldCount n old m code bias hsum
    obtain ⟨hrows, hframe⟩ := appendFlat_spec hasIpBias (leafCodesOffset ss)
      (fun ai pos m => poke m pos (peek (code ai) 0 cs)) bias
      (fun ai _ => localPut_poke cs (code ai)) hsum hcount old m
    refine ⟨hrows.congr (fun i _ k hk => ?_) fun _ _ _ _ _ => rfl, hframe⟩
    simp only [Family.geometry]
    split
    · rfl
    · rw [poke_peek_apply, if_pos (by omega)]
      congr 1
      omega

lemma putLevels_spec (dim ss : ℕ) (lo steps m : Mem) :
    LevelsHold dim ss lo steps (putLevels dim ss lo steps (poke m 88 [3])) ∧
      OnlyWrites (lscLevelsOffset ss) (lscCodesOffset ss dim) m
        (putLevels dim ss lo steps (poke m 88 [3])) := by
  refine ⟨fun k hk => ⟨?_, ?_⟩, fun p hp hout => ?_⟩
  · simp only [putLevels, poke_peek_apply]
    rw [if_neg (by omega), if_pos (by omega)]
    congr 1
    omega
  · simp only [putLevels, poke_peek_apply]
    rw [if_pos (by omega)]
    congr 1
    omega
  · simp only [lscCodesOffset, lscLevelsOffset] at hout
    simp only [putLevels, poke_peek_apply, lscLevelsOffset]
    rw [if_neg (by omega), if_neg (by omega)]
    rcases hp with hp | hp
    · exact poke_apply_of_lt hp
    · exact poke_apply_of_le (by simp only [List.length_singleton]; omega)

lemma LevelsHold.of_agree {lo steps : Mem} (h : LevelsHold dim ss lo steps m)
    (heq : ∀ p, lscLevelsOffset ss ≤ p → p < lscCodesOffset ss dim → m' p = m p) :
    LevelsHold dim ss lo steps m' := by
  simp only [lscCodesOffset, lscLevelsOffset] at heq
  intro k hk
  obtain ⟨h₁, h₂⟩ := h k hk
  simp only [lscLevelsOffset] at h₁ h₂ ⊢
  exact ⟨(heq _ (by omega) (by omega)).trans h₁, (heq _ (by omega) (by omega)).trans h₂⟩

lemma lscAgrees (dim : ℕ) (hasIpBias : Bool) (ss : ℕ) (hcount : count < 2 ^ 32) :
    LscAgrees dim hasIpBias ss count ((Family.localScalar dim hasIpBias).geometry ss count) := by
  have hstart : 112 ≤ lscCodesOffset ss dim ∧ lscLevelsOffset ss ≤ lscCodesOffset ss dim ∧
      112 ≤ lscLevelsOffset ss := by
    have := summary_le_codes ss
    simp only [lscCodesOffset, lscLevelsOffset]
    omega
  refine ⟨fun lo steps biases m level => ?_, fun lo steps rowIds m biases level hclear => ?_, ?_⟩
  · obtain ⟨hlevels, honly⟩ := putLevels_spec dim ss lo steps m
    obtain ⟨hrows, hframe⟩ := flatRows_copy ((List.range count).foldl
      (fun b i => encodeOne dim (level i) (i * lscCodeSize dim) b) fun _ => 0) (some biases)
      (lscCodeSize dim) (lscCodesOffset ss dim) count hasIpBias
      (putLevels dim ss lo steps (poke m 88 [3]))
    refine ⟨rfl, hrows.congr (fun i hi k hk => ?_) fun _ _ _ _ _ => rfl,
      hlevels.of_agree fun p _ hp => hframe p (.inl hp), fun p hp hout => ?_⟩
    · have hmade := (encodeRows_spec dim 0 count level fun _ => 0).1 i hi k hk rfl
      simpa only [Nat.zero_add] using hmade
    · simp only [Family.geometry] at hout
      exact (hframe p (by omega)).trans (honly p hp (by omega))
  · obtain ⟨hmade, hrest⟩ := encodeRows_spec dim (lscCodesOffset ss dim) count level m
    simp only [Family.geometry] at hclear
    simp only [lscGroup, Family.geometry]
    set rows := (List.range count).foldl
      (fun m i => encodeOne dim (level i) (lscCodesOffset ss dim + i * lscCodeSize dim) m) m with hrowsdef
    set tail := poke (putBiases hasIpBias (lscCodesOffset ss dim + count * lscCodeSize dim) count biases
      rows) (lscCodesOffset ss dim + count * lscCodeSize dim + scalarBiasBytes count hasIpBias)
      (peek rowIds 0 (count * 8)) with htail
    obtain ⟨hlevels, honly⟩ := putLevels_spec dim ss lo steps tail
    have hbehind : ∀ p, lscCodesOffset ss dim ≤ p →
        putLevels dim ss lo steps (poke tail 88 [3]) p = tail p := fun p hp =>
      honly p (by omega) (.inr hp)
    refine ⟨⟨fun i hi k hk => ?_, fun hb i hi k hk => ?_⟩, hlevels, ?_, fun p hp hout => ?_⟩
    · have hlt := row_lt hi hk
      rw [hbehind _ (by omega), htail, poke_peek_apply, if_neg (by omega), putBiases_apply,
        if_neg (by omega)]
      exact hmade i hi k hk (hclear _ (by omega) (by omega))
    · have hlt := row_lt hi hk
      have hsize := scalarBiasBytes_of_true hb count
      rw [hbehind _ (by omega), htail, poke_peek_apply, if_neg (by omega), putBiases_apply,
        if_pos (by omega), Nat.add_sub_cancel_left]
      cases biases with
      | none =>
        simp only [biasByte]
        rw [hrest _ (.inr (by omega))]
        exact hclear _ (by omega) (by omega)
      | some b => rfl
    · refine (holds_poke_self _ _ _).congr fun p hp _ => hbehind p (by omega)
    · rw [honly p hp (by omega), htail, poke_peek_apply, if_neg (by omega), putBiases_apply,
        if_neg (by omega)]
      exact hrest p (by omega)
  · rintro oldCount n old m level bias hsum hclear
    simp only [Family.geometry] at hclear ⊢
    obtain ⟨hrows, hframe⟩ := appendFlat_spec hasIpBias (lscCodesOffset ss dim)
      (fun ai pos m => encodeOne dim (level ai) pos m) bias
      (fun ai _ => localPut_encodeOne (level ai)) hsum hcount old
      (poke m (lscLevelsOffset ss) (peek old (lscLevelsOffset ss)
        (lscCodesOffset ss dim - lscLevelsOffset ss)))
    refine ⟨hrows.congr (fun i hi k hk => ?_) fun _ _ _ _ _ => rfl, fun p h₁ h₂ => ?_, fun p hp => ?_⟩
    · split
      · rfl
      · have hlt := row_lt hi hk
        rw [← Nat.add_assoc]
        refine encodeOne_shift _ _ _ ?_
        rw [poke_peek_apply, if_neg (by omega), Nat.add_assoc]
        exact hclear _ (by omega) (by omega)
    · refine (hframe p (.inl h₂)).trans ?_
      rw [poke_peek_apply, if_pos (by omega)]
      congr 1
      omega
    · refine (hframe p (by omega)).trans ?_
      rw [poke_peek_apply, if_neg (by omega)]

end Scalar

/-! ### Every family -/

/-- What `flush_leaf`, `encode_group`, `append_encode` and `compact` write for `count` rows is where
`geometry` has it. -/
def Family.WritersAgree (ss count : ℕ) (fam : Family) : Prop :=
  match fam with
  | .globalPq m4 bits => GlobalAgrees m4 bits ss count (fam.geometry ss count)
  | .localPq dim m4 bits => LocalAgrees dim m4 bits ss count (fam.geometry ss count)
  | .scalarLm cs hasIpBias => SlmAgrees cs hasIpBias ss count (fam.geometry ss count)
  | .localScalar dim hasIpBias => LscAgrees dim hasIpBias ss count (fam.geometry ss count)

/-- The number of rows, rounded up to whole blocks, has 32 bits. -/
def Family.CountFits (count : ℕ) : Family → Prop
  | .globalPq _ bits => count + codesPerBlock bits - 1 < 2 ^ 32
  | .localPq _ _ bits => count + codesPerBlock bits - 1 < 2 ^ 32
  | .scalarLm _ _ => True
  | .localScalar _ _ => True

/-- **The layout of a leaf is consistent**: for every family and every number of rows the regions lie
one behind the other inside the extent, and the writers keep to them exactly as long as the number of
rows, rounded up to whole blocks, has 32 bits. -/
theorem leaf_geometry_consistent_iff (fam : Family) (hfam : fam.Accepted) (ss count fcb : ℕ)
    (hcount : count < 2 ^ 32) :
    Ordered (fam.regions ss count fcb) ∧
    (∀ r ∈ fam.regions ss count fcb, r.1 + r.2 ≤ fam.extentBytes count ss fcb) ∧
    (fam.geometry ss count).extentBytes = fam.extentBytes count ss 0 ∧
    (fam.WritersAgree ss count ↔ fam.CountFits count) := by
  refine ⟨regions_ordered fam ss count fcb, regions_inside fam ss count fcb hcount, ?_, ?_⟩
  · cases fam <;> rfl
  · cases fam with
    | globalPq m4 bits => exact globalAgrees_iff ss hfam.1 hcount
    | localPq dim m4 bits => exact localAgrees_iff ss hfam.1 hfam.2 hcount
    | scalarLm cs hasIpBias => exact iff_of_true (slmAgrees cs hasIpBias ss hcount) trivial
    | localScalar dim hasIpBias => exact iff_of_true (lscAgrees dim hasIpBias ss hcount) trivial

/-- Local leaves of 768 dimensions with 100 rows. -/
theorem leaf_geometry_consistent_local :
    (Family.localPq 768 192 4).WritersAgree 24 100 :=
  (leaf_geometry_consistent_iff (.localPq 768 192 4) ⟨by decide, .inr (.inl rfl)⟩ 24 100 40
    (by decide)).2.2.2.mpr (show 100 + codesPerBlock 4 - 1 < 2 ^ 32 by decide)

/-- A leaf of 2³² - 1 rows: `flush_leaf` gives the begin of the codes as the place of the row ids,
`geometry` the place behind 2²⁷ blocks. -/
theorem flush_leaf_rowids_at_codes :
    (globalFlush 1 4 0 (2 ^ 32 - 1) (fun _ => 0) fun _ => 0).2 = 112 ∧
      ((Family.globalPq 1 4).geometry 0 (2 ^ 32 - 1)).rowidsOffset = 112 + 2 ^ 31 := by
  constructor
  · simp only [globalFlush]
    decide
  · decide

end SextantTree.LeafCodes
