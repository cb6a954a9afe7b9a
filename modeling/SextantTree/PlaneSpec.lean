import Mathlib.Algebra.Order.BigOperators.Group.List
import Mathlib.Tactic.Linarith
import SextantTree.Plane

/-!
The score the sweep gives a leaf, against the members of the leaf: what the writer packs, what the
scan makes of it, and which bytes each layout and each outcome of the plane cache hands to the scan.
-/

namespace SextantTree.Plane

open ByteMem Pages
open BlockKernels (Target pq4ScanMany)

variable {t : Target} {k : Codec} {pm : PlaneMeta}

/-! ### Nibbles -/

lemma laneNibble_set_same {lane nib : ℕ} (h : nib < 16) (byte : UInt8) :
    laneNibble lane (setLaneNibble lane nib byte) = nib := by
  have hb : byte.toNat < 256 := byte.toNat_lt
  unfold laneNibble setLaneNibble
  by_cases hl : 16 ≤ lane
  · rw [if_pos hl, if_pos hl, UInt8.toNat_ofNat']
    omega
  · rw [if_neg hl, if_neg hl, UInt8.toNat_ofNat']
    omega

lemma laneNibble_set_other {lane lane' nib : ℕ} (h : nib < 16) (hne : ¬ (16 ≤ lane ↔ 16 ≤ lane'))
    (byte : UInt8) : laneNibble lane' (setLaneNibble lane nib byte) = laneNibble lane' byte := by
  have hb : byte.toNat < 256 := byte.toNat_lt
  unfold laneNibble setLaneNibble
  by_cases hl : 16 ≤ lane
  · have hl' : ¬ 16 ≤ lane' := fun h' => hne (iff_of_true hl h')
    rw [if_pos hl, if_neg hl', if_neg hl', UInt8.toNat_ofNat']
    omega
  · have hl' : 16 ≤ lane' := by
      by_contra h'
      exact hne (iff_of_false hl h')
    rw [if_neg hl, if_pos hl', if_pos hl', UInt8.toNat_ofNat']
    omega

lemma bytePos_inj {slot slot' g g' : ℕ} (hg : g < pm.segments) (hg' : g' < pm.segments)
    (h : bytePos pm slot g = bytePos pm slot' g') :
    g = g' ∧ slot / 32 = slot' / 32 ∧ slot % 32 % 16 = slot' % 32 % 16 := by
  unfold bytePos PlaneMeta.blockBytes kVecsPerBlock at h
  generalize hm : pm.segments = m at *
  have hr : g * 16 + slot % 32 % 16 < m * 16 := by omega
  have hr' : g' * 16 + slot' % 32 % 16 < m * 16 := by omega
  have hmod := congrArg (· % (m * 16)) h
  have hdiv := congrArg (· / (m * 16)) h
  simp only [Nat.mul_add_mod', Nat.mod_eq_of_lt hr, Nat.mod_eq_of_lt hr'] at hmod
  have hpos : 0 < m * 16 := by omega
  rw [Nat.mul_comm (slot / 32), Nat.mul_comm (slot' / 32), Nat.mul_add_div hpos,
    Nat.mul_add_div hpos, Nat.div_eq_of_lt hr, Nat.div_eq_of_lt hr'] at hdiv
  omega

lemma nibbleAt_setNibble_other {nib : ℕ → ℕ} {blocks : Mem} {slot slot' g g' : ℕ}
    (hg : g < pm.segments) (hg' : g' < pm.segments) (hnib : nib g < 16)
    (hne : ¬ (slot = slot' ∧ g = g')) :
    nibbleAt pm (setNibble pm slot nib blocks g) slot' g' = nibbleAt pm blocks slot' g' := by
  unfold nibbleAt setNibble kVecsPerBlock
  by_cases hpos : bytePos pm slot' g' = bytePos pm slot g
  · rw [hpos, Function.update_self]
    refine laneNibble_set_other hnib ?_ _
    obtain ⟨hgg, hb, hl⟩ := bytePos_inj hg' hg hpos
    intro hcon
    omega
  · rw [Function.update_of_ne hpos]

lemma nibbleAt_setNibble_self {nib : ℕ → ℕ} {blocks : Mem} {slot g : ℕ} (hnib : nib g < 16) :
    nibbleAt pm (setNibble pm slot nib blocks g) slot g = nib g := by
  unfold nibbleAt setNibble
  rw [Function.update_self, laneNibble_set_same hnib]

lemma nibbleAt_foldl {nib : ℕ → ℕ} (hnib : ∀ g, nib g < 16) {slot : ℕ} (blocks : Mem) :
    ∀ n ≤ pm.segments, ∀ slot' g', g' < pm.segments →
      nibbleAt pm ((List.range n).foldl (setNibble pm slot nib) blocks) slot' g' =
        if slot' = slot ∧ g' < n then nib g' else nibbleAt pm blocks slot' g' := by
  intro n
  induction n with
  | zero => simp
  | succ n ih =>
    intro hn slot' g' hg'
    rw [List.range_succ, List.foldl_append, List.foldl_cons, List.foldl_nil]
    by_cases hself : slot = slot' ∧ n = g'
    · obtain ⟨rfl, rfl⟩ := hself
      rw [nibbleAt_setNibble_self (hnib n), if_pos ⟨rfl, Nat.lt_succ_self n⟩]
    · rw [nibbleAt_setNibble_other (by omega) hg' (hnib n) hself, ih (by omega) slot' g' hg']
      by_cases hs : slot' = slot ∧ g' < n
      · rw [if_pos hs, if_pos ⟨hs.1, by omega⟩]
      · rw [if_neg hs, if_neg]
        rintro ⟨rfl, hlt⟩
        exact hs ⟨rfl, by omega⟩

lemma encodeDim_lt (k : Codec) (v : ℚ) (e : ℕ) : encodeDim k v e < 16 := by
  have key : ∀ (l : List ℕ) (best : ℕ), best < 16 → (∀ c ∈ l, c < 16) →
      l.foldl (fun best c => if |v - k.centroid e c| < |v - k.centroid e best| then c else best)
        best < 16 := by
    intro l
    induction l with
    | nil => exact fun best h _ => h
    | cons c l ih =>
      intro best h hl
      refine ih _ ?_ fun c hc => hl c (List.mem_cons_of_mem _ hc)
      dsimp only
      split
      · exact hl c List.mem_cons_self
      · exact h
  exact key _ 0 (by decide) fun c hc => List.mem_range.mp hc

lemma nibble_lt (k : Codec) (pm : PlaneMeta) (pr : Proj) (g : ℕ) : nibble k pm pr g < 16 := by
  unfold nibble
  split
  · have hterm : ∀ t, (if 0 ≤ pr (4 * g + t) then 2 ^ t else 0) ≤ 2 ^ t := by
      intro t
      split
      · exact le_rfl
      · exact Nat.zero_le _
    have h0 := hterm 0
    have h1 := hterm 1
    have h2 := hterm 2
    have h3 := hterm 3
    simp only [List.range_succ, List.range_zero, List.nil_append, List.map_append, List.map_cons,
      List.map_nil, List.sum_append, List.sum_cons, List.sum_nil]
    omega
  · exact encodeDim_lt k _ _

/-! ### The writer -/

def memberAlpha (k : Codec) (pm : PlaneMeta) (pr : Proj) : UInt16 := alpha k pm pr (nibble k pm pr)

lemma alpha_congr (pr : Proj) {code code' : ℕ → ℕ} (h : ∀ e < pm.rank, code e = code' e) :
    alpha k pm pr code = alpha k pm pr code' := by
  have h₁ : (List.range pm.rank).map (fun e => pr e * k.centroid e (code e)) =
      (List.range pm.rank).map fun e => pr e * k.centroid e (code' e) :=
    List.map_congr_left fun e he => by rw [h e (List.mem_range.mp he)]
  have h₂ : (List.range pm.rank).map (fun e => k.centroid e (code e) * k.centroid e (code e)) =
      (List.range pm.rank).map fun e => k.centroid e (code' e) * k.centroid e (code' e) :=
    List.map_congr_left fun e he => by rw [h e (List.mem_range.mp he)]
  simp only [alpha, h₁, h₂]

lemma segments_of_pv (h : pm.pv = true) : pm.segments = pm.rank := by
  rw [PlaneMeta.pv, decide_eq_true_eq] at h
  simp [PlaneMeta.segments, h]

lemma nibbleAt_encodeInto (ls : LeafState) (w : ℕ × Proj) {slot g : ℕ} (hg : g < pm.segments) :
    nibbleAt pm (encodeInto k pm ls w).blocks slot g =
      if slot = w.1 then nibble k pm w.2 g else nibbleAt pm ls.blocks slot g := by
  rw [encodeInto, nibbleAt_foldl (nibble_lt k pm w.2) ls.blocks _ le_rfl slot g hg]
  simp [hg]

lemma alphas_encodeInto (ls : LeafState) (w : ℕ × Proj) (hpv : pm.pv = true) (slot : ℕ) :
    (encodeInto k pm ls w).alphas slot =
      if slot = w.1 then memberAlpha k pm w.2 else ls.alphas slot := by
  have hcode : alpha k pm w.2 (nibbleAt pm (encodeInto k pm ls w).blocks w.1) =
      memberAlpha k pm w.2 := by
    refine alpha_congr w.2 fun e he => ?_
    rw [nibbleAt_encodeInto ls w (by rwa [segments_of_pv hpv]), if_pos rfl]
  have hdef : (encodeInto k pm ls w).alphas =
      Function.update ls.alphas w.1 (alpha k pm w.2 (nibbleAt pm (encodeInto k pm ls w).blocks w.1)) := by
    simp only [encodeInto, hpv, if_true]
  rw [hdef, hcode, Function.update_apply]

lemma encode_spec (k : Codec) (pm : PlaneMeta) (ws : List (ℕ × Proj)) : ∀ ls : LeafState, (ws.map Prod.fst).Nodup →
    (∀ w ∈ ws, (∀ g < pm.segments,
        nibbleAt pm (ws.foldl (encodeInto k pm) ls).blocks w.1 g = nibble k pm w.2 g) ∧
      (pm.pv = true → (ws.foldl (encodeInto k pm) ls).alphas w.1 = memberAlpha k pm w.2)) ∧
    ∀ slot ∉ ws.map Prod.fst, (∀ g < pm.segments,
        nibbleAt pm (ws.foldl (encodeInto k pm) ls).blocks slot g = nibbleAt pm ls.blocks slot g) ∧
      (pm.pv = true → (ws.foldl (encodeInto k pm) ls).alphas slot = ls.alphas slot) := by
  induction ws with
  | nil => simp
  | cons w ws ih =>
    intro ls hnd
    rw [List.map_cons, List.nodup_cons] at hnd
    obtain ⟨hin, hout⟩ := ih (encodeInto k pm ls w) hnd.2
    rw [List.foldl_cons]
    constructor
    · intro x hx
      rcases List.mem_cons.mp hx with rfl | hx
      · obtain ⟨h₁, h₂⟩ := hout x.1 hnd.1
        refine ⟨fun g hg => ?_, fun hpv => ?_⟩
        · rw [h₁ g hg, nibbleAt_encodeInto ls x hg, if_pos rfl]
        · rw [h₂ hpv, alphas_encodeInto ls x hpv, if_pos rfl]
      · exact hin x hx
    · intro slot hslot
      rw [List.map_cons, List.mem_cons, not_or] at hslot
      obtain ⟨h₁, h₂⟩ := hout slot hslot.2
      refine ⟨fun g hg => ?_, fun hpv => ?_⟩
      · rw [h₁ g hg, nibbleAt_encodeInto ls w hg, if_neg hslot.1]
      · rw [h₂ hpv, alphas_encodeInto ls w hpv, if_neg hslot.1]

lemma encode_sizes (k : Codec) (pm : PlaneMeta) (ws : List (ℕ × Proj)) : ∀ ls : LeafState,
    ls.nBlocks ≤ (ws.foldl (encodeInto k pm) ls).nBlocks ∧
    ls.nAlphas ≤ (ws.foldl (encodeInto k pm) ls).nAlphas ∧
    ∀ w ∈ ws, w.1 / kVecsPerBlock + 1 ≤ (ws.foldl (encodeInto k pm) ls).nBlocks ∧
      (pm.pv = true → w.1 + 1 ≤ (ws.foldl (encodeInto k pm) ls).nAlphas) := by
  induction ws with
  | nil => simp
  | cons w ws ih =>
    intro ls
    obtain ⟨h₁, h₂, h₃⟩ := ih (encodeInto k pm ls w)
    have hb : max ls.nBlocks (w.1 / kVecsPerBlock + 1) = (encodeInto k pm ls w).nBlocks := rfl
    have ha : (if pm.pv then max ls.nAlphas (w.1 + 1) else ls.nAlphas) =
        (encodeInto k pm ls w).nAlphas := rfl
    rw [List.foldl_cons]
    refine ⟨by omega, ?_, fun x hx => ?_⟩
    · refine le_trans ?_ h₂
      rw [← ha]
      split
      · exact le_max_left _ _
      · exact le_rfl
    · rcases List.mem_cons.mp hx with rfl | hx
      · refine ⟨by omega, fun hpv => ?_⟩
        rw [hpv, if_pos rfl] at ha
        omega
      · exact h₃ x hx

/-- A leaf as the writer leaves it: every slot has the code and the factor of its member. -/
structure Packs (k : Codec) (pm : PlaneMeta) (ls : LeafState) (members : List Proj) : Prop where
  nibble : ∀ i pr, members[i]? = some pr → ∀ g < pm.segments,
    nibbleAt pm ls.blocks i g = nibble k pm pr g
  alpha : pm.pv = true → ∀ i pr, members[i]? = some pr → ls.alphas i = memberAlpha k pm pr
  nBlocks : blocksFor members.length ≤ ls.nBlocks
  nAlphas : pm.pv = true → members.length ≤ ls.nAlphas

theorem encodeLeaf_packs (k : Codec) (pm : PlaneMeta) (members : List Proj) :
    Packs k pm (encodeLeaf k pm members) members := by
  have hslots : (members.zipIdx.map Prod.swap).map Prod.fst = List.range members.length := by
    rw [List.map_map, List.range_eq_range', ← List.zipIdx_map_snd 0 members]
    rfl
  obtain ⟨hin, -⟩ := encode_spec k pm (members.zipIdx.map Prod.swap) .empty
    (by rw [hslots]; exact List.nodup_range)
  obtain ⟨-, -, hsize⟩ := encode_sizes k pm (members.zipIdx.map Prod.swap) .empty
  have hmem : ∀ i pr, members[i]? = some pr → (i, pr) ∈ members.zipIdx.map Prod.swap := by
    intro i pr h
    exact List.mem_map.mpr ⟨(pr, i), List.mk_mem_zipIdx_iff_getElem?.mpr h, rfl⟩
  have hlast : members ≠ [] → ∃ pr, members[members.length - 1]? = some pr := by
    intro hne
    have := List.length_pos_of_ne_nil hne
    exact ⟨_, List.getElem?_eq_getElem (by omega)⟩
  refine ⟨fun i pr h => (hin _ (hmem i pr h)).1, fun hpv i pr h => (hin _ (hmem i pr h)).2 hpv,
    ?_, fun hpv => ?_⟩
  · by_cases hne : members = []
    · subst hne
      exact Nat.zero_le _
    · obtain ⟨pr, hpr⟩ := hlast hne
      have := (hsize _ (hmem _ pr hpr)).1
      have hlen := List.length_pos_of_ne_nil hne
      simp only [encodeLeaf]
      refine le_trans ?_ this
      unfold blocksFor kVecsPerBlock
      omega
  · by_cases hne : members = []
    · subst hne
      exact Nat.zero_le _
    · obtain ⟨pr, hpr⟩ := hlast hne
      have := (hsize _ (hmem _ pr hpr)).2 hpv
      have hlen := List.length_pos_of_ne_nil hne
      simp only [encodeLeaf]
      simp only at this
      omega

/-! ### The scan -/

def codeSum (pm : PlaneMeta) (lut : ℕ → UInt8) (code : ℕ → ℕ) : ℕ :=
  ((List.range pm.segments).map fun g => (lut (g * 16 + code g)).toNat).sum

/-- The score of a member's own code, by its own factor where the encoding has one. -/
def memberScore (k : Codec) (pm : PlaneMeta) (lut : ℕ → UInt8) (shift : ℚ) (pr : Proj) : ℚ :=
  if pm.pv then k.ofHalf (memberAlpha k pm pr) * (codeSum pm lut (nibble k pm pr) + shift)
  else codeSum pm lut (nibble k pm pr)

/-- The largest score of the members, from the value the running maximum starts at. -/
def leafMax (k : Codec) (pm : PlaneMeta) (lut : ℕ → UInt8) (shift : ℚ) (members : List Proj) : ℚ :=
  (members.map (memberScore k pm lut shift)).foldl max (if pm.pv then lowestFloat else 0)

lemma range_lanes (count n : ℕ) :
    (List.range n).flatMap (fun b => (List.range (validLanes count b)).map (b * 32 + ·)) =
      List.range (min count (n * 32)) := by
  induction n with
  | zero => simp
  | succ n ih =>
    rw [List.range_succ, List.flatMap_append, ih, List.flatMap_cons, List.flatMap_nil,
      List.append_nil]
    unfold validLanes kVecsPerBlock
    by_cases h : count ≤ n * 32
    · have hnone : min 32 (count - n * 32) = 0 := by omega
      rw [Nat.min_eq_left h, hnone, show min count ((n + 1) * 32) = count by omega]
      simp
    · rw [Nat.min_eq_right (by omega), show min count ((n + 1) * 32) =
        n * 32 + min 32 (count - n * 32) by omega, List.range_add]

lemma range_lanes_blocksFor (count : ℕ) :
    (List.range (blocksFor count)).flatMap
      (fun b => (List.range (validLanes count b)).map (b * 32 + ·)) = List.range count := by
  rw [range_lanes, Nat.min_eq_left]
  unfold blocksFor kVecsPerBlock
  omega

lemma foldl_lanes {α : Type} (f : α → ℕ → α) (a : α) (count : ℕ) :
    (List.range (blocksFor count)).foldl
      (fun acc b => (List.range (validLanes count b)).foldl (fun acc j => f acc (b * 32 + j)) acc) a =
      (List.range count).foldl f a := by
  rw [← range_lanes_blocksFor count, List.foldl_flatMap]
  simp only [List.foldl_map]

lemma segments_lt (pm : PlaneMeta) : pm.segments < 2 ^ 16 := by
  have hrank := pm.rank_lt
  unfold PlaneMeta.segments
  split <;> omega

lemma codeSum_le (lut : ℕ → UInt8) (code : ℕ → ℕ) : codeSum pm lut code ≤ pm.segments * 255 := by
  unfold codeSum
  have := List.sum_le_card_nsmul ((List.range pm.segments).map fun g => (lut (g * 16 + code g)).toNat)
    255 (by
      intro x hx
      obtain ⟨g, -, rfl⟩ := List.mem_map.mp hx
      have := (lut (g * 16 + code g)).toNat_lt
      omega)
  simpa using this

lemma codeSum_lt (lut : ℕ → UInt8) (code : ℕ → ℕ) : codeSum pm lut code < kSentinel := by
  have hsum : codeSum pm lut code ≤ pm.segments * 255 := codeSum_le lut code
  have hseg := segments_lt pm
  unfold kSentinel
  omega

/-- A block pointer behind which slot `i` has code `code i`, for each of `count` slots. -/
def Codes (pm : PlaneMeta) (blk : Ptr) (count : ℕ) (code : ℕ → ℕ → ℕ) : Prop :=
  ∀ i < count, ∀ g < pm.segments, nibbleAt pm blk i g = code i g

/-- The kernel adds in 32 bits, or the sums of the slots' codes fit in 16. -/
def SumsFit (t : Target) (pm : PlaneMeta) (lut : ℕ → UInt8) (count : ℕ) (code : ℕ → ℕ → ℕ) : Prop :=
  t = .portable ∨ ∀ i < count, codeSum pm lut (code i) ≤ 65535

/-- The same for every table: 257 entries of 255 fit. -/
def LanesFit (t : Target) (pm : PlaneMeta) : Prop := t = .portable ∨ pm.segments ≤ 257

lemma LanesFit.sums (h : LanesFit t pm) (lut : ℕ → UInt8) (count : ℕ) (code : ℕ → ℕ → ℕ) :
    SumsFit t pm lut count code := by
  refine h.imp id fun hseg i _ => (codeSum_le lut (code i)).trans ?_
  omega

lemma testBit_laneMask (count b j : ℕ) :
    (laneMask count b).toNat.testBit j = decide (j < validLanes count b) := by
  have hle : validLanes count b ≤ 32 := Nat.min_le_left _ _
  unfold laneMask
  split
  case isTrue h =>
    have hones : (0xFFFFFFFF : UInt32).toNat = 2 ^ 32 - 1 := rfl
    rw [hones, Nat.testBit_two_pow_sub_one, h]
  case isFalse h =>
    have hlt : 2 ^ validLanes count b - 1 < 2 ^ 32 :=
      (Nat.sub_lt (Nat.two_pow_pos _) one_pos).trans_le (Nat.pow_le_pow_right (by norm_num) hle)
    rw [UInt32.toNat_ofNat', Nat.mod_eq_of_lt hlt, Nat.testBit_two_pow_sub_one]

lemma nibble_eq_laneNibble (block : Ptr) (s : ℕ) {j : ℕ} (hj : j < 32) :
    BlockKernels.nibble block s j = laneNibble j (block (s * 16 + j % 16)) := by
  rw [BlockKernels.nibble, laneNibble]
  split
  case isTrue h =>
    rw [if_neg (by omega), Nat.mod_eq_of_lt h, UInt8.toNat_and,
      show (0x0F : UInt8).toNat = 2 ^ 4 - 1 by rfl, Nat.and_two_pow_sub_one_eq_mod]
  case isFalse h =>
    rw [if_pos (by omega), show j % 16 = j - 16 by omega, UInt8.toNat_shiftRight]
    simp only [UInt8.reduceToNat, Nat.reduceMod, Nat.shiftRight_eq_div_pow, Nat.reducePow]

lemma laneSum_eq_codeSum {blk : Ptr} {count : ℕ} {code : ℕ → ℕ → ℕ} (h : Codes pm blk count code)
    (lut : ℕ → UInt8) {b j : ℕ} (hj : j < validLanes count b) :
    BlockKernels.laneSum (BlockKernels.load blk (b * pm.segments * 16)) lut pm.segments j =
      codeSum pm lut (code (b * 32 + j)) := by
  have hlane : j < 32 ∧ b * 32 + j < count := by
    unfold validLanes kVecsPerBlock at hj
    omega
  have hlist : BlockKernels.laneSum (BlockKernels.load blk (b * pm.segments * 16)) lut pm.segments j =
      ((List.range pm.segments).map fun s =>
        (BlockKernels.entry (BlockKernels.load blk (b * pm.segments * 16)) lut s j).toNat).sum := rfl
  rw [hlist, codeSum]
  refine congrArg List.sum (List.map_congr_left fun g hg => ?_)
  have hcode := h (b * 32 + j) hlane.2 g (List.mem_range.mp hg)
  rw [← hcode, BlockKernels.entry, nibble_eq_laneNibble _ _ hlane.1, nibbleAt, bytePos,
    PlaneMeta.blockBytes, kVecsPerBlock, show (b * 32 + j) % 32 = j by omega,
    show (b * 32 + j) / 32 = b by omega, BlockKernels.load, Nat.mul_assoc]

lemma pq4ScanMany_eq {blk : Ptr} {count : ℕ} {code : ℕ → ℕ → ℕ} (h : Codes pm blk count code)
    {lut : ℕ → UInt8} (hfit : SumsFit t pm lut count code) {b j : ℕ} (hj : j < validLanes count b) :
    (pq4ScanMany t blk lut pm.segments (laneMask count) b j).toNat =
      codeSum pm lut (code (b * 32 + j)) := by
  have hlane : j < 32 ∧ b * 32 + j < count := by
    unfold validLanes kVecsPerBlock at hj
    omega
  have hsum := laneSum_eq_codeSum h lut hj
  rw [pq4ScanMany, if_pos (by rw [testBit_laneMask, decide_eq_true hj]), ← hsum,
    BlockKernels.pq4Block32_eq_iff (segments_lt pm) t hlane.1, hsum]
  exact hfit.imp id fun hle => hle _ hlane.2

lemma pq4ScanMany_invalid (blk : Ptr) (lut : ℕ → UInt8) {m count b j : ℕ} (hout : validLanes count b ≤ j) :
    (pq4ScanMany t blk lut m (laneMask count) b j).toNat = kSentinel := by
  rw [pq4ScanMany, if_neg (by rw [testBit_laneMask, decide_eq_false (Nat.not_lt.mpr hout)]; simp)]
  rfl

lemma scan_plain {blk : Ptr} {count : ℕ} {code : ℕ → ℕ → ℕ} (h : Codes pm blk count code)
    {lut : ℕ → UInt8} (hfit : SumsFit t pm lut count code) (shift : ℚ) :
    scanLeafMaxU8At t k pm count blk lut shift none =
      (((List.range count).foldl (fun best i => max best (codeSum pm lut (code i))) 0 : ℕ) : ℚ) := by
  have hlanes : ∀ best b : ℕ, (List.range 32).foldl (fun best j =>
      if (pq4ScanMany t blk lut pm.segments (laneMask count) b j).toNat ≠ kSentinel then
        max best (pq4ScanMany t blk lut pm.segments (laneMask count) b j).toNat else best) best =
      (List.range (validLanes count b)).foldl
        (fun best j => max best (codeSum pm lut (code (b * 32 + j)))) best := by
    intro best b
    have hsplit : List.range 32 = List.range (validLanes count b) ++
        (List.range (32 - validLanes count b)).map (validLanes count b + ·) := by
      rw [← List.range_add]
      congr 1
      unfold validLanes kVecsPerBlock
      omega
    rw [hsplit, List.foldl_append, List.foldl_map]
    have hskip : ∀ (l : List ℕ) (best : ℕ), l.foldl (fun best j =>
          if (pq4ScanMany t blk lut pm.segments (laneMask count) b (validLanes count b + j)).toNat ≠
              kSentinel then
            max best (pq4ScanMany t blk lut pm.segments (laneMask count) b (validLanes count b + j)).toNat
          else best) best = best := by
      intro l
      induction l with
      | nil => exact fun _ => rfl
      | cons j l ih =>
        intro best
        rw [List.foldl_cons, if_neg, ih]
        exact not_not.mpr (pq4ScanMany_invalid blk lut (Nat.le_add_right _ _))
    rw [hskip]
    refine List.foldl_ext _ _ _ fun best j hj => ?_
    rw [pq4ScanMany_eq h hfit (List.mem_range.mp hj), if_pos (codeSum_lt lut _).ne]
  simp only [scanLeafMaxU8At]
  simp only [hlanes]
  rw [foldl_lanes fun best i => max best (codeSum pm lut (code i))]

lemma scan_alpha {blk : Ptr} {count : ℕ} {code : ℕ → ℕ → ℕ} (h : Codes pm blk count code)
    {lut : ℕ → UInt8} (hfit : SumsFit t pm lut count code) (shift : ℚ) (p : Ptr) :
    scanLeafMaxU8At t k pm count blk lut shift (some p) =
      (List.range count).foldl
        (fun best i => max best (alphaAt k p i * (codeSum pm lut (code i) + shift))) lowestFloat := by
  have hlanes : ∀ (acc : ℚ × ℕ) (b : ℕ), (List.range (validLanes count b)).foldl
      (fun (acc : ℚ × ℕ) j => (max acc.1 (alphaAt k p acc.2 *
        ((pq4ScanMany t blk lut pm.segments (laneMask count) b j).toNat + shift)), acc.2 + 1)) acc =
      (List.range (validLanes count b)).foldl (fun (acc : ℚ × ℕ) j =>
        (max acc.1 (alphaAt k p acc.2 * (codeSum pm lut (code (b * 32 + j)) + shift)), acc.2 + 1))
        acc := by
    intro acc b
    refine List.foldl_ext _ _ _ fun acc j hj => ?_
    rw [pq4ScanMany_eq h hfit (List.mem_range.mp hj)]
  have hidx : ∀ n, (List.range n).foldl (fun (acc : ℚ × ℕ) i =>
      (max acc.1 (alphaAt k p acc.2 * (codeSum pm lut (code i) + shift)), acc.2 + 1))
      (lowestFloat, 0) = ((List.range n).foldl
        (fun best i => max best (alphaAt k p i * (codeSum pm lut (code i) + shift))) lowestFloat, n) := by
    intro n
    induction n with
    | zero => rfl
    | succ n ih => rw [List.range_succ, List.foldl_append, List.foldl_append, ih]; rfl
  simp only [scanLeafMaxU8At]
  simp only [hlanes]
  rw [foldl_lanes fun (acc : ℚ × ℕ) i =>
    (max acc.1 (alphaAt k p acc.2 * (codeSum pm lut (code i) + shift)), acc.2 + 1), hidx]

lemma foldl_range_eq {members : List Proj} {f : Proj → ℚ} {sc : ℕ → ℚ}
    (h : ∀ i pr, members[i]? = some pr → sc i = f pr) (a : ℚ) :
    (List.range members.length).foldl (fun best i => max best (sc i)) a =
      (members.map f).foldl max a := by
  have hmap : members.map f = (List.range members.length).map sc := by
    refine List.ext_getElem (by simp) fun i h₁ h₂ => ?_
    rw [List.getElem_map, List.getElem_map, List.getElem_range]
    exact (h i _ (List.getElem?_eq_getElem _)).symm
  rw [hmap, List.foldl_map]

lemma cast_foldl_max (l : List ℕ) (sc : ℕ → ℕ) (a : ℕ) :
    ((l.foldl (fun best i => max best (sc i)) a : ℕ) : ℚ) =
      l.foldl (fun best i => max best ((sc i : ℕ) : ℚ)) (a : ℚ) := by
  induction l generalizing a with
  | nil => rfl
  | cons i l ih => rw [List.foldl_cons, List.foldl_cons, ih, Nat.cast_max]

def slotCode (k : Codec) (pm : PlaneMeta) (members : List Proj) (i : ℕ) : ℕ → ℕ :=
  nibble k pm (members.getD i fun _ => 0)

lemma slotCode_eq {members : List Proj} {i : ℕ} {pr : Proj} (h : members[i]? = some pr) :
    slotCode k pm members i = nibble k pm pr := by
  rw [slotCode, List.getD_eq_getElem?_getD, h]
  rfl

lemma scan_eq_leafMax {members : List Proj} {blk : Ptr} {alphas : Option Ptr} {lut : ℕ → UInt8}
    (hfit : SumsFit t pm lut members.length (slotCode k pm members)) (shift : ℚ)
    (hcodes : Codes pm blk members.length (slotCode k pm members))
    (hplain : pm.pv = false → alphas = none)
    (hpv : pm.pv = true → ∃ p, alphas = some p ∧
      ∀ i pr, members[i]? = some pr → alphaAt k p i = k.ofHalf (memberAlpha k pm pr)) :
    scanLeafMaxU8At t k pm members.length blk lut shift alphas = leafMax k pm lut shift members := by
  unfold leafMax
  cases h : pm.pv with
  | false =>
    rw [hplain h, scan_plain hcodes hfit, cast_foldl_max,
      foldl_range_eq (f := memberScore k pm lut shift)]
    · simp
    · intro i pr hi
      rw [memberScore, h, slotCode_eq hi]
      rfl
  | true =>
    obtain ⟨p, rfl, halpha⟩ := hpv h
    rw [scan_alpha hcodes hfit, foldl_range_eq (f := memberScore k pm lut shift)]
    · rfl
    · intro i pr hi
      rw [memberScore, h, slotCode_eq hi, halpha i pr hi]
      rfl

/-! ### What the file holds -/

lemma holds_add {mem : Mem} {pos : ℕ} {b : List UInt8} (h : Holds mem pos b) :
    Holds (Ptr.add mem pos) 0 b := by
  intro i x hx
  rw [Ptr.add, Nat.zero_add]
  exact h i x hx

lemma word_add (mem : Mem) (pos w i : ℕ) : word (Ptr.add mem pos) w i = word mem w (pos + i) := by
  unfold word peek Ptr.add
  simp only [Nat.add_assoc]

lemma bytePos_lt {count i g : ℕ} (hi : i < count) (hg : g < pm.segments) :
    bytePos pm i g < blocksFor count * pm.blockBytes := by
  have hb : i / kVecsPerBlock + 1 ≤ blocksFor count := by
    unfold blocksFor kVecsPerBlock
    omega
  have hin : g * 16 + i % kVecsPerBlock % 16 < pm.blockBytes := by
    unfold PlaneMeta.blockBytes
    omega
  calc bytePos pm i g < i / kVecsPerBlock * pm.blockBytes + pm.blockBytes := by
        unfold bytePos
        omega
    _ = (i / kVecsPerBlock + 1) * pm.blockBytes := by ring
    _ ≤ blocksFor count * pm.blockBytes := Nat.mul_le_mul_right _ hb

@[simp] lemma length_leafBlocks (ls : LeafState) (count : ℕ) :
    (leafBlocks pm ls count).length = blocksFor count * pm.blockBytes := by
  unfold leafBlocks
  split <;> simp

@[simp] lemma length_leafAlphas (ls : LeafState) (count : ℕ) :
    (leafAlphas ls count).length = 2 * count := by
  rw [leafAlphas, length_flatMap_const (w := 2) fun _ _ => length_leBytes _ _, List.length_range]

namespace Packs

variable {ls : LeafState} {members : List Proj} (h : Packs k pm ls members)
include h

lemma codes {blk : Ptr} (hblk : Holds blk 0 (leafBlocks pm ls members.length)) :
    Codes pm blk members.length (slotCode k pm members) := by
  intro i hi g hg
  rw [slotCode_eq (List.getElem?_eq_getElem hi), ← h.nibble i _ (List.getElem?_eq_getElem hi) g hg]
  have hpos : bytePos pm i g < blocksFor members.length * pm.blockBytes := bytePos_lt hi hg
  have hread : blk (bytePos pm i g) = ls.blocks (bytePos pm i g) := by
    have := hblk (bytePos pm i g) (ls.blocks (bytePos pm i g)) (by
      rw [leafBlocks, if_pos h.nBlocks, peek, List.getElem?_map,
        List.getElem?_eq_getElem (by simpa using hpos)]
      simp)
    rwa [Nat.zero_add] at this
  rw [nibbleAt, nibbleAt, hread]

lemma alphaAt_eq (hpv : pm.pv = true) {mem : Mem} {pos : ℕ}
    (hal : Holds mem pos (leafAlphas ls members.length)) {i : ℕ} {pr : Proj}
    (hi : members[i]? = some pr) :
    alphaAt k (Ptr.add mem pos) i = k.ofHalf (memberAlpha k pm pr) := by
  obtain ⟨hlt, -⟩ := List.getElem?_eq_some_iff.mp hi
  have hitem : Holds mem (pos + 2 * i) (leBytes 2 (ls.alphas i).toNat) :=
    hal.item (fun _ _ => length_leBytes _ _) (by
      rw [List.getElem?_eq_getElem (by simpa using hlt), List.getElem_range])
  rw [alphaAt, word_add, hitem.word (ls.alphas i).toNat_lt, UInt16.ofNat_toNat,
    h.alpha hpv i pr hi]

end Packs

end SextantTree.Plane
