import SextantTree.PayloadImage
import SextantTree.Provision

/-!
When the chosen number of bitmap pages is enough, from the inputs of the build. The need is held
against the estimate term by term: a leaf with its entries in the tree above it against what its rows
and one leaf are given, the payloads against theirs, and what does not grow with the leaves against
the pages by which the number is rounded up.
-/

namespace SextantTree

open Pages Alloc FilterHash

variable {s : Schema} {b : BuildInput s}

/-! ### Rounding up to pages -/

lemma pageBytes_le (x : ℕ) : 4096 * pagesFor x ≤ x + 4095 := by
  unfold pagesFor kPageSize
  omega

lemma pageBytes_add_le (x y : ℕ) : 4096 * pagesFor (x + y) ≤ 4096 * pagesFor x + y + 4095 := by
  unfold pagesFor kPageSize
  omega

/-! ### The leaves of a cluster -/

variable (b) in
/-- The bytes of a leaf with these rows. -/
def leafBytes (rows : List (BuildRow s)) : ℕ :=
  b.coder.extentBytes rows.length + filterColumnsBytes (rows.map (·.filter)) + b.planeBytes rows.length

/-- The bytes of a payload and its offset and length. -/
def paidBytes (r : BuildRow s) : ℕ := r.payload.length + 8

lemma sum_pieces_le (f : BuildRow s → ℕ) (rows : List (BuildRow s)) (n : ℕ) :
    ∑ i ∈ Finset.range n, ((piece b rows i).map f).sum ≤ (rows.map f).sum := by
  have htake : ∑ i ∈ Finset.range n, ((piece b rows i).map f).sum =
      ((rows.take (b.leafCap * n)).map f).sum := by
    induction n with
    | zero => simp
    | succ n ih =>
      rw [Finset.sum_range_succ, ih, piece, Nat.mul_succ, List.take_add, List.map_append,
        List.sum_append]
  rw [htake]
  exact ((List.take_sublist _ _).map f).sum_le_sum fun _ _ => Nat.zero_le _

lemma payloadPages_le (hpay : s.hasPayload = true) (rows : List (BuildRow s)) :
    4096 * payloadPages rows ≤ (rows.map paidBytes).sum + 4095 := by
  have hsum : (rows.map paidBytes).sum = 8 * rows.length + payloadBytes (rows.map (·.payload)) := by
    induction rows with
    | nil => rfl
    | cons r rows ih =>
      simp only [List.map_cons, List.sum_cons, List.length_cons, payloadBytes, paidBytes] at ih ⊢
      omega
  have hround := pageBytes_le (payloadImage (rows.map (·.payload))).length
  rw [payloadPages, if_pos hpay]
  rw [length_payloadImage, List.length_map, ← hsum] at hround
  rwa [length_payloadImage, List.length_map, ← hsum]

variable (b) in
/-- What the payloads of a cluster take, its extents rounded up. -/
def clusterPaid (c : ℕ) : ℕ :=
  if s.hasPayload then ((staged b c).map paidBytes).sum + 4095 * leavesOf b c else 0

lemma clusterPages_le {c row leaf above : ℕ}
    (h : ∀ i < leavesOf b c, leafBytes b (piece b (staged b c) i) + above + 4095 ≤
      (piece b (staged b c) i).length * row + leaf) :
    4096 * clusterPages b c + leavesOf b c * above ≤
      (staged b c).length * row + leavesOf b c * leaf + clusterPaid b c := by
  have hleaf : ∑ i ∈ Finset.range (leavesOf b c), (4096 * leafPages b (piece b (staged b c) i) + above) ≤
      ∑ i ∈ Finset.range (leavesOf b c), (((piece b (staged b c) i).map fun _ => row).sum + leaf) := by
    refine Finset.sum_le_sum fun i hi => ?_
    have hfit := h i (Finset.mem_range.1 hi)
    have hround := pageBytes_le (leafBytes b (piece b (staged b c) i))
    rw [List.map_const', List.sum_replicate, smul_eq_mul]
    change 4096 * pagesFor (leafBytes b (piece b (staged b c) i)) + above ≤ _
    omega
  have hpaid : ∑ i ∈ Finset.range (leavesOf b c), 4096 * payloadPages (piece b (staged b c) i) ≤
      clusterPaid b c := by
    unfold clusterPaid
    split_ifs with hpay
    · refine (Finset.sum_le_sum fun i _ => payloadPages_le hpay (piece b (staged b c) i)).trans ?_
      have hrows := sum_pieces_le (b := b) paidBytes (staged b c) (leavesOf b c)
      rw [Finset.sum_add_distrib, Finset.sum_const, Finset.card_range, smul_eq_mul]
      omega
    · refine (Finset.sum_eq_zero fun i _ => ?_).le
      rw [payloadPages, if_neg hpay, Nat.mul_zero]
  have hrows := sum_pieces_le (b := b) (fun _ => row) (staged b c) (leavesOf b c)
  rw [List.map_const', List.sum_replicate, smul_eq_mul] at hrows
  simp only [Finset.sum_add_distrib, Finset.sum_const, Finset.card_range, smul_eq_mul] at hleaf
  simp only [clusterPages, piecesCost, leafCost, Finset.mul_sum, Nat.mul_add, Finset.sum_add_distrib]
  omega

/-! ### The tree above the leaves -/

lemma nodePages_le (k : ℕ) :
    4096 * nodePages b k ≤ k * (childEntrySize b.dim s.summarySize + 4127) := by
  unfold nodePages nodeExtentPages nodeExtentBytes
  split_ifs with hzero
  · rw [Nat.mul_zero]
    exact Nat.zero_le _
  · have hround := pageBytes_le (32 + childEntrySize b.dim s.summarySize * k)
    rw [Nat.mul_add, Nat.mul_comm k (childEntrySize _ _)]
    omega

lemma sum_countP_le (l : List ℕ) (f : ℕ → ℕ) (p : ℕ → Bool) (n : ℕ) :
    ∑ g ∈ Finset.range n, l.countP (fun c => f c == g && p c) ≤ l.countP p := by
  induction l with
  | nil => simp
  | cons c l ih =>
    simp only [List.countP_cons, Finset.sum_add_distrib]
    refine Nat.add_le_add ih ?_
    cases p c with
    | false => simp
    | true =>
      simp only [Bool.and_true, beq_iff_eq, if_true, Finset.sum_ite_eq]
      split_ifs <;> omega

lemma sum_groupSize_le (n : ℕ) : ∑ g ∈ Finset.range n, groupSize b g ≤
    ∑ c ∈ Finset.range b.kRoot, leavesOf b c := by
  refine (sum_countP_le _ b.superGroup _ n).trans ?_
  induction b.kRoot with
  | zero => simp
  | succ k ih =>
    rw [List.range_succ, List.countP_append, Finset.sum_range_succ]
    refine Nat.add_le_add ih ?_
    rw [List.countP_singleton]
    split_ifs with hpos
    · exact of_decide_eq_true hpos
    · exact Nat.zero_le _

lemma innerPages_le {depth : ℕ} (hdepth : depth = 1 ∨ depth = b.depth) :
    4096 * innerPages b depth ≤ (∑ c ∈ Finset.range b.kRoot, leavesOf b c) *
      ((b.depth - 1) * (childEntrySize b.dim s.summarySize + 4127)) := by
  have hsum : ∀ (size : ℕ → ℕ) (n : ℕ), 4096 * ∑ i ∈ Finset.range n, nodePages b (size i) ≤
      (∑ i ∈ Finset.range n, size i) * (childEntrySize b.dim s.summarySize + 4127) := by
    intro size n
    rw [Finset.mul_sum, Finset.sum_mul]
    exact Finset.sum_le_sum fun i _ => nodePages_le (size i)
  have hclusters := hsum (leavesOf b) b.kRoot
  have hgroups := (hsum (groupSize b) b.kL1).trans (Nat.mul_le_mul_right _ (sum_groupSize_le b.kL1))
  unfold innerPages
  rcases hdepth with rfl | rfl
  · rw [if_pos rfl, Nat.mul_zero]
    exact Nat.zero_le _
  · rcases b.depth_planned with h2 | h3
    · rw [h2, if_neg (by decide), if_neg (by decide), Nat.add_zero, Nat.one_mul]
      exact hclusters
    · rw [h3, if_neg (by decide), if_pos rfl, ← Nat.mul_assoc, Nat.mul_comm _ (3 - 1), Nat.mul_assoc]
      omega

/-! ### What does not grow with the leaves -/

variable (b) in
/-- The bytes a leaf takes above it: its entries in the leaf table and in the PCA blob, and an entry
and a rounded-up node on every level below the root. -/
def aboveLeaf : ℕ :=
  12 + 4 * b.pca.elim 0 (fun m => min m.proj.length m.meanProj.length)
    + (b.depth - 1) * (childEntrySize b.dim s.summarySize + 4127)

variable (b) in
/-- The superblock, the root, and the blobs less the entries of the leaves. -/
def fixedPages : ℕ :=
  let nLeaves := ∑ c ∈ Finset.range b.kRoot, leavesOf b c
  let depth := finalDepth b nLeaves
  2 + nodeExtentPages b.dim (rootChildren b depth) s.summarySize
    + b.coder.serializeGlobal.elim 0 (fun g => pagesFor (codebookBlob g).length)
    + b.pca.elim 0 (fun m => pagesFor (pcaWords m depth 0 * 4) + 1)
    + (if s.columns.isEmpty || b.cardinality.isEmpty then 0 else pagesFor b.cardinality.length)
    + 2 + pagesFor (b.tomlBytes (buildManifest b nLeaves depth))
    + b.plane.elim 0 (fun p => pagesFor p.2.length)

lemma pcaPages_le (depth nLeaves : ℕ) :
    4096 * b.pca.elim 0 (fun m => pagesFor (pcaWords m depth nLeaves * 4)) ≤
      4096 * b.pca.elim 0 (fun m => pagesFor (pcaWords m depth 0 * 4) + 1)
        + nLeaves * (4 * b.pca.elim 0 fun m => min m.proj.length m.meanProj.length) := by
  cases b.pca with
  | none => exact Nat.zero_le _
  | some m =>
    have hwords : pcaWords m depth nLeaves * 4 = pcaWords m depth 0 * 4
        + nLeaves * (4 * min m.proj.length m.meanProj.length) := by
      unfold pcaWords
      ring
    have hround := pageBytes_add_le (pcaWords m depth 0 * 4)
      (nLeaves * (4 * min m.proj.length m.meanProj.length))
    rw [← hwords] at hround
    simp only [Option.elim_some]
    omega

lemma neededPages_le : 4096 * neededPages b ≤ 4096 * (fixedPages b + b.bitmapPages) +
    ∑ c ∈ Finset.range b.kRoot, (4096 * clusterPages b c + leavesOf b c * aboveLeaf b) := by
  have hlist : ((List.range b.kRoot).map (leavesOf b)).sum =
      ∑ c ∈ Finset.range b.kRoot, leavesOf b c := rfl
  have hdepth := (finalDepth_cases b (∑ c ∈ Finset.range b.kRoot, leavesOf b c)).imp And.left And.left
  have hinner := innerPages_le hdepth
  have hpca := pcaPages_le (b := b) (finalDepth b (∑ c ∈ Finset.range b.kRoot, leavesOf b c))
    (∑ c ∈ Finset.range b.kRoot, leavesOf b c)
  have htable := pageBytes_le (8 + (∑ c ∈ Finset.range b.kRoot, leavesOf b c) * 12)
  unfold neededPages fixedPages blobPages aboveLeaf
  dsimp only
  rw [hlist, Finset.sum_add_distrib, ← Finset.sum_mul, ← Finset.mul_sum]
  generalize ∑ c ∈ Finset.range b.kRoot, leavesOf b c = n at hinner hpca htable ⊢
  generalize ∑ c ∈ Finset.range b.kRoot, clusterPages b c = pages
  rw [Nat.mul_add n, Nat.mul_add n]
  omega

/-! ### The estimate -/

namespace Sizing

variable (z : Sizing)

/-- The terms of the estimate as numbers: what a row is given, what a leaf is given, how many leaves,
and what the payloads are given. -/
def rowShare : ℕ := 2 * z.dim.toNat + z.codeSize.toNat + 512

def leafShare : ℕ := 68 * z.dim.toNat + 8192

def leafEst : ℕ := z.n.toNat / max 1 (z.leafCap.toNat / 2) + 2

def paidEst : ℕ :=
  let p := z.payloadTotal.toNat + (z.sidecar.getD 0).toNat
  p + p / 4

def estimate : ℕ := z.n.toNat * z.rowShare + z.leafEst * z.leafShare + z.paidEst

/-- The bitmap pages of the estimate. -/
def autoPages : ℕ := (z.estimate / 4096 + 64) / 32768 + 2

variable {z}

lemma vecBytes_toNat (h : z.estimate < 2 ^ 62) : z.vecBytes.toNat = z.n.toNat * z.rowShare := by
  have hdim := z.dim.toNat_lt
  have hcode := z.codeSize.toNat_lt
  have hshare : (2 * z.dim.toUInt64 + z.codeSize.toUInt64 + 512).toNat = z.rowShare := by
    simp only [UInt64.toNat_add, UInt64.toNat_mul, UInt32.toNat_toUInt64, UInt64.reduceToNat, rowShare]
    omega
  have hle : z.n.toNat * z.rowShare ≤ z.estimate := by
    unfold estimate
    omega
  rw [vecBytes, UInt64.toNat_mul, hshare, Nat.mod_eq_of_lt (by omega)]

lemma nLeavesEst_toNat (h : z.estimate < 2 ^ 62) : z.nLeavesEst.toNat = z.leafEst := by
  have hrows : z.n.toNat * 512 ≤ z.n.toNat * z.rowShare :=
    Nat.mul_le_mul_left _ (by unfold rowShare; omega)
  have hsmall : z.n.toNat < 2 ^ 53 := by
    unfold estimate at h
    omega
  have hcap : (max 1 (z.leafCap / 2).toUInt64).toNat = max 1 (z.leafCap.toNat / 2) := by
    rw [max_def, show max 1 (z.leafCap / 2).toUInt64 = if 1 ≤ (z.leafCap / 2).toUInt64 then
      (z.leafCap / 2).toUInt64 else 1 from rfl]
    simp only [UInt64.le_iff_toNat_le, apply_ite UInt64.toNat, UInt32.toNat_toUInt64,
      UInt32.toNat_div, UInt64.reduceToNat, UInt32.reduceToNat]
  have hdiv := Nat.div_le_self z.n.toNat (max 1 (z.leafCap.toNat / 2))
  rw [nLeavesEst, UInt64.toNat_add, UInt64.toNat_div, hcap, leafEst]
  simp only [UInt64.reduceToNat]
  generalize z.n.toNat / max 1 (z.leafCap.toNat / 2) = q at hdiv ⊢
  omega

lemma leafOverhead_toNat (h : z.estimate < 2 ^ 62) :
    z.leafOverhead.toNat = z.leafEst * z.leafShare := by
  have hdim := z.dim.toNat_lt
  have hshare : (4 * z.dim.toUInt64 * 17 + 8192).toNat = z.leafShare := by
    simp only [UInt64.toNat_add, UInt64.toNat_mul, UInt32.toNat_toUInt64, UInt64.reduceToNat, leafShare]
    omega
  have hle : z.leafEst * z.leafShare ≤ z.estimate := by
    unfold estimate
    omega
  rw [leafOverhead, UInt64.toNat_mul, hshare, nLeavesEst_toNat h, Nat.mod_eq_of_lt (by omega)]

lemma payloadBytes_toNat (h : z.estimate < 2 ^ 62) : z.payloadBytes.toNat = z.paidEst := by
  have hle : z.paidEst ≤ z.estimate := by
    unfold estimate
    omega
  unfold paidEst at hle ⊢
  dsimp only at hle ⊢
  simp only [payloadBytes, UInt64.toNat_add, UInt64.toNat_div, UInt64.reduceToNat]
  omega

/-- **The number of bitmap pages**, while the estimate does not wrap. -/
lemma bitmapPages_toNat (h : z.estimate < 2 ^ 58) : z.bitmapPages.toNat =
    if 0 < z.cfgBitmapPages.toNat then z.cfgBitmapPages.toNat else z.autoPages := by
  have hpages : z.upperPages.toNat = z.estimate / 4096 + 64 := by
    rw [upperPages, UInt64.toNat_add, UInt64.toNat_div, UInt64.toNat_add, UInt64.toNat_add,
      vecBytes_toNat (by omega), leafOverhead_toNat (by omega), payloadBytes_toNat (by omega)]
    simp only [UInt64.reduceToNat]
    unfold estimate at h ⊢
    omega
  have hauto : (z.upperPages / 32768 + 2).toUInt32.toNat = z.autoPages := by
    rw [UInt64.toNat_toUInt32, UInt64.toNat_add, UInt64.toNat_div, hpages]
    simp only [UInt64.reduceToNat, autoPages]
    omega
  simp only [bitmapPages, UInt32.lt_iff_toNat_lt, apply_ite UInt32.toNat, hauto, UInt32.reduceToNat]

end Sizing

/-- A build that stays within the terms of the estimate: the rows staged are no more than the corpus
has, they make no more leaves than estimated, every leaf with what it takes above it fits into what
its rows and one leaf are given, so do the payloads, and the rest into the pages added to the estimate.
A number that is asked for is at least the estimated one. -/
structure Estimated (z : Sizing) (b : BuildInput s) : Prop extends Provisioned z b where
  asked : z.cfgBitmapPages = 0 ∨ z.autoPages ≤ z.cfgBitmapPages.toNat
  small : z.cfgBitmapPages.toNat < 2 ^ 20
  rows : ∑ c ∈ Finset.range b.kRoot, (staged b c).length ≤ b.corpus.length
  leaves : ∑ c ∈ Finset.range b.kRoot, leavesOf b c ≤ b.corpus.length / max 1 (b.leafCap / 2) + 2
  leafFits : ∀ c < b.kRoot, ∀ i < leavesOf b c,
    leafBytes b (piece b (staged b c) i) + aboveLeaf b + 4095 ≤
      (piece b (staged b c) i).length * z.rowShare + z.leafShare
  payloads : ∑ c ∈ Finset.range b.kRoot, clusterPaid b c ≤ z.paidEst
  fixed : fixedPages b + z.autoPages ≤ 32832

variable {z : Sizing}

lemma Estimated.leafBytes_le (h : Estimated z b) :
    ∑ c ∈ Finset.range b.kRoot, (4096 * clusterPages b c + leavesOf b c * aboveLeaf b) ≤
      z.estimate := by
  have hclusters := Finset.sum_le_sum fun c hc =>
    clusterPages_le (h.leafFits c (Finset.mem_range.1 hc))
  simp only [Finset.sum_add_distrib, ← Finset.sum_mul] at hclusters ⊢
  have hrows := Nat.mul_le_mul_right z.rowShare h.rows
  have hleaves := Nat.mul_le_mul_right z.leafShare h.leaves
  have hpaid := h.payloads
  unfold Sizing.estimate Sizing.leafEst
  rw [h.n, h.leafCap]
  omega

/-- **The provision** covers the file of every build that stays within the terms of the estimate. -/
theorem bitmap_covers_of_estimated (z : Sizing) (b : BuildInput s) (old : TreeFile s)
    (h : Estimated z b) : Covered b old := by
  rw [bitmap_covers_iff z b old h.toProvisioned]
  have hneeded := (neededPages_le (b := b)).trans (Nat.add_le_add_left h.leafBytes_le _)
  have hfixed := h.fixed
  have hcfg := h.small
  have hchosen : z.autoPages ≤ z.bitmapPages.toNat ∧ z.bitmapPages.toNat < 2 ^ 20 := by
    rw [Sizing.bitmapPages_toNat (by unfold Sizing.autoPages at hfixed; omega)]
    rcases h.asked with hzero | hasked
    · rw [hzero, if_neg (by decide)]
      omega
    · split_ifs <;> omega
  rw [← h.pages] at hneeded
  refine ⟨?_, hchosen.2⟩
  have hauto := hchosen.1
  unfold Sizing.autoPages at hauto hfixed
  omega

theorem bitmap_covers_short :
    Covered (textBuild 4 2 [textRow 7 [104, 105], textRow 8 []] (by decide)) (emptyFile _) :=
  bitmap_covers_of_estimated (textSizing 2 5) _ _
    { n := by decide, dim := rfl, leafCap := rfl, pages := by decide, asked := .inl rfl
      small := by decide, rows := by decide +kernel, leaves := by decide +kernel
      leafFits := by decide +kernel, payloads := by decide +kernel, fixed := by decide +kernel }

end SextantTree
