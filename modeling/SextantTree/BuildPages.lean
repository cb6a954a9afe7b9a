import SextantTree.BuildLinked

/-!
The pages a build takes. Nothing is freed before the bitmap is flushed, so the file has no free page
at any time: every extent is taken at its end, and the length of the file is the sum of what was
asked for. What is asked for follows from the rows that are staged under each cluster.
-/

namespace SextantTree

open Pages Alloc AllocInv AllocRun Heap FilterHash

/-! ### A volume without free pages -/

/-- Every page of the file is allocated, and the bitmap is as long as it has to be. -/
structure Full {P : Type} [PageImage P] (v : Vol P) : Prop where
  ok : Ok v ∅
  taken : ∀ p < v.alloc.nPages, bitGet v.alloc.bitmap p = true
  size : v.alloc.bitmap.size = (v.alloc.nPages + 7) / 8

section Volume

variable {P : Type} [PageImage P] {v : Vol P}

lemma Full.head (h : Full v) : v.alloc.freeListHead = none := by
  cases hh : v.alloc.freeListHead with
  | none => rfl
  | some p => exact absurd (h.ok.head p hh) (Set.notMem_empty p)

lemma Full.no_run (h : Full v) {count : ℕ} (hc : 0 < count) :
    findFreeRun v.alloc.bitmap 0 v.alloc.nPages count = none := by
  cases hf : findFreeRun v.alloc.bitmap 0 v.alloc.nPages count with
  | none => rfl
  | some r =>
    obtain ⟨hle, hfree⟩ := findFreeRun_sound hc hf
    have := h.taken r (by omega)
    rw [hfree r le_rfl (by omega)] at this
    cases this

lemma Full.lengths (h : Full v) {count : ℕ} (hc : 0 < count) :
    (allocExtent v count).2.alloc.nPages = v.alloc.nPages + count ∧
      (allocExtent v count).2.alloc.bitmap.size = (v.alloc.nPages + count + 7) / 8 := by
  have hsize := h.size
  have hmark : ∀ (a : PageAllocator) (r n : ℕ), (markAllocated a r n).nPages = a.nPages ∧
      (markAllocated a r n).bitmap.size = a.bitmap.size := by
    intro a r n
    induction n with
    | zero => exact ⟨rfl, rfl⟩
    | succ n ih =>
      rw [markAllocated_succ]
      exact ih
  have hgrown : (grow v count).alloc.nPages = v.alloc.nPages + count ∧
      (grow v count).alloc.bitmap.size = (v.alloc.nPages + count + 7) / 8 := by
    refine ⟨rfl, ?_⟩
    simp only [grow, growBitmap, hsize]
    omega
  unfold allocExtent
  rw [if_neg (by omega)]
  by_cases h1 : count = 1
  · subst h1
    rw [if_pos rfl]
    simp only [allocPage, h.head, allocByScan, h.no_run hc]
    exact hgrown
  · rw [if_neg h1, h.no_run hc]
    dsimp only
    split
    · obtain ⟨h₁, h₂⟩ := hmark (grow v count).alloc _ count
      exact ⟨h₁.trans hgrown.1, h₂.trans hgrown.2⟩
    · exact hgrown

/-- **An allocation** takes the pages behind the end of the file. -/
lemma Full.alloc (h : Full v) (count : ℕ) :
    Full (allocExtent v count).2 ∧
      (allocExtent v count).2.alloc.nPages = v.alloc.nPages + count ∧
      (allocExtent v count).2.alloc.bitmapPage = v.alloc.bitmapPage ∧
      (allocExtent v count).2.alloc.bitmapPages = v.alloc.bitmapPages := by
  rcases Nat.eq_zero_or_pos count with rfl | hc
  · exact ⟨h, rfl, rfl, rfl⟩
  · obtain ⟨hn, hsize⟩ := h.lengths hc
    obtain ⟨r, v', heq, hok, ha⟩ := allocExtent_spec h.ok hc
    rw [heq] at hn hsize ⊢
    dsimp only at hn hsize ⊢
    have hr : r = v.alloc.nPages := by
      have hin := ha.inFile
      have hge : v.alloc.nPages ≤ r := by
        by_contra hlt
        have := h.taken r (by omega)
        rw [ha.fresh r le_rfl (by omega)] at this
        cases this
      omega
    refine ⟨⟨hok, fun p hp => ?_, by rw [hsize, hn]⟩, hn, ha.bitmapPage, ha.bitmapPages⟩
    rw [ha.bits]
    by_cases hlt : p < v.alloc.nPages
    · rw [h.taken p hlt, Bool.true_or]
    · rw [decide_eq_true (by omega), Bool.or_true]

lemma Full.write (h : Full v) {file : PageFile P} (hfile : file.numPages = v.file.numPages) :
    Full { v with file := file } :=
  ⟨{ reserved := h.ok.reserved, room := h.ok.room, high := h.ok.high, covers := h.ok.covers
     counted := h.ok.counted, fileSize := hfile.trans h.ok.fileSize, head := h.ok.head
     range := h.ok.range, chain := fun p hp => absurd hp (Set.notMem_empty p) }, h.taken, h.size⟩

end Volume

variable {s : Schema} {b : BuildInput s}

/-- A volume that has grown by some pages and has none free. -/
structure Allotted (v : TreeVol s) (v' : TreeVol s) (n : ℕ) : Prop where
  full : Full v'
  pages : v'.alloc.nPages = v.alloc.nPages + n
  bitmapPage : v'.alloc.bitmapPage = v.alloc.bitmapPage
  bitmapPages : v'.alloc.bitmapPages = v.alloc.bitmapPages

lemma Allotted.refl {v : TreeVol s} (h : Full v) : Allotted v v 0 := ⟨h, rfl, rfl, rfl⟩

lemma Allotted.trans {v v₁ v₂ : TreeVol s} {m n : ℕ} (h₁ : Allotted v v₁ m) (h₂ : Allotted v₁ v₂ n) :
    Allotted v v₂ (m + n) :=
  ⟨h₂.full, by rw [h₂.pages, h₁.pages, Nat.add_assoc], h₂.bitmapPage.trans h₁.bitmapPage,
    h₂.bitmapPages.trans h₁.bitmapPages⟩

lemma Full.grown {v : TreeVol s} (h : Full v) (count : ℕ) :
    Allotted v (allocExtent v count).2 count := by
  obtain ⟨hfull, hpages, hpage, hregion⟩ := h.alloc count
  exact ⟨hfull, hpages, hpage, hregion⟩

lemma Allotted.written {v v' : TreeVol s} {n : ℕ} (h : Allotted v v' n) (page : Option ℕ) (o : Obj s) :
    Allotted v (writeAt v' page o) n := by
  cases page with
  | none => exact h
  | some p => exact ⟨h.full.write (PageFile.writePages_numPages _ _ _ _), h.pages, h.bitmapPage, h.bitmapPages⟩

lemma Full.obj {v : TreeVol s} (h : Full v) (o : Obj s) :
    Allotted v (writeObj v o).2 o.pages := by
  have hg := h.grown o.pages
  unfold writeObj
  generalize allocExtent v o.pages = r at hg
  obtain ⟨_ | p, v'⟩ := r
  · exact hg
  · exact hg.written (some p) o

lemma Full.opt {v : TreeVol s} (h : Full v) (o : Option (Obj s)) :
    Allotted v (writeOpt v o).2 (o.elim 0 Obj.pages) := by
  cases o with
  | none => exact .refl h
  | some o => exact h.obj o

/-! ### The leaves -/

/-- The pages of the payload extent of a leaf. -/
def payloadPages (rows : List (BuildRow s)) : ℕ :=
  if s.hasPayload then pagesFor (payloadImage (rows.map (·.payload))).length else 0

variable (b) in
def leafCost (rows : List (BuildRow s)) : ℕ := leafPages b rows + payloadPages rows

variable (b) in
/-- The rows of leaf `i` of a cluster with these rows. -/
def piece (rows : List (BuildRow s)) (i : ℕ) : List (BuildRow s) :=
  (rows.drop (b.leafCap * i)).take b.leafCap

variable (b) in
/-- The pages of the first `n` leaves of a cluster. -/
def piecesCost (rows : List (BuildRow s)) (n : ℕ) : ℕ := ∑ i ∈ Finset.range n, leafCost b (piece b rows i)

lemma piecesCost_congr {rows rows' : List (BuildRow s)} {n : ℕ} (h : rows <+: rows')
    (hn : b.leafCap * n ≤ rows.length) : piecesCost b rows' n = piecesCost b rows n := by
  refine Finset.sum_congr rfl fun i hi => congrArg (leafCost b) ?_
  obtain ⟨more, rfl⟩ := h
  have hlt := Finset.mem_range.1 hi
  have hle : b.leafCap * (i + 1) ≤ b.leafCap * n := Nat.mul_le_mul_left _ hlt
  rw [Nat.mul_succ] at hle
  unfold piece
  rw [List.drop_append_of_le_length (by omega), List.take_append_of_le_length]
  rw [List.length_drop]
  omega

lemma flushBuffer_allotted (st : Emission s) (h : Full st.vol) (c : ℕ) :
    Allotted st.vol (flushBuffer b st c).vol
      (if (st.buffers c).isEmpty then 0 else leafCost b (st.buffers c)) := by
  by_cases hne : st.buffers c = []
  · rw [if_pos (List.isEmpty_iff.2 hne)]
    have hsame : flushBuffer b st c = st := by simp [flushBuffer, hne]
    rw [hsame]
    exact .refl h
  · rw [if_neg (mt List.isEmpty_iff.1 hne)]
    have hleaf := h.grown (leafPages b (st.buffers c))
    have hpay : ∀ v₁ : TreeVol s, Full v₁ → Allotted v₁ (if s.hasPayload then
        allocExtent v₁ (pagesFor (payloadImage ((st.buffers c).map (·.payload))).length)
        else (none, v₁)).2 (payloadPages (st.buffers c)) := by
      intro v₁ h₁
      unfold payloadPages
      split
      · exact h₁.grown _
      · exact .refl h₁
    have hboth := hleaf.trans (hpay _ hleaf.full)
    unfold flushBuffer
    dsimp only
    rw [if_neg (by simpa using hne)]
    exact (hboth.written _ _).written _ _

lemma buffers_flushBuffer (st : Emission s) (c : ℕ) :
    (flushBuffer b st c).buffers = Function.update st.buffers c [] := by
  by_cases hne : st.buffers c = []
  · have hsame : flushBuffer b st c = st := by simp [flushBuffer, hne]
    rw [hsame, ← hne, Function.update_eq_self]
  · simp [flushBuffer, hne]

/-! ### The emission pass -/

lemma staging_induction (R : (ℕ → List (BuildRow s)) → Emission s → Prop)
    (hstep : ∀ seen st c r, c < b.kRoot → R seen st →
      R (Function.update seen c (seen c ++ [r])) (stageRow b c st r))
    {st : Emission s} (h : R (fun _ => []) st) :
    R (staged b) (b.chunks.foldl (emitChunk b) st) := by
  have hrows : ∀ (rows : List (BuildRow s)) (seen st c), c < b.kRoot → R seen st →
      R (Function.update seen c (seen c ++ rows)) (rows.foldl (stageRow b c) st) := by
    intro rows
    induction rows with
    | nil =>
      intro seen st c _ h
      rwa [List.append_nil, Function.update_eq_self]
    | cons r rows ih =>
      intro seen st c hc h
      have := ih _ _ c hc (hstep seen st c r hc h)
      simpa using this
  have hadd : ∀ (chunk : List (BuildRow s)) (seen : ℕ → List (BuildRow s)) (n c : ℕ),
      (if c < n + 1 then seen c ++ chunk.filter (fun r => b.isTarget r.vector c) else seen c)
        = Function.update
          (fun c => if c < n then seen c ++ chunk.filter (fun r => b.isTarget r.vector c) else seen c)
          n ((if n < n then seen n ++ chunk.filter (fun r => b.isTarget r.vector n) else seen n)
            ++ chunk.filter (fun r => b.isTarget r.vector n)) c := by
    intro chunk seen n c
    by_cases hcn : c = n
    · subst hcn
      simp
    · rw [Function.update_of_ne hcn]
      simp only [Nat.lt_succ_iff_lt_or_eq, hcn, or_false]
  have hchunk : ∀ (chunk : List (BuildRow s)) (seen st) (n : ℕ), n ≤ b.kRoot → R seen st →
      R (fun c => if c < n then seen c ++ chunk.filter (fun r => b.isTarget r.vector c) else seen c)
        ((List.range n).foldl (mergeCluster b chunk) st) := by
    intro chunk seen st n hn h
    induction n with
    | zero => simpa using h
    | succ n ih =>
      have h₁ := hrows (chunk.filter fun r => b.isTarget r.vector n) _ _ n (by omega)
        (ih (by omega))
      have hseen : (fun c => if c < n + 1
          then seen c ++ chunk.filter (fun r => b.isTarget r.vector c) else seen c) = _ :=
        funext fun c => hadd chunk seen n c
      rw [List.range_succ, List.foldl_append, hseen]
      exact h₁
  have hchunks : ∀ (l : List (List (BuildRow s))) (seen st), R seen st →
      R (fun c => if c < b.kRoot then
          seen c ++ l.flatten.filter (fun r => b.isTarget r.vector c) else seen c)
        (l.foldl (emitChunk b) st) := by
    intro l
    induction l with
    | nil =>
      intro seen st h
      simpa using h
    | cons chunk l ih =>
      intro seen st h
      have h₁ := ih _ _ (hchunk chunk seen st b.kRoot le_rfl h)
      have hseen : (fun c => if c < b.kRoot then seen c
          ++ (chunk :: l).flatten.filter (fun r => b.isTarget r.vector c) else seen c)
          = fun c => if c < b.kRoot then (if c < b.kRoot
              then seen c ++ chunk.filter (fun r => b.isTarget r.vector c) else seen c)
              ++ l.flatten.filter (fun r => b.isTarget r.vector c)
            else if c < b.kRoot
              then seen c ++ chunk.filter (fun r => b.isTarget r.vector c) else seen c :=
        funext fun c => by by_cases hc : c < b.kRoot <;> simp [hc]
      rw [hseen]
      exact h₁
  have hseen : staged b = fun c => if c < b.kRoot
      then [] ++ b.chunks.flatten.filter (fun r => b.isTarget r.vector c) else [] :=
    funext fun c => by simp [staged, BuildInput.corpus]
  rw [hseen]
  exact hchunks b.chunks _ _ h

variable (b) in
/-- The rows of a cluster that wait for a full leaf. -/
def rest (rows : List (BuildRow s)) : List (BuildRow s) :=
  rows.drop (b.leafCap * (rows.length / b.leafCap))

variable (b) in
/-- The pages of the full leaves of a cluster. -/
def settled (rows : List (BuildRow s)) : ℕ := piecesCost b rows (rows.length / b.leafCap)

lemma length_rest (rows : List (BuildRow s)) : (rest b rows).length = rows.length % b.leafCap := by
  rw [rest, List.length_drop, Nat.mod_def]

lemma length_rest_lt (rows : List (BuildRow s)) : (rest b rows).length < b.leafCap := by
  rw [length_rest]
  exact Nat.mod_lt _ b.leafCap_pos

lemma settled_concat (rows : List (BuildRow s)) (r : BuildRow s) :
    if b.leafCap ≤ (rest b rows ++ [r]).length then
      rest b (rows ++ [r]) = [] ∧
        settled b (rows ++ [r]) = settled b rows + leafCost b (rest b rows ++ [r])
    else rest b (rows ++ [r]) = rest b rows ++ [r] ∧ settled b (rows ++ [r]) = settled b rows := by
  have hpos := b.leafCap_pos
  have hlt := length_rest_lt (b := b) rows
  have hlen := length_rest (b := b) rows
  have hdiv := Nat.div_add_mod rows.length b.leafCap
  generalize hq : rows.length / b.leafCap = q at hdiv
  have hle : b.leafCap * q ≤ rows.length := by omega
  have hrest : rest b rows ++ [r] = (rows ++ [r]).drop (b.leafCap * q) := by
    rw [rest, hq, List.drop_append_of_le_length hle]
  have hprefix : piecesCost b (rows ++ [r]) q = settled b rows := by
    rw [settled, hq]
    exact piecesCost_congr (List.prefix_append _ _) hle
  rw [List.length_append, List.length_singleton]
  split_ifs with hfull
  · have hnext : (rows ++ [r]).length / b.leafCap = q + 1 := by
      rw [List.length_append, List.length_singleton]
      refine Nat.div_eq_of_lt_le ?_ ?_
      · rw [Nat.mul_comm, Nat.mul_succ]
        omega
      · rw [Nat.mul_comm, Nat.mul_succ, Nat.mul_succ]
        omega
    refine ⟨?_, ?_⟩
    · rw [rest, hnext]
      refine List.drop_eq_nil_of_le ?_
      rw [List.length_append, List.length_singleton, Nat.mul_succ]
      omega
    · rw [settled, hnext, piecesCost, Finset.sum_range_succ, ← piecesCost, hprefix, piece, ← hrest,
        List.take_of_length_le]
      rw [List.length_append, List.length_singleton]
      omega
  · have hsame : (rows ++ [r]).length / b.leafCap = q := by
      rw [List.length_append, List.length_singleton]
      refine Nat.div_eq_of_lt_le ?_ ?_
      · rw [Nat.mul_comm]
        omega
      · rw [Nat.mul_comm, Nat.mul_succ]
        omega
    exact ⟨by rw [rest, hsame, ← hrest], by rw [settled, hsame, hprefix]⟩

/-- The buffers hold the rests, and the full leaves are in the file. -/
structure Sized (v : TreeVol s) (seen : ℕ → List (BuildRow s)) (st : Emission s) : Prop where
  buffers : ∀ c, st.buffers c = rest b (seen c)
  grown : Allotted v st.vol (∑ c ∈ Finset.range b.kRoot, settled b (seen c))

lemma sum_staged_update {f : List (BuildRow s) → ℕ} {seen : ℕ → List (BuildRow s)} {c n : ℕ} (hc : c < n)
    {rows : List (BuildRow s)} {k : ℕ} (h : f rows = f (seen c) + k) :
    ∑ i ∈ Finset.range n, f (Function.update seen c rows i)
      = ∑ i ∈ Finset.range n, f (seen i) + k := by
  have hmem := Finset.mem_range.2 hc
  rw [← Finset.add_sum_erase _ _ hmem, ← Finset.add_sum_erase _ _ hmem, Function.update_self, h]
  have hothers : ∑ i ∈ (Finset.range n).erase c, f (Function.update seen c rows i)
      = ∑ i ∈ (Finset.range n).erase c, f (seen i) :=
    Finset.sum_congr rfl fun i hi => by rw [Function.update_of_ne (Finset.ne_of_mem_erase hi)]
  rw [hothers]
  omega

lemma Sized.stageRow {v : TreeVol s} {seen : ℕ → List (BuildRow s)} {st : Emission s}
    (h : Sized (b := b) v seen st) {c : ℕ} (hc : c < b.kRoot) (r : BuildRow s) :
    Sized (b := b) v (Function.update seen c (seen c ++ [r])) (stageRow b c st r) := by
  have hconcat := settled_concat (b := b) (seen c) r
  have hbuf := h.buffers c
  have hothers : ∀ c', c' ≠ c → st.buffers c' = rest b (Function.update seen c (seen c ++ [r]) c') :=
    fun c' hcc => by rw [Function.update_of_ne hcc, h.buffers c']
  unfold SextantTree.stageRow
  simp only [Function.update_self, hbuf]
  split_ifs at hconcat ⊢ with hfull
  · obtain ⟨hrest, hcost⟩ := hconcat
    have hflush := flushBuffer_allotted (b := b)
      { st with buffers := Function.update st.buffers c (rest b (seen c) ++ [r]) } h.grown.full c
    simp only [Function.update_self] at hflush
    rw [if_neg (by simp)] at hflush
    refine ⟨fun c' => ?_, ?_⟩
    · rw [buffers_flushBuffer]
      by_cases hcc : c' = c
      · subst hcc
        rw [Function.update_self, Function.update_self, hrest]
      · rw [Function.update_of_ne hcc]
        dsimp only
        rw [Function.update_of_ne hcc, hothers c' hcc]
    · rw [sum_staged_update hc hcost]
      exact h.grown.trans hflush
  · obtain ⟨hrest, hcost⟩ := hconcat
    refine ⟨fun c' => ?_, ?_⟩
    · dsimp only
      by_cases hcc : c' = c
      · subst hcc
        rw [Function.update_self, Function.update_self, hrest]
      · rw [Function.update_of_ne hcc, hothers c' hcc]
    · rw [sum_staged_update (k := 0) hc (by rw [hcost, Nat.add_zero])]
      exact h.grown

variable (b) in
def clusterPages (c : ℕ) : ℕ := piecesCost b (staged b c) (leavesOf b c)

lemma clusterPages_eq (c : ℕ) : clusterPages b c = settled b (staged b c)
    + if (rest b (staged b c)).isEmpty then 0 else leafCost b (rest b (staged b c)) := by
  have hpos := b.leafCap_pos
  have hlt := length_rest_lt (b := b) (staged b c)
  have hlen := length_rest (b := b) (staged b c)
  have hdiv := Nat.div_add_mod (staged b c).length b.leafCap
  generalize hq : (staged b c).length / b.leafCap = q at hdiv
  have hsettled : settled b (staged b c) = piecesCost b (staged b c) q := by rw [settled, hq]
  have hleaves : leavesOf b c = q + if (rest b (staged b c)).isEmpty then 0 else 1 := by
    unfold leavesOf
    split_ifs with hnil
    · rw [List.isEmpty_iff.1 hnil, List.length_nil] at hlen
      refine Nat.div_eq_of_lt_le ?_ ?_
      · rw [Nat.add_zero, Nat.mul_comm]
        omega
      · rw [Nat.add_zero, Nat.mul_comm, Nat.mul_succ]
        omega
    · have := List.length_pos_of_ne_nil (mt List.isEmpty_iff.2 hnil)
      refine Nat.div_eq_of_lt_le ?_ ?_
      · rw [Nat.mul_comm, Nat.mul_succ]
        omega
      · rw [Nat.mul_comm, Nat.mul_succ, Nat.mul_succ]
        omega
  have hpiece : piece b (staged b c) q = rest b (staged b c) := by
    rw [piece, rest, hq, List.take_of_length_le]
    rw [rest, hq] at hlt
    exact hlt.le
  rw [clusterPages, hleaves, hsettled]
  split_ifs
  · rfl
  · rw [piecesCost, Finset.sum_range_succ, hpiece]
    rfl

/-- **The emission pass** takes the pages of the leaves of all clusters. -/
theorem runEmissionPass_allotted {v : TreeVol s} (h : Full v) :
    Allotted v (runEmissionPass b v).vol (∑ c ∈ Finset.range b.kRoot, clusterPages b c) := by
  have hnil : rest b ([] : List (BuildRow s)) = [] := List.drop_nil
  have hstart : Sized (b := b) v (fun _ => []) ⟨v, fun _ => [], [], fun _ => []⟩ := by
    refine ⟨fun c => hnil.symm, ?_⟩
    simpa [settled, piecesCost] using Allotted.refl h
  have hstaged := staging_induction (b := b) (Sized (b := b) v)
    (fun seen st c r hc h => h.stageRow hc r) hstart
  unfold runEmissionPass
  dsimp only
  generalize b.chunks.foldl (emitChunk b) ⟨v, fun _ => [], [], fun _ => []⟩ = st at hstaged
  have hflush : ∀ n ≤ b.kRoot,
      (∀ c, n ≤ c → ((List.range n).foldl (flushBuffer b) st).buffers c = rest b (staged b c)) ∧
      Allotted v ((List.range n).foldl (flushBuffer b) st).vol
        (∑ c ∈ Finset.range b.kRoot, settled b (staged b c) + ∑ c ∈ Finset.range n,
          if (rest b (staged b c)).isEmpty then 0 else leafCost b (rest b (staged b c))) := by
    intro n hn
    induction n with
    | zero => exact ⟨fun c _ => hstaged.buffers c, by simpa using hstaged.grown⟩
    | succ n ih =>
      obtain ⟨hbuf, hgrown⟩ := ih (by omega)
      rw [List.range_succ, List.foldl_append]
      simp only [List.foldl_cons, List.foldl_nil]
      generalize (List.range n).foldl (flushBuffer b) st = st₁ at hbuf hgrown
      refine ⟨fun c hc => ?_, ?_⟩
      · rw [buffers_flushBuffer, Function.update_of_ne (by omega)]
        exact hbuf c (by omega)
      · have hone := flushBuffer_allotted (b := b) st₁ hgrown.full n
        rw [hbuf n le_rfl] at hone
        rw [Finset.sum_range_succ, ← Nat.add_assoc]
        exact hgrown.trans hone
  have hall := (hflush b.kRoot le_rfl).2
  rwa [← Finset.sum_add_distrib, ← Finset.sum_congr rfl fun c _ => clusterPages_eq c] at hall

end SextantTree
