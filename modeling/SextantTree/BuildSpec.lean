import SextantTree.Build
import SextantTree.Committed

/-!
What a build leaves on disk. The emission pass is followed by a list of the leaves flushed so
far, each with its cluster and the input rows it was built from; the rows of a cluster are
always the rows of its leaves, in order, and then its buffer.
-/

namespace SextantTree

open Pages Alloc AllocInv AllocRun Heap FilterHash

variable {s : Schema} (b : BuildInput s)

structure Flushed (s : Schema) where
  cluster : ℕ
  rows : List (BuildRow s)
  page : ℕ
  payPage : ℕ

namespace Flushed

def stored (f : Flushed s) : StoredLeaf s where
  page := f.page
  leaf := flushedLeaf b f.rows (if s.hasPayload then some f.payPage else none)
  payPage := f.payPage
  payloads := f.rows.map (·.payload)

def leafMeta (f : Flushed s) : LeafMeta where
  extent := (f.stored b).extent
  centroid := b.leafCentroid (f.rows.map (·.vector))
  summary := (f.stored b).leaf.summary

end Flushed

/-- The positions of the leaves of a cluster. -/
def idsOf (F : List (Flushed s)) (c : ℕ) : List ℕ :=
  (F.zipIdx.filter fun x => x.1.cluster == c).map Prod.snd

def ofCluster (F : List (Flushed s)) (c : ℕ) : List (Flushed s) := F.filter (·.cluster == c)

lemma idsOf_concat (F : List (Flushed s)) (f : Flushed s) (c : ℕ) :
    idsOf (F ++ [f]) c = if f.cluster = c then idsOf F c ++ [F.length] else idsOf F c := by
  simp only [idsOf, List.zipIdx_append, List.filter_append, List.map_append]
  by_cases h : f.cluster = c <;> simp [h]

lemma ofCluster_concat (F : List (Flushed s)) (f : Flushed s) (c : ℕ) :
    ofCluster (F ++ [f]) c = if f.cluster = c then ofCluster F c ++ [f] else ofCluster F c := by
  simp only [ofCluster, List.filter_append]
  by_cases h : f.cluster = c <;> simp [h]

lemma length_idsOf (F : List (Flushed s)) (c : ℕ) :
    (idsOf F c).length = (ofCluster F c).length := by
  induction F using List.reverseRecOn with
  | nil => rfl
  | append_singleton F f ih =>
    rw [idsOf_concat, ofCluster_concat]
    split
    · simp [ih]
    · exact ih

lemma flatMap_filter_perm {α : Type} (f : α → ℕ) (L : List α) (n : ℕ) :
    ((List.range n).flatMap fun g => L.filter (f · == g)).Perm (L.filter (f · < n)) := by
  induction n with
  | zero => simp
  | succ n ih =>
    have hlow : (L.filter (f · < n + 1)).filter (f · < n) = L.filter (f · < n) := by
      rw [List.filter_filter]
      refine List.filter_congr fun a _ => ?_
      simp only [← Bool.decide_and, decide_eq_decide]
      omega
    have hhigh : (L.filter (f · < n + 1)).filter (fun a => !decide (f a < n)) = L.filter (f · == n) := by
      rw [List.filter_filter]
      refine List.filter_congr fun a _ => ?_
      rw [Bool.eq_iff_iff]
      simp
      omega
    have hsplit := List.filter_append_perm (f · < n) (L.filter (f · < n + 1))
    rw [hlow, hhigh] at hsplit
    rw [List.range_succ, List.flatMap_append]
    refine .trans (.append_right _ ih) ?_
    simpa using hsplit

lemma idsOf_perm {n : ℕ} {F : List (Flushed s)} (h : ∀ f ∈ F, f.cluster < n) :
    ((List.range n).flatMap (idsOf F)).Perm (List.range F.length) := by
  have hall : F.zipIdx.filter (fun x => decide (x.1.cluster < n)) = F.zipIdx := by
    refine List.filter_eq_self.mpr fun x hx => ?_
    simpa using h x.1 (List.fst_mem_of_mem_zipIdx hx)
  have hperm := (flatMap_filter_perm (fun x : Flushed s × ℕ => x.1.cluster) F.zipIdx n).map Prod.snd
  rw [hall, List.map_flatMap, List.zipIdx_map_snd, ← List.range_eq_range'] at hperm
  exact hperm

/-! ### The emission pass -/

/-- The pass has staged `seen c` under each cluster `c` and flushed the leaves `F`. -/
structure Emitted (start : TreeVol s) (seen : ℕ → List (BuildRow s)) (st : Emission s)
    (F : List (Flushed s)) : Prop where
  holds : Holds Obj.image st.vol (F.flatMap fun f => (f.stored b).exts)
  kept : Kept start st.vol
  leaves : st.leaves = F.map (Flushed.leafMeta b)
  ids : ∀ c, st.rootToLeaves c = idsOf F c
  rows : ∀ c, (ofCluster F c).flatMap Flushed.rows ++ st.buffers c = seen c
  clusters : ∀ f ∈ F, f.cluster < b.kRoot
  nonempty : ∀ f ∈ F, f.rows ≠ []
  capped : ∀ f ∈ F, f.rows.length ≤ b.leafCap

/-- Every flushed leaf is full and every buffer is short of one. -/
def Packed (st : Emission s) (F : List (Flushed s)) : Prop :=
  (∀ f ∈ F, f.rows.length = b.leafCap) ∧ ∀ c, (st.buffers c).length < b.leafCap

variable {b}

lemma leafPages_pos (rows : List (BuildRow s)) : 0 < leafPages b rows :=
  pagesFor_pos (by have := b.coder.extentBytes_pos rows.length; omega)

variable {start : TreeVol s} {seen : ℕ → List (BuildRow s)} {st : Emission s}
  {F : List (Flushed s)}

lemma Emitted.flush (h : Emitted b start seen st F) {c : ℕ} (hc : c < b.kRoot)
    (hne : st.buffers c ≠ []) (hcap : (st.buffers c).length ≤ b.leafCap) :
    ∃ f : Flushed s, f.cluster = c ∧ f.rows = st.buffers c ∧
      (flushBuffer b st c).buffers = Function.update st.buffers c [] ∧
      Emitted b start seen (flushBuffer b st c) (F ++ [f]) := by
  have hpay : 0 < (payloadImage ((st.buffers c).map (·.payload))).length :=
    payloadImage_pos (by simpa using List.length_pos_of_ne_nil hne)
  obtain ⟨p, v₁, halloc, h₁, hk₁⟩ := h.holds.alloc (leafPages_pos (b := b) (st.buffers c))
  -- the common part: whatever page the payload got, the volume holds the leaf's extents
  have key : ∀ (q : ℕ) (v' : TreeVol s), Holds Obj.image v'
        (((Flushed.mk c (st.buffers c) p q).stored b).exts ++
          F.flatMap fun f => (f.stored b).exts) → Kept v₁ v' →
      (flushBuffer b st c).vol = v' →
      (flushBuffer b st c).leaves = st.leaves ++ [(Flushed.mk c (st.buffers c) p q).leafMeta b] →
      Emitted b start seen (flushBuffer b st c) (F ++ [Flushed.mk c (st.buffers c) p q]) := by
    intro q v' hh hk hvol hleaves
    have hids : (flushBuffer b st c).rootToLeaves =
        Function.update st.rootToLeaves c (st.rootToLeaves c ++ [st.leaves.length]) := by
      simp [flushBuffer, hne]
    have hbuf : (flushBuffer b st c).buffers = Function.update st.buffers c [] := by
      simp [flushBuffer, hne]
    constructor
    · rw [hvol, List.flatMap_append]
      refine hh.perm ?_
      simpa using List.perm_append_comm
    · rw [hvol]
      exact h.kept.trans (hk₁.trans hk)
    · rw [hleaves, h.leaves]
      simp
    · intro c'
      rw [hids, idsOf_concat, h.leaves, List.length_map]
      by_cases hcc : c = c'
      · subst hcc
        simp [h.ids]
      · simp [Function.update_of_ne (Ne.symm hcc), hcc, h.ids]
    · intro c'
      rw [hbuf, ofCluster_concat, ← h.rows c']
      by_cases hcc : c = c'
      · subst hcc
        simp
      · simp [Function.update_of_ne (Ne.symm hcc), hcc]
    · intro f hf
      rcases List.mem_append.mp hf with hf | hf
      · exact h.clusters f hf
      · rw [List.mem_singleton.mp hf]
        exact hc
    · intro f hf
      rcases List.mem_append.mp hf with hf | hf
      · exact h.nonempty f hf
      · rw [List.mem_singleton.mp hf]
        exact hne
    · intro f hf
      rcases List.mem_append.mp hf with hf | hf
      · exact h.capped f hf
      · rw [List.mem_singleton.mp hf]
        exact hcap
  cases hpl : s.hasPayload with
  | false =>
    obtain ⟨h₂, hk₂⟩ := h₁.write (.leaf (flushedLeaf b (st.buffers c) none))
    refine ⟨⟨c, st.buffers c, p, 0⟩, rfl, rfl, by simp [flushBuffer, hne], key 0 _ ?_ hk₂ ?_ ?_⟩
    · simpa [StoredLeaf.exts, StoredLeaf.leafExt, StoredLeaf.payExts, StoredLeaf.pay, Flushed.stored,
        hpl, flushedLeaf] using h₂
    · simp [flushBuffer, hne, hpl, halloc, writeAt, Obj.pages, flushedLeaf]
    · simp [flushBuffer, hne, hpl, halloc, Flushed.leafMeta, Flushed.stored, StoredLeaf.extent,
        flushedLeaf]
  | true =>
    obtain ⟨q, v₂, halloc₂, h₂, hk₂⟩ := h₁.alloc (pagesFor_pos hpay)
    obtain ⟨h₃, hk₃⟩ := (h₂.perm (.swap _ _ _)).write (.leaf (flushedLeaf b (st.buffers c) (some q)))
    obtain ⟨h₄, hk₄⟩ := (h₃.perm (.swap _ _ _)).write
      (.payload (payloadImage ((st.buffers c).map (·.payload))))
    refine ⟨⟨c, st.buffers c, p, q⟩, rfl, rfl, by simp [flushBuffer, hne],
      key q _ ?_ (hk₂.trans (hk₃.trans hk₄)) ?_ ?_⟩
    · have := h₄.perm (.swap _ _ _)
      simpa [StoredLeaf.exts, StoredLeaf.leafExt, StoredLeaf.payExts, StoredLeaf.pay, Flushed.stored,
        hpl, flushedLeaf] using this
    · simp [flushBuffer, hne, hpl, halloc, halloc₂, writeAt, Obj.pages, flushedLeaf]
    · simp [flushBuffer, hne, hpl, halloc, halloc₂, Flushed.leafMeta, Flushed.stored,
        StoredLeaf.extent, flushedLeaf]

lemma Emitted.congr_seen {seen' : ℕ → List (BuildRow s)} (h : Emitted b start seen st F)
    (hs : ∀ c, seen c = seen' c) : Emitted b start seen' st F :=
  funext hs ▸ h

lemma Emitted.push (h : Emitted b start seen st F) (c : ℕ) (r : BuildRow s) :
    Emitted b start (Function.update seen c (seen c ++ [r]))
      { st with buffers := Function.update st.buffers c (st.buffers c ++ [r]) } F where
  holds := h.holds
  kept := h.kept
  leaves := h.leaves
  ids := h.ids
  rows c' := by
    by_cases hcc : c' = c
    · subst hcc
      simp [← h.rows c']
    · simp [Function.update_of_ne hcc, h.rows c']
  clusters := h.clusters
  nonempty := h.nonempty
  capped := h.capped

lemma Emitted.stageRow (h : Emitted b start seen st F) (hp : Packed b st F) {c : ℕ}
    (hc : c < b.kRoot) (r : BuildRow s) :
    ∃ F', Emitted b start (Function.update seen c (seen c ++ [r])) (stageRow b c st r) F' ∧
      Packed b (SextantTree.stageRow b c st r) F' := by
  have h₁ := h.push c r
  have hlen := hp.2 c
  unfold SextantTree.stageRow
  simp only [Function.update_self, List.length_append, List.length_singleton]
  split
  next hfull =>
    obtain ⟨f, -, hrows, hbuf, h₂⟩ := h₁.flush hc (by simp) (by simpa using hlen)
    refine ⟨F ++ [f], h₂, fun g hg => ?_, fun c' => ?_⟩
    · rcases List.mem_append.mp hg with hg | hg
      · exact hp.1 g hg
      · rw [List.mem_singleton.mp hg, hrows]
        simp only [Function.update_self, List.length_append, List.length_singleton]
        omega
    · rw [hbuf]
      by_cases hcc : c' = c
      · subst hcc
        simpa using b.leafCap_pos
      · simpa [Function.update_of_ne hcc] using hp.2 c'
  next hshort =>
    refine ⟨F, h₁, hp.1, fun c' => ?_⟩
    by_cases hcc : c' = c
    · subst hcc
      simp only [Function.update_self, List.length_append, List.length_singleton]
      omega
    · simpa [Function.update_of_ne hcc] using hp.2 c'

lemma Emitted.stageRows (h : Emitted b start seen st F) (hp : Packed b st F) {c : ℕ}
    (hc : c < b.kRoot) (rows : List (BuildRow s)) :
    ∃ F', Emitted b start (Function.update seen c (seen c ++ rows))
        (rows.foldl (SextantTree.stageRow b c) st) F' ∧
      Packed b (rows.foldl (SextantTree.stageRow b c) st) F' := by
  induction rows generalizing seen st F with
  | nil => exact ⟨F, by simpa using h, hp⟩
  | cons r rows ih =>
    obtain ⟨F₁, h₁, hp₁⟩ := h.stageRow hp hc r
    obtain ⟨F₂, h₂, hp₂⟩ := ih h₁ hp₁
    refine ⟨F₂, ?_, hp₂⟩
    simpa using h₂

lemma Emitted.emitChunk (h : Emitted b start seen st F) (hp : Packed b st F)
    (chunk : List (BuildRow s)) :
    ∃ F', Emitted b start
        (fun c => if c < b.kRoot then seen c ++ chunk.filter (fun r => b.isTarget r.vector c) else seen c)
        (emitChunk b st chunk) F' ∧ Packed b (SextantTree.emitChunk b st chunk) F' := by
  have key : ∀ n ≤ b.kRoot, ∃ F', Emitted b start
      (fun c => if c < n then seen c ++ chunk.filter (fun r => b.isTarget r.vector c) else seen c)
      ((List.range n).foldl (mergeCluster b chunk) st) F' ∧
      Packed b ((List.range n).foldl (mergeCluster b chunk) st) F' := by
    intro n hn
    induction n with
    | zero => exact ⟨F, by simpa using h, hp⟩
    | succ n ih =>
      obtain ⟨F₁, h₁, hp₁⟩ := ih (by omega)
      obtain ⟨F₂, h₂, hp₂⟩ := h₁.stageRows hp₁ (c := n) (by omega)
        (chunk.filter fun r => b.isTarget r.vector n)
      rw [List.range_succ, List.foldl_append]
      refine ⟨F₂, h₂.congr_seen fun c => ?_, hp₂⟩
      by_cases hcn : c = n
      · subst hcn
        simp
      · rw [Function.update_of_ne hcn]
        simp only [Nat.lt_succ_iff_lt_or_eq, hcn, or_false]
  exact key b.kRoot le_rfl

variable (b) in
/-- The rows of the corpus staged under a cluster. -/
def staged (c : ℕ) : List (BuildRow s) :=
  if c < b.kRoot then b.corpus.filter (fun r => b.isTarget r.vector c) else []

lemma Emitted.chunks (h : Emitted b start (fun _ => []) st F) (hp : Packed b st F) :
    ∃ F', Emitted b start (staged b) (b.chunks.foldl (SextantTree.emitChunk b) st) F' ∧
      Packed b (b.chunks.foldl (SextantTree.emitChunk b) st) F' := by
  have key : ∀ (l : List (List (BuildRow s))) {seen : ℕ → List (BuildRow s)} {st : Emission s}
      {F : List (Flushed s)}, Emitted b start seen st F → Packed b st F →
      ∃ F', Emitted b start (fun c => if c < b.kRoot then
          seen c ++ l.flatten.filter (fun r => b.isTarget r.vector c) else seen c)
        (l.foldl (SextantTree.emitChunk b) st) F' ∧
        Packed b (l.foldl (SextantTree.emitChunk b) st) F' := by
    intro l
    induction l with
    | nil =>
      intro seen st F h hp
      exact ⟨F, by simpa using h, hp⟩
    | cons chunk l ih =>
      intro seen st F h hp
      obtain ⟨F₁, h₁, hp₁⟩ := h.emitChunk hp chunk
      obtain ⟨F₂, h₂, hp₂⟩ := ih h₁ hp₁
      refine ⟨F₂, h₂.congr_seen fun c => ?_, hp₂⟩
      by_cases hc : c < b.kRoot <;> simp [hc]
  obtain ⟨F', h', hp'⟩ := key b.chunks h hp
  exact ⟨F', h'.congr_seen fun c => by simp [staged, BuildInput.corpus], hp'⟩

lemma Emitted.flushAll (h : Emitted b start seen st F) {n : ℕ} (hn : n ≤ b.kRoot)
    (hcap : ∀ c, (st.buffers c).length ≤ b.leafCap) :
    ∃ F', Emitted b start seen ((List.range n).foldl (flushBuffer b) st) F' ∧
      ∀ c, (((List.range n).foldl (flushBuffer b) st).buffers c =
          if c < n then [] else st.buffers c) ∧
        (ofCluster F' c).length =
          (ofCluster F c).length + if c < n ∧ st.buffers c ≠ [] then 1 else 0 := by
  induction n with
  | zero => exact ⟨F, h, fun c => by simp⟩
  | succ n ih =>
    obtain ⟨F₁, h₁, hc₁⟩ := ih (by omega)
    rw [List.range_succ, List.foldl_append]
    simp only [List.foldl_cons, List.foldl_nil]
    generalize hst : (List.range n).foldl (flushBuffer b) st = st₁ at h₁ hc₁
    have hbufn : st₁.buffers n = st.buffers n := by simpa using (hc₁ n).1
    by_cases hne : st.buffers n = []
    · have hsame : flushBuffer b st₁ n = st₁ := by simp [flushBuffer, hbufn, hne]
      rw [hsame]
      refine ⟨F₁, h₁, fun c => ?_⟩
      obtain ⟨hb, hl⟩ := hc₁ c
      by_cases hcn : c = n
      · subst hcn
        simp only [lt_irrefl, if_false, false_and, Nat.add_zero] at hb hl
        simp [hb, hl, hne]
      · simp only [Nat.lt_succ_iff_lt_or_eq, hcn, or_false]
        exact ⟨hb, hl⟩
    · obtain ⟨f, hf, -, hbuf, h₂⟩ := h₁.flush (c := n) (by omega) (by rwa [hbufn]) (hbufn ▸ hcap n)
      refine ⟨F₁ ++ [f], h₂, fun c => ?_⟩
      obtain ⟨hb, hl⟩ := hc₁ c
      rw [hbuf, ofCluster_concat, hf]
      by_cases hcn : c = n
      · subst hcn
        simp only [lt_irrefl, false_and, if_false, Nat.add_zero] at hl
        simp [hne, hl]
      · rw [Function.update_of_ne hcn, if_neg (Ne.symm hcn)]
        simp only [Nat.lt_succ_iff_lt_or_eq, hcn, or_false]
        exact ⟨hb, hl⟩

variable (b) in
def leavesOf (c : ℕ) : ℕ := ((staged b c).length + b.leafCap - 1) / b.leafCap

lemma Emitted.length_staged (h : Emitted b start seen st F) (hp : Packed b st F) (c : ℕ) :
    (ofCluster F c).length * b.leafCap + (st.buffers c).length = (seen c).length := by
  have hfull : ∀ f ∈ ofCluster F c, f.rows.length = b.leafCap := fun f hf =>
    hp.1 f (List.mem_of_mem_filter hf)
  rw [← h.rows c, List.length_append, List.length_flatMap, List.map_congr_left hfull]
  simp

/-- **The emission pass.** Every staged row is in a leaf of its cluster, the buffers are empty,
and a cluster has just enough leaves for its rows. -/
theorem emission_spec (v : TreeVol s) (hv : Holds Obj.image v ([] : List (Ext (Obj s)))) :
    ∃ F, Emitted b v (staged b) (runEmissionPass b v) F ∧
      (∀ c, (ofCluster F c).flatMap Flushed.rows = staged b c) ∧
      ∀ c, (ofCluster F c).length = leavesOf b c := by
  have h₀ : Emitted b v (fun _ => []) ⟨v, fun _ => [], [], fun _ => []⟩ [] :=
    ⟨hv, .refl _, rfl, fun _ => rfl, fun _ => rfl, by simp, by simp, by simp⟩
  obtain ⟨F₁, h₁, hp₁⟩ := h₀.chunks ⟨by simp, fun _ => b.leafCap_pos⟩
  obtain ⟨F₂, h₂, hc₂⟩ := h₁.flushAll le_rfl fun c => (hp₁.2 c).le
  have hempty : ∀ c, (runEmissionPass b v).buffers c = [] := by
    intro c
    have := (hc₂ c).1
    simp only [runEmissionPass]
    rw [this]
    split
    · rfl
    next hc =>
      have hr := h₁.rows c
      rw [staged, if_neg hc, List.append_eq_nil_iff] at hr
      exact hr.2
  refine ⟨F₂, h₂, fun c => ?_, fun c => ?_⟩
  · have := h₂.rows c
    have he := hempty c
    simp only [runEmissionPass] at he
    rwa [he, List.append_nil] at this
  · rw [(hc₂ c).2, leavesOf, ← h₁.length_staged hp₁ c]
    have hlen := hp₁.2 c
    have hpos := b.leafCap_pos
    generalize (ofCluster F₁ c).length = k
    have hdiv : ∀ m < b.leafCap, (k * b.leafCap + m) / b.leafCap = k := fun m hm => by
      rw [Nat.mul_comm, Nat.mul_add_div hpos, Nat.div_eq_of_lt hm, Nat.add_zero]
    by_cases hne : (List.foldl (SextantTree.emitChunk b) ⟨v, fun _ => [], [], fun _ => []⟩ b.chunks).buffers c
        = []
    · rw [if_neg (by simp [hne]), hne, List.length_nil, Nat.add_zero, Nat.add_zero]
      rw [Nat.add_sub_assoc hpos, hdiv _ (by omega)]
    · have hcr : c < b.kRoot := by
        by_contra hc
        have hr := h₁.rows c
        rw [staged, if_neg hc, List.append_eq_nil_iff] at hr
        exact hne hr.2
      have h1 := List.length_pos_of_ne_nil hne
      rw [if_pos ⟨hcr, hne⟩]
      set m := (List.foldl (SextantTree.emitChunk b) ⟨v, fun _ => [], [], fun _ => []⟩ b.chunks).buffers c
        |>.length
      have hsucc : k * b.leafCap + m + b.leafCap - 1 = (k + 1) * b.leafCap + (m - 1) := by
        rw [Nat.succ_mul]
        omega
      rw [hsucc, Nat.mul_comm, Nat.mul_add_div hpos, Nat.div_eq_of_lt (by omega), Nat.add_zero]

/-! ### The nodes -/

/-- The extent and the object of a group's node at a given page. -/
def groupExt (b : BuildInput s) (entries : ℕ → List ChildEntry) (pg : ℕ → ℕ) (i : ℕ) :
    Ext (Obj s) :=
  let n := nodeExtentPages b.dim (entries i).length s.summarySize
  ⟨pg i, n, some (.node ⟨entries i, n⟩)⟩

lemma writeGroups_spec {v : TreeVol s} {H : List (Ext (Obj s))} (h : Holds Obj.image v H)
    (entries : ℕ → List ChildEntry) (n : ℕ) :
    ∃ pg : ℕ → ℕ,
      Holds Obj.image (writeGroups b n entries v).2
        (((List.range n).filter fun i => !(entries i).isEmpty).map (groupExt b entries pg) ++ H) ∧
      Kept v (writeGroups b n entries v).2 ∧
      ∀ i, (writeGroups b n entries v).1 i =
        if i < n ∧ entries i ≠ [] then
          ⟨some (pg i), nodeExtentPages b.dim (entries i).length s.summarySize⟩
        else Extent.invalid := by
  induction n with
  | zero => exact ⟨fun _ => 0, by simpa [writeGroups] using h, .refl _, by simp [writeGroups]⟩
  | succ n ih =>
    obtain ⟨pg, h₁, hk₁, hext⟩ := ih
    have hstep : writeGroups b (n + 1) entries v =
        writeGroup b entries (writeGroups b n entries v) n := by
      simp [writeGroups, List.range_succ]
    rw [hstep]
    generalize writeGroups b n entries v = acc at h₁ hk₁ hext
    by_cases hne : entries n = []
    · have hsame : writeGroup b entries acc n = acc := by simp [writeGroup, hne]
      rw [hsame]
      refine ⟨pg, ?_, hk₁, fun i => ?_⟩
      · simpa [List.range_succ, List.filter_append, hne] using h₁
      · rw [hext i]
        by_cases hin : i = n
        · subst hin
          simp [hne]
        · simp only [Nat.lt_succ_iff_lt_or_eq, hin, or_false]
    · obtain ⟨p, v', hw, h₂, hk₂⟩ := writeObj_of_holds h₁
        (o := .node ⟨entries n, nodeExtentPages b.dim (entries n).length s.summarySize⟩)
        (nodeExtentPages_pos _ _ _)
      have hgroup : writeGroup b entries acc n = (Function.update acc.1 n
          ⟨some p, nodeExtentPages b.dim (entries n).length s.summarySize⟩, v') := by
        simp only [writeGroup, writeNode, hw]
        simp [hne, Obj.pages]
      rw [hgroup]
      refine ⟨Function.update pg n p, ?_, hk₁.trans hk₂, fun i => ?_⟩
      · refine h₂.perm ?_
        have hold : ((List.range n).filter fun i => !(entries i).isEmpty).map
            (groupExt b entries (Function.update pg n p)) =
            ((List.range n).filter fun i => !(entries i).isEmpty).map (groupExt b entries pg) := by
          refine List.map_congr_left fun i hi => ?_
          have : i < n := List.mem_range.mp (List.mem_of_mem_filter hi)
          simp [groupExt, Function.update_of_ne (Nat.ne_of_lt this)]
        rw [List.range_succ, List.filter_append, List.map_append, hold]
        have hnew : (([n] : List ℕ).filter fun i => !(entries i).isEmpty).map
            (groupExt b entries (Function.update pg n p)) =
            [⟨p, nodeExtentPages b.dim (entries n).length s.summarySize,
              some (.node ⟨entries n, nodeExtentPages b.dim (entries n).length s.summarySize⟩)⟩] := by
          simp [hne, groupExt]
        rw [hnew, List.append_assoc]
        exact List.perm_middle.symm
      · by_cases hin : i = n
        · subst hin
          simp [hne]
        · simp only [Function.update_of_ne hin, hext i, Nat.lt_succ_iff_lt_or_eq, hin, or_false]

section

variable (b) (st : Emission s)

def leafKid (li : ℕ) : Label × Option (Tree 0) :=
  let m := st.leaves.getD li default
  (⟨m.centroid, m.summary⟩, some (⟨li, m.extent.pages⟩ : LeafRef))

def clusterNode (pg : ℕ → ℕ) (c : ℕ) : Inner (Tree 0) := ⟨pg c, (st.rootToLeaves c).map (leafKid st)⟩

/-- A cluster below the root, or below the node of its super-group. -/
def clusterKid (pg : ℕ → ℕ) (c : ℕ) : Label × Option (Tree 1) :=
  (⟨b.rootCentroid c, l2Summary st c⟩,
    if (st.rootToLeaves c).isEmpty then none else some (clusterNode st pg c))

def groupMembers (g : ℕ) : List ℕ :=
  (List.range b.kRoot).filter fun c => b.superGroup c == g && !(st.rootToLeaves c).isEmpty

def groupNode (pg pg' : ℕ → ℕ) (g : ℕ) : Inner (Tree 1) :=
  ⟨pg' g, (groupMembers b st g).map (clusterKid b st pg)⟩

def groupKid (pg pg' : ℕ → ℕ) (g : ℕ) : Label × Option (Tree 2) :=
  (⟨b.superCentroid g,
      if (groupMembers b st g).isEmpty then .zero
      else mergeAll (s := s) ((groupMembers b st g).map (l2Summary st))⟩,
    if (groupMembers b st g).isEmpty then none else some (groupNode b st pg pg' g))

/-- A leaf below the root of a depth-1 tree: the first of its cluster. -/
def rootLeafKid (c : ℕ) : Label × Option (Tree 0) :=
  match st.rootToLeaves c with
  | [] => (⟨b.rootCentroid c, .zero⟩, none)
  | li :: _ =>
    let m := st.leaves.getD li default
    (⟨b.rootCentroid c, m.summary⟩, some (⟨li, m.extent.pages⟩ : LeafRef))

/-- The trees a build writes, by depth. -/
inductive BuiltTree : (d : ℕ) → Tree (d + 1) → Prop
  | one (p : ℕ) : BuiltTree 0 (⟨p, (List.range b.kRoot).map (rootLeafKid b st)⟩ : Inner (Tree 0))
  | two (p : ℕ) (pg : ℕ → ℕ) :
    BuiltTree 1 (⟨p, (List.range b.kRoot).map (clusterKid b st pg)⟩ : Inner (Tree 1))
  | three (p : ℕ) (pg pg' : ℕ → ℕ) :
    BuiltTree 2 (⟨p, (List.range b.kL1).map (groupKid b st pg pg')⟩ : Inner (Tree 2))

end

lemma clusterNode_node (st : Emission s) (pg : ℕ → ℕ) (c : ℕ) :
    (clusterNode st pg c).node s b.dim = ⟨clusterEntries st c,
      nodeExtentPages b.dim (clusterEntries st c).length s.summarySize⟩ := by
  simp only [Inner.node, Inner.pages, clusterNode, clusterEntries, List.map_map, List.length_map]
  rfl

lemma clusterKid_exts (st : Emission s) (pg : ℕ → ℕ) (c : ℕ) :
    (clusterKid b st pg c).2.elim [] (Tree.exts s b.dim) =
      if (st.rootToLeaves c).isEmpty then [] else [groupExt b (clusterEntries st) pg c] := by
  unfold clusterKid
  split
  · rfl
  · have hkids : ((clusterNode st pg c).kids.flatMap fun k => k.2.elim [] (Tree.exts s b.dim)) = [] := by
      refine List.flatMap_eq_nil_iff.mpr fun k hk => ?_
      obtain ⟨li, -, rfl⟩ := List.mem_map.mp hk
      rfl
    have hext : (clusterNode st pg c).ext s b.dim = groupExt b (clusterEntries st) pg c := by
      simp only [Inner.ext, clusterNode_node, groupExt]
      simp [Inner.pages, clusterNode, clusterEntries]
    calc Tree.exts s b.dim (d := 1) (clusterNode st pg c)
        = (clusterNode st pg c).ext s b.dim ::
          (clusterNode st pg c).kids.flatMap fun k => k.2.elim [] (Tree.exts s b.dim) := rfl
      _ = [groupExt b (clusterEntries st) pg c] := by rw [hkids, hext]

lemma clusterKids_exts (st : Emission s) (pg : ℕ → ℕ) (l : List ℕ) :
    ((l.map (clusterKid b st pg)).flatMap fun k => k.2.elim [] (Tree.exts s b.dim)) =
      (l.filter fun c => !(st.rootToLeaves c).isEmpty).map (groupExt b (clusterEntries st) pg) := by
  induction l with
  | nil => rfl
  | cons c l ih =>
    rw [List.map_cons, List.flatMap_cons, ih, clusterKid_exts, List.filter_cons]
    cases h : (st.rootToLeaves c).isEmpty <;> simp

lemma clusterEntries_isEmpty (st : Emission s) (c : ℕ) :
    (clusterEntries st c).isEmpty = (st.rootToLeaves c).isEmpty := by
  simp [clusterEntries]

lemma flatMap_cons_perm {α β : Type} (l : List α) (p : α → Bool) (a : α → β) (B : α → List β) :
    (l.flatMap fun g => if p g then [] else a g :: B g).Perm
      ((l.filter (!p ·)).map a ++ l.flatMap fun g => if p g then [] else B g) := by
  induction l with
  | nil => simp
  | cons x l ih =>
    cases hp : p x with
    | true => simpa [hp] using ih
    | false =>
      simp only [List.flatMap_cons, hp, List.filter_cons]
      simp only [Bool.false_eq_true, if_false, Bool.not_false, if_true, List.map_cons, List.cons_append]
      refine .cons _ ?_
      refine .trans (.append_left _ ih) ?_
      rw [← List.append_assoc, ← List.append_assoc]
      exact .append_right _ List.perm_append_comm

section

variable {st : Emission s} {l2 : ℕ → Extent} {pg : ℕ → ℕ}

/-- The extents of the cluster nodes, as `writeGroups` leaves them. -/
def ClusterExtents (b : BuildInput s) (st : Emission s) (l2 : ℕ → Extent) (pg : ℕ → ℕ) : Prop :=
  ∀ c, l2 c = if c < b.kRoot ∧ clusterEntries st c ≠ [] then
    ⟨some (pg c), nodeExtentPages b.dim (clusterEntries st c).length s.summarySize⟩
  else Extent.invalid

lemma l2Entry_eq (h : ClusterExtents b st l2 pg) {c : ℕ} (hc : c < b.kRoot) :
    l2Entry b st l2 c = Tree.entry s b.dim (clusterKid b st pg c) := by
  have hc' := h c
  by_cases he : st.rootToLeaves c = []
  · rw [if_neg (by simp [clusterEntries, he])] at hc'
    simp [l2Entry, clusterKid, he, hc', Tree.entry, Extent.invalid]
  · rw [if_pos ⟨hc, by simpa [clusterEntries] using he⟩] at hc'
    simp [l2Entry, clusterKid, he, hc', Tree.entry, Inner.pages, clusterNode, clusterEntries]

lemma members_eq (h : ClusterExtents b st l2 pg) (g : ℕ) :
    members b l2 g = groupMembers b st g := by
  refine List.filter_congr fun c hc => ?_
  have hc' := h c
  have hlt := List.mem_range.mp hc
  by_cases he : st.rootToLeaves c = []
  · rw [if_neg (by simp [clusterEntries, he])] at hc'
    simp [hc', he, Extent.invalid]
  · rw [if_pos ⟨hlt, by simpa [clusterEntries] using he⟩] at hc'
    simp [hc', he]

lemma lt_of_mem_groupMembers {g c : ℕ} (hc : c ∈ groupMembers b st g) : c < b.kRoot :=
  List.mem_range.mp (List.mem_of_mem_filter hc)

lemma groupEntries_eq (h : ClusterExtents b st l2 pg) (g : ℕ) :
    groupEntries b st l2 g =
      ((groupMembers b st g).map (clusterKid b st pg)).map (Tree.entry s b.dim) := by
  rw [groupEntries, members_eq h, List.map_map]
  exact List.map_congr_left fun c hc => l2Entry_eq h (lt_of_mem_groupMembers hc)

lemma groupKid_exts (h : ClusterExtents b st l2 pg) (pg' : ℕ → ℕ) (g : ℕ) :
    (groupKid b st pg pg' g).2.elim [] (Tree.exts s b.dim) =
      if (groupMembers b st g).isEmpty then []
      else groupExt b (groupEntries b st l2) pg' g ::
        (groupMembers b st g).map (groupExt b (clusterEntries st) pg) := by
  unfold groupKid
  split
  · rfl
  · have hext : (groupNode b st pg pg' g).ext s b.dim = groupExt b (groupEntries b st l2) pg' g := by
      simp only [Inner.ext, Inner.node, groupExt, groupEntries_eq h]
      simp [Inner.pages, groupNode]
    have hkids : ((groupNode b st pg pg' g).kids.flatMap fun k => k.2.elim [] (Tree.exts s b.dim)) =
        (groupMembers b st g).map (groupExt b (clusterEntries st) pg) := by
      simp only [groupNode]
      rw [clusterKids_exts]
      congr 1
      refine List.filter_eq_self.mpr fun c hc => ?_
      have := (List.mem_filter.mp hc).2
      simp only [Bool.and_eq_true] at this
      exact this.2
    calc Tree.exts s b.dim (d := 2) (groupNode b st pg pg' g)
        = (groupNode b st pg pg' g).ext s b.dim ::
          (groupNode b st pg pg' g).kids.flatMap fun k => k.2.elim [] (Tree.exts s b.dim) := rfl
      _ = _ := by rw [hkids, hext]

lemma groupMembers_perm (hlt : ∀ c < b.kRoot, b.superGroup c < b.kL1) :
    ((List.range b.kL1).flatMap (groupMembers b st)).Perm
      ((List.range b.kRoot).filter fun c => !(st.rootToLeaves c).isEmpty) := by
  have h := flatMap_filter_perm b.superGroup
    ((List.range b.kRoot).filter fun c => !(st.rootToLeaves c).isEmpty) b.kL1
  have hall : ((List.range b.kRoot).filter fun c => !(st.rootToLeaves c).isEmpty).filter
      (fun c => decide (b.superGroup c < b.kL1)) =
      (List.range b.kRoot).filter fun c => !(st.rootToLeaves c).isEmpty := by
    refine List.filter_eq_self.mpr fun c hc => ?_
    simpa using hlt c (List.mem_range.mp (List.mem_of_mem_filter hc))
  rw [hall] at h
  simp only [List.filter_filter] at h
  exact h

end

/-- The nodes below the root: they stand for the trees of the root's children. -/
theorem writeInnerNodes_spec {st : Emission s} {H : List (Ext (Obj s))}
    (h : Holds Obj.image st.vol H) {depth : ℕ} (hd : depth = 1 ∨ depth = b.depth) :
    ∃ (d : ℕ) (kids : List (Label × Option (Tree d))), d + 1 = depth ∧
      (∀ p, BuiltTree b st d (⟨p, kids⟩ : Inner (Tree d))) ∧
      (writeInnerNodes b st depth).1 = kids.map (Tree.entry s b.dim) ∧
      Holds Obj.image (writeInnerNodes b st depth).2
        ((kids.flatMap fun k => k.2.elim [] (Tree.exts s b.dim)) ++ H) ∧
      Kept st.vol (writeInnerNodes b st depth).2 := by
  by_cases h1 : depth = 1
  · subst h1
    refine ⟨0, _, rfl, fun p => .one p, ?_, ?_, ?_⟩
    · simp only [writeInnerNodes, if_true, List.map_map]
      refine List.map_congr_left fun c _ => ?_
      cases he : st.rootToLeaves c <;> simp [rootLeafEntry, rootLeafKid, he, Tree.entry]
    · have hnil : (((List.range b.kRoot).map (rootLeafKid b st)).flatMap fun k =>
          k.2.elim [] (Tree.exts s b.dim)) = [] := by
        refine List.flatMap_eq_nil_iff.mpr fun k hk => ?_
        obtain ⟨c, -, rfl⟩ := List.mem_map.mp hk
        unfold rootLeafKid
        split <;> rfl
      simpa [hnil, writeInnerNodes] using h
    · simpa [writeInnerNodes] using Kept.refl st.vol
  · obtain ⟨pg, h₂, hk₂, hl2⟩ := writeGroups_spec (b := b) h (clusterEntries st) b.kRoot
    simp only [clusterEntries_isEmpty] at h₂
    by_cases h3 : depth = 3
    · have hd3 : b.depth = 3 := by omega
      obtain ⟨pg', h₃, hk₃, hl1⟩ := writeGroups_spec (b := b) h₂
        (groupEntries b st (writeGroups b b.kRoot (clusterEntries st) st.vol).1) b.kL1
      generalize hw : writeGroups b b.kRoot (clusterEntries st) st.vol = w at *
      have hC : ClusterExtents b st w.1 pg := hl2
      have hempty : ∀ g, (groupEntries b st w.1 g).isEmpty = (groupMembers b st g).isEmpty := by
        intro g
        rw [groupEntries_eq hC]
        simp
      have hinner : writeInnerNodes b st depth =
          ((List.range b.kL1).map (l1Entry b st w.1 (writeGroups b b.kL1 (groupEntries b st w.1) w.2).1),
            (writeGroups b b.kL1 (groupEntries b st w.1) w.2).2) := by
        simp [writeInnerNodes, h3, hw]
      rw [hinner]
      refine ⟨2, _, h3.symm, fun p => .three p pg pg', ?_, ?_, hk₂.trans hk₃⟩
      · rw [List.map_map]
        refine List.map_congr_left fun g hg => ?_
        have hg' := hl1 g
        have hlt := List.mem_range.mp hg
        simp only [l1Entry, hg', l1Summary, members_eq hC, Function.comp]
        by_cases he : groupMembers b st g = []
        · rw [if_neg (by rw [← List.isEmpty_eq_false_iff, hempty]; simp [he])]
          simp [groupKid, he, Tree.entry, Extent.invalid]
        · rw [if_pos ⟨hlt, by rw [← List.isEmpty_eq_false_iff, hempty]; simpa using he⟩]
          simp [groupKid, he, Tree.entry, Inner.pages, groupNode, groupEntries_eq hC]
      · refine h₃.perm ?_
        rw [← List.append_assoc]
        refine .append_right _ ?_
        simp only [List.flatMap_map, groupKid_exts hC]
        refine .trans ?_ (flatMap_cons_perm _ _ _ _).symm
        simp only [hempty]
        refine .append_left _ ?_
        have hsub : ((List.range b.kL1).flatMap fun g => if (groupMembers b st g).isEmpty then []
            else (groupMembers b st g).map (groupExt b (clusterEntries st) pg)) =
            ((List.range b.kL1).flatMap (groupMembers b st)).map
              (groupExt b (clusterEntries st) pg) := by
          rw [List.map_flatMap]
          refine List.flatMap_congr fun g _ => ?_
          split
          next he => simp [List.isEmpty_iff.mp he]
          · rfl
        rw [hsub]
        exact ((groupMembers_perm (b.superGroup_lt hd3)).map _).symm
    · have hC : ClusterExtents b st (writeGroups b b.kRoot (clusterEntries st) st.vol).1 pg := hl2
      have hd2 : depth = 2 := by
        have := b.depth_planned
        omega
      have hinner : writeInnerNodes b st depth =
          ((List.range b.kRoot).map
              (l2Entry b st (writeGroups b b.kRoot (clusterEntries st) st.vol).1),
            (writeGroups b b.kRoot (clusterEntries st) st.vol).2) := by
        simp [writeInnerNodes, hd2]
      rw [hinner]
      refine ⟨1, _, hd2.symm, fun p => .two p pg, ?_, ?_, hk₂⟩
      · rw [List.map_map]
        exact List.map_congr_left fun c hc => l2Entry_eq hC (List.mem_range.mp hc)
      · rw [clusterKids_exts]
        exact h₂

/-! ### The whole build -/

lemma writeOpt_of_holds {v : TreeVol s} {H : List (Ext (Obj s))} (h : Holds Obj.image v H)
    (o : Option (Obj s)) :
    ∃ (x : Slot s) (v' : TreeVol s), (writeOpt v o).2 = v' ∧ Slot.Names x (writeOpt v o).1 ∧
      x.map Prod.snd = o.filter (fun y => decide (0 < y.pages)) ∧
      Holds Obj.image v' (Slot.exts x ++ H) ∧ Kept v v' := by
  cases o with
  | none => exact ⟨none, v, rfl, rfl, rfl, h, .refl _⟩
  | some y =>
    by_cases hy : 0 < y.pages
    · obtain ⟨p, v', hw, h', hk⟩ := writeObj_of_holds h hy
      refine ⟨some (p, y), v', ?_, ?_, ?_, h', hk⟩
      · simp [writeOpt, hw]
      · simp [writeOpt, hw, Slot.Names, hy]
      · simp [Option.filter, hy]
    · have h0 : y.pages = 0 := by omega
      have hw : writeObj v y = (Extent.invalid, v) := by simp [writeObj, h0, allocExtent]
      exact ⟨none, v, by simp [writeOpt, hw], by simp [writeOpt, hw, Slot.Names, Extent.invalid],
        by simp [Option.filter, h0], h, .refl _⟩

lemma formatted_holds (old : TreeFile s) :
    Holds Obj.image (formatted b old) ([] : List (Ext (Obj s))) where
  ok := ⟨∅, init_ok _ rfl⟩
  data := by simp
  inFile := by simp
  live := by simp
  apart := .nil
  stored := by simp

lemma formatted_blank (old : TreeFile s) {p : ℕ} (hp : p < 2) :
    (formatted b old).file.pages p = .zero := by
  have hwiped : (old.writePages 0 2 fun _ => Img.zero).pages p = .zero := by
    rw [PageFile.writePages_pages, if_pos (by omega)]
  simp only [formatted, PageFile.truncate_pages]
  split
  · exact hwiped
  · rfl

lemma Flushed.length_rows (f : Flushed s) : (f.stored b).leaf.count = f.rows.length := by
  have hlen : (b.coder.flushLeaf (f.rows.map (·.vector))).2.length = f.rows.length := by
    rw [b.coder.length_flushLeaf, List.length_map]
  simp [stored, flushedLeaf, Leaf.count, hlen]

lemma Flushed.stored_ok {f : Flushed s} (h : f.rows ≠ []) : (f.stored b).Ok where
  pages_pos := leafPages_pos f.rows
  payload := by
    cases hp : s.hasPayload <;>
      simp [stored, flushedLeaf, StoredLeaf.payExtent, StoredLeaf.pay, hp]
  paid _ := by
    rw [f.length_rows]
    exact ⟨by simp [stored], List.length_pos_of_ne_nil h⟩

/-- The contents of the file of a build whose emission pass ended in `st` with leaves `F`. -/
structure Built (b : BuildInput s) (st : Emission s) (F : List (Flushed s)) (c : Contents s) :
    Prop where
  tree : BuiltTree b st c.below c.tree
  depth : c.below + 1 = finalDepth b F.length
  leaves : c.leaves = F.map (Flushed.stored b)
  manifest : c.manifest = buildManifest b F.length (finalDepth b F.length)
  config : c.configBytes = b.tomlBytes c.manifest
  pca : c.pca.map Prod.snd =
    (b.pca.map fun m => Obj.pca (pcaBlob m (finalDepth b F.length) st.leaves)).filter
      fun o => decide (0 < o.pages)
  plane : b.plane = none → c.plane = none
  codebook : c.codebook.map Prod.snd =
    (b.coder.serializeGlobal.map fun g => Obj.blob (codebookBlob g)).filter
      fun o => decide (0 < o.pages)

/-- **A build.** The file of a build that returns is committed, and its contents are the
leaves of the emission pass under the tree of the chosen depth. -/
theorem build_spec {old file : TreeFile s} (h : build b old = .ok file) :
    ∃ st F sb c, Emitted b (formatted b old) (staged b) st F ∧
      (∀ i, (ofCluster F i).flatMap Flushed.rows = staged b i) ∧
      (∀ i, (ofCluster F i).length = leavesOf b i) ∧
      Built b st F c ∧ Committed file sb c := by
  obtain ⟨F, hE, hrows, hcount⟩ := emission_spec (b := b) _ (formatted_holds old)
  unfold build at h
  generalize runEmissionPass b (formatted b old) = st at hE h
  have hlen : st.leaves.length = F.length := by rw [hE.leaves, List.length_map]
  unfold writeTreeStructure at h
  simp only [hlen] at h
  have hdepth : finalDepth b F.length = 1 ∨ finalDepth b F.length = b.depth := by
    unfold finalDepth
    split
    · exact .inl rfl
    · exact .inr rfl
  obtain ⟨d, kids, hd, htree, hentries, h₁, hk₁⟩ := writeInnerNodes_spec hE.holds hdepth
  generalize writeInnerNodes b st (finalDepth b F.length) = inner at h hentries h₁ hk₁
  obtain ⟨p, v₂, hw₂, h₂, hk₂⟩ := writeObj_of_holds h₁
    (o := .node ⟨inner.1, nodeExtentPages b.dim inner.1.length s.summarySize⟩)
    (nodeExtentPages_pos _ _ _)
  simp only [writeNode, hw₂] at h
  obtain ⟨cb, v₃, hv₃, hn₃, hcb, h₃, hk₃⟩ := writeOpt_of_holds h₂
    (b.coder.serializeGlobal.map fun g => .blob (codebookBlob g))
  generalize writeOpt v₂ (b.coder.serializeGlobal.map fun g => .blob (codebookBlob g)) = w₃
    at h hv₃ hn₃
  subst hv₃
  obtain ⟨pc, v₄, hv₄, hn₄, hpca, h₄, hk₄⟩ := writeOpt_of_holds h₃
    (b.pca.map fun m => .pca (pcaBlob m (finalDepth b F.length) st.leaves))
  generalize writeOpt w₃.2 (b.pca.map fun m =>
    .pca (pcaBlob m (finalDepth b F.length) st.leaves)) = w₄ at h hv₄ hn₄
  subst hv₄
  obtain ⟨cd, v₅, hv₅, hn₅, -, h₅, hk₅⟩ := writeOpt_of_holds h₄
    (if s.columns.isEmpty || b.cardinality.isEmpty then none else some (.blob b.cardinality))
  generalize writeOpt w₄.2 (if s.columns.isEmpty || b.cardinality.isEmpty then none
    else some (.blob b.cardinality)) = w₅ at h hv₅ hn₅
  subst hv₅
  obtain ⟨tp, v₆, hw₆, h₆, hk₆⟩ := writeObj_of_holds h₅
    (o := .leafTable (st.leaves.map (·.extent))) (pagesFor_pos (by omega))
  simp only [hw₆] at h
  obtain ⟨cp, v₇, hw₇, h₇, hk₇⟩ := writeObj_of_holds h₆
    (o := .config (buildManifest b F.length (finalDepth b F.length))
      (b.tomlBytes (buildManifest b F.length (finalDepth b F.length))))
    (pagesFor_pos (b.tomlBytes_pos _))
  simp only [hw₇] at h
  obtain ⟨pl, v₈, hv₈, hn₈, hplane, h₈, hk₈⟩ := writeOpt_of_holds h₇ (b.plane.map fun p => .blob p.2)
  generalize writeOpt v₇ (b.plane.map fun p => .blob p.2) = w₈ at h hv₈ hn₈
  subst hv₈
  have hk : Kept (formatted b old) w₈.2 := hE.kept.trans <| hk₁.trans <| hk₂.trans <| hk₃.trans <|
    hk₄.trans <| hk₅.trans <| hk₆.trans <| hk₇.trans hk₈
  have hbp : w₈.2.alloc.bitmapPage = 2 := hk.bitmapPage
  have hbps : w₈.2.alloc.bitmapPages = b.bitmapPages := hk.bitmapPages
  have hblank : ∀ q < 2, w₈.2.file.pages q = .zero := by
    intro q hq
    rw [hk.pages q (by simp only [PageAllocator.firstFree, formatted, init]; omega)]
    exact formatted_blank old hq
  have htable : st.leaves.map (·.extent) = (F.map (Flushed.stored b)).map StoredLeaf.extent := by
    rw [hE.leaves, List.map_map, List.map_map]
    rfl
  split at h
  · cases h
  · cases h
  next file' hflush =>
    have hplane' : b.plane = none → pl = none := by
      intro hp
      rw [hp] at hplane
      simpa using hplane
    let c : Contents s :=
      { below := d
        tree := (⟨p, kids⟩ : Inner (Tree d))
        leaves := F.map (Flushed.stored b)
        tablePage := tp
        manifest := buildManifest b F.length (finalDepth b F.length)
        configPage := cp
        configBytes := b.tomlBytes (buildManifest b F.length (finalDepth b F.length))
        codebook := cb
        pca := pc
        cardinality := cd
        plane := pl }
    have hroot : (⟨p, (Obj.node (s := s) ⟨inner.1, nodeExtentPages b.dim inner.1.length
        s.summarySize⟩).pages, some (.node ⟨inner.1, nodeExtentPages b.dim inner.1.length
        s.summarySize⟩)⟩ : Ext (Obj s)) = Inner.ext s b.dim (⟨p, kids⟩ : Inner (Tree d)) := by
      simp [Inner.ext, Inner.node, Inner.pages, hentries, Obj.pages]
    have hheap : Holds Obj.image w₈.2 c.heap := by
      refine h₈.perm ?_
      rw [hroot, htable]
      have hexts : c.tree.exts s c.manifest.dim = Inner.ext s b.dim (⟨p, kids⟩ : Inner (Tree d)) ::
          kids.flatMap fun k => k.2.elim [] (Tree.exts s b.dim) := rfl
      have hleaves : c.leaves.flatMap StoredLeaf.exts = F.flatMap fun f => (f.stored b).exts :=
        List.flatMap_map _ _ _
      rw [Contents.heap, hexts, hleaves, ← Multiset.coe_eq_coe]
      simp only [← Multiset.coe_add, ← Multiset.cons_coe, ← Multiset.singleton_add]
      simp only [Contents.tableExt, Contents.configExt, Contents.table, Obj.pages, c]
      abel
    have hnamed : ∀ sb : SuperblockDisk,
        sb.root = ⟨some p, nodeExtentPages b.dim inner.1.length s.summarySize⟩ →
        sb.depth = finalDepth b F.length → sb.nLeaves = F.length →
        sb.leafTable = ⟨some tp, (Obj.leafTable (s := s) (st.leaves.map (·.extent))).pages⟩ →
        sb.config = ⟨some cp, pagesFor (b.tomlBytes (buildManifest b F.length
          (finalDepth b F.length)))⟩ →
        sb.codebook = w₃.1 → sb.pca = w₄.1 → sb.cardinality = w₅.1 →
        sb.plane = (if b.plane.isSome then w₈.1 else ⟨some 0, 0⟩) → c.Named sb := by
      intro sb hr hdp hnl ht hcf hcb hpc hcd hpl
      refine ⟨?_, by rw [hdp]; exact hd.symm, by rw [hnl]; simp [c], ?_, hcf, by rw [hcb]; exact hn₃,
        by rw [hpc]; exact hn₄, by rw [hcd]; exact hn₅, ?_⟩
      · rw [hr, hentries]
        simp [Inner.extent, Inner.pages, c, buildManifest]
      · rw [ht, htable]
        rfl
      · rw [hpl]
        cases hbp : b.plane with
        | none =>
          have : c.plane = none := hplane' hbp
          simp [this, Slot.Names]
        | some x => simpa using hn₈
    cases h
    refine ⟨st, F, _, c, hE, hrows, hcount, ⟨htree p, hd, rfl, rfl, rfl, hpca, hplane', hcb⟩,
      Committed.of_flush hheap hbp (by rw [hbps]; exact b.bitmapPages_pos) hflush ?_ rfl rfl rfl rfl rfl
        (hnamed _ rfl rfl rfl rfl rfl rfl rfl rfl rfl) ⟨?_, b.tomlBytes_pos _, ?_⟩⟩
    · intro old' ho
      rw [readCopy, hblank _ (shadowPage_lt _)] at ho
      cases ho
    · intro l hl
      obtain ⟨f, hf, rfl⟩ := List.mem_map.mp hl
      exact Flushed.stored_ok (hE.nonempty f hf)
    · exact hd.symm

end SextantTree
