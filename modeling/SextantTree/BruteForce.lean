import SextantTree.Committed
import SextantTree.SearchSpec

/-!
The fallback that scans every leaf, against an exhaustive search. The walk over the tree meets
every leaf; what it finds is cut by distance alone, without looking for replicas.
-/

namespace SextantTree

open Pages Alloc Heap FilterHash StackWalk

/-! ### Order -/

def bruteLe (a b : Candidate) : Prop := toLex (a.dist, a.rowId) ≤ toLex (b.dist, b.rowId)

instance : DecidableRel bruteLe := fun _ _ => inferInstanceAs (Decidable (_ ≤ _))

instance : IsTrans Candidate bruteLe := ⟨fun _ _ _ hab hbc => le_trans hab hbc⟩

instance : Std.Total bruteLe := ⟨fun a b => le_total (toLex (a.dist, a.rowId)) (toLex (b.dist, b.rowId))⟩

instance : Std.Antisymm bruteLe where
  antisymm a b hab hba := by
    have h : toLex (a.dist, a.rowId) = toLex (b.dist, b.rowId) := le_antisymm hab hba
    have h' := Prod.ext_iff.mp (toLex.injective h)
    exact Candidate.ext_iff'.mpr ⟨h'.2, h'.1⟩

lemma bruteLe_iff {a b : Candidate} :
    bruteLe a b ↔ a.dist < b.dist ∨ a.dist = b.dist ∧ a.rowId ≤ b.rowId :=
  Prod.Lex.toLex_le_toLex

lemma totalLe_iff {a b : Candidate} :
    totalLe a b ↔ a.dist < b.dist ∨ a.dist = b.dist ∧ b.rowId ≤ a.rowId :=
  Prod.Lex.toLex_le_toLex

lemma dist_le_of_bruteLe {a b : Candidate} (h : bruteLe a b) : a.dist ≤ b.dist := by
  rcases bruteLe_iff.mp h with h | ⟨h, -⟩
  · exact h.le
  · exact h.le

lemma dist_le_of_totalLe {a b : Candidate} (h : totalLe a b) : a.dist ≤ b.dist := by
  rcases totalLe_iff.mp h with h | ⟨h, -⟩
  · exact h.le
  · exact h.le

/-- **The exhaustive answer**: of every row its nearest replica, the `k` best of them. -/
def bruteAnswer (k : ℕ) (S : Finset Candidate) : List Candidate :=
  ((nearestReplicas S).sort bruteLe).take k

/-! ### Cuts -/

section Cuts

variable {k : ℕ} {M : Multiset Candidate}

/-- The `k` first of the rows found, ties by row id. -/
def firstRows (k : ℕ) (M : Multiset Candidate) : List Candidate := (M.sort bruteLe).take k

/-- No two of the `k` first rows have the same row id, and a row as far as one of them is that
row. -/
structure Clear (k : ℕ) (M : Multiset Candidate) : Prop where
  nodup : ((firstRows k M).map Candidate.rowId).Nodup
  tie : ∀ a ∈ firstRows k M, ∀ b ∈ M, b.dist = a.dist → b = a

lemma mem_take_of_le {r : Candidate → Candidate → Prop} [Std.Antisymm r] {l : List Candidate}
    (hl : l.Pairwise r) {a b : Candidate} (ha : a ∈ l.take k) (hb : b ∈ l) (hba : r b a)
    (hne : b ≠ a) : b ∈ l.take k := by
  rw [← List.take_append_drop k l] at hb hl
  rcases List.mem_append.mp hb with hb | hb
  · exact hb
  · exact absurd (Std.Antisymm.antisymm b a hba ((List.pairwise_append.mp hl).2.2 a ha b hb)) hne

/-- A cut that breaks ties by an order finer than distance. -/
def orderedCut (r : Candidate → Candidate → Prop) [DecidableRel r] [IsTrans Candidate r] [Std.Total r]
    (hr : ∀ a b, r a b → a.dist ≤ b.dist) : DistanceCut where
  cut k l := (l.insertionSort r).take k
  perm k l := by
    refine ⟨(l.insertionSort r).drop k, ?_, fun a ha b hb => ?_⟩
    · rw [List.take_append_drop]
      exact List.perm_insertionSort _ _
    · have hsorted := List.pairwise_insertionSort r l
      rw [← List.take_append_drop k (l.insertionSort r), List.pairwise_append] at hsorted
      exact hr a b (hsorted.2.2 a ha b hb)
  sorted k l := by
    have hsorted := (List.pairwise_insertionSort r l).sublist (List.take_sublist k _)
    exact hsorted.imp fun h => hr _ _ h
  length k l := by simp

lemma insertionSort_eq_sort (l : List Candidate) :
    l.insertionSort bruteLe = (l : Multiset Candidate).sort bruteLe := by
  refine List.Perm.eq_of_pairwise' (r := bruteLe) (List.pairwise_insertionSort _ _)
    (Multiset.pairwise_sort _ _) ?_
  refine (List.perm_insertionSort _ _).trans ?_
  exact Multiset.coe_eq_coe.mp (Multiset.sort_eq _ _).symm

lemma map_dist_cut (lib : DistanceCut) (k : ℕ) (l : List Candidate) :
    (lib.cut k l).map Candidate.dist = (firstRows k l).map Candidate.dist := by
  obtain ⟨rest, hperm, hle⟩ := lib.perm k l
  have hsorted : (lib.cut k l ++ rest.insertionSort bruteLe).Pairwise fun a b => a.dist ≤ b.dist := by
    rw [List.pairwise_append]
    refine ⟨lib.sorted k l, (List.pairwise_insertionSort bruteLe rest).imp dist_le_of_bruteLe, ?_⟩
    intro a ha b hb
    exact hle a ha b ((List.mem_insertionSort _).mp hb)
  have hsame : (lib.cut k l ++ rest.insertionSort bruteLe).map Candidate.dist =
      ((l : Multiset Candidate).sort bruteLe).map Candidate.dist := by
    refine List.Perm.eq_of_pairwise' (r := (· ≤ ·)) (List.pairwise_map.mpr hsorted)
      (List.pairwise_map.mpr ((Multiset.pairwise_sort (l : Multiset Candidate) bruteLe).imp
        dist_le_of_bruteLe)) (List.Perm.map _ ?_)
    rw [← insertionSort_eq_sort]
    exact ((List.Perm.append_left _ (List.perm_insertionSort _ _)).trans hperm).trans
      (List.perm_insertionSort _ _).symm
  have htake := congrArg (List.take (lib.cut k l).length) hsame
  rw [List.map_append, List.take_left' (by simp), lib.length, ← List.map_take] at htake
  rw [htake, firstRows]
  congr 1
  rw [← insertionSort_eq_sort, ← List.take_take, List.take_of_length_le (l := l.insertionSort bruteLe)
    (by simp)]

lemma cut_eq_firstRows {l : List Candidate} (h : Clear k l) (lib : DistanceCut) :
    lib.cut k l = firstRows k l := by
  have hmap := map_dist_cut lib k l
  have hlen : (lib.cut k l).length = (firstRows k (l : Multiset Candidate)).length := by
    simpa using congrArg List.length hmap
  obtain ⟨rest, hperm, -⟩ := lib.perm k l
  refine List.ext_getElem hlen fun i h₁ h₂ => ?_
  refine h.tie _ (List.getElem_mem h₂) _ ?_ ?_
  · exact hperm.subset (List.mem_append_left _ (List.getElem_mem h₁))
  · have := List.getElem_of_eq hmap (i := i) (by simpa using h₁)
    simpa using this

lemma clear_of_cuts {l A : List Candidate} (hA : (A.map Candidate.rowId).Nodup)
    (h : ∀ lib : DistanceCut, lib.cut k l = A) : Clear k l := by
  have hup : (l.insertionSort bruteLe).take k = A :=
    h (orderedCut bruteLe fun _ _ => dist_le_of_bruteLe)
  have hdown : (l.insertionSort totalLe).take k = A :=
    h (orderedCut totalLe fun _ _ => dist_le_of_totalLe)
  have hfirst : firstRows k l = A := by rw [firstRows, ← insertionSort_eq_sort, hup]
  have hup' := (List.pairwise_insertionSort bruteLe l).sublist (List.take_sublist k _)
  have hdown' := (List.pairwise_insertionSort totalLe l).sublist (List.take_sublist k _)
  rw [hup] at hup'
  rw [hdown] at hdown'
  -- Rows of `A` at one distance stand in both orders.
  have hsame : A.Pairwise fun a b => a.dist = b.dist → a.rowId = b.rowId := by
    refine (hup'.and hdown').imp fun {a b} hab hdist => ?_
    rcases bruteLe_iff.mp hab.1 with hlt | ⟨-, hle⟩
    · exact absurd hdist hlt.ne
    rcases totalLe_iff.mp hab.2 with hlt | ⟨-, hge⟩
    · exact absurd hdist hlt.ne
    exact le_antisymm hle hge
  refine ⟨by rw [hfirst]; exact hA, fun a ha b hb hdist => ?_⟩
  rw [hfirst] at ha
  rw [Multiset.mem_coe] at hb
  by_contra hne
  have hbA : b ∈ A := by
    rcases le_total b.rowId a.rowId with hle | hle
    · rw [← hup] at ha ⊢
      exact mem_take_of_le (List.pairwise_insertionSort bruteLe l) ha
        ((List.mem_insertionSort _).mpr hb) (bruteLe_iff.mpr (.inr ⟨hdist, hle⟩)) hne
    · rw [← hdown] at ha ⊢
      exact mem_take_of_le (List.pairwise_insertionSort totalLe l) ha
        ((List.mem_insertionSort _).mpr hb) (totalLe_iff.mpr (.inr ⟨hdist, hle⟩)) hne
  have : Std.Symm fun a b : Candidate => a.dist = b.dist → a.rowId = b.rowId :=
    ⟨fun x y hxy h => (hxy h.symm).symm⟩
  have hrow : b.rowId = a.rowId := hsame.forall_of_forall (fun x _ _ => rfl) hbA ha hdist
  exact hne (Candidate.ext_iff'.mpr ⟨hrow, hdist⟩)

lemma take_sort_eq {T : Finset Candidate} {P : List Candidate} (hsorted : P.Pairwise bruteLe)
    (hnodup : P.Nodup) (hsub : ∀ a ∈ P, a ∈ T) (hbehind : ∀ c ∈ T, c ∉ P → ∀ a ∈ P, bruteLe a c)
    (hfull : P.length = k ∨ P.length ≤ k ∧ ∀ c ∈ T, c ∈ P) : (T.sort bruteLe).take k = P := by
  have hsplit : T.sort bruteLe = P ++ (T \ P.toFinset).sort bruteLe := by
    refine List.Perm.eq_of_pairwise' (r := bruteLe) (Finset.pairwise_sort _ _) ?_ ?_
    · rw [List.pairwise_append]
      refine ⟨hsorted, Finset.pairwise_sort _ _, fun a ha c hc => ?_⟩
      rw [Finset.mem_sort, Finset.mem_sdiff, List.mem_toFinset] at hc
      exact hbehind c hc.1 hc.2 a ha
    · refine (List.perm_ext_iff_of_nodup (Finset.sort_nodup _ _) ?_).mpr fun c => ?_
      · refine List.nodup_append.mpr ⟨hnodup, Finset.sort_nodup _ _, fun a ha c hc => ?_⟩
        rw [Finset.mem_sort, Finset.mem_sdiff, List.mem_toFinset] at hc
        rintro rfl
        exact hc.2 ha
      · rw [Finset.mem_sort, List.mem_append, Finset.mem_sort, Finset.mem_sdiff, List.mem_toFinset]
        constructor
        · intro hc
          by_cases hP : c ∈ P
          · exact .inl hP
          · exact .inr ⟨hc, hP⟩
        · rintro (hc | hc)
          · exact hsub c hc
          · exact hc.1
  rw [hsplit]
  rcases hfull with rfl | ⟨hle, hall⟩
  · exact List.take_left
  · have hnil : T \ P.toFinset = ∅ := by
      rw [Finset.sdiff_eq_empty_iff_subset]
      exact fun c hc => List.mem_toFinset.mpr (hall c hc)
    rw [hnil, Finset.sort_empty, List.append_nil, List.take_of_length_le hle]

lemma pairwise_firstRows (k : ℕ) (M : Multiset Candidate) : (firstRows k M).Pairwise bruteLe :=
  (Multiset.pairwise_sort _ _).sublist (List.take_sublist _ _)

lemma mem_of_mem_firstRows {a : Candidate} (ha : a ∈ firstRows k M) : a ∈ M :=
  (Multiset.mem_sort _).mp (List.mem_of_mem_take ha)

lemma firstRows_eq_bruteAnswer (h : Clear k M) : firstRows k M = bruteAnswer k M.toFinset := by
  have hsorted := Multiset.pairwise_sort M bruteLe
  have hbehind : ∀ c ∈ M, c ∉ firstRows k M → ∀ a ∈ firstRows k M, bruteLe a c := by
    intro c hc hout a ha
    have hc' := (Multiset.mem_sort (r := bruteLe)).mpr hc
    rw [← List.take_append_drop k (M.sort bruteLe)] at hsorted hc'
    exact (List.pairwise_append.mp hsorted).2.2 a ha c ((List.mem_append.mp hc').resolve_left hout)
  symm
  refine take_sort_eq (pairwise_firstRows k M) (List.Nodup.of_map _ h.nodup) ?_ ?_ ?_
  · intro a ha
    refine Finset.mem_filter.mpr ⟨Multiset.mem_toFinset.mpr (mem_of_mem_firstRows ha), ?_⟩
    intro d hd hrow
    rw [Multiset.mem_toFinset] at hd
    by_contra hlt
    rw [not_le] at hlt
    have hne : d ≠ a := by
      rintro rfl
      exact lt_irrefl _ hlt
    have hd' : d ∈ firstRows k M := mem_take_of_le hsorted ha ((Multiset.mem_sort _).mpr hd)
      (bruteLe_iff.mpr (.inl hlt)) hne
    exact hne (List.inj_on_of_nodup_map h.nodup hd' ha hrow)
  · intro c hc hout
    exact hbehind c (Multiset.mem_toFinset.mp (Finset.mem_filter.mp hc).1) hout
  · rcases Nat.lt_or_ge (M.sort bruteLe).length k with hlt | hge
    · refine .inr ⟨by simp [firstRows], fun c hc => ?_⟩
      have hc' := Multiset.mem_toFinset.mp (Finset.mem_filter.mp hc).1
      rw [firstRows, List.take_of_length_le hlt.le]
      exact (Multiset.mem_sort _).mpr hc'
    · exact .inl (List.length_take_of_le hge)

lemma nodup_rowId_bruteAnswer (k : ℕ) (S : Finset Candidate) :
    ((bruteAnswer k S).map Candidate.rowId).Nodup := by
  refine List.Nodup.map_on ?_ ((Finset.sort_nodup _ _).sublist (List.take_sublist _ _))
  intro a ha b hb hrow
  exact eq_of_mem_nearestReplicas ((Finset.mem_sort _).mp (List.mem_of_mem_take ha))
    ((Finset.mem_sort _).mp (List.mem_of_mem_take hb)) hrow

lemma exists_nearest {S : Finset Candidate} {c : Candidate} (hc : c ∈ S) :
    ∃ n ∈ nearestReplicas S, n.rowId = c.rowId ∧ n.dist ≤ c.dist := by
  obtain ⟨n, hn, hmin⟩ := (S.filter fun d => d.rowId = c.rowId).exists_min_image Candidate.dist
    ⟨c, Finset.mem_filter.mpr ⟨hc, rfl⟩⟩
  obtain ⟨hnS, hrow⟩ := Finset.mem_filter.mp hn
  refine ⟨n, Finset.mem_filter.mpr ⟨hnS, fun d hd hd' => ?_⟩, hrow, ?_⟩
  · exact hmin d (Finset.mem_filter.mpr ⟨hd, hd'.trans hrow⟩)
  · exact hmin c (Finset.mem_filter.mpr ⟨hc, rfl⟩)

lemma bruteAnswer_eq_of_subset {S T : Finset Candidate} (hST : S ⊆ T)
    (hA : ∀ c ∈ bruteAnswer k T, c ∈ S) : bruteAnswer k S = bruteAnswer k T := by
  have hsorted := Finset.pairwise_sort (nearestReplicas T) bruteLe
  have hfront : ∀ a ∈ bruteAnswer k T, a ∈ nearestReplicas T := fun a ha =>
    (Finset.mem_sort _).mp (List.mem_of_mem_take ha)
  have hkeep : ∀ a ∈ bruteAnswer k T, a ∈ nearestReplicas S := fun a ha =>
    Finset.mem_filter.mpr ⟨hA a ha, fun d hd => (Finset.mem_filter.mp (hfront a ha)).2 d (hST hd)⟩
  -- A row beside the answer has its nearest replica behind the answer.
  have hbeside : ∀ c ∈ nearestReplicas S, c ∉ bruteAnswer k T →
      ∃ n ∈ ((nearestReplicas T).sort bruteLe).drop k, bruteLe n c := by
    intro c hc hout
    obtain ⟨n, hn, hrow, hle⟩ := exists_nearest (hST (Finset.mem_filter.mp hc).1)
    have hn' := (Finset.mem_sort (r := bruteLe)).mpr hn
    rw [← List.take_append_drop k ((nearestReplicas T).sort bruteLe), List.mem_append] at hn'
    refine ⟨n, hn'.resolve_left fun hfr => hout ?_, ?_⟩
    · rw [← eq_of_mem_nearestReplicas (hkeep n hfr) hc hrow]
      exact hfr
    · rw [bruteLe_iff]
      rcases hle.lt_or_eq with h | h
      · exact .inl h
      · exact .inr ⟨h, hrow.le⟩
  refine take_sort_eq (hsorted.sublist (List.take_sublist _ _))
    ((Finset.sort_nodup _ _).sublist (List.take_sublist _ _)) hkeep ?_ ?_
  · intro c hc hout a ha
    obtain ⟨n, hn, hnc⟩ := hbeside c hc hout
    rw [← List.take_append_drop k ((nearestReplicas T).sort bruteLe)] at hsorted
    exact IsTrans.trans a n c ((List.pairwise_append.mp hsorted).2.2 a ha n hn) hnc
  · rcases Nat.lt_or_ge ((nearestReplicas T).sort bruteLe).length k with hlt | hge
    · refine .inr ⟨by simp [bruteAnswer], fun c hc => ?_⟩
      by_contra hout
      obtain ⟨n, hn, -⟩ := hbeside c hc hout
      rw [List.drop_of_length_le hlt.le] at hn
      cases hn
    · exact .inl (List.length_take_of_le hge)

/-- **What every cut of the rows found returns** is the answer among more rows, exactly when the
rows found have it and nothing is tied. -/
lemma cut_eq_bruteAnswer_iff {l : List Candidate} {T : Finset Candidate} (hsub : l.toFinset ⊆ T) :
    (∀ lib : DistanceCut, lib.cut k l = bruteAnswer k T) ↔
      (∀ c ∈ bruteAnswer k T, c ∈ l) ∧ Clear k l := by
  constructor
  · intro h
    refine ⟨fun c hc => ?_, clear_of_cuts (nodup_rowId_bruteAnswer k T) h⟩
    rw [← h stableCut] at hc
    obtain ⟨rest, hperm, -⟩ := stableCut.perm k l
    exact hperm.subset (List.mem_append_left _ hc)
  · rintro ⟨hA, hclear⟩ lib
    rw [cut_eq_firstRows hclear lib, firstRows_eq_bruteAnswer hclear]
    exact bruteAnswer_eq_of_subset hsub fun c hc => List.mem_toFinset.mpr (hA c hc)

end Cuts

/-! ### The walk -/

section Walk

variable {s : Schema} {dim : ℕ} (idx : Index s)

def entryAt (i : ℕ) : LeafTableEntry := idx.leafTable.getD i .invalid

def Tree.page {d : ℕ} (t : Tree (d + 1)) : ℕ := Inner.page t

variable {idx}

lemma mapM_elemAt {ids : List ℕ} (h : ∀ i ∈ ids, i < idx.leafTable.length) :
    ids.mapM (elemAt idx.leafTable) = .ok (ids.map (entryAt idx)) := by
  induction ids with
  | nil => rfl
  | cons i ids ih =>
    have hi : elemAt idx.leafTable i = .ok (entryAt idx i) := by
      have hlt := h i List.mem_cons_self
      simp [elemAt, entryAt, hlt]
    rw [List.mapM_cons, hi, ih fun j hj => h j (List.mem_cons_of_mem _ hj)]
    rfl

lemma filterMap_children {d : ℕ} (n : Inner (Tree d)) {sel : ChildEntry → Option ℕ}
    {f : Label × Option (Tree d) → List ℕ}
    (h : ∀ k, (sel (Tree.entry s dim k)).toList = f k) :
    (n.node s dim).children.filterMap sel = n.kids.flatMap f := by
  simp only [Inner.node]
  induction n.kids with
  | nil => rfl
  | cons k ks ih =>
    rw [List.map_cons, List.flatMap_cons, ← h k, ← ih, List.filterMap_cons]
    cases sel (Tree.entry s dim k) with
    | none => rfl
    | some i => rfl

lemma bruteExpand_of_node {page : ℕ} {n : Node} {ids nodes : List ℕ}
    (hpage : idx.file.pages page = .part (.node n) 0)
    (hleaves : (n.children.filterMap fun c => if c.isLeaf then c.childPage else none) = ids)
    (hnodes : (n.children.filterMap fun c => if c.isLeaf then none else c.childPage) = nodes)
    (hids : ∀ i ∈ ids, i < idx.leafTable.length) (found : List LeafTableEntry) :
    bruteExpand idx page found = .ok (nodes.reverse, found ++ ids.map (entryAt idx)) := by
  unfold bruteExpand
  rw [hpage]
  simp only [hleaves, hnodes, mapM_elemAt hids]
  rfl

lemma bruteExpand_leaves {n : Inner (Tree 0)}
    (hpage : idx.file.pages n.page = .part (.node (n.node s dim)) 0)
    (hids : ∀ i ∈ Tree.ids (d := 1) n, i < idx.leafTable.length) (found : List LeafTableEntry) :
    bruteExpand idx n.page found =
      .ok ([], found ++ (Tree.ids (d := 1) n).map (entryAt idx)) := by
  have hleaves : ((n.node s dim).children.filterMap fun c => if c.isLeaf then c.childPage else none) =
      Tree.ids (d := 1) n := by
    rw [Tree.ids_succ]
    refine filterMap_children n ?_
    rintro ⟨a, _ | r⟩
    · rfl
    · rfl
  have hnodes : ((n.node s dim).children.filterMap fun c => if c.isLeaf then none else c.childPage) =
      [] := by
    refine (filterMap_children n (f := fun _ => []) ?_).trans (by simp)
    rintro ⟨a, _ | r⟩
    · rfl
    · rfl
  exact bruteExpand_of_node hpage hleaves hnodes hids found

lemma bruteExpand_nodes {d : ℕ} {n : Inner (Tree (d + 1))}
    (hpage : idx.file.pages n.page = .part (.node (n.node s dim)) 0) (found : List LeafTableEntry) :
    bruteExpand idx n.page found =
      .ok (((n.kids.filterMap Prod.snd).map Tree.page).reverse, found) := by
  have hleaves : ((n.node s dim).children.filterMap fun c => if c.isLeaf then c.childPage else none) =
      [] := by
    refine (filterMap_children n (f := fun _ => []) ?_).trans (by simp)
    rintro ⟨a, _ | r⟩
    · rfl
    · rfl
  have hnodes : ((n.node s dim).children.filterMap fun c => if c.isLeaf then none else c.childPage) =
      (n.kids.filterMap Prod.snd).map Tree.page := by
    refine (filterMap_children n (f := fun k => (k.2.map Tree.page).toList) ?_).trans ?_
    · rintro ⟨a, _ | r⟩
      · rfl
      · rfl
    · induction n.kids with
      | nil => rfl
      | cons k ks ih =>
        obtain ⟨a, _ | r⟩ := k
        · exact ih
        · exact congrArg (Tree.page r :: ·) ih
  have h := bruteExpand_of_node hpage hleaves hnodes (by simp) found
  rwa [List.map_nil, List.append_nil] at h

/-- The pages of a file hold the nodes of a tree. -/
def HoldsNodes (idx : Index s) (dim : ℕ) {d : ℕ} (t : Tree d) : Prop :=
  ∀ e ∈ t.exts s dim, ∀ o, e.obj = some o → idx.file.pages e.page = .part o 0

/-- A walk that takes `n` rounds from this entry on, and the entries it finds. -/
def Finds (idx : Index s) (n : ℕ) (pages : List ℕ) (es : List LeafTableEntry) : Prop :=
  ∀ k st found, run (bruteExpand idx) (k + n) (pages ++ st) found =
    run (bruteExpand idx) k st (found ++ es)

lemma Finds.of_expand {n p : ℕ} {ps : List ℕ} {es es' : List LeafTableEntry}
    (hexp : ∀ found, bruteExpand idx p found = .ok (ps, found ++ es)) (h : Finds idx n ps es') :
    Finds idx (n + 1) [p] (es ++ es') := by
  intro k st found
  rw [List.singleton_append, ← Nat.add_assoc, run, hexp, ← List.append_assoc]
  exact h k st _

lemma finds_nil : Finds idx 0 [] [] := fun k st found => by simp

lemma Finds.cons {n n' p : ℕ} {ps : List ℕ} {es es' : List LeafTableEntry} (h : Finds idx n [p] es)
    (h' : Finds idx n' ps es') : Finds idx (n + n') (p :: ps) (es ++ es') := by
  intro k st found
  have h₁ := h (k + n') (ps ++ st) found
  rw [show k + (n + n') = k + n' + n by omega]
  rw [List.cons_append, List.nil_append] at h₁
  rw [List.cons_append, h₁, h' k st, List.append_assoc]

/-- **The walk meets the leaves of the tree**, each once. -/
lemma finds_tree : ∀ {d : ℕ} (t : Tree (d + 1)), HoldsNodes idx dim t →
    (∀ i ∈ t.ids, i < idx.leafTable.length) →
    ∃ es, es.Perm (t.ids.map (entryAt idx)) ∧ Finds idx (t.exts s dim).length [t.page] es
  | 0, (n : Inner (Tree 0)), hnodes, hids => by
    have hpage := hnodes (n.ext s dim) List.mem_cons_self _ rfl
    have hexts : (Tree.exts s dim (d := 1) n).length = 1 := by
      have hnone : (n.kids.flatMap fun k => k.2.elim [] (Tree.exts s dim (d := 0))) = [] := by
        rw [List.flatMap_eq_nil_iff]
        rintro ⟨a, _ | r⟩ -
        · rfl
        · rfl
      exact congrArg (fun l => List.length (n.ext s dim :: l)) hnone
    refine ⟨_, .of_eq (List.append_nil _), ?_⟩
    rw [hexts]
    exact finds_nil.of_expand fun found => bruteExpand_leaves hpage hids found
  | d + 1, (n : Inner (Tree (d + 1))), hnodes, hids => by
    have hpage := hnodes (n.ext s dim) List.mem_cons_self _ rfl
    -- The children, last one first.
    have hlist : ∀ ts : List (Tree (d + 1)), (∀ t ∈ ts, some t ∈ n.kids.map Prod.snd) →
        ∃ es, es.Perm ((ts.flatMap Tree.ids).map (entryAt idx)) ∧
          Finds idx ((ts.flatMap (Tree.exts s dim)).length) (ts.map Tree.page) es := by
      intro ts
      induction ts with
      | nil => exact fun _ => ⟨[], .refl _, finds_nil⟩
      | cons t ts ih =>
        intro hts
        obtain ⟨es', hperm', hfind'⟩ := ih fun u hu => hts u (List.mem_cons_of_mem _ hu)
        obtain ⟨k, hk, hkt⟩ := List.mem_map.mp (hts t List.mem_cons_self)
        obtain ⟨es, hperm, hfind⟩ := finds_tree t
          (fun e he => hnodes e (List.mem_cons_of_mem _ (List.mem_flatMap.mpr ⟨k, hk, by rw [hkt]; exact he⟩)))
          (fun i hi => hids i (Tree.mem_ids.mpr ⟨k, hk, by rw [hkt]; exact hi⟩))
        refine ⟨es ++ es', ?_, ?_⟩
        · rw [List.flatMap_cons, List.map_append]
          exact hperm.append hperm'
        · rw [List.flatMap_cons, List.length_append, List.map_cons]
          exact hfind.cons hfind'
    obtain ⟨es, hperm, hfind⟩ := hlist (n.kids.filterMap Prod.snd).reverse fun t ht => by
      rw [List.mem_reverse, List.mem_filterMap] at ht
      obtain ⟨k, hk, hkt⟩ := ht
      exact List.mem_map.mpr ⟨k, hk, hkt⟩
    have hids' : ∀ {β : Type} (f : Tree (d + 1) → List β),
        ((n.kids.filterMap Prod.snd).reverse.flatMap f).Perm (n.kids.flatMap fun k => k.2.elim [] f) := by
      intro β f
      refine ((List.reverse_perm _).flatMap_right f).trans (.of_eq ?_)
      induction n.kids with
      | nil => rfl
      | cons k ks ih =>
        obtain ⟨a, _ | r⟩ := k
        · exact ih
        · exact congrArg (f r ++ ·) ih
    refine ⟨[] ++ es, ?_, ?_⟩
    · refine hperm.trans (List.Perm.map _ ((hids' Tree.ids).trans (.of_eq ?_)))
      exact (Tree.ids_succ n).symm
    · have hlen : (Tree.exts s dim (d := d + 2) n).length =
          ((n.kids.filterMap Prod.snd).reverse.flatMap (Tree.exts s dim)).length + 1 := by
        rw [(hids' (Tree.exts s dim)).length_eq]
        rfl
      rw [hlen]
      refine hfind.of_expand fun found => ?_
      rw [List.append_nil, List.map_reverse]
      exact bruteExpand_nodes hpage found

def leafBehind (idx : Index s) (e : LeafTableEntry) : Except ErrorKind (Leaf s) :=
  match e.page with
  | some p => leafAtPage idx.file p
  | none => .error .undefined

/-- An index whose pages hold a tree over these leaves, its nodes on different pages. -/
structure Standing (idx : Index s) {d : ℕ} (t : Tree (d + 1)) (leaves : List (Leaf s)) : Prop where
  root : idx.super.root.page = some t.page
  nodes : HoldsNodes idx idx.manifest.dim t
  apart : ((t.exts s idx.manifest.dim).map Ext.page).Nodup
  inFile : ∀ e ∈ t.exts s idx.manifest.dim, e.page < idx.file.numPages
  ids : ∀ i ∈ t.ids, i < idx.leafTable.length
  leaves : (t.ids.map (entryAt idx)).mapM (leafBehind idx) = .ok leaves

lemma Standing.allLeaves {d : ℕ} {t : Tree (d + 1)} {leaves : List (Leaf s)}
    (h : Standing idx t leaves) :
    ∃ es, es.Perm (t.ids.map (entryAt idx)) ∧ allLeaves idx = .ok es := by
  obtain ⟨es, hperm, hfind⟩ := finds_tree t h.nodes h.ids
  have hfew : (t.exts s idx.manifest.dim).length ≤ idx.file.numPages := by
    have hsub : ((t.exts s idx.manifest.dim).map Ext.page) ⊆ List.range idx.file.numPages := by
      intro p hp
      obtain ⟨e, he, rfl⟩ := List.mem_map.mp hp
      exact List.mem_range.mpr (h.inFile e he)
    simpa using (h.apart.subperm hsub).length_le
  refine ⟨es, hperm, ?_⟩
  have hrun := hfind (idx.file.numPages + 1 - (t.exts s idx.manifest.dim).length) [] []
  rw [Nat.sub_add_cancel (by omega), List.append_nil, List.nil_append] at hrun
  unfold SextantTree.allLeaves
  rw [h.root, Option.toList_some, hrun]
  generalize idx.file.numPages + 1 - (t.exts s idx.manifest.dim).length = n
  cases n with
  | zero => simp [run]
  | succ n => simp [run]

lemma pages_exts_pos {d : ℕ} (t : Tree d) : ∀ e ∈ t.exts s dim, 0 < e.pages := by
  induction d with
  | zero => exact fun e he => absurd he (List.not_mem_nil)
  | succ d ih =>
    intro e he
    rcases List.mem_cons.mp he with rfl | he
    · exact Inner.pages_pos t
    · obtain ⟨⟨a, _ | u⟩, -, hu⟩ := List.mem_flatMap.mp he
      · exact absurd hu (List.not_mem_nil)
      · exact ih u e hu

lemma leafBehind_of_committed {c : Contents s} (h : Committed idx.file idx.super c)
    {l : StoredLeaf s} (hl : l ∈ c.leaves) : leafBehind idx l.extent = .ok l.leaf := by
  obtain ⟨a, ha⟩ := h.holds
  have hpage := ha.stored l.leafExt (Contents.leaf_exts_mem hl _ List.mem_cons_self) _ rfl 0
    (h.sound.leaf l hl).pages_pos
  have hpage' : idx.file.pages l.page = .part (.leaf l.leaf) 0 := hpage
  unfold leafBehind leafAtPage StoredLeaf.extent
  dsimp only
  rw [hpage']
  rfl

/-- **A committed index stands**, if its tree names leaves of the table only. -/
theorem Standing.of_committed {c : Contents s} (h : Committed idx.file idx.super c)
    (htable : idx.leafTable = c.table) (hdim : idx.manifest.dim = c.manifest.dim)
    (hids : ∀ i ∈ c.tree.ids, i < c.leaves.length) :
    ∃ leaves, reachableLeaves idx.file = some leaves ∧ Standing idx c.tree leaves := by
  obtain ⟨a, ha⟩ := h.holds
  have hsub : ∀ e ∈ c.tree.exts s c.manifest.dim, e ∈ c.heap := fun e he => by
    simp [Contents.heap, he]
  have hread : ∀ ids : List ℕ, (∀ i ∈ ids, i < c.leaves.length) → ∃ leaves,
      (ids.mapM fun i => leafAt idx.file i) = some leaves ∧
      (ids.map (entryAt idx)).mapM (leafBehind idx) = .ok leaves := by
    intro ids
    induction ids with
    | nil => exact fun _ => ⟨[], rfl, rfl⟩
    | cons i ids ih =>
      intro hlt
      obtain ⟨leaves, h₁, h₂⟩ := ih fun j hj => hlt j (List.mem_cons_of_mem _ hj)
      have hi := hlt i List.mem_cons_self
      have hl := List.getElem?_eq_getElem hi
      have hentry : entryAt idx i = c.leaves[i].extent := by
        simp [entryAt, htable, Contents.table, hi]
      refine ⟨c.leaves[i].leaf :: leaves, ?_, ?_⟩
      · rw [List.mapM_cons, h.leafAt_eq hl, h₁]
        rfl
      · rw [List.map_cons, List.mapM_cons, hentry, leafBehind_of_committed h (List.getElem_mem hi), h₂]
        rfl
  obtain ⟨leaves, h₁, h₂⟩ := hread c.tree.ids hids
  refine ⟨leaves, ?_, ?_⟩
  · unfold reachableLeaves
    rw [h.fileRefs_eq, Option.bind_eq_bind, Option.bind_some, ← h₁, Tree.ids, List.mapM_map]
    rfl
  · refine ⟨?_, ?_, ?_, ?_, ?_, h₂⟩
    · rw [h.named.root]
      rfl
    · intro e he o ho
      rw [hdim] at he
      exact ha.stored e (hsub e he) o ho 0 (pages_exts_pos c.tree e he)
    · rw [hdim, List.Nodup, List.pairwise_map]
      have hapart : (c.tree.exts s c.manifest.dim).Pairwise Ext.Apart := by
        have hheap := ha.apart
        unfold Contents.heap at hheap
        exact (List.pairwise_append.mp (List.pairwise_append.mp hheap).1).1
      refine (List.pairwise_iff_getElem.mpr fun i j hi hj hij => ?_)
      have hdis := List.pairwise_iff_getElem.mp hapart i j hi hj hij
      have hi' := pages_exts_pos c.tree _ (List.getElem_mem hi)
      have hj' := pages_exts_pos c.tree _ (List.getElem_mem hj)
      intro heq
      refine hdis _ ⟨le_rfl, by omega⟩ ⟨heq.symm.le, by omega⟩
    · intro e he
      rw [hdim] at he
      have hpos := pages_exts_pos c.tree e he
      have hin := ha.inFile e (hsub e he)
      obtain ⟨S, hok⟩ := ha.ok
      have hsize : idx.file.numPages = a.nPages := hok.fileSize
      dsimp only at hin
      omega
    · intro i hi
      rw [htable, Contents.table, List.length_map]
      exact hids i hi

lemma mapM_perm {α β ε : Type} {f : α → Except ε β} {l l' : List α} (h : l.Perm l') {out : List β}
    (hf : l'.mapM f = .ok out) : ∃ out', out'.Perm out ∧ l.mapM f = .ok out' := by
  induction h generalizing out with
  | nil => exact ⟨out, .refl _, hf⟩
  | @cons a l l' hl ih =>
    rw [List.mapM_cons] at hf
    obtain ⟨b, hb, hf⟩ := Outcome.bind_eq_ok.mp hf
    obtain ⟨bs, hbs, hf⟩ := Outcome.bind_eq_ok.mp hf
    cases hf
    obtain ⟨bs', hperm, hbs'⟩ := ih hbs
    refine ⟨b :: bs', hperm.cons b, ?_⟩
    rw [List.mapM_cons, hb, hbs']
    rfl
  | swap a b l =>
    rw [List.mapM_cons, List.mapM_cons] at hf
    obtain ⟨x, hx, hf⟩ := Outcome.bind_eq_ok.mp hf
    obtain ⟨ys, hys, hf⟩ := Outcome.bind_eq_ok.mp hf
    obtain ⟨y, hy, hys⟩ := Outcome.bind_eq_ok.mp hys
    obtain ⟨zs, hzs, hys⟩ := Outcome.bind_eq_ok.mp hys
    cases hf
    cases hys
    refine ⟨y :: x :: zs, .swap x y zs, ?_⟩
    rw [List.mapM_cons, List.mapM_cons, hy, hx, hzs]
    rfl
  | trans _ _ ih₁ ih₂ =>
    obtain ⟨out₂, hperm₂, h₂⟩ := ih₂ hf
    obtain ⟨out₁, hperm₁, h₁⟩ := ih₁ h₂
    exact ⟨out₁, hperm₁.trans hperm₂, h₁⟩

end Walk

/-! ### The fallback -/

section Fallback

variable {s : Schema} (eng : SearchEngine s) (cfg : SearchConfig) (q : Vec) (preds : List Resolved)

/-- The rows of a leaf that pass every predicate. -/
def matchingRows (l : Leaf s) : List Candidate :=
  (l.rows.zipIdx.filter fun x => evalAllPredicates eng.platform x.1.filter preds).map fun x =>
    ⟨x.1.rowId, match cfg.exactRerankBase with
      | some base => eng.exactDist q (base x.1.rowId)
      | none => eng.rerankDecoded q l x.2⟩

lemma bruteLeaf_eq (l : Leaf s) : bruteLeaf eng cfg q preds l =
    if summaryMayMatch eng.platform s l.summary preds then matchingRows eng cfg q preds l else [] := rfl

/-- The rows found: those of the leaves whose summary does not rule them out. -/
def foundRows (leaves : List (Leaf s)) : List Candidate := leaves.flatMap (bruteLeaf eng cfg q preds)

lemma mem_foundRows {leaves : List (Leaf s)} {c : Candidate} :
    c ∈ foundRows eng cfg q preds leaves ↔ ∃ l ∈ leaves,
      summaryMayMatch eng.platform s l.summary preds = true ∧ c ∈ matchingRows eng cfg q preds l := by
  unfold foundRows
  rw [List.mem_flatMap]
  refine exists_congr fun l => and_congr_right fun _ => ?_
  rw [bruteLeaf_eq]
  split_ifs with h
  · simp [h]
  · simp [h]

/-- **The fallback is exhaustive search**, however the library breaks ties, exactly when no row of
the answer lies in skipped leaves alone, the `k` nearest rows found are of different ids, and no
other row is as far as one of them. -/
theorem bruteForce_exhaustive_iff (idx : Index s) {d : ℕ} (t : Tree (d + 1)) (leaves : List (Leaf s))
    (h : Standing idx t leaves) (k : ℕ) :
    (∀ lib, searchBruteForceFiltered eng idx lib cfg k q preds =
        .ok (bruteAnswer k (leaves.flatMap (matchingRows eng cfg q preds)).toFinset)) ↔
      (∀ c ∈ bruteAnswer k (leaves.flatMap (matchingRows eng cfg q preds)).toFinset, ∃ l ∈ leaves,
        summaryMayMatch eng.platform s l.summary preds = true ∧
          c ∈ matchingRows eng cfg q preds l) ∧
        Clear k (foundRows eng cfg q preds leaves) := by
  obtain ⟨es, hperm, hall⟩ := h.allLeaves
  obtain ⟨ls, hls, hread⟩ := mapM_perm hperm h.leaves
  have hfound : (foundRows eng cfg q preds ls).Perm (foundRows eng cfg q preds leaves) :=
    hls.flatMap_right _
  have hsearch : ∀ lib, searchBruteForceFiltered eng idx lib cfg k q preds =
      .ok (lib.cut k (foundRows eng cfg q preds ls)) := by
    intro lib
    unfold searchBruteForceFiltered
    rw [hall, Outcome.ok_bind]
    change (es.mapM (leafBehind idx) >>= fun leaves => .ok (lib.cut k (foundRows eng cfg q preds leaves)))
      = _
    rw [hread, Outcome.ok_bind]
  have hsub : (foundRows eng cfg q preds ls).toFinset ⊆
      (leaves.flatMap (matchingRows eng cfg q preds)).toFinset := by
    intro c hc
    rw [List.mem_toFinset] at hc
    obtain ⟨l, hl, -, hmem⟩ := (mem_foundRows eng cfg q preds).mp (hfound.subset hc)
    exact List.mem_toFinset.mpr (List.mem_flatMap.mpr ⟨l, hl, hmem⟩)
  have hcut := cut_eq_bruteAnswer_iff (k := k) hsub
  rw [Multiset.coe_eq_coe.mpr hfound] at hcut
  simp only [hsearch, Except.ok.injEq, ← mem_foundRows]
  rw [hcut]
  refine and_congr_left fun _ => forall₂_congr fun c _ => ?_
  exact hfound.mem_iff

/-- A row that matches `n = 3`. -/
def threeLeafRow (id : RowId) : LeafRow intSchema := ⟨id, [], threeRow⟩

/-- One leaf for each list of row ids, all rows matching. -/
def rowsIndex (ids : List (List RowId)) : Index intSchema :=
  flatIndex (ids.map fun l => plainLeaf (l.map threeLeafRow))

def threeEngine : SearchEngine intSchema := tableEngine intSchema none id fun i => i + 5

/-- Row 7 in two leaves: the fallback returns it twice. -/
theorem bruteForce_returns_replica :
    searchBruteForceFiltered threeEngine (rowsIndex [[7], [7]]) stableCut {} 2 []
        [⟨eqPred 3, 0, none⟩] = .ok [⟨7, 5⟩, ⟨7, 5⟩] ∧
      searchBruteForceFiltered threeEngine (rowsIndex [[7], [7]]) stableCut {} 2 []
          [⟨eqPred 3, 0, none⟩] ≠
        .ok (bruteAnswer 2 (([plainLeaf [threeLeafRow 7], plainLeaf [threeLeafRow 7]].flatMap
          (matchingRows threeEngine {} [] [⟨eqPred 3, 0, none⟩])).toFinset)) := by
  have hcode : searchBruteForceFiltered threeEngine (rowsIndex [[7], [7]]) stableCut {} 2 []
      [⟨eqPred 3, 0, none⟩] = .ok [⟨7, 5⟩, ⟨7, 5⟩] := by decide +kernel
  refine ⟨hcode, ?_⟩
  rw [hcode]
  intro h
  have hnodup := nodup_rowId_bruteAnswer 2 (([plainLeaf [threeLeafRow 7],
    plainLeaf [threeLeafRow 7]].flatMap
      (matchingRows threeEngine {} [] [⟨eqPred 3, 0, none⟩])).toFinset)
  rw [← Except.ok.inj h] at hnodup
  simp at hnodup

def oneLeafTree : Tree 1 := (⟨3, [(⟨[], .zero⟩, some ⟨0, 1⟩)]⟩ : Inner (Tree 0))

lemma standing_rowsIndex : Standing (rowsIndex [[7, 9]]) oneLeafTree
    [plainLeaf [threeLeafRow 7, threeLeafRow 9]] := by
  refine ⟨rfl, ?_, ?_, ?_, ?_, rfl⟩
  · intro e he o ho
    rcases List.mem_cons.mp he with rfl | he
    · cases ho
      have hpages : nodeExtentPages 0 1 intSchema.summarySize = 1 := by decide +kernel
      show Img.part (.node ⟨[⟨some 0, 1, true, [], .zero⟩], 1⟩) 0 =
        Img.part (.node ⟨[⟨some 0, 1, true, [], .zero⟩], nodeExtentPages 0 1 intSchema.summarySize⟩) 0
      rw [hpages]
    · cases he
  · exact List.nodup_singleton _
  · intro e he
    rcases List.mem_cons.mp he with rfl | he
    · show 3 < 5
      decide
    · cases he
  · intro i hi
    have hids : oneLeafTree.ids = [0] := rfl
    rw [hids, List.mem_singleton] at hi
    subst hi
    show 0 < 1
    decide

/-- Rows 7 and 9 at the distances 5 and 6. -/
theorem bruteForce_exhaustive_two :
    searchBruteForceFiltered threeEngine (rowsIndex [[7, 9]]) stableCut {} 2 []
        [⟨eqPred 3, 0, none⟩] =
      .ok (bruteAnswer 2 ([plainLeaf [threeLeafRow 7, threeLeafRow 9]].flatMap
        (matchingRows threeEngine {} [] [⟨eqPred 3, 0, none⟩])).toFinset) := by
  have hmatch : matchingRows threeEngine {} [] [⟨eqPred 3, 0, none⟩]
      (plainLeaf [threeLeafRow 7, threeLeafRow 9]) = [⟨7, 5⟩, ⟨9, 6⟩] := by decide +kernel
  have hsum : summaryMayMatch threeEngine.platform intSchema
      (plainLeaf [threeLeafRow 7, threeLeafRow 9]).summary [⟨eqPred 3, 0, none⟩] = true := by
    decide +kernel
  have hfirst : firstRows 2 (([⟨7, 5⟩, ⟨9, 6⟩] : List Candidate) : Multiset Candidate) =
      [⟨7, 5⟩, ⟨9, 6⟩] := by
    rw [firstRows, ← insertionSort_eq_sort]
    decide +kernel
  have hfound : foundRows threeEngine {} [] [⟨eqPred 3, 0, none⟩]
      [plainLeaf [threeLeafRow 7, threeLeafRow 9]] = [⟨7, 5⟩, ⟨9, 6⟩] := by
    rw [foundRows, List.flatMap_singleton, bruteLeaf_eq, if_pos hsum, hmatch]
  refine (bruteForce_exhaustive_iff threeEngine {} [] [⟨eqPred 3, 0, none⟩] (rowsIndex [[7, 9]])
    oneLeafTree _ standing_rowsIndex 2).mpr ⟨fun c hc => ?_, ?_⟩ stableCut
  · have hc' := List.mem_toFinset.mp (Finset.mem_filter.mp ((Finset.mem_sort _).mp
      (List.mem_of_mem_take hc))).1
    rw [List.flatMap_singleton] at hc'
    exact ⟨_, List.mem_singleton_self _, hsum, hc'⟩
  · rw [hfound]
    refine ⟨?_, ?_⟩
    · rw [hfirst]
      decide
    · rw [hfirst]
      decide +kernel

end Fallback

end SextantTree
