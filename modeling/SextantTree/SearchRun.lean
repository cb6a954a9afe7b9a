import SextantTree.BruteForce
import SextantTree.RowConservation

/-!
Searching an index that has been written to. The fallback reads every leaf, so that what it answers
after a run of mutations is told by the rows of the build and the calls alone.
-/

namespace SextantTree

open Pages Alloc AllocInv AllocRun Heap FilterHash Outcome Stepwise

variable {s : Schema} {eng : Engine} {card : List (FilterRow s) → Bytes} {idx idx' : Index s}
  {c : Contents s} {file : TreeFile s} {b : BuildInput s} (srch : SearchEngine s)
  {cfg : SearchConfig} {base : RowId → Vec} (q : Vec) (preds : List Resolved) {k : ℕ}

/-- The rows that pass every predicate, each at the distance of its original vector. -/
def candidatesOf (base : RowId → Vec) (R : Multiset (RowId × FilterRow s)) : Multiset Candidate :=
  (R.filter fun x => evalAllPredicates srch.platform x.2 preds).map fun x =>
    ⟨x.1, srch.exactDist q (base x.1)⟩

/-- No leaf of a file with a row that passes is ruled out by its summary. -/
def Admits (file : TreeFile s) : Prop :=
  ∀ ls, reachableLeaves file = some ls → ∀ l ∈ ls, ∀ r ∈ l.rows,
    evalAllPredicates srch.platform r.filter preds →
      summaryMayMatch srch.platform s l.summary preds

variable {srch q preds}

lemma matchingRows_eq (hbase : cfg.exactRerankBase = some base) (l : Leaf s) :
    (matchingRows srch cfg q preds l : Multiset Candidate) =
      candidatesOf srch q preds base ((l.rows : Multiset (LeafRow s)).map LeafRow.bare) := by
  have hzip : matchingRows srch cfg q preds l =
      ((l.rows.zipIdx.map Prod.fst).filter fun r => evalAllPredicates srch.platform r.filter preds).map
        fun r => ⟨r.rowId, srch.exactDist q (base r.rowId)⟩ := by
    rw [List.filter_map, List.map_map, matchingRows, hbase]
    rfl
  rw [hzip, List.zipIdx_map_fst, candidatesOf, Multiset.filter_map, Multiset.map_map,
    Multiset.filter_coe, Multiset.map_coe]
  have hfilter : l.rows.filter (fun r => evalAllPredicates srch.platform r.filter preds) =
      l.rows.filter fun r => decide (evalAllPredicates srch.platform r.bare.2 preds = true) :=
    List.filter_congr fun r _ => Bool.decide_eq_true.symm
  rw [hfilter]
  rfl

lemma flatMap_matchingRows (hbase : cfg.exactRerankBase = some base) (ls : List (Leaf s)) :
    (ls.flatMap (matchingRows srch cfg q preds) : Multiset Candidate) =
      candidatesOf srch q preds base
        ((ls.map fun l => (l.rows : Multiset (LeafRow s))).sum.map LeafRow.bare) := by
  induction ls with
  | nil => rfl
  | cons l ls ih =>
    rw [List.flatMap_cons, ← Multiset.coe_add, ih, matchingRows_eq hbase, List.map_cons,
      List.sum_cons, Multiset.map_add]
    simp only [candidatesOf, Multiset.filter_add, Multiset.map_add]

lemma foundRows_eq {ls : List (Leaf s)} (h : ∀ l ∈ ls, ∀ r ∈ l.rows,
    evalAllPredicates srch.platform r.filter preds →
      summaryMayMatch srch.platform s l.summary preds) :
    foundRows srch cfg q preds ls = ls.flatMap (matchingRows srch cfg q preds) := by
  refine List.flatMap_congr fun l hl => ?_
  rw [bruteLeaf_eq]
  split_ifs with hmay
  · rfl
  · -- a leaf that is skipped has nothing to be found
    symm
    rw [matchingRows, List.map_eq_nil_iff, List.filter_eq_nil_iff]
    intro x hx hpass
    have hr : x.1 ∈ l.rows := by
      rw [← List.zipIdx_map_fst 0 l.rows]
      exact List.mem_map_of_mem hx
    exact hmay (h l hl x.1 hr hpass)

variable (srch cfg q preds k) in
lemma Standing.search {d : ℕ} {t : Tree (d + 1)} {leaves : List (Leaf s)}
    (h : Standing idx t leaves) : ∃ found : List Candidate,
      found.Perm (foundRows srch cfg q preds leaves) ∧
      ∀ lib, searchBruteForceFiltered srch idx lib cfg k q preds = .ok (lib.cut k found) := by
  obtain ⟨es, hperm, hall⟩ := h.allLeaves
  obtain ⟨ls, hls, hread⟩ := mapM_perm hperm h.leaves
  refine ⟨foundRows srch cfg q preds ls, hls.flatMap_right _, fun lib => ?_⟩
  unfold searchBruteForceFiltered
  rw [hall, ok_bind]
  change (es.mapM (leafBehind idx) >>= fun leaves =>
    .ok (lib.cut k (foundRows srch cfg q preds leaves))) = _
  rw [hread, ok_bind]

lemma IndexOk.search_iff (h : IndexOk eng idx c) (hbase : cfg.exactRerankBase = some base)
    (hadmits : Admits srch preds idx.file) :
    (∀ lib, searchBruteForceFiltered srch idx lib cfg k q preds =
        .ok (bruteAnswer k (candidatesOf srch q preds base (c.rows.map LeafRow.bare)).toFinset)) ↔
      Clear k (candidatesOf srch q preds base (c.rows.map LeafRow.bare)) := by
  obtain ⟨leaves, hleaves, hstands⟩ := Standing.of_committed h.committed h.table h.agrees.dim
    fun i hi => h.agrees.lt_length hi
  obtain ⟨found, hperm, hsearch⟩ := hstands.search srch cfg q preds k
  have hrows : (leaves.map fun l => (l.rows : Multiset (LeafRow s))).sum = c.rows := by
    have := h.fileRows_eq
    rwa [fileRows, hleaves, Option.map_some, Option.some_inj] at this
  have hfound : (found : Multiset Candidate) =
      candidatesOf srch q preds base (c.rows.map LeafRow.bare) := by
    rw [Multiset.coe_eq_coe.mpr hperm, foundRows_eq (hadmits leaves hleaves),
      flatMap_matchingRows hbase, hrows]
  have hcut := cut_eq_bruteAnswer_iff (k := k) (subset_refl found.toFinset)
  simp only [hsearch, Except.ok.injEq, ← hfound]
  refine hcut.trans (and_iff_right fun c hc => ?_)
  have hmem := (Finset.mem_sort _).mp (List.mem_of_mem_take hc)
  exact List.mem_toFinset.mp (Finset.mem_filter.mp hmem).1

def lineSearch : SearchEngine plainSchema :=
  { tableEngine plainSchema none id fun i => i with exactDist := fun _ v => |v.headD 0| }

end SextantTree
