import SextantTree.CardinalityCount

/-!
Conservation over a whole history of adding and folding, for one column.
-/

namespace SextantTree.Cardinality

open SatCounter FilterHash CardinalityTable

variable {A : CardinalityPlatform} {s : Schema} {spec : Option CardinalitySpec}
  {t : CardinalityTable} {c : ℕ} {col dst src col₀ : ColumnCardinality}

namespace Fold

variable (A s spec c)

/-- The column is counted in every table that went into it. -/
def Tracked (b : Fold) : Prop :=
  ∀ p ∈ b.parts, ∀ t col, p.eval A s spec = .ok t → t.column c = some col →
    col.mode.counts = true

/-- No merge brings bins into a column without any numbers. -/
def Lossless (b : Fold) : Prop :=
  ∀ dst src, merge dst src ∈ b.parts → ∀ t u d e, dst.eval A s spec = .ok t →
    src.eval A s spec = .ok u → t.column c = some d → u.column c = some e → ¬ Loses d e

variable (col₀)

/-- `Tracked`, by the column alone. -/
def TrackedIn (b : Fold) : Prop := ∀ p ∈ b.parts, (p.column A c col₀).mode.counts = true

/-- `Lossless`, by the column alone. -/
def LosslessIn (b : Fold) : Prop :=
  ∀ dst src, merge dst src ∈ b.parts → ¬ Loses (dst.column A c col₀) (src.column A c col₀)

variable {A s spec c col₀}

lemma mem_parts_self (b : Fold) : b ∈ b.parts := by
  cases b <;> simp [parts]

lemma parts_trans {b p q : Fold} (hp : p ∈ b.parts) (hq : q ∈ p.parts) : q ∈ b.parts := by
  induction b with
  | init n cap =>
    obtain rfl := List.mem_singleton.1 hp
    exact hq
  | addString b _ _ ih | addSet b _ _ _ ih | addNumeric b _ _ ih =>
    rcases List.mem_cons.1 hp with rfl | hp
    · exact hq
    · exact List.mem_cons_of_mem _ (ih hp)
  | merge dst src ihd ihs =>
    rcases List.mem_cons.1 hp with rfl | hp
    · exact hq
    · refine List.mem_cons_of_mem _ (List.mem_append.2 ?_)
      exact (List.mem_append.1 hp).imp ihd ihs

lemma TrackedIn.part {b p : Fold} (h : b.TrackedIn A c col₀) (hp : p ∈ b.parts) :
    p.TrackedIn A c col₀ := fun q hq => h q (parts_trans hp hq)

lemma TrackedIn.counts {b : Fold} (h : b.TrackedIn A c col₀) :
    (b.column A c col₀).mode.counts = true := h b b.mem_parts_self

lemma LosslessIn.part {b p : Fold} (h : b.LosslessIn A c col₀) (hp : p ∈ b.parts) :
    p.LosslessIn A c col₀ := fun dst src hq => h dst src (parts_trans hp hq)

lemma column_of_eval {b : Fold} (h : b.eval A s spec = .ok t)
    (hstart : startColumn s spec c = some col₀) :
    t.column c = some (b.column A c col₀) := by
  rw [(eval_column h).2.2 c, hstart]
  rfl

lemma trackedIn_iff {b : Fold} (h : b.eval A s spec = .ok t)
    (hstart : startColumn s spec c = some col₀) :
    b.Tracked A s spec c ↔ b.TrackedIn A c col₀ := by
  constructor
  · intro ht p hp
    obtain ⟨u, hu⟩ := eval_parts h hp
    exact ht p hp u _ hu (column_of_eval hu hstart)
  · intro ht p hp u col hu hcol
    rw [column_of_eval hu hstart] at hcol
    obtain rfl := Option.some.inj hcol
    exact ht p hp

lemma losslessIn_iff {b : Fold} (h : b.eval A s spec = .ok t)
    (hstart : startColumn s spec c = some col₀) :
    b.Lossless A s spec c ↔ b.LosslessIn A c col₀ := by
  constructor
  · intro hl dst src hp
    obtain ⟨u, hu⟩ := eval_parts h (parts_trans hp (List.mem_cons_of_mem _
      (List.mem_append_left _ dst.mem_parts_self)))
    obtain ⟨v, hv⟩ := eval_parts h (parts_trans hp (List.mem_cons_of_mem _
      (List.mem_append_right _ src.mem_parts_self)))
    exact hl dst src hp u v _ _ hu hv (column_of_eval hu hstart) (column_of_eval hv hstart)
  · intro hl dst src hp u v d e hu hv hd he
    rw [column_of_eval hu hstart] at hd
    rw [column_of_eval hv hstart] at he
    obtain rfl := Option.some.inj hd
    obtain rfl := Option.some.inj he
    exact hl dst src hp

lemma dst_mem_parts (dst src : Fold) : dst ∈ (merge dst src).parts :=
  List.mem_cons_of_mem _ (List.mem_append_left _ dst.mem_parts_self)

lemma src_mem_parts (dst src : Fold) : src ∈ (merge dst src).parts :=
  List.mem_cons_of_mem _ (List.mem_append_right _ src.mem_parts_self)

lemma column_merge {dst src : Fold} (h : (merge dst src).TrackedIn A c col₀) :
    ∃ mode, (merge dst src).column A c col₀
      = { mergeNumbers A dst.cap
            (mergeHashes A dst.cap (dst.column A c col₀) (src.column A c col₀))
            (src.column A c col₀) with mode := mode } := by
  obtain ⟨mode, hmode⟩ := evaluateColumn_of_counts h.counts
  refine ⟨mode, ?_⟩
  simp only [column] at hmode ⊢
  rw [hmode, mergeColumn, if_pos (h.part (dst_mem_parts dst src)).counts]

end Fold

open Fold

/-! How many numbers there are. -/

lemma NumbersOk.congr {col col' : ColumnCardinality} (h : NumbersOk col)
    (hbins : col'.bins = col.bins) (htotal : col'.binTotal = col.binTotal)
    (hbinned : col'.binned = col.binned) (hhist : col'.numericHist = col.numericHist)
    (hover : col'.overflowed = false → col.overflowed = false) : NumbersOk col' where
  bins hb := by
    have hok := h.bins (hbinned ▸ hb)
    exact ⟨by rw [hbins]; exact hok.length, by rw [hbins, htotal]; exact hok.total⟩
  hist hb := by
    rw [hhist]
    exact h.hist (hbinned ▸ hb)
  overflowed hb := by
    by_contra hf
    have := hover (by simpa using hf)
    rw [h.overflowed (hbinned ▸ hb)] at this
    cases this

lemma counters_congr {col col' : ColumnCardinality} (hbins : col'.bins = col.bins)
    (hbinned : col'.binned = col.binned) (hhist : col'.numericHist = col.numericHist) :
    counters col' = counters col := by
  simp [counters, hbins, hbinned, hhist]

lemma addHashes_numbers (h : NumbersOk col) (cap : ℕ) (hs : List UInt32) :
    NumbersOk (addHashes cap hs col) ∧ counters (addHashes cap hs col) = counters col ∧
      (addHashes cap hs col).binned = col.binned ∧
      (addHashes cap hs col).numericHist = col.numericHist := by
  obtain ⟨hhist, hbins, htotal, hbinned, -, hover⟩ := addHashes_keeps cap hs
  exact ⟨h.congr hbins htotal hbinned hhist hover, counters_congr hbins hbinned hhist, hbinned,
    hhist⟩

structure Mass (A : CardinalityPlatform) (c : ℕ) (col₀ : ColumnCardinality) (b : Fold) :
    Prop where
  ok : NumbersOk (b.column A c col₀)
  none : b.numbers c = [] →
    (b.column A c col₀).binned = false ∧ (b.column A c col₀).numericHist = []
  le : counter32.total (counters (b.column A c col₀)) ≤ (b.numbers c).length
  lt : ¬ b.LosslessIn A c col₀ →
    counter32.total (counters (b.column A c col₀)) < (b.numbers c).length
  eq : b.LosslessIn A c col₀ → ¬ counter32.Full (counters (b.column A c col₀)) →
    counter32.total (counters (b.column A c col₀)) = (b.numbers c).length

lemma Mass.addHashes {b b' : Fold} (h : Mass A c col₀ b) (cap : ℕ) (hs : List UInt32)
    (hnum : b'.numbers c = b.numbers c)
    (hloss : b'.LosslessIn A c col₀ ↔ b.LosslessIn A c col₀)
    (hcol : b'.column A c col₀ = addHashes cap hs (b.column A c col₀) ∨
      b'.column A c col₀ = b.column A c col₀) : Mass A c col₀ b' := by
  have hsame : NumbersOk (b'.column A c col₀) ∧
      counters (b'.column A c col₀) = counters (b.column A c col₀) ∧
      (b'.column A c col₀).binned = (b.column A c col₀).binned ∧
      (b'.column A c col₀).numericHist = (b.column A c col₀).numericHist := by
    rcases hcol with hcol | hcol <;> rw [hcol]
    · exact addHashes_numbers h.ok cap hs
    · exact ⟨h.ok, rfl, rfl, rfl⟩
  obtain ⟨hok, hcounters, hbinned, hhist⟩ := hsame
  refine ⟨hok, ?_, ?_, ?_, ?_⟩
  · rw [hbinned, hhist, hnum]
    exact h.none
  · rw [hcounters, hnum]
    exact h.le
  · rw [hcounters, hnum, hloss]
    exact h.lt
  · rw [hcounters, hnum, hloss]
    exact h.eq

lemma losslessIn_cons {b b' : Fold} (h : b'.parts = b' :: b.parts)
    (hne : ∀ dst src, b' ≠ merge dst src) :
    b'.LosslessIn A c col₀ ↔ b.LosslessIn A c col₀ := by
  unfold LosslessIn
  rw [h]
  constructor
  · intro hl dst src hp
    exact hl dst src (List.mem_cons_of_mem _ hp)
  · intro hl dst src hp
    exact hl dst src ((List.mem_cons.1 hp).resolve_left fun heq => hne dst src heq.symm)

lemma losslessIn_merge {dst src : Fold} :
    (merge dst src).LosslessIn A c col₀ ↔
      dst.LosslessIn A c col₀ ∧ src.LosslessIn A c col₀ ∧
        ¬ Loses (dst.column A c col₀) (src.column A c col₀) := by
  constructor
  · intro h
    exact ⟨h.part (dst_mem_parts dst src), h.part (src_mem_parts dst src),
      h dst src List.mem_cons_self⟩
  · rintro ⟨hd, hs, hl⟩ d e hp
    rcases List.mem_cons.1 hp with heq | hp
    · obtain ⟨rfl, rfl⟩ := merge.inj heq
      exact hl
    · exact (List.mem_append.1 hp).elim (hd d e) (hs d e)

lemma Mass.addNumeric {b : Fold} (h : Mass A c col₀ b)
    (hmode : (b.column A c col₀).mode.counts = true) (v : UInt64) :
    Mass A c col₀ (Fold.addNumeric b c v) := by
  obtain ⟨hnum, hg⟩ := addNumericColumn_spec (A := A) h.ok hmode b.cap v
  have hcol : (Fold.addNumeric b c v).column A c col₀
      = addNumericColumn A b.cap v (b.column A c col₀) := if_pos rfl
  have hlen : ((Fold.addNumeric b c v).numbers c).length = (b.numbers c).length + 1 := by
    simp [numbers]
  have hloss : (Fold.addNumeric b c v).LosslessIn A c col₀ ↔ b.LosslessIn A c col₀ :=
    losslessIn_cons rfl (by simp)
  have hone : counter32.total [1] = 1 := rfl
  have hle := hg.le
  rw [hone] at hle
  refine ⟨hcol ▸ hnum.ok, fun hnil => ?_, ?_, fun hl => ?_, fun hl hn => ?_⟩
  · rw [hnil] at hlen
    simp at hlen
  · rw [hcol, hlen]
    exact hle.trans (Nat.add_le_add_right h.le 1)
  · have := h.lt (mt hloss.2 hl)
    rw [hcol, hlen]
    omega
  · rw [hcol] at hn ⊢
    have hold : ¬ counter32.Full (counters (b.column A c col₀)) :=
      fun hf => hn (hg.full (.inl hf))
    rw [hg.eq hn, h.eq (hloss.1 hl) hold, hlen, hone]

lemma Mass.merge {d e : Fold} (hd : Mass A c col₀ d) (he : Mass A c col₀ e)
    (ht : (Fold.merge d e).TrackedIn A c col₀) : Mass A c col₀ (Fold.merge d e) := by
  obtain ⟨mode, hcol⟩ := column_merge ht
  obtain ⟨hhist, hbins, htotal, hbinned, -, hover⟩ := mergeHashes_keeps (A := A)
    d.cap
  set mid := mergeHashes A d.cap (d.column A c col₀) (e.column A c col₀) with hmid
  have hmidok : NumbersOk mid :=
    hd.ok.congr hbins htotal hbinned hhist fun hf => (hover hf).1
  have hmidc : counters mid = counters (d.column A c col₀) := counters_congr hbins hbinned hhist
  have hlose : Loses mid (e.column A c col₀) ↔ Loses (d.column A c col₀) (e.column A c col₀) := by
    simp only [Loses, hbinned, hhist]
  have hlen : ((Fold.merge d e).numbers c).length
      = (d.numbers c).length + (e.numbers c).length := by
    simp [numbers]
  have hcounters : counters ((Fold.merge d e).column A c col₀)
      = counters (mergeNumbers A d.cap mid (e.column A c col₀)) := by
    rw [hcol]
    rfl
  have hdle := hd.le
  have hele := he.le
  by_cases hl : Loses (d.column A c col₀) (e.column A c col₀)
  · -- what came in is gone
    have hsame := mergeNumbers_of_loses (A := A) he.ok (hlose.2 hl) d.cap
    have hzero : counter32.total (counters ((Fold.merge d e).column A c col₀)) = 0 := by
      rw [hcounters, hsame, hmidc, counters_of_exact hl.2.1, hl.2.2]
      rfl
    have hpos : 0 < (e.numbers c).length := by
      refine List.length_pos_of_ne_nil fun hnil => ?_
      have := (he.none hnil).1
      rw [hl.1] at this
      cases this
    have hnot : ¬ (Fold.merge d e).LosslessIn A c col₀ :=
      fun hloss => (losslessIn_merge.1 hloss).2.2 hl
    refine ⟨?_, fun _ => ?_, ?_, fun _ => ?_, fun hloss => absurd hloss hnot⟩
    · rw [hcol]
      exact (hsame ▸ hmidok).congr rfl rfl rfl rfl id
    · rw [hcol]
      change (mergeNumbers A d.cap mid (e.column A c col₀)).binned = false ∧
        (mergeNumbers A d.cap mid (e.column A c col₀)).numericHist = []
      rw [hsame, hbinned, hhist]
      exact hl.2
    · omega
    · omega
  · obtain ⟨hnum, hg⟩ := mergeNumbers_spec (A := A) hmidok he.ok (mt hlose.1 hl) d.cap
    rw [hmidc] at hg
    have hle := hg.le
    refine ⟨?_, fun hnil => ?_, ?_, fun hloss => ?_, fun hloss hn => ?_⟩
    · rw [hcol]
      exact hnum.ok.congr rfl rfl rfl rfl id
    · simp only [numbers, List.append_eq_nil_iff] at hnil
      obtain ⟨hdb, hdh⟩ := hd.none hnil.1
      obtain ⟨heb, heh⟩ := he.none hnil.2
      have hnone : histMerge mid.numericHist (e.column A c col₀).numericHist = [] := by
        rw [hhist, hdh, heh]
        rfl
      rw [hcol]
      change (mergeNumbers A d.cap mid (e.column A c col₀)).binned = false ∧
        (mergeNumbers A d.cap mid (e.column A c col₀)).numericHist = []
      rw [mergeNumbers_of_exact (hbinned.trans hdb) heb, if_neg (by simp [hnone])]
      exact ⟨hbinned.trans hdb, hnone⟩
    · rw [hcounters, hlen]
      omega
    · rw [hcounters, hlen]
      have hside : ¬ d.LosslessIn A c col₀ ∨ ¬ e.LosslessIn A c col₀ := by
        by_contra hboth
        push Not at hboth
        exact hloss (losslessIn_merge.2 ⟨hboth.1, hboth.2, hl⟩)
      rcases hside with hside | hside
      · have := hd.lt hside
        omega
      · have := he.lt hside
        omega
    · rw [hcounters] at hn ⊢
      obtain ⟨hld, hle', -⟩ := losslessIn_merge.1 hloss
      have hnd : ¬ counter32.Full (counters (d.column A c col₀)) := fun hf => hn (hg.full (.inl hf))
      have hne : ¬ counter32.Full (counters (e.column A c col₀)) := fun hf => hn (hg.full (.inr hf))
      rw [hg.eq hn, hd.eq hld hnd, he.eq hle' hne, hlen]

lemma mass {b : Fold} (hfresh : Fresh col₀) (ht : b.TrackedIn A c col₀) : Mass A c col₀ b := by
  induction b with
  | init n cap =>
    obtain ⟨m, mode, rfl⟩ := hfresh
    refine ⟨⟨?_, ?_, ?_⟩, fun _ => ⟨rfl, rfl⟩, le_rfl, fun hl => absurd ?_ hl, fun _ _ => rfl⟩
    · simp [Fold.column]
    · simp [Fold.column]
    · simp [Fold.column]
    · intro dst src hp
      cases List.mem_singleton.1 hp
  | addString b c' val ih =>
    refine (ih (ht.part (List.mem_cons_of_mem _ b.mem_parts_self))).addHashes
      b.cap [filterHash val] rfl (losslessIn_cons rfl (by simp)) ?_
    simp only [Fold.column]
    split_ifs
    · exact .inl rfl
    · exact .inr rfl
  | addSet b c' set row ih =>
    refine (ih (ht.part (List.mem_cons_of_mem _ b.mem_parts_self))).addHashes
      b.cap ((set.row row).map filterHash) rfl (losslessIn_cons rfl (by simp)) ?_
    simp only [Fold.column]
    split_ifs
    · exact .inl rfl
    · exact .inr rfl
  | addNumeric b c' v ih =>
    have hpart := ht.part (List.mem_cons_of_mem _ b.mem_parts_self)
    by_cases hc : c' = c
    · subst hc
      exact (ih hpart).addNumeric hpart.counts v
    · refine (ih hpart).addHashes b.cap [] ?_ (losslessIn_cons rfl (by simp)) ?_
      · exact if_neg hc
      · exact .inr (if_neg hc)
  | merge dst src ihd ihs =>
    exact (ihd (ht.part (dst_mem_parts dst src))).merge (ihs (ht.part (src_mem_parts dst src))) ht

/-! How often each value was added. -/

lemma overflowed_mono {b : Fold} (ht : b.TrackedIn A c col₀) (hfresh : Fresh col₀)
    (hover : (b.column A c col₀).overflowed = false) {p : Fold} (hp : p ∈ b.parts) :
    (p.column A c col₀).overflowed = false := by
  induction b with
  | init n cap =>
    obtain rfl := List.mem_singleton.1 hp
    exact hover
  | addString b c' val ih | addSet b c' set row ih =>
    rcases List.mem_cons.1 hp with rfl | hp
    · exact hover
    · refine ih (ht.part (List.mem_cons_of_mem _ b.mem_parts_self)) ?_ hp
      simp only [Fold.column] at hover
      split_ifs at hover
      · exact (addHashes_keeps _ _).2.2.2.2.2 hover
      · exact hover
  | addNumeric b c' v ih =>
    have hpart := ht.part (List.mem_cons_of_mem _ b.mem_parts_self)
    rcases List.mem_cons.1 hp with rfl | hp
    · exact hover
    · refine ih hpart ?_ hp
      simp only [Fold.column] at hover
      split_ifs at hover
      · exact (addNumericColumn_spec (mass hfresh hpart).ok hpart.counts b.cap v).1.overflowed hover
      · exact hover
  | merge dst src ihd ihs =>
    rcases List.mem_cons.1 hp with rfl | hp
    · exact hover
    · have hd := ht.part (dst_mem_parts dst src)
      have hs := ht.part (src_mem_parts dst src)
      obtain ⟨mode, hcol⟩ := column_merge ht
      rw [hcol] at hover
      have hmid : (mergeHashes A dst.cap (dst.column A c col₀)
          (src.column A c col₀)).overflowed = false := by
        obtain ⟨hhist, hbins, htotal, hbinned, -, hflag⟩ := mergeHashes_keeps (A := A)
          dst.cap
        have hmidok := (mass hfresh hd).ok.congr hbins htotal hbinned hhist fun hf => (hflag hf).1
        by_cases hl : Loses (mergeHashes A dst.cap (dst.column A c col₀) (src.column A c col₀))
            (src.column A c col₀)
        · rw [mergeNumbers_of_loses (mass hfresh hs).ok hl] at hover
          exact hover
        · exact (mergeNumbers_spec hmidok (mass hfresh hs).ok hl dst.cap).1.overflowed hover
      obtain ⟨hdo, hso⟩ := (mergeHashes_keeps dst.cap).2.2.2.2.2 hmid
      rcases List.mem_append.1 hp with hp | hp
      · exact ihd hd hdo hp
      · exact ihs hs hso hp

lemma column_merge_exact {dst src : Fold} (ht : (merge dst src).TrackedIn A c col₀)
    (hfresh : Fresh col₀) (hover : ((merge dst src).column A c col₀).overflowed = false) :
    ∃ mode, (merge dst src).column A c col₀
      = { mergeHashes A dst.cap (dst.column A c col₀) (src.column A c col₀) with
          numericHist := histMerge (dst.column A c col₀).numericHist
            (src.column A c col₀).numericHist
          mode := mode } := by
  have hbinned : ∀ p ∈ (merge dst src).parts, (p.column A c col₀).binned = false := by
    intro p hp
    by_contra hb
    have := (mass hfresh (ht.part hp)).ok.overflowed (by simpa using hb)
    rw [overflowed_mono ht hfresh hover hp] at this
    cases this
  obtain ⟨mode, hcol⟩ := column_merge ht
  obtain ⟨hhist, -, -, hbin, -, -⟩ := mergeHashes_keeps (A := A)
    dst.cap
  have hdb := hbin.trans (hbinned dst (dst_mem_parts dst src))
  have hsb := hbinned src (src_mem_parts dst src)
  have hself := hbinned _ (mem_parts_self (merge dst src))
  refine ⟨mode, ?_⟩
  rw [hcol, mergeNumbers_of_exact hdb hsb] at hself ⊢
  split_ifs at hself ⊢ with hfull
  · -- over the cap there would be bins
    exfalso
    have hne : histMerge (mergeHashes A dst.cap (dst.column A c col₀)
        (src.column A c col₀)).numericHist (src.column A c col₀).numericHist ≠ [] := by
      intro hnil
      rw [hnil] at hfull
      simp at hfull
    have hdb' : { mergeHashes A dst.cap (dst.column A c col₀) (src.column A c col₀) with
        numericHist := histMerge (mergeHashes A dst.cap (dst.column A c col₀)
          (src.column A c col₀)).numericHist (src.column A c col₀).numericHist }.binned = false :=
      hdb
    have := (numericToBinned_spec (A := A) hdb' hne).2.2.1
    change (numericToBinned A _).binned = false at hself
    rw [this] at hself
    cases hself
  · rw [hhist]

lemma column_addNumeric_exact {b : Fold} {v : UInt64}
    (ht : (addNumeric b c v).TrackedIn A c col₀) (hfresh : Fresh col₀)
    (hover : ((addNumeric b c v).column A c col₀).overflowed = false) :
    ((addNumeric b c v).column A c col₀).numericHist
        = histAdd (b.column A c col₀).numericHist v 1 ∧
      ((addNumeric b c v).column A c col₀).freq = (b.column A c col₀).freq := by
  have hb : b ∈ (addNumeric b c v).parts := List.mem_cons_of_mem _ b.mem_parts_self
  have hpart := ht.part hb
  have hself : ((addNumeric b c v).column A c col₀).binned = false := by
    by_contra hbin
    have := (mass hfresh ht).ok.overflowed (by simpa using hbin)
    rw [hover] at this
    cases this
  have hbin : (b.column A c col₀).binned = false := by
    by_contra hbin
    have := (mass hfresh hpart).ok.overflowed (by simpa using hbin)
    rw [overflowed_mono ht hfresh hover hb] at this
    cases this
  have hcol : (addNumeric b c v).column A c col₀
      = addNumericColumn A b.cap v (b.column A c col₀) := if_pos rfl
  rw [hcol] at hself ⊢
  refine ⟨?_, (addNumericColumn_spec (mass hfresh hpart).ok hpart.counts b.cap v).1.freq⟩
  unfold addNumericColumn at hself ⊢
  rw [if_pos hpart.counts] at hself ⊢
  dsimp only at hself ⊢
  rw [if_neg (by simp [hbin])] at hself ⊢
  split_ifs at hself ⊢
  · exfalso
    have hbin' : { b.column A c col₀ with
        adds := (b.column A c col₀).adds + 1
        numericHist := histAdd (b.column A c col₀).numericHist v 1 }.binned = false := hbin
    have := (numericToBinned_spec (A := A) hbin' (histAdd_ne_nil _ _ _)).2.2.1
    rw [this] at hself
    cases hself
  · rfl

lemma hashes_spec {b : Fold} (ht : b.TrackedIn A c col₀) (hfresh : Fresh col₀)
    (hover : (b.column A c col₀).overflowed = false) :
    ((b.column A c col₀).freq.map (·.1)).Nodup ∧
      ∀ h, counter32.countOf id (b.column A c col₀).freq h
        = min ((b.hashes c).count h) counter32.top := by
  induction b with
  | init n cap =>
    obtain ⟨m, mode, rfl⟩ := hfresh
    exact ⟨List.nodup_nil, fun h => by simp [Fold.column, hashes]⟩
  | addString b c' val ih | addSet b c' set row ih =>
    have hb : ∀ p : Fold, b ∈ p :: b.parts := fun p => List.mem_cons_of_mem p b.mem_parts_self
    obtain ⟨hnd, hcount⟩ := ih (ht.part (hb _)) (overflowed_mono ht hfresh hover (hb _))
    simp only [Fold.column, hashes] at hover ⊢
    split_ifs at hover ⊢
    · obtain ⟨-, hnd', hcount'⟩ := addHashes_spec (ht.part (hb _)).counts b.cap _ hnd hover
      refine ⟨hnd', fun h => ?_⟩
      rw [hcount' h, hcount h, List.count_append]
      omega
    · exact ⟨hnd, hcount⟩
  | addNumeric b c' v ih =>
    have hb : ∀ p : Fold, b ∈ p :: b.parts := fun p => List.mem_cons_of_mem p b.mem_parts_self
    obtain ⟨hnd, hcount⟩ := ih (ht.part (hb _)) (overflowed_mono ht hfresh hover (hb _))
    have hfreq : ((addNumeric b c' v).column A c col₀).freq = (b.column A c col₀).freq := by
      by_cases hc : c' = c
      · subst hc
        exact (column_addNumeric_exact ht hfresh hover).2
      · simp [Fold.column, hc]
    rw [hfreq]
    exact ⟨hnd, hcount⟩
  | merge dst src ihd ihs =>
    have hd := dst_mem_parts dst src
    have hs := src_mem_parts dst src
    obtain ⟨hnd, hcd⟩ := ihd (ht.part hd) (overflowed_mono ht hfresh hover hd)
    obtain ⟨-, hcs⟩ := ihs (ht.part hs) (overflowed_mono ht hfresh hover hs)
    obtain ⟨mode, hcol⟩ := column_merge_exact ht hfresh hover
    rw [hcol] at hover ⊢
    obtain ⟨-, -, hnd', hcount⟩ := mergeHashes_spec dst.cap hnd hover
    refine ⟨hnd', fun h => ?_⟩
    change counter32.countOf id (mergeHashes A dst.cap (dst.column A c col₀)
      (src.column A c col₀)).freq h = _
    rw [hcount h, hcd h, hcs h, hashes, List.count_append]
    omega

lemma numbers_spec {b : Fold} (ht : b.TrackedIn A c col₀) (hfresh : Fresh col₀)
    (hover : (b.column A c col₀).overflowed = false) {g : Bool}
    (hkind : ∀ v ∈ b.numbers c, (Double.key v).isSome = g) :
    OfKind g (b.column A c col₀).numericHist ∧
      ∀ k, histCount (b.column A c col₀) k
        = min (((b.numbers c).map Double.key).count k) counter32.top := by
  unfold histCount
  induction b with
  | init n cap =>
    obtain ⟨m, mode, rfl⟩ := hfresh
    exact ⟨ofKind_nil g, fun k => by simp [Fold.column, numbers]⟩
  | addString b c' val ih | addSet b c' set row ih =>
    have hb : ∀ p : Fold, b ∈ p :: b.parts := fun p => List.mem_cons_of_mem p b.mem_parts_self
    have hold := ih (ht.part (hb _)) (overflowed_mono ht hfresh hover (hb _)) hkind
    simp only [Fold.column] at hover ⊢
    split_ifs
    · rw [(addHashes_keeps _ _).1]
      exact hold
    · exact hold
  | addNumeric b c' v ih =>
    have hb : ∀ p : Fold, b ∈ p :: b.parts := fun p => List.mem_cons_of_mem p b.mem_parts_self
    by_cases hc : c' = c
    · subst hc
      have hnum : (addNumeric b c' v).numbers c' = b.numbers c' ++ [v] := if_pos rfl
      rw [hnum] at hkind ⊢
      obtain ⟨hkindof, hcount⟩ := ih (ht.part (hb _)) (overflowed_mono ht hfresh hover (hb _))
        fun w hw => hkind w (List.mem_append_left _ hw)
      obtain ⟨hnew, hadd⟩ := ofKind_histAdd 1 hkindof (hkind v (by simp))
      rw [(column_addNumeric_exact ht hfresh hover).1]
      refine ⟨hnew, fun k => ?_⟩
      rw [hadd k, hcount k, List.map_append, List.count_append, List.map_cons, List.map_nil,
        List.count_singleton]
      have hone : counter32.val 1 = 1 := rfl
      by_cases hk : k = Double.key v
      · rw [if_pos hk, if_pos (by simp [hk]), hone]
        omega
      · rw [if_neg hk, if_neg (by simpa using Ne.symm hk), Nat.add_zero]
    · have hnum : (addNumeric b c' v).numbers c = b.numbers c := if_neg hc
      have hcol : (addNumeric b c' v).column A c col₀ = b.column A c col₀ := if_neg hc
      rw [hnum] at hkind ⊢
      rw [hcol]
      exact ih (ht.part (hb _)) (overflowed_mono ht hfresh hover (hb _)) hkind
  | merge dst src ihd ihs =>
    have hd := dst_mem_parts dst src
    have hs := src_mem_parts dst src
    have hnum : (merge dst src).numbers c = dst.numbers c ++ src.numbers c := rfl
    rw [hnum] at hkind ⊢
    obtain ⟨hkd, hcd⟩ := ihd (ht.part hd) (overflowed_mono ht hfresh hover hd)
      fun w hw => hkind w (List.mem_append_left _ hw)
    obtain ⟨hks, hcs⟩ := ihs (ht.part hs) (overflowed_mono ht hfresh hover hs)
      fun w hw => hkind w (List.mem_append_right _ hw)
    obtain ⟨mode, hcol⟩ := column_merge_exact ht hfresh hover
    rw [hcol]
    obtain ⟨hnew, hcount⟩ := ofKind_histMerge hkd hks fun k => by
      rw [hcd k]
      exact min_le_right _ _
    refine ⟨hnew, fun k => ?_⟩
    change counter32.countOf Double.key (histMerge (dst.column A c col₀).numericHist
      (src.column A c col₀).numericHist) k = _
    rw [hcount k, hcd k, hcs k, List.map_append, List.count_append]
    omega

lemma unmixed_spec {b : Fold} (ht : b.TrackedIn A c col₀) (hfresh : Fresh col₀)
    (hover : (b.column A c col₀).overflowed = false) :
    Unmixed (b.column A c col₀).numericHist := by
  induction b with
  | init n cap =>
    obtain ⟨m, mode, rfl⟩ := hfresh
    exact .inl (ofKind_nil true)
  | addString b c' val ih | addSet b c' set row ih =>
    have hb : ∀ p : Fold, b ∈ p :: b.parts := fun p => List.mem_cons_of_mem p b.mem_parts_self
    have hold := ih (ht.part (hb _)) (overflowed_mono ht hfresh hover (hb _))
    simp only [Fold.column] at hover ⊢
    split_ifs
    · rw [(addHashes_keeps _ _).1]
      exact hold
    · exact hold
  | addNumeric b c' v ih =>
    have hb : ∀ p : Fold, b ∈ p :: b.parts := fun p => List.mem_cons_of_mem p b.mem_parts_self
    have hold := ih (ht.part (hb _)) (overflowed_mono ht hfresh hover (hb _))
    by_cases hc : c' = c
    · subst hc
      rw [(column_addNumeric_exact ht hfresh hover).1]
      exact unmixed_histAdd v 1 hold
    · have hcol : (addNumeric b c' v).column A c col₀ = b.column A c col₀ := if_neg hc
      rw [hcol]
      exact hold
  | merge dst src ihd ihs =>
    have hd := dst_mem_parts dst src
    have hold := ihd (ht.part hd) (overflowed_mono ht hfresh hover hd)
    obtain ⟨mode, hcol⟩ := column_merge_exact ht hfresh hover
    rw [hcol]
    exact unmixed_histMerge _ hold

/-! One table fed serially. -/

lemma hashes_serialOn (acc b : Fold) :
    (acc.serialOn b).hashes c = acc.hashes c ++ b.hashes c := by
  induction b generalizing acc with
  | init n cap => simp [serialOn, hashes]
  | addString b c' val ih | addSet b c' set row ih =>
    simp only [serialOn, hashes, ih]
    split_ifs <;> simp
  | addNumeric b c' v ih => simp only [serialOn, hashes, ih]
  | merge dst src ihd ihs => simp only [serialOn, hashes, ihd, ihs, List.append_assoc]

lemma numbers_serialOn (acc b : Fold) :
    (acc.serialOn b).numbers c = acc.numbers c ++ b.numbers c := by
  induction b generalizing acc with
  | init n cap => simp [serialOn, numbers]
  | addString b c' val ih | addSet b c' set row ih => simp only [serialOn, numbers, ih]
  | addNumeric b c' v ih =>
    simp only [serialOn, numbers, ih]
    split_ifs <;> simp
  | merge dst src ihd ihs => simp only [serialOn, numbers, ihd, ihs, List.append_assoc]

lemma Fold.TrackedIn.start {b : Fold} (ht : b.TrackedIn A c col₀) : col₀.mode.counts = true := by
  induction b with
  | init n cap => exact ht.counts
  | addString b _ _ ih | addSet b _ _ _ ih | addNumeric b _ _ ih =>
    exact ih (ht.part (List.mem_cons_of_mem _ b.mem_parts_self))
  | merge dst src ihd _ => exact ihd (ht.part (dst_mem_parts dst src))

lemma Fold.TrackedIn.cons {b b' : Fold} (ht : b.TrackedIn A c col₀)
    (hparts : b'.parts = b' :: b.parts)
    (hmode : (b'.column A c col₀).mode = (b.column A c col₀).mode) :
    b'.TrackedIn A c col₀ := by
  intro p hp
  rw [hparts] at hp
  rcases List.mem_cons.1 hp with rfl | hp
  · rw [hmode]
    exact ht.counts
  · exact ht p hp

lemma Fold.TrackedIn.serialOn {acc : Fold} (b : Fold) (hfresh : Fresh col₀)
    (ht : acc.TrackedIn A c col₀) : (acc.serialOn b).TrackedIn A c col₀ := by
  induction b generalizing acc with
  | init n cap => exact ht
  | addString b c' val ih | addSet b c' set row ih =>
    refine (ih ht).cons rfl ?_
    simp only [Fold.serialOn, Fold.column]
    split_ifs
    · exact (addHashes_keeps _ _).2.2.2.2.1
    · rfl
  | addNumeric b c' v ih =>
    refine (ih ht).cons rfl ?_
    simp only [Fold.serialOn, Fold.column]
    split_ifs
    · exact (addNumericColumn_spec (mass hfresh (ih ht)).ok (ih ht).counts _ v).1.mode
    · rfl
  | merge dst src ihd ihs => exact ihs (ihd ht)

lemma trackedIn_init {n : UInt64} {cap : ℕ} (h : col₀.mode.counts = true) :
    (init n cap).TrackedIn A c col₀ := by
  intro p hp
  obtain rfl := List.mem_singleton.1 hp
  exact h

lemma counts_of_on (h : col.mode = .on) : col.mode.counts = true := by
  rw [h]
  rfl

lemma mode_merge {d e : Fold} (hd : Mass A c col₀ d) (he : Mass A c col₀ e)
    (hon : (d.column A c col₀).mode = .on) :
    ((Fold.merge d e).column A c col₀).mode = .on := by
  obtain ⟨hhist, hbins, htotal, hbinned, hmode, hover⟩ := mergeHashes_keeps (A := A)
    d.cap
  have hmid : (mergeColumn A d.cap (d.column A c col₀) (e.column A c col₀)).mode = .on := by
    rw [mergeColumn, if_pos (counts_of_on hon)]
    by_cases hl : Loses (mergeHashes A d.cap (d.column A c col₀) (e.column A c col₀))
        (e.column A c col₀)
    · rw [mergeNumbers_of_loses he.ok hl]
      exact hmode.trans hon
    · have hok := hd.ok.congr hbins htotal hbinned hhist fun hf => (hover hf).1
      exact (mergeNumbers_spec (A := A) hok he.ok hl d.cap).1.mode.trans (hmode.trans hon)
  simp only [Fold.column, evaluateColumn]
  rw [if_pos (.inl (by rw [hmid]; decide)), hmid]

lemma trackedIn_of_on (hfresh : Fresh col₀) (hon : col₀.mode = .on) (b : Fold) :
    b.TrackedIn A c col₀ ∧ (b.column A c col₀).mode = .on := by
  induction b with
  | init n cap => exact ⟨trackedIn_init (counts_of_on hon), hon⟩
  | addString b c' val ih =>
    have hsame : ((b.addString c' val).column A c col₀).mode = (b.column A c col₀).mode := by
      simp only [Fold.column]
      split_ifs
      · exact (addHashes_keeps _ _).2.2.2.2.1
      · rfl
    exact ⟨ih.1.cons rfl hsame, hsame.trans ih.2⟩
  | addSet b c' set row ih =>
    have hsame : ((b.addSet c' set row).column A c col₀).mode = (b.column A c col₀).mode := by
      simp only [Fold.column]
      split_ifs
      · exact (addHashes_keeps _ _).2.2.2.2.1
      · rfl
    exact ⟨ih.1.cons rfl hsame, hsame.trans ih.2⟩
  | addNumeric b c' v ih =>
    have hsame : ((Fold.addNumeric b c' v).column A c col₀).mode = (b.column A c col₀).mode := by
      simp only [Fold.column]
      split_ifs
      · exact (addNumericColumn_spec (mass hfresh ih.1).ok ih.1.counts _ v).1.mode
      · rfl
    exact ⟨ih.1.cons rfl hsame, hsame.trans ih.2⟩
  | merge dst src ihd ihs =>
    have hmode := mode_merge (mass hfresh ihd.1) (mass hfresh ihs.1) ihd.2
    refine ⟨fun p hp => ?_, hmode⟩
    rcases List.mem_cons.1 hp with rfl | hp
    · exact counts_of_on hmode
    · exact (List.mem_append.1 hp).elim (ihd.1 p) (ihs.1 p)

/-- How often each value was added is what the column says, and what a table says that was fed
serially and has not overflowed. -/
structure Exact (A : CardinalityPlatform) (s : Schema) (spec : Option CardinalitySpec) (c : ℕ)
    (b : Fold) (col : ColumnCardinality) : Prop where
  freq : ∀ h, freqCount col h = (b.hashes c).count h
  hist : ∀ k, histCount col k = ((b.numbers c).map Double.key).count k
  serial : ∀ cap t col', (b.serial cap).eval A s spec = .ok t → t.column c = some col' →
    col'.overflowed = false →
      (∀ h, freqCount col' h = freqCount col h) ∧ ∀ k, histCount col' k = histCount col k

def Conserved (col : ColumnCardinality) (n : ℕ) : Prop :=
  if col.binned then col.binTotal.toNat = n ∧ counter32.total col.bins = n
  else counter32.total (col.numericHist.map (·.2)) = n

instance (col : ColumnCardinality) (n : ℕ) : Decidable (Conserved col n) := by
  unfold Conserved
  infer_instance

/-- Every count fits its counter, and the NaNs are not among other numbers. -/
structure Countable (c : ℕ) (b : Fold) : Prop where
  hashes : ∀ h, (b.hashes c).count h < 2 ^ 32
  numbers : ∀ k, ((b.numbers c).map Double.key).count k < 2 ^ 32
  unmixed : ∃ g, ∀ v ∈ b.numbers c, (Double.key v).isSome = g

lemma freqCount_eq {b : Fold} (ht : b.TrackedIn A c col₀) (hfresh : Fresh col₀)
    (hover : (b.column A c col₀).overflowed = false) (h : UInt32) :
    freqCount (b.column A c col₀) h = min ((b.hashes c).count h) counter32.top := by
  obtain ⟨hnd, hcount⟩ := hashes_spec ht hfresh hover
  rw [freqCount, ← countOf_eq_lookup hnd, hcount h]

lemma freqCount_lt (col : ColumnCardinality) (h : UInt32) : freqCount col h < 2 ^ 32 := by
  unfold freqCount
  cases col.freq.lookup h with
  | none => exact Nat.pow_pos (by decide)
  | some n => exact n.toNat_lt

lemma kind_of_exact {b : Fold} (ht : b.TrackedIn A c col₀) (hfresh : Fresh col₀)
    (hover : (b.column A c col₀).overflowed = false)
    (hhist : ∀ k, histCount (b.column A c col₀) k = ((b.numbers c).map Double.key).count k) :
    ∃ g, ∀ v ∈ b.numbers c, (Double.key v).isSome = g := by
  have hseen : ∀ v ∈ b.numbers c, histCount (b.column A c col₀) (Double.key v) ≠ 0 := by
    intro v hv
    rw [hhist]
    exact (List.count_pos_iff.2 (List.mem_map_of_mem hv)).ne'
  rcases unmixed_spec ht hfresh hover with ho | ⟨w, n, hw, hkey⟩
  · refine ⟨true, fun v hv => ?_⟩
    by_contra hnone
    refine hseen v hv (countOf_eq_zero fun e he heq => ?_)
    have := ho.1 e he
    simp_all
  · refine ⟨false, fun v hv => ?_⟩
    by_contra hsome
    refine hseen v hv (countOf_eq_zero fun e he heq => ?_)
    rw [hw] at he
    obtain rfl := List.mem_singleton.1 he
    simp_all

/-- For every history in which a column is tracked throughout. Without overflow the maps are exact
when every count fits and no NaN is among other numbers; and short of a counter at its top, all
numbers are counted when no bins were merged into a column without any. -/
theorem column_conserves_iff {b : Fold} (h : b.eval A s spec = .ok t)
    (hcol : t.column c = some col) (ht : b.Tracked A s spec c) :
    (col.overflowed = false → (Exact A s spec c b col ↔ Countable c b)) ∧
      (¬ counter32.Full (counters col) →
        (Conserved col (b.numbers c).length ↔ b.Lossless A s spec c)) := by
  have hcols := (eval_column h).2.2 c
  rw [hcol] at hcols
  obtain ⟨col₀, hstart, hcol₀⟩ := Option.map_eq_some_iff.1 hcols.symm
  have hfresh := fresh_startColumn c hstart
  rw [losslessIn_iff h hstart]
  rw [trackedIn_iff h hstart] at ht
  subst hcol₀
  refine ⟨fun hover => ⟨fun hex => ?_, fun hok => ?_⟩, fun hfull => ⟨fun hcons => ?_, fun hl => ?_⟩⟩
  · obtain ⟨g, hg⟩ := kind_of_exact ht hfresh hover hex.hist
    refine ⟨fun x => ?_, fun k => ?_, g, hg⟩
    · rw [← hex.freq x]
      exact freqCount_lt _ x
    · have := (numbers_spec ht hfresh hover hg).2 k
      rw [← hex.hist k, this, counter32_top]
      omega
  · obtain ⟨g, hg⟩ := hok.unmixed
    have hfreq : ∀ x, freqCount (b.column A c col₀) x = (b.hashes c).count x := by
      intro x
      have := hok.hashes x
      rw [freqCount_eq ht hfresh hover, counter32_top]
      omega
    have hhist : ∀ k, histCount (b.column A c col₀) k
        = ((b.numbers c).map Double.key).count k := by
      intro k
      have := hok.numbers k
      rw [(numbers_spec ht hfresh hover hg).2 k, counter32_top]
      omega
    refine ⟨hfreq, hhist, fun cap t' col' ht' hcol' hover' => ?_⟩
    rw [column_of_eval ht' hstart] at hcol'
    obtain rfl := Option.some.inj hcol'
    have hts : (b.serial cap).TrackedIn A c col₀ :=
      Fold.TrackedIn.serialOn b hfresh (trackedIn_init ht.start)
    have hsh : (b.serial cap).hashes c = b.hashes c := hashes_serialOn _ b
    have hsn : (b.serial cap).numbers c = b.numbers c := numbers_serialOn _ b
    refine ⟨fun x => ?_, fun k => ?_⟩
    · have := hok.hashes x
      rw [freqCount_eq hts hfresh hover', hsh, hfreq, counter32_top]
      omega
    · have := hok.numbers k
      rw [(numbers_spec hts hfresh hover' (by rw [hsn]; exact hg)).2 k, hsn, hhist, counter32_top]
      omega
  · by_contra hl
    have hlt := (mass hfresh ht).lt hl
    unfold Conserved at hcons
    split_ifs at hcons with hb
    · rw [counters_of_binned hb] at hlt
      omega
    · rw [counters_of_exact (by simpa using hb)] at hlt
      omega
  · have hm := mass hfresh ht
    have heq := hm.eq hl hfull
    unfold Conserved
    split_ifs with hb
    · rw [counters_of_binned hb] at heq hfull
      exact ⟨((hm.ok.bins hb).total hfull).trans heq, heq⟩
    · rw [counters_of_exact (by simpa using hb)] at heq
      exact heq

/-! A column of years, counted in two tables. -/

/-- Arithmetic on `0.0` and `1.0`, and on the number of bins. -/
def unitPlatform : CardinalityPlatform where
  add x y := if x = Double.zero then y else x
  sub x y := if y = Double.zero then x else Double.zero
  mul x y := if x = Double.zero then Double.zero else y
  div x _ := x
  ofNat n := if n = kCardinalityNumBins then 0x40B0000000000000 else Double.zero
  toUInt32 x := if x = Double.zero then 0 else 4096
  toUInt64 _ := 1
  round x := x
  toUInt64_pos _ := by decide
  hllEstimate _ := Double.one
  walk m := m
  walk_perm _ := .refl _

def yearSchema : Schema where
  columns := [{ name := "year", type := .int32 }]

def countAll : CardinalitySpec where
  defaultMode := .on

lemma startColumn_year :
    startColumn yearSchema (some countAll) 0 = some { isNumeric := true, mode := .on } := rfl

lemma tracked_year {A : CardinalityPlatform} {b : Fold} {t : CardinalityTable}
    (h : b.eval A yearSchema (some countAll) = .ok t) :
    b.Tracked A yearSchema (some countAll) 0 :=
  (trackedIn_iff h startColumn_year).2 (trackedIn_of_on ⟨true, .on, rfl⟩ rfl b).1

/-- One number in each of two tables that have room for eight. -/
def twoShards : Fold :=
  .merge (.addNumeric (.init 0 8) 0 Double.zero) (.addNumeric (.init 0 8) 0 Double.one)

def twoShardsColumn : ColumnCardinality where
  numericHist := [(Double.zero, 1), (Double.one, 1)]
  isNumeric := true
  mode := .on
  adds := 2

lemma eval_twoShards : twoShards.eval unitPlatform yearSchema (some countAll)
    = .ok { columns := [twoShardsColumn], colToIdx := [some 0], cap := 8 } := rfl

lemma countable_twoShards : Countable 0 twoShards := by
  have hnum : twoShards.numbers 0 = [Double.zero, Double.one] := rfl
  refine ⟨fun h => ?_, fun k => ?_, true, ?_⟩
  · exact Nat.pow_pos (by decide)
  · refine List.count_le_length.trans_lt ?_
    rw [List.length_map, hnum]
    norm_num
  · rw [hnum]
    intro v hv
    rcases List.mem_pair.1 hv with rfl | rfl <;> rfl

lemma lossless_twoShards : twoShards.Lossless unitPlatform yearSchema (some countAll) 0 := by
  rw [losslessIn_iff eval_twoShards startColumn_year]
  intro dst src hp
  simp only [twoShards, parts, List.cons_append, List.nil_append, List.mem_cons, reduceCtorEq,
    List.not_mem_nil, or_false, merge.injEq] at hp
  obtain ⟨rfl, rfl⟩ := hp
  decide

theorem column_conserves_two_shards :
    Exact unitPlatform yearSchema (some countAll) 0 twoShards twoShardsColumn ∧
      Conserved twoShardsColumn 2 := by
  obtain ⟨hexact, hmass⟩ := column_conserves_iff (c := 0)
    eval_twoShards rfl (tracked_year eval_twoShards)
  have hroom : ¬ counter32.Full (counters twoShardsColumn) := by
    simp [counters, twoShardsColumn, counter32]
  exact ⟨(hexact rfl).2 countable_twoShards, (hmass hroom).2 lossless_twoShards⟩

/-- A table with a cap of one goes over to bins, and is folded into one without numbers. -/
def binnedShard : Fold :=
  .merge (.init 0 1) (.addNumeric (.addNumeric (.init 0 1) 0 Double.zero) 0 Double.one)

def binnedShardColumn : ColumnCardinality where
  overflowed := true
  isNumeric := true
  mode := .on
  adds := 2

lemma eval_binnedShard : binnedShard.eval unitPlatform yearSchema (some countAll)
    = .ok { columns := [binnedShardColumn], colToIdx := [some 0], cap := 1 } := rfl

/-- Both numbers are lost. -/
theorem binned_shard_is_lost :
    (∃ t, binnedShard.eval unitPlatform yearSchema (some countAll) = .ok t ∧
        t.column 0 = some binnedShardColumn) ∧
      binnedShard.Tracked unitPlatform yearSchema (some countAll) 0 ∧
      ¬ counter32.Full (counters binnedShardColumn) ∧
      (binnedShard.numbers 0).length = 2 ∧ ¬ Conserved binnedShardColumn 2 :=
  ⟨⟨_, eval_binnedShard, rfl⟩, tracked_year eval_binnedShard, not_full_nil _, rfl, by decide⟩

end SextantTree.Cardinality
