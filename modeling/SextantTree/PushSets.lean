import SextantTree.PushReplay

/-!
The forms of a pushed set column. The sets of a batch lie one after the other; a call gives their
bounds, their counts, or both. What a call with the bounds stages are the sets; with the counts
alone, the run of a row is taken to be everything before it.
-/

namespace SextantTree.PushStage

open FilterHash ByteMem

/-! ### A row of a set column -/

namespace SetValues

/-- Element `k`, where the arrays are given. -/
def elem (sv : SetValues) (k : ℕ) : Option Bytes := do
  let data ← sv.elemData
  let lengths ← sv.elemLengths
  return bytesAt (data k) (lengths k).toNat

/-- The arrays describe these sets, with counts, with offsets from `first` on, or with both. -/
structure Describes (sv : SetValues) (sets : List (List Bytes)) (first : ℕ) : Prop where
  given : sv.counts.isSome ∨ sv.offsets.isSome
  counts : ∀ counts, sv.counts = some counts → ∀ r, r < sets.length →
    (counts r).toNat = (sets.getD r []).length
  offsets : ∀ offsets, sv.offsets = some offsets → ∀ r, r ≤ sets.length →
    (offsets r).toNat = first + (sets.take r).flatten.length
  start : sv.offsets = none → first = 0
  elem : ∀ k e, sets.flatten[k]? = some e → sv.elem (first + k) = some e

end SetValues

/-- The set is within the limits of the format. -/
def SetFits (es : List Bytes) : Prop := es.length ≤ 255 ∧ ∀ e ∈ es, e.length ≤ 65535

instance (es : List Bytes) : Decidable (SetFits es) := inferInstanceAs (Decidable (_ ∧ _))

namespace SetValues

variable {sv : SetValues} {sets : List (List Bytes)} {first r : ℕ}

lemma elem_eq_some {k : ℕ} {e : Bytes} (h : sv.elem k = some e) :
    sv.elemData.isSome ∧ sv.elemLengths.isSome ∧
      bytesAt (sv.elemData.getD (fun _ _ => 0) k) (sv.elemLengths.getD (fun _ => 0) k).toNat = e ∧
      (sv.elemLengths.getD (fun _ => 0) k).toNat = e.length := by
  unfold elem at h
  cases hd : sv.elemData with
  | none => simp [hd] at h
  | some data =>
    cases hl : sv.elemLengths with
    | none => simp [hd, hl] at h
    | some lengths =>
      have he : bytesAt (data k) (lengths k).toNat = e := by simpa [hd, hl] using h
      refine ⟨rfl, rfl, he, ?_⟩
      rw [← he]
      simp [bytesAt]

/-- The run of a row goes from `a` up to `b`, and passes the checks. -/
structure RunOk (sv : SetValues) (r : ℕ) (a b : UInt32) : Prop where
  counts : ∀ counts, sv.counts = some counts → counts r = b - a
  small : (b - a).toNat ≤ 255
  arrays : b - a ≠ 0 → sv.elemData.isSome ∧ sv.elemLengths.isSome
  short : ∀ i, i < (b - a).toNat →
    (sv.elemLengths.getD (fun _ => 0) (a.toNat + i)).toNat ≤ 65535

lemma value_eq_of_runOk {a b : UInt32} (hrun : sv.run r = (a, b)) (hle : a ≤ b)
    (h : sv.RunOk r a b) : sv.value r = .ok (sv.elems a.toNat (b - a).toNat) := by
  have hcounts : ¬ (sv.counts.any fun counts => counts r ≠ b - a) = true := by
    cases hc : sv.counts with
    | none => simp
    | some counts => simp [h.counts counts hc]
  have hlarge : ¬ 255 < b - a := by
    rw [UInt32.lt_iff_toNat_lt, not_lt]
    exact h.small
  unfold value
  rw [hrun]
  dsimp only
  rw [if_neg hcounts, if_neg hlarge]
  split_ifs with hne hmissing hlong
  · obtain ⟨hd, hl⟩ := h.arrays hne
    rw [Option.isSome_iff_ne_none] at hd hl
    simp [hd, hl] at hmissing
  · exfalso
    rw [List.any_eq_true] at hlong
    obtain ⟨i, hi, hlt⟩ := hlong
    rw [List.mem_range, ← UInt32.toNat_sub_of_le _ _ hle] at hi
    exact absurd (h.short i hi) (by simpa [UInt32.lt_iff_toNat_lt] using hlt)
  · rfl
  · have hz : b - a = 0 := not_not.1 hne
    rw [hz]
    rfl

lemma runOk_of_value {a b : UInt32} (hrun : sv.run r = (a, b)) (hle : a ≤ b) {es : List Bytes}
    (h : sv.value r = .ok es) : sv.RunOk r a b ∧ es = sv.elems a.toNat (b - a).toNat := by
  unfold value at h
  rw [hrun] at h
  dsimp only at h
  split_ifs at h with hcount hlarge hne hmissing hlong
  · have hes := Except.ok.inj h
    refine ⟨⟨?_, by simpa [UInt32.lt_iff_toNat_lt] using hlarge, fun _ => ?_, ?_⟩, hes.symm⟩
    · intro counts hc
      simpa [hc] using hcount
    · simpa [Option.isSome_iff_ne_none] using hmissing
    · intro i hi
      rw [UInt32.toNat_sub_of_le _ _ hle] at hi
      simp only [List.any_eq_true, List.mem_range, not_exists, not_and, decide_eq_true_eq,
        not_lt] at hlong
      exact hlong i hi
  · have hes := Except.ok.inj h
    have hz : b - a = 0 := not_not.1 hne
    refine ⟨⟨?_, by simp [hz], fun hne' => absurd hz hne', by simp [hz]⟩, ?_⟩
    · intro counts hc
      simpa [hc] using hcount
    · rw [← hes, hz]
      rfl

lemma Describes.elems_eq (h : sv.Describes sets first) {k d : ℕ}
    (hk : k + d ≤ sets.flatten.length) :
    sv.elems (first + k) d = (sets.flatten.drop k).take d := by
  have hlen : ((sets.flatten.drop k).take d).length = d := by
    rw [List.length_take, List.length_drop]
    omega
  refine List.ext_getElem (by rw [hlen]; simp [elems]) fun i h₁ h₂ => ?_
  have hi : k + i < sets.flatten.length := by omega
  obtain ⟨-, -, he, -⟩ := elem_eq_some (h.elem (k + i) _ (List.getElem?_eq_getElem hi))
  rw [← Nat.add_assoc] at he
  simp only [elems, List.getElem_map, List.getElem_range, List.getElem_take, List.getElem_drop]
  exact he

lemma Describes.runOk_iff (h : sv.Describes sets first) {a b : UInt32} {k : ℕ}
    (ha : a.toNat = first + k) (hk : k + (b - a).toNat ≤ sets.flatten.length) :
    sv.RunOk r a b ↔ (∀ counts, sv.counts = some counts → counts r = b - a) ∧
      SetFits ((sets.flatten.drop k).take (b - a).toNat) := by
  have hlen : ((sets.flatten.drop k).take (b - a).toNat).length = (b - a).toNat := by
    rw [List.length_take, List.length_drop]
    omega
  have helem : ∀ i (hi : i < (b - a).toNat), sv.elemData.isSome ∧ sv.elemLengths.isSome ∧
      (sv.elemLengths.getD (fun _ => 0) (a.toNat + i)).toNat
        = (((sets.flatten.drop k).take (b - a).toNat).get ⟨i, by omega⟩).length := by
    intro i hi
    have hin : k + i < sets.flatten.length := by omega
    obtain ⟨hd, hl, -, he⟩ := elem_eq_some (h.elem (k + i) _ (List.getElem?_eq_getElem hin))
    rw [← Nat.add_assoc, ← ha] at he
    simp only [List.get_eq_getElem, List.getElem_take, List.getElem_drop]
    exact ⟨hd, hl, he⟩
  simp only [List.get_eq_getElem] at helem
  constructor
  · intro hok
    refine ⟨hok.counts, by rw [hlen]; exact hok.small, fun e he => ?_⟩
    obtain ⟨i, hi, rfl⟩ := List.getElem_of_mem he
    rw [hlen] at hi
    rw [← (helem i hi).2.2]
    exact hok.short i hi
  · rintro ⟨hcounts, hsmall, hshort⟩
    rw [hlen] at hsmall
    refine ⟨hcounts, hsmall, fun hne => ?_, fun i hi => ?_⟩
    · have hpos : 0 < (b - a).toNat := by
        rw [Nat.pos_iff_ne_zero]
        intro hz
        exact hne (UInt32.toNat_inj.1 hz)
      exact ⟨(helem 0 hpos).1, (helem 0 hpos).2.1⟩
    · rw [(helem i hi).2.2]
      exact hshort _ (List.getElem_mem _)

lemma foldl_counts {counts : ℕ → UInt32} {n : ℕ}
    (h : ∀ i, i < n → (counts i).toNat = (sets.getD i []).length) (hn : n ≤ sets.length) :
    (List.range n).foldl (fun acc i => acc + counts i) 0
      = UInt32.ofNat (sets.take n).flatten.length := by
  induction n with
  | zero => rfl
  | succ n ih =>
    have hget : sets[n]? = some (sets.getD n []) := by
      rw [List.getD_eq_getElem?_getD, List.getElem?_eq_getElem (by omega)]
      rfl
    have hcount : counts n = UInt32.ofNat (sets.getD n []).length := by
      rw [← h n (Nat.lt_succ_self n), UInt32.ofNat_toNat]
    rw [List.range_succ, List.foldl_append, ih (fun i hi => h i (by omega)) (by omega),
      List.take_add_one, hget, Option.toList_some, List.flatten_append, List.length_append,
      List.flatten_singleton, UInt32.ofNat_add, List.foldl_cons, List.foldl_nil, hcount]

lemma length_prefix_le (sets : List (List Bytes)) (r : ℕ) :
    (sets.take r).flatten.length ≤ sets.flatten.length := by
  conv_rhs => rw [← List.take_append_drop r sets]
  rw [List.flatten_append, List.length_append]
  exact Nat.le_add_right _ _

lemma length_prefix_succ {r : ℕ} (hr : r < sets.length) :
    (sets.take (r + 1)).flatten.length
      = (sets.take r).flatten.length + (sets.getD r []).length := by
  have hget : sets[r]? = some (sets.getD r []) := by
    rw [List.getD_eq_getElem?_getD, List.getElem?_eq_getElem hr]
    rfl
  rw [List.take_add_one, hget, Option.toList_some, List.flatten_append, List.length_append,
    List.flatten_singleton]

/-- The run of a row of a described column: its own with offsets, and with the counts alone
everything before it. -/
lemma Describes.run_eq (h : sv.Describes sets first) (hr : r < sets.length) :
    ∃ a b, sv.run r = (a, b) ∧ a ≤ b ∧ ∃ k, a.toNat = first + k ∧
      k + (b - a).toNat ≤ sets.flatten.length ∧
      ((sv.offsets.isSome ∧ k = (sets.take r).flatten.length ∧
          (b - a).toNat = (sets.getD r []).length) ∨
        (sv.offsets = none ∧ k = 0 ∧
          (b - a).toNat = (sets.take r).flatten.length % 2 ^ 32)) := by
  cases ho : sv.offsets with
  | some offsets =>
    have hstart := h.offsets offsets ho r hr.le
    have hstop := h.offsets offsets ho (r + 1) hr
    rw [length_prefix_succ hr] at hstop
    have hle : offsets r ≤ offsets (r + 1) := by
      rw [UInt32.le_iff_toNat_le]
      omega
    have hlen : (offsets (r + 1) - offsets r).toNat = (sets.getD r []).length := by
      rw [UInt32.toNat_sub_of_le _ _ hle]
      omega
    refine ⟨offsets r, offsets (r + 1), by simp [run, ho], hle, _, hstart, ?_,
      Or.inl ⟨rfl, rfl, hlen⟩⟩
    rw [hlen, ← length_prefix_succ hr]
    exact length_prefix_le sets (r + 1)
  | none =>
    obtain ⟨counts, hc⟩ := Option.isSome_iff_exists.1 (h.given.resolve_right (by simp [ho]))
    have hsum := foldl_counts (fun i hi => h.counts counts hc i (lt_trans hi hr)) hr.le
    have hnat : (UInt32.ofNat (sets.take r).flatten.length - 0).toNat
        = (sets.take r).flatten.length % 2 ^ 32 := by
      rw [UInt32.sub_zero, UInt32.toNat_ofNat']
    refine ⟨0, UInt32.ofNat (sets.take r).flatten.length, by simp [run, ho, hc, hsum],
      UInt32.zero_le, 0, ?_, ?_, Or.inr ⟨rfl, rfl, hnat⟩⟩
    · rw [h.start ho]
      rfl
    · rw [hnat, Nat.zero_add]
      exact le_trans (Nat.mod_le _ _) (length_prefix_le sets r)

lemma piece_offsets {r : ℕ} (hr : r < sets.length) :
    (sets.flatten.drop (sets.take r).flatten.length).take (sets.getD r []).length
      = sets.getD r [] := by
  have hget : sets.getD r [] = sets[r] := by
    rw [List.getD_eq_getElem?_getD, List.getElem?_eq_getElem hr]
    rfl
  rw [hget]
  exact take_drop_flatten sets hr

lemma Describes.fits_of_value (h : sv.Describes sets first) (hr : r < sets.length) {es : List Bytes}
    (hes : sv.value r = .ok es) : SetFits es := by
  obtain ⟨a, b, hrun, hle, k, ha, hk, -⟩ := h.run_eq hr
  obtain ⟨hok, rfl⟩ := runOk_of_value hrun hle hes
  rw [ha, h.elems_eq hk]
  exact ((h.runOk_iff ha hk).1 hok).2

lemma Describes.value_iff (h : sv.Describes sets first) (hr : r < sets.length) :
    sv.value r = .ok (sets.getD r []) ↔ SetFits (sets.getD r []) ∧
      (sv.offsets = none →
        sets.getD r [] = sets.flatten.take ((sets.take r).flatten.length % 2 ^ 32)) := by
  obtain ⟨a, b, hrun, hle, k, ha, hk, hform⟩ := h.run_eq hr
  have helems : sv.elems a.toNat (b - a).toNat = (sets.flatten.drop k).take (b - a).toNat := by
    rw [ha, h.elems_eq hk]
  have hcounts : (b - a).toNat = (sets.getD r []).length →
      ∀ counts, sv.counts = some counts → counts r = b - a := by
    intro hlen counts hc
    rw [← UInt32.toNat_inj, h.counts counts hc r hr, hlen]
  constructor
  · intro hval
    have hok := (runOk_of_value hrun hle hval).2
    rw [helems] at hok
    refine ⟨h.fits_of_value hr hval, fun ho => ?_⟩
    rcases hform with ⟨hsome, -, -⟩ | ⟨-, rfl, hmod⟩
    · simp [ho] at hsome
    · rwa [hmod, List.drop_zero] at hok
  · rintro ⟨hfits, hsame⟩
    have hpiece : (sets.flatten.drop k).take (b - a).toNat = sets.getD r [] := by
      rcases hform with ⟨-, rfl, hlen⟩ | ⟨ho, rfl, hmod⟩
      · rw [hlen, piece_offsets hr]
      · rw [hmod, List.drop_zero, ← hsame ho]
    have hlen : (b - a).toNat = (sets.getD r []).length := by
      rw [← hpiece, List.length_take, List.length_drop]
      omega
    have hok : sv.RunOk r a b := (h.runOk_iff ha hk).2 ⟨hcounts hlen, by rwa [hpiece]⟩
    rw [value_eq_of_runOk hrun hle hok, helems, hpiece]

end SetValues

/-! ### The rows of a stager -/

/-- The stager holds these rows, in their order. -/
def PushStager.Holds (st : PushStager) (rows : List Row) : Prop :=
  ∃ spilled memory rest, Staged spilled memory rest st ∧
    ((spilled ++ memory).flatten ++ rest).map Prod.fst = rows

lemma PushStager.Holds.unique {st : PushStager} (hcols : st.schema.columns.length < 2 ^ 23)
    {rows rows' : List Row} (h : st.Holds rows) (h' : st.Holds rows') : rows = rows' := by
  obtain ⟨sp, mem, rest, hst, rfl⟩ := h
  obtain ⟨sp', mem', rest', hst', rfl⟩ := h'
  obtain ⟨sp₁, mem₁, hs₁, hkind, hall₁⟩ := hst.buildSource
  rw [← hkind.schema] at hcols
  obtain ⟨sp₂, mem₂, hs₂, -, hall₂⟩ := hst'.buildSource
  set fuel := sp₁.length + mem₁.length + (sp₂.length + mem₂.length) + 1 with hfuel
  set src : Source := { stager := st.buildSource }
  have hfuel₁ : sp₁.length + mem₁.length < fuel := by omega
  have hfuel₂ : sp₂.length + mem₂.length < fuel := by omega
  obtain ⟨chunks, src', hdrain, -, hrows, -⟩ := hs₁.delivers hcols src rfl hfuel₁
  obtain ⟨chunks', src'', hdrain', -, hrows', -⟩ := hs₂.delivers hcols src rfl hfuel₂
  rw [hdrain] at hdrain'
  obtain rfl : chunks = chunks' := by
    have := (Prod.ext_iff.1 (Except.ok.inj hdrain')).1
    exact Option.some.inj this
  rw [← hall₁, ← hall₂, ← hrows rfl, hrows' rfl]

/-- What row `r` appends to the column. -/
def PushCall.taken (call : PushCall) (col : FilterColumn) (c r : ℕ) : Value :=
  match call.value col c r with
  | .ok v => v
  | .error _ => .null

/-- Row `r` of the call as it is appended. -/
def PushCall.takenRow (call : PushCall) (dim : ℕ) (s : Schema) (first r : ℕ) : Row where
  vector := call.vector dim r
  id := UInt64.ofNat (first + r)
  values := s.columns.zipIdx.map fun y => call.taken y.1 y.2 r

lemma PushCall.getD_takenRow {call : PushCall} {s : Schema} {y : FilterColumn × ℕ}
    (dim first r : ℕ) (hy : y ∈ s.columns.zipIdx) :
    (call.takenRow dim s first r).values.getD y.2 .null = call.taken y.1 y.2 r := by
  obtain ⟨hlt, hget⟩ := List.mem_zipIdx' hy
  simp [takenRow, List.getD_eq_getElem?_getD, hlt, ← hget]

lemma PushStager.Holds.push {b : PushBuilder} {rows : List Row} (h : b.stager.Holds rows)
    {call : PushCall} (ok : (b.push call).2 = none)
    (hfits : ∀ y ∈ b.stager.schema.columns.zipIdx, ∀ r, r < call.nRows → ∀ v,
      call.value y.1 y.2 r = .ok v → v.Fits y.1) :
    (b.push call).1.stager.Holds (rows ++ (List.range call.nRows).map
      (call.takenRow b.stager.dim b.stager.schema b.rows)) ∧
      (b.push call).1.stager.schema = b.stager.schema := by
  obtain ⟨sp, mem, rest, hst, rfl⟩ := h
  unfold PushBuilder.push at ok ⊢
  cases hrefused : b.refused call with
  | some e => simp [hrefused] at ok
  | none =>
    rw [hrefused] at ok
    dsimp only at ok ⊢
    cases hgo : b.pushRows call (List.range call.nRows) b.stager with
    | mk st err =>
      rw [hgo] at ok
      cases err with
      | some e => simp at ok
      | none =>
        have hok := (PushBuilder.pushRows_spec b call _ b.stager).1.1 (by rw [hgo])
        obtain ⟨sp', mem', rest', hst', hkind, horder⟩ := hst.pushRows b (List.range call.nRows)
          (f := fun r => (call.takenRow b.stager.dim b.stager.schema b.rows r,
            call.payloadOf b.stager.hasPayload r)) (by rw [hgo]) (by
          intro r hr
          have hlt := List.mem_range.1 hr
          have hval : ∀ y ∈ b.stager.schema.columns.zipIdx,
              call.value y.1 y.2 r = .ok (call.taken y.1 y.2 r) := by
            intro y hy
            obtain ⟨v, hv⟩ := (hok r hr).1 y hy
            rw [PushCall.taken, hv]
          refine ⟨rfl, rfl, by simp [PushCall.takenRow], fun y hy => ?_, fun y hy => ?_, rfl,
            (hok r hr).2⟩
          · rw [PushCall.getD_takenRow _ _ _ hy]
            exact hval y hy
          · rw [PushCall.getD_takenRow _ _ _ hy]
            exact hfits y hy r hlt _ (hval y hy))
        rw [hgo] at hst' hkind
        refine ⟨⟨sp', mem', rest', hst', ?_⟩, hkind.schema⟩
        rw [horder, List.map_append, List.map_map]
        rfl

/-! ### A call with a set column -/

/-- The call with the sets of column `c` given by `sv`. -/
def PushCall.withSet (call : PushCall) (c : ℕ) (sv : SetValues) : PushCall :=
  { call with filterValues := some fun j => if j = c then some (.set sv) else call.values j }

namespace PushCall

variable {call : PushCall} {col : FilterColumn} {c r : ℕ} {sv : SetValues}

lemma value_withSet_of_ne {j : ℕ} (h : j ≠ c) :
    (call.withSet c sv).value col j r = call.value col j r := by
  have hvalues : (call.withSet c sv).values j = call.values j := by
    simp [withSet, values, h]
  have hnull : (call.withSet c sv).isNull j r = call.isNull j r := rfl
  simp only [value, hvalues, hnull]

lemma value_withSet (htype : col.type = .set)
    (hnull : call.isNull c r = true → col.nullable = true) :
    (call.withSet c sv).value col c r =
      if call.isNull c r then .ok .null
      else
        match sv.value r with
        | .ok es => .ok (.set es)
        | .error e => .error e := by
  have hvalues : (call.withSet c sv).values c = some (.set sv) := by simp [withSet, values]
  have hsame : (call.withSet c sv).isNull c r = call.isNull c r := rfl
  simp only [value, hvalues, hsame, htype]
  split_ifs with hn hnn
  · rfl
  · exact absurd (hnull hn) hnn
  · rfl

end PushCall

namespace PushBuilder

variable {b : PushBuilder} {call call' : PushCall}

lemma push_none_iff (hrefused : b.refused call = none) :
    (b.push call).2 = none ↔ ∀ r, r < call.nRows → call.RowOk b.stager r := by
  have hspec := (pushRows_spec b call (List.range call.nRows) b.stager).1
  have hpush : (b.push call).2 = (b.pushRows call (List.range call.nRows) b.stager).2 := by
    unfold push
    rw [hrefused]
    cases hgo : b.pushRows call (List.range call.nRows) b.stager with
    | mk st err => cases err <;> rfl
  rw [hpush, hspec]
  simp

lemma pushValues_congr (call call' : PushCall) {r : ℕ} {cols : List (FilterColumn × ℕ)}
    (h : ∀ x ∈ cols, call.value x.1 x.2 r = call'.value x.1 x.2 r) (st : PushStager) :
    pushValues call r cols st = pushValues call' r cols st := by
  induction cols generalizing st with
  | nil => rfl
  | cons x cols ih =>
    simp only [pushValues]
    rw [h x List.mem_cons_self]
    cases call'.value x.1 x.2 r with
    | ok v => exact ih (fun y hy => h y (List.mem_cons_of_mem x hy)) _
    | error e => rfl

lemma pushRows_congr (call call' : PushCall) {s : Schema} (hvectors : call.vectors = call'.vectors)
    (hpayload : ∀ r, call.payload r = call'.payload r) {rs : List ℕ}
    (h : ∀ r ∈ rs, ∀ x ∈ s.columns.zipIdx, call.value x.1 x.2 r = call'.value x.1 x.2 r)
    {st : PushStager} (hst : st.schema = s) :
    b.pushRows call rs st = b.pushRows call' rs st := by
  induction rs generalizing st with
  | nil => rfl
  | cons r rs ih =>
    have hvec : call.vector st.dim r = call'.vector st.dim r := by
      simp only [PushCall.vector, hvectors]
    have hrow : b.pushRow call r st = b.pushRow call' r st := by
      simp only [pushRow, hvec, hpayload]
      rw [pushValues_congr call call']
      rw [show (st.appendVector (call'.vector st.dim r) (UInt64.ofNat (b.rows + r))).schema = s from
        hst]
      exact h r List.mem_cons_self
    have hshape := (pushRow_spec b call' r st).1.schema
    simp only [pushRows, hrow]
    cases hgo : b.pushRow call' r st with
    | mk st₁ err =>
      rw [hgo] at hshape
      cases err with
      | some e => rfl
      | none => exact ih (fun r' hr' => h r' (List.mem_cons_of_mem r hr')) (hshape.trans hst)

end PushBuilder

/-- The call stages in column `c` the set of each row that is not NULL. -/
def StagesSets (b : PushBuilder) (call : PushCall) (c : ℕ) (sets : List (List Bytes)) : Prop :=
  (b.push call).2 = none ∧ ∀ rows, b.stager.Holds rows →
    ∃ new : ℕ → Row, (b.push call).1.stager.Holds (rows ++ (List.range call.nRows).map new) ∧
      ∀ r, r < call.nRows → (new r).values.getD c .null
        = if call.isNull c r then .null else .set (sets.getD r [])

/-- The rest of the call passes, and its values fit their columns. -/
structure RestOk (b : PushBuilder) (call : PushCall) (c : ℕ) : Prop where
  refused : b.refused call = none
  value : ∀ y ∈ b.stager.schema.columns.zipIdx, y.2 ≠ c → ∀ r, r < call.nRows →
    ∃ v, call.value y.1 y.2 r = .ok v ∧ v.Fits y.1
  payload : b.stager.hasPayload = true → ∀ r, r < call.nRows → ∃ p, call.payload r = .ok p

section

variable {b : PushBuilder} {call : PushCall} {col : FilterColumn} {c first : ℕ} {sv : SetValues}
  {sets : List (List Bytes)}

lemma value_withSet_of_value {r : ℕ} (htype : col.type = .set)
    (hnull : call.isNull c r = true → col.nullable = true)
    (h : call.isNull c r = false → sv.value r = .ok (sets.getD r [])) :
    (call.withSet c sv).value col c r
      = .ok (if call.isNull c r then .null else .set (sets.getD r [])) := by
  rw [PushCall.value_withSet htype hnull]
  split_ifs with hn
  · rfl
  · rw [h (by simpa using hn)]

lemma eq_of_mem_zipIdx {α : Type} {l : List α} {x y : α × ℕ} (hx : x ∈ l.zipIdx)
    (hy : y ∈ l.zipIdx) (h : x.2 = y.2) : x = y := by
  obtain ⟨hlt, hx'⟩ := List.mem_zipIdx' hx
  obtain ⟨hlt', hy'⟩ := List.mem_zipIdx' hy
  refine Prod.ext ?_ h
  rw [hx', hy']
  simp only [h]

variable (hrest : RestOk b call c) (hcol : (col, c) ∈ b.stager.schema.columns.zipIdx)
  (htype : col.type = .set)
  (hnull : ∀ r, r < call.nRows → call.isNull c r = true → col.nullable = true)
  (hdesc : sv.Describes sets first) (hn : sets.length = call.nRows)

include hrest hcol htype hnull hdesc hn in
lemma fits_withSet {y : FilterColumn × ℕ} (hy : y ∈ b.stager.schema.columns.zipIdx) {r : ℕ}
    (hr : r < call.nRows) {v : Value} (hv : (call.withSet c sv).value y.1 y.2 r = .ok v) :
    v.Fits y.1 := by
  by_cases hyc : y.2 = c
  · obtain rfl : y = (col, c) := eq_of_mem_zipIdx hy hcol hyc
    rw [PushCall.value_withSet htype (hnull r hr)] at hv
    split_ifs at hv with hflag
    · obtain rfl := Except.ok.inj hv
      exact hnull r hr hflag
    · cases hsv : sv.value r with
      | error e => simp [hsv] at hv
      | ok es =>
        rw [hsv] at hv
        obtain rfl := Except.ok.inj hv
        exact ⟨htype, hdesc.fits_of_value (hn ▸ hr) hsv⟩
  · rw [PushCall.value_withSet_of_ne hyc] at hv
    obtain ⟨v', hv', hfits⟩ := hrest.value y hy hyc r hr
    rw [hv] at hv'
    rwa [Except.ok.inj hv']

include hrest hcol htype hnull hdesc hn in
lemma stagesSets_iff (hcols : b.stager.schema.columns.length < 2 ^ 23)
    (hold : ∃ rows, b.stager.Holds rows) :
    StagesSets b (call.withSet c sv) c sets ↔
      ∀ r, r < call.nRows → call.isNull c r = false → sv.value r = .ok (sets.getD r []) := by
  have hrefused : b.refused (call.withSet c sv) = none := hrest.refused
  constructor
  · rintro ⟨hok, hstages⟩ r hr hflag
    obtain ⟨rows, hrows⟩ := hold
    obtain ⟨new, hnew, hvalues⟩ := hstages rows hrows
    obtain ⟨htaken, hschema⟩ := hrows.push hok fun y hy r hr v hv =>
      fits_withSet hrest hcol htype hnull hdesc hn hy hr hv
    rw [← hschema] at hcols
    have hsame := List.append_cancel_left (htaken.unique hcols hnew)
    have hrow := List.map_inj_left.1 hsame r (List.mem_range.2 hr)
    have hval := hvalues r hr
    have hflag' : (call.withSet c sv).isNull c r = false := hflag
    rw [← hrow, hflag', PushCall.getD_takenRow _ _ _ hcol] at hval
    obtain ⟨v, hv⟩ := ((PushBuilder.push_none_iff hrefused).1 hok r hr).1 _ hcol
    rw [PushCall.taken, hv] at hval
    rw [PushCall.value_withSet htype (hnull r hr), hflag] at hv
    dsimp only at hv hval
    cases hsv : sv.value r with
    | error e => simp [hsv] at hv
    | ok es =>
      rw [hsv] at hv
      obtain rfl : Value.set es = v := by simpa using hv
      simpa using hval
  · intro h
    have hvalue : ∀ r, r < call.nRows → (call.withSet c sv).value col c r
        = .ok (if call.isNull c r then .null else .set (sets.getD r [])) :=
      fun r hr => value_withSet_of_value htype (hnull r hr) (h r hr)
    have hok : (b.push (call.withSet c sv)).2 = none := by
      refine (PushBuilder.push_none_iff hrefused).2 fun r hr => ⟨fun y hy => ?_,
        fun hp => hrest.payload hp r hr⟩
      by_cases hyc : y.2 = c
      · obtain rfl : y = (col, c) := eq_of_mem_zipIdx hy hcol hyc
        exact ⟨_, hvalue r hr⟩
      · rw [PushCall.value_withSet_of_ne hyc]
        obtain ⟨v, hv, -⟩ := hrest.value y hy hyc r hr
        exact ⟨v, hv⟩
    refine ⟨hok, fun rows hrows => ⟨_, (hrows.push hok fun y hy r hr v hv =>
      fits_withSet hrest hcol htype hnull hdesc hn hy hr hv).1, fun r hr => ?_⟩⟩
    rw [PushCall.getD_takenRow _ _ _ hcol, PushCall.taken, hvalue r hr]
    rfl

include hrest hcol htype hnull in
lemma push_withSet_eq {sv' : SetValues}
    (h : ∀ r, r < call.nRows → call.isNull c r = false → sv.value r = .ok (sets.getD r []))
    (h' : ∀ r, r < call.nRows → call.isNull c r = false → sv'.value r = .ok (sets.getD r [])) :
    b.push (call.withSet c sv) = b.push (call.withSet c sv') := by
  have hgo : b.pushRows (call.withSet c sv) (List.range call.nRows) b.stager
      = b.pushRows (call.withSet c sv') (List.range call.nRows) b.stager := by
    refine PushBuilder.pushRows_congr (call.withSet c sv) (call.withSet c sv')
      (s := b.stager.schema) rfl (fun _ => rfl) ?_ rfl
    intro r hr y hy
    have hlt := List.mem_range.1 hr
    by_cases hyc : y.2 = c
    · obtain rfl : y = (col, c) := eq_of_mem_zipIdx hy hcol hyc
      rw [value_withSet_of_value htype (hnull r hlt) (h r hlt),
        value_withSet_of_value htype (hnull r hlt) (h' r hlt)]
    · rw [PushCall.value_withSet_of_ne hyc, PushCall.value_withSet_of_ne hyc]
  have hrefused : b.refused (call.withSet c sv) = none := hrest.refused
  have hrefused' : b.refused (call.withSet c sv') = none := hrest.refused
  have hrows : (call.withSet c sv).nRows = call.nRows := rfl
  have hrows' : (call.withSet c sv').nRows = call.nRows := rfl
  simp only [PushBuilder.push, hrefused, hrefused', hrows, hrows', hgo]

include hrest hcol htype hnull hdesc hn in
/-- **The forms of a set column.** A described column is staged, and staged as with offsets, exactly
when its sets are within the limits and, where the counts are alone, each of them repeats everything
before it. -/
theorem set_forms_agree_iff (hcols : b.stager.schema.columns.length < 2 ^ 23)
    (hold : ∃ rows, b.stager.Holds rows) :
    (StagesSets b (call.withSet c sv) c sets ∧
      ∀ sv' first', SetValues.Describes sv' sets first' → sv'.offsets.isSome →
        b.push (call.withSet c sv) = b.push (call.withSet c sv')) ↔
      ∀ r, r < call.nRows → call.isNull c r = false → SetFits (sets.getD r []) ∧
        (sv.offsets = none →
          sets.getD r [] = sets.flatten.take ((sets.take r).flatten.length % 2 ^ 32)) := by
  rw [stagesSets_iff hrest hcol htype hnull hdesc hn hcols hold]
  constructor
  · rintro ⟨h, -⟩ r hr hflag
    exact (hdesc.value_iff (hn ▸ hr)).1 (h r hr hflag)
  · intro h
    have hvalue : ∀ r, r < call.nRows → call.isNull c r = false →
        sv.value r = .ok (sets.getD r []) :=
      fun r hr hflag => (hdesc.value_iff (hn ▸ hr)).2 (h r hr hflag)
    refine ⟨hvalue, fun sv' first' hdesc' hsome => push_withSet_eq hrest hcol htype hnull hvalue ?_⟩
    intro r hr hflag
    refine (hdesc'.value_iff (hn ▸ hr)).2 ⟨(h r hr hflag).1, fun hnone => ?_⟩
    simp [hnone] at hsome

end

def twoSets : List (List Bytes) := [[[65]], [[66]]]

/-- The two sets, with the arrays that `counts` and `offsets` say. -/
def twoSetsIn (counts offsets : Bool) : SetValues where
  counts := if counts then some fun _ => 1 else none
  offsets := if offsets then some fun r => UInt32.ofNat r else none
  elemData := some fun j _ => UInt8.ofNat (65 + j)
  elemLengths := some fun _ => 1

lemma describes_twoSets {counts offsets : Bool} (h : counts = true ∨ offsets = true) :
    (twoSetsIn counts offsets).Describes twoSets 0 := by
  refine ⟨?_, ?_, ?_, fun _ => rfl, ?_⟩
  · rcases h with rfl | rfl <;> simp [twoSetsIn]
  · intro f hf r hr
    have hr' : r < 2 := hr
    simp only [twoSetsIn] at hf
    split_ifs at hf
    obtain rfl := Option.some.inj hf
    interval_cases r <;> rfl
  · intro f hf r hr
    have hr' : r ≤ 2 := hr
    simp only [twoSetsIn] at hf
    split_ifs at hf
    obtain rfl := Option.some.inj hf
    interval_cases r <;> rfl
  · intro k e hk
    have hlt : k < 2 := (List.getElem?_eq_some_iff.1 hk).1
    interval_cases k <;> (obtain rfl := Option.some.inj hk; rfl)

def setBuilder : PushBuilder := { stager := .new 1 setSchema false 0 }

/-- Two rows without NULLs, less their sets. -/
def twoRows : PushCall where
  vectors := some fun i => UInt32.ofNat (10 + i)
  nRows := 2

lemma holds_setBuilder : ∃ rows, setBuilder.stager.Holds rows := by
  refine ⟨[], [], [], [], ⟨⟨rfl, rfl, by simp, rfl, by simp, by simp⟩, ?_, by decide, by simp⟩, rfl⟩
  exact (chunkOf_nil setSchema).symm

lemma restOk_twoRows : RestOk setBuilder twoRows 0 := by
  refine ⟨rfl, fun y hy hne => absurd ?_ hne, fun h => absurd h (by decide)⟩
  have hy' : y ∈ [(({ name := "tags", type := .set, nullable := true } : FilterColumn), 0)] := hy
  rw [List.mem_singleton] at hy'
  rw [hy']

theorem set_forms_agree_two_sets :
    StagesSets setBuilder (twoRows.withSet 0 (twoSetsIn true true)) 0 twoSets ∧
      setBuilder.push (twoRows.withSet 0 (twoSetsIn true true))
        = setBuilder.push (twoRows.withSet 0 (twoSetsIn false true)) := by
  have hdesc : (twoSetsIn true true).Describes twoSets 0 := describes_twoSets (Or.inl rfl)
  have h := (set_forms_agree_iff restOk_twoRows (List.mem_singleton.2 rfl) rfl (fun _ _ _ => rfl)
    hdesc rfl (by decide) holds_setBuilder).2 ?_
  · exact ⟨h.1, h.2 _ 0 (describes_twoSets (Or.inr rfl)) rfl⟩
  · intro r hr _
    have hr' : r < 2 := hr
    refine ⟨?_, fun hnone => by simp [twoSetsIn] at hnone⟩
    interval_cases r <;> decide

/-- With the counts alone the same sets are rejected. -/
theorem counts_alone_are_rejected :
    (twoSetsIn true false).Describes twoSets 0 ∧ (∀ es ∈ twoSets, SetFits es) ∧
      (setBuilder.push (twoRows.withSet 0 (twoSetsIn true true))).2 = none ∧
      (setBuilder.push (twoRows.withSet 0 (twoSetsIn true false))).2 = some .setCountMismatch ∧
      ¬ StagesSets setBuilder (twoRows.withSet 0 (twoSetsIn true false)) 0 twoSets := by
  have hrejected : (setBuilder.push (twoRows.withSet 0 (twoSetsIn true false))).2
      = some .setCountMismatch := by decide +kernel
  refine ⟨describes_twoSets (Or.inl rfl), by decide, by decide +kernel, hrejected, fun h => ?_⟩
  rw [StagesSets, hrejected] at h
  exact absurd h.1 (by simp)

end SextantTree.PushStage
