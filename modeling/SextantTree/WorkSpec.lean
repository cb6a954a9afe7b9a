import SextantTree.LeafSpec
import SextantTree.Outcome

/-!
The operations on leaves, on the heap: each reads one leaf of the table, changes it and leaves
the others where they are.
-/

namespace SextantTree

open Pages Alloc AllocInv AllocRun Heap FilterHash Outcome

variable {s : Schema}

/-! ### One entry of a list -/

section

variable {α β : Type} {l : List α} {i : ℕ} {a a' : α} (f : α → List β)

lemma flatMap_perm_eraseIdx (h : l[i]? = some a) :
    (l.flatMap f).Perm (f a ++ (l.eraseIdx i).flatMap f) := by
  obtain ⟨hi, rfl⟩ := List.getElem?_eq_some_iff.mp h
  rw [← List.flatMap_cons]
  exact ((List.getElem_cons_eraseIdx_perm hi).symm).flatMap_right f

lemma flatMap_set_perm (h : l[i]? = some a) :
    ((l.set i a').flatMap f).Perm (f a' ++ (l.eraseIdx i).flatMap f) := by
  have hi := (List.getElem?_eq_some_iff.mp h).1
  have := flatMap_perm_eraseIdx f (l := l.set i a') (i := i) (a := a') (by simp [hi])
  rwa [List.eraseIdx_set_eq] at this

end

/-! ### The leaves of a pass -/

/-- The leaves of the table, on the heap beside `H`. -/
structure Stored (w : Work s) (L : List (StoredLeaf s)) (H : List (Ext (Obj s))) : Prop where
  holds : Holds Obj.image w.vol (L.flatMap StoredLeaf.exts ++ H)
  table : w.leafTable = L.map StoredLeaf.extent
  ok : ∀ l ∈ L, l.Ok

namespace Stored

variable {w : Work s} {L : List (StoredLeaf s)} {H : List (Ext (Obj s))} {id : ℕ} {l : StoredLeaf s}

lemma entry (h : Stored w L H) (hl : L[id]? = some l) : w.leafTable[id]? = some l.extent := by
  rw [h.table, List.getElem?_map, hl]
  rfl

lemma focus (h : Stored w L H) (hl : L[id]? = some l) :
    Holds Obj.image w.vol (l.exts ++ ((L.eraseIdx id).flatMap StoredLeaf.exts ++ H)) := by
  rw [← List.append_assoc]
  exact h.holds.perm ((flatMap_perm_eraseIdx _ hl).append_right H)

lemma refocus (h : Stored w L H) (hl : L[id]? = some l) {w' : Work s} {l' : StoredLeaf s}
    (hold : Holds Obj.image w'.vol (l'.exts ++ ((L.eraseIdx id).flatMap StoredLeaf.exts ++ H)))
    (htab : w'.leafTable = w.leafTable.set id l'.extent) (hok : l'.Ok) :
    Stored w' (L.set id l') H where
  holds := by
    rw [← List.append_assoc] at hold
    exact hold.perm ((flatMap_set_perm _ hl).symm.append_right H)
  table := by rw [htab, h.table, List.map_set]
  ok x hx := by
    rcases List.mem_or_eq_of_mem_set hx with hx | rfl
    · exact h.ok x hx
    · exact hok

lemma leafExtent (h : Stored w L H) (hl : L[id]? = some l) :
    readLeafExtent w.vol.file l.extent = some l.leaf :=
  readLeaf_of_holds h.holds
    (fun _ he => List.mem_append_left _ (List.mem_flatMap.mpr ⟨l, List.mem_of_getElem? hl, he⟩))
    (h.ok l (List.mem_of_getElem? hl))

lemma leaf (h : Stored w L H) (hl : L[id]? = some l) : w.leaf id = .ok l.leaf := by
  simp only [Work.leaf, readLeaf, h.entry hl, h.leafExtent hl, Work.lift]

lemma leaf_none (h : Stored w L H) (hl : L[id]? = none) :
    ∃ what, w.leaf id = w.fail (.thrown what) := by
  have : w.leafTable[id]? = none := by rw [h.table, List.getElem?_map, hl]; rfl
  simp only [Work.leaf, readLeaf, this, Work.lift]
  exact ⟨_, rfl⟩

end Stored

/-! ### Writing a leaf -/

lemma writeLeaf_of_holds {w : Work s} {H : List (Ext (Obj s))} {l : StoredLeaf s} {id : ℕ}
    (nl : Leaf s) (h : Holds Obj.image w.vol (l.leafExt :: H))
    (htab : w.leafTable[id]? = some l.extent) (hpos : 0 < nl.extentPages) :
    ∃ page v', writeLeaf w id nl =
        { w with vol := v', leafTable := w.leafTable.set id ⟨some page, nl.extentPages⟩ } ∧
      Holds Obj.image v' (⟨page, nl.extentPages, some (.leaf nl)⟩ :: H) ∧ Kept w.vol v' := by
  by_cases hle : nl.extentPages ≤ l.leaf.extentPages
  · obtain ⟨h₁, hk₁⟩ := h.writeFront hle (Obj.leaf nl)
    by_cases hlt : nl.extentPages < l.leaf.extentPages
    · obtain ⟨h₂, hk₂⟩ := (h₁.perm (.swap _ _ _)).free
      refine ⟨l.page, _, ?_, h₂, hk₁.trans hk₂⟩
      simp only [writeLeaf, htab, StoredLeaf.extent, if_pos hle, if_pos hlt, writeAt, freeAt,
        Option.map_some]
      rfl
    · refine ⟨l.page, _, ?_, (h₁.perm (.swap _ _ _)).tail, hk₁⟩
      simp only [writeLeaf, htab, StoredLeaf.extent, if_pos hle, if_neg hlt, writeAt]
      rfl
  · obtain ⟨p, v₁, hw, h₁, hk₁⟩ := writeObj_of_holds (o := Obj.leaf nl) h hpos
    obtain ⟨h₂, hk₂⟩ := (h₁.perm (.swap _ _ _)).free
    refine ⟨p, _, ?_, h₂, hk₁.trans hk₂⟩
    simp only [writeLeaf, htab, StoredLeaf.extent, if_neg hle, hw, freeAt]
    rfl

structure Frame (w w' : Work s) : Prop where
  kept : Kept w.vol w'.vol
  root : w'.root = w.root

lemma Frame.refl (w : Work s) : Frame w w := ⟨.refl _, rfl⟩

namespace Stored

variable {w : Work s} {L : List (StoredLeaf s)} {H : List (Ext (Obj s))} {id : ℕ} {l : StoredLeaf s}

theorem writeLeaf (h : Stored w L H) (hl : L[id]? = some l) (nl : Leaf s)
    (hpos : 0 < nl.extentPages) (hpay : nl.payload = l.leaf.payload)
    (hcount : s.hasPayload = true → nl.count = l.leaf.count) :
    ∃ page, Stored (SextantTree.writeLeaf w id nl) (L.set id { l with page := page, leaf := nl }) H ∧
      Frame w (SextantTree.writeLeaf w id nl) := by
  have hlok := h.ok l (List.mem_of_getElem? hl)
  obtain ⟨page, v', heq, hold, hk⟩ := writeLeaf_of_holds nl (h.focus hl) (h.entry hl) hpos
  rw [heq]
  refine ⟨page, h.refocus hl hold rfl ⟨hpos, hpay.trans hlok.payload, fun hp => ?_⟩, hk, rfl⟩
  rw [hcount hp]
  exact hlok.paid hp

end Stored

/-! ### Insert -/

section

variable {eng : Engine} {w : Work s} {L : List (StoredLeaf s)} {H : List (Ext (Obj s))} {id : ℕ}
  {l : StoredLeaf s}

/-- A leaf with points appended, and the payloads with it. -/
def StoredLeaf.appended (eng : Engine) (l : StoredLeaf s) (pts : List (InsertPoint s))
    (rs : List (FilterRow s)) (page payPage : ℕ) : StoredLeaf s :=
  let l' : StoredLeaf s := ⟨page, l.leaf, payPage, l.payloads ++ pts.map (·.payload)⟩
  { l' with leaf := appendedLeaf eng l.leaf pts rs l'.payExtent }

variable {pts : List (InsertPoint s)} {rs : List (FilterRow s)}

lemma StoredLeaf.rows_appended (page payPage : ℕ) :
    (l.appended eng pts rs page payPage).leaf.rows = l.leaf.rows ++ insertedRows eng l.leaf pts rs :=
  rfl

lemma StoredLeaf.Ok.appended (h : l.Ok) (eng : Engine) (hlen : rs.length = pts.length)
    (page payPage : ℕ) :
    (l.appended eng pts rs page payPage).Ok where
  pages_pos := pagesFor_pos (Nat.add_pos_left (eng.coder.extentBytes_pos _) _)
  payload := rfl
  paid hp := by
    obtain ⟨h₁, h₂⟩ := h.paid hp
    rw [Leaf.count, StoredLeaf.rows_appended, List.length_append, length_insertedRows hlen]
    rw [Leaf.count] at h₁ h₂
    simp only [StoredLeaf.appended, List.length_append, List.length_map]
    omega

lemma payExts_of_not_hasPayload (h : s.hasPayload = false) (l : StoredLeaf s) : l.payExts = [] := by
  simp [StoredLeaf.payExts, StoredLeaf.pay, h]

lemma payExtent_of_not_hasPayload (h : s.hasPayload = false) (l : StoredLeaf s) :
    l.payExtent = Extent.invalid := by
  simp [StoredLeaf.payExtent, StoredLeaf.pay, h]

lemma rebuildPayload_of_holds (hok : l.Ok) (hp : s.hasPayload = true)
    (h : Holds Obj.image w.vol (l.exts ++ H)) (h32 : payloadBytes l.payloads < 2 ^ 32)
    (new : List Bytes) : ∃ payPage v',
      rebuildPayload w l.leaf new = .ok
        (⟨some payPage, pagesFor (payloadImage (l.payloads ++ new)).length⟩, { w with vol := v' }) ∧
      Holds Obj.image v' (l.leafExt :: ⟨payPage, pagesFor (payloadImage (l.payloads ++ new)).length,
        some (.payload (payloadImage (l.payloads ++ new)))⟩ :: H) ∧ Kept w.vol v' := by
  obtain ⟨hlen, hpos⟩ := hok.paid hp
  have himg : 0 < (payloadImage (l.payloads ++ new)).length :=
    payloadImage_pos (by rw [List.length_append]; omega)
  have hext : l.payExtent = ⟨some l.payPage, pagesFor (payloadImage l.payloads).length⟩ := by
    simp [StoredLeaf.payExtent, StoredLeaf.pay, hp]
  have hexts : l.exts = [l.leafExt, ⟨l.payPage, pagesFor (payloadImage l.payloads).length,
      some (.payload (payloadImage l.payloads))⟩] := by
    simp [StoredLeaf.exts, StoredLeaf.payExts, StoredLeaf.pay, hp]
  have hold : leafPayloads w l.leaf = .ok l.payloads := by
    have hread := readPayload_of_holds h (fun e he => List.mem_append_left _ he) hok hp
    have hps : 0 < pagesFor (payloadImage l.payloads).length :=
      pagesFor_pos (payloadImage_pos (by omega))
    unfold leafPayloads
    rw [if_pos (by rw [hok.payload, hext]; exact ⟨by simp, hps, hpos⟩), hread]
    simp only [Option.bind_some, ← hlen, oldPayloads_payloadImage h32]
  obtain ⟨p, v₁, hw, h₁, hk₁⟩ := writeObj_of_holds
    (o := Obj.payload (payloadImage (l.payloads ++ new))) h (pagesFor_pos himg)
  rw [hexts] at h₁
  obtain ⟨h₂, hk₂⟩ := (h₁.pull [_, l.leafExt]).free
  refine ⟨p, _, ?_, h₂.perm (.swap _ _ _), hk₁.trans hk₂⟩
  simp only [rebuildPayload, hold, bind, Except.bind, hw, hok.payload, hext, freeAt]
  rw [if_neg (by omega)]
  rfl

/-- **One leaf of an insert.** -/
theorem appendToLeaf_spec (h : Stored w L H) (hl : L[id]? = some l)
    (hrs : pts.mapM InsertPoint.row = some rs) (hfit : FiltersFit eng l.leaf rs)
    (h32 : s.hasPayload = true → payloadBytes l.payloads < 2 ^ 32) :
    ∃ w' page payPage, appendToLeaf eng w id pts = .ok w' ∧
      Stored w' (L.set id (l.appended eng pts rs page payPage)) H ∧ Frame w w' := by
  have hlok := h.ok l (List.mem_of_getElem? hl)
  have hlen := length_of_mapM_row hrs
  cases hp : s.hasPayload with
  | false =>
    -- no payload extent: the leaf keeps the invalid one
    have hleaf : ∀ page payPage, (l.appended eng pts rs page payPage).leaf =
        appendedLeaf eng l.leaf pts rs l.leaf.payload := by
      intro page payPage
      rw [hlok.payload, payExtent_of_not_hasPayload hp]
      simp only [StoredLeaf.appended, payExtent_of_not_hasPayload hp]
    have hfocus := h.focus hl
    rw [StoredLeaf.exts, payExts_of_not_hasPayload hp] at hfocus
    obtain ⟨page, v', heq, hold, hk⟩ := writeLeaf_of_holds
      (appendedLeaf eng l.leaf pts rs l.leaf.payload) hfocus (h.entry hl)
      (hleaf 0 0 ▸ (hlok.appended eng hlen 0 0).pages_pos)
    refine ⟨{ w with
      vol := v'
      leafTable := w.leafTable.set id (l.appended eng pts rs page 0).extent }, page, 0,
      ?_, h.refocus hl ?_ rfl (hlok.appended eng hlen page 0), hk, rfl⟩
    · simp only [appendToLeaf, h.leaf hl, hrs, bind, Except.bind, if_pos hfit, hp,
        Bool.false_eq_true, if_false, heq, StoredLeaf.extent, hleaf]
      rfl
    · rw [StoredLeaf.exts, payExts_of_not_hasPayload hp, StoredLeaf.leafExt, hleaf]
      exact hold
  | true =>
    obtain ⟨payPage, v₁, hpay, h₁, hk₁⟩ := rebuildPayload_of_holds hlok hp (h.focus hl) (h32 hp)
      (pts.map (·.payload))
    have hext : ∀ page, (l.appended eng pts rs page payPage).payExtent =
        ⟨some payPage, pagesFor (payloadImage (l.payloads ++ pts.map (·.payload))).length⟩ := by
      intro page
      simp [StoredLeaf.payExtent, StoredLeaf.pay, hp, StoredLeaf.appended]
    obtain ⟨page, v', heq, hold, hk⟩ := writeLeaf_of_holds (w := { w with vol := v₁ })
      (l.appended eng pts rs 0 payPage).leaf h₁ (h.entry hl)
      (hlok.appended eng hlen 0 payPage).pages_pos
    have hleaf : (l.appended eng pts rs page payPage).leaf =
        (l.appended eng pts rs 0 payPage).leaf := by
      simp [StoredLeaf.appended, StoredLeaf.payExtent, StoredLeaf.pay]
    refine ⟨{ w with
      vol := v'
      leafTable := w.leafTable.set id (l.appended eng pts rs page payPage).extent }, page, payPage,
      ?_, h.refocus hl ?_ rfl (hlok.appended eng hlen page payPage),
      hk₁.trans hk, rfl⟩
    · simp only [appendToLeaf, h.leaf hl, hrs, bind, Except.bind, if_pos hfit, hp, if_true, hpay]
      rw [StoredLeaf.extent, hleaf]
      refine Eq.trans ?_ (congrArg Except.ok heq)
      simp [StoredLeaf.appended, StoredLeaf.payExtent, StoredLeaf.pay, hp]
    · rw [StoredLeaf.exts, StoredLeaf.leafExt, hleaf]
      simp only [StoredLeaf.payExts, StoredLeaf.pay, hp, if_true]
      exact hold

/-! ### Delete, vacuum, defrag -/

lemma set_of_getElem? {α : Type} {l : List α} {i : ℕ} {a : α} (h : l[i]? = some a) :
    l.set i a = l := by
  obtain ⟨hi, rfl⟩ := List.getElem?_eq_some_iff.mp h
  exact List.set_getElem_self hi

structure Compacted (eng : Engine) (rowIds : List RowId) (l l' : StoredLeaf s) : Prop where
  rows : l'.leaf.rows = l.leaf.rows.filter (survives rowIds)
  summary : l'.leaf.summary = l.leaf.summary
  fits : l.leaf.Fits eng → l'.leaf.Fits eng

/-- **One leaf of a delete.** -/
theorem compactLeaf_spec (h : Stored w L H) (hl : L[id]? = some l) (hp : s.hasPayload = false)
    (hfits : l.leaf.Fits eng) (rowIds : List RowId) :
    ∃ w' l', compactLeaf eng w id (deletedSlots l.leaf rowIds) = .ok w' ∧
      Stored w' (L.set id l') H ∧ Frame w w' ∧ Compacted eng rowIds l l' := by
  have hrows := rows_compactedLeaf eng l.leaf rowIds
  by_cases hcount : (compactedLeaf eng l.leaf (deletedSlots l.leaf rowIds)).count = l.leaf.count
  · refine ⟨w, l, ?_, ?_, .refl w, ?_, rfl, fun hl => hl⟩
    · simp only [compactLeaf, h.leaf hl, bind, Except.bind, if_pos hcount]
    · rw [set_of_getElem? hl]
      exact h
    · rw [Leaf.count, hrows] at hcount
      exact (List.filter_sublist.eq_of_length hcount).symm
  · obtain ⟨page, hst, hframe⟩ := h.writeLeaf hl
      (compactedLeaf eng l.leaf (deletedSlots l.leaf rowIds))
      (pagesFor_pos (Nat.add_pos_left (eng.coder.extentBytes_pos _) _)) rfl
      fun hp' => by rw [hp] at hp'; cases hp'
    refine ⟨_, _, ?_, hst, hframe, hrows, rfl, fun _ => fits_compactedLeaf hfits rowIds⟩
    simp only [compactLeaf, h.leaf hl, bind, Except.bind, if_neg hcount,
      if_pos (compactFits_of_fits hfits rowIds)]

@[simp] lemma rows_repairedLeaf (l : Leaf s) : (repairedLeaf l).rows = l.rows := by
  unfold repairedLeaf
  split <;> rfl

lemma repairedLeaf_frame (l : Leaf s) : (repairedLeaf l).extentPages = l.extentPages ∧
    (repairedLeaf l).payload = l.payload ∧
    (repairedLeaf l).hasFilterColumns = l.hasFilterColumns := by
  unfold repairedLeaf
  split <;> exact ⟨rfl, rfl, rfl⟩

lemma Stored.valid (h : Stored w L H) (hl : L[id]? = some l) :
    w.leafTable.getD id Extent.invalid = l.extent := by
  rw [List.getD_eq_getElem?_getD, h.entry hl]
  rfl

theorem relocateLeaf_spec (h : Stored w L H) (hl : L[id]? = some l) :
    ∃ w' page, relocateLeaf w id = .ok (some w') ∧
      Stored w' (L.set id { l with page := page }) H ∧ Frame w w' := by
  have hlok := h.ok l (List.mem_of_getElem? hl)
  obtain ⟨p, v₁, hw, h₁, hk₁⟩ := writeObj_of_holds (o := Obj.leaf l.leaf) (h.focus hl) hlok.pages_pos
  obtain ⟨h₂, hk₂⟩ := (h₁.pull [_]).free
  refine ⟨{ w with
    vol := _
    leafTable := w.leafTable.set id (StoredLeaf.extent { l with page := p }) }, p, ?_,
    h.refocus hl h₂ rfl ⟨hlok.pages_pos, hlok.payload, hlok.paid⟩, hk₁.trans hk₂, rfl⟩
  simp only [relocateLeaf, h.valid hl, StoredLeaf.extent, reduceCtorEq, false_or, h.leaf hl, bind,
    Except.bind, hw, freeAt]
  rw [if_neg (Nat.pos_iff_ne_zero.mp hlok.pages_pos)]
  rfl

end

end SextantTree
