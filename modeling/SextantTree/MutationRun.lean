import SextantTree.OpenedBuild
import SextantTree.RowView
import SextantTree.Stepwise

/-!
Runs of mutations. A call is one of the public mutations of an open index, or closing the index and
opening its file again; a run is any sequence of calls that return, each admissible where it is made.
One lemma says what a call does to the contents of the file; what holds along a run is read off it.
-/

namespace SextantTree

open Pages Alloc AllocInv AllocRun Heap FilterHash Outcome Stepwise

variable {s : Schema} {eng : Engine} {card : List (FilterRow s) → Bytes} {idx idx' : Index s}
  {c c' : Contents s} {file : TreeFile s} {sb : SuperblockDisk}

/-! ### Opening a committed file -/

lemma openIndex_inv (hC : Committed file sb c) (h : openIndex eng file = .ok idx) :
    CodebookNamed eng sb ∧ ∃ pca children bases, openPca file sb c.manifest = .ok pca ∧
      loadRoot file sb.root c.table = .ok children ∧
      (if 0 < pca.dims ∧ c.manifest.depth = 2 then openLeafBase file 0 children else .ok []) = .ok bases ∧
      idx = openedIndex file sb c.manifest c.table pca children bases := by
  rw [openIndex_committed hC] at h
  split_ifs at h with hcode
  obtain ⟨pca, hpca, h⟩ := bind_eq_ok.mp h
  obtain ⟨children, bases, hload, hbases, rfl⟩ := openRoot_inv h
  exact ⟨hcode, pca, children, bases, hpca, hload, hbases, rfl⟩

/-! ### Calls -/

inductive Op (s : Schema)
  | insert (pts : List (InsertPoint s))
  | delete (rowIds : List RowId)
  | vacuum (cfg : VacuumConfig)
  | defrag (cfg : DefragConfig)
  /-- Close the index and open its file. -/
  | reopen

/-- The index a call leaves; `card` serializes the cardinality table a vacuum builds. -/
def Op.call (eng : Engine) (card : List (FilterRow s) → Bytes) (idx : Index s) :
    Op s → Except (Failure s) (Index s)
  | insert pts => insertBatch eng idx pts
  | delete rowIds => deleteBatch eng idx rowIds
  | vacuum cfg => SextantTree.vacuum eng card cfg idx
  | defrag cfg => SextantTree.defrag eng cfg idx
  | reopen =>
    match openIndex eng idx.file with
    | .ok idx' => .ok idx'
    | .error k => .error ⟨k, idx.file⟩

/-- Where a call may be made: an insert whose filter columns fit their buffers, a defrag that leaves
the length of the file alone. -/
def Op.Admissible (eng : Engine) (idx : Index s) : Op s → Prop
  | insert pts => InsertOk eng idx pts
  | defrag cfg => cfg.shrinkFile = false
  | delete _ | vacuum _ | reopen => True

/-- A run of admissible calls that return. -/
abbrev MutationRun (eng : Engine) (card : List (FilterRow s) → Bytes) :
    Index s → List (Op s) → Index s → Prop :=
  Run (fun idx op => (op.call eng card idx).toOption) fun idx op => op.Admissible eng idx

/-! ### One call -/

/-- An open index between two calls, with the codebook and the plane its file names. -/
structure Opened (eng : Engine) (idx : Index s) (c : Contents s) : Prop where
  index : IndexOk eng idx c
  plane : idx.plane = c.plane.isSome
  codebook : eng.coder.serializeGlobal.isSome = true → c.codebook.isSome = true

def Op.Result (eng : Engine) (card : List (FilterRow s) → Bytes) (idx : Index s) (c : Contents s)
    (idx' : Index s) (c' : Contents s) : Op s → Prop
  | insert pts => pts = [] ∧ idx' = idx ∧ c' = c ∨ InsertResult eng pts idx c idx' c'
  | delete rowIds => DeleteResult eng rowIds idx c idx' c'
  | vacuum cfg => VacuumResult eng card cfg idx c idx' c'
  | defrag _ => PassResult eng Relocated idx c idx' c'
  | reopen => c' = c ∧ idx'.file = idx.file ∧ idx'.manifest = c.manifest

lemma slotNames_isSome {x : Slot s} {e : Extent} (h : x.Names e) :
    x.isSome = decide (e.page ≠ none ∧ 0 < e.pages) := by
  match x, h with
  | none, h =>
    have he : e.pages = 0 := h
    simp [he]
  | some (p, o), h => simp [h.1, h.2]

lemma codebookNamed_iff (hC : Committed file sb c) :
    CodebookNamed eng sb ↔ (eng.coder.serializeGlobal.isSome = true → c.codebook.isSome = true) := by
  rw [slotNames_isSome hC.named.codebook, CodebookNamed]
  simp only [not_and, not_or, decide_eq_true_eq]
  refine imp_congr_right fun _ => ?_
  rw [Nat.pos_iff_ne_zero]

theorem reopen_spec (h : Opened eng idx c) (hopen : openIndex eng idx.file = .ok idx') :
    Opened eng idx' c ∧ idx'.file = idx.file ∧ idx'.manifest = c.manifest := by
  obtain ⟨hcode, pca, children, bases, -, hload, -, rfl⟩ := openIndex_inv h.index.committed hopen
  obtain ⟨hfull, hkids⟩ := loadRoot_committed h.index.committed
    (fun i hi => h.index.agrees.lt_length hi) hload
  have hplane := slotNames_isSome h.index.committed.named.plane
  refine ⟨⟨⟨h.index.committed, ?_, rfl, rfl, hload⟩, hplane.symm, h.codebook⟩, rfl, rfl⟩
  exact ⟨rfl, rfl, h.index.agrees.depth, h.index.agrees.below, h.index.agrees.linked, hfull,
    fun hb => hkids (by omega), h.index.agrees.fits⟩

lemma Splits.blobs (h : Splits eng c c') : c'.codebook = c.codebook ∧ c'.plane = c.plane := by
  induction h with
  | refl => exact ⟨rfl, rfl⟩
  | tail _ hstep ih =>
    obtain ⟨id, l, -, hsplit⟩ := hstep
    obtain ⟨t', l₀, l₁, rfl, -⟩ := hsplit.split
    exact ih

lemma Inserted.blobs {pts : List (InsertPoint s)} {ids : List ℕ} (h : Inserted eng pts ids c c') :
    c'.codebook = c.codebook ∧ c'.plane = c.plane := by
  obtain ⟨L₁, c₂, c₃, -, hsame, hsplits, hsame', -⟩ := h.steps
  obtain ⟨hcode, hplane⟩ := hsplits.blobs
  exact ⟨(hsame'.codebook.trans hcode).trans hsame.codebook,
    (hsame'.plane.trans hplane).trans hsame.plane⟩

lemma Opened.advanced (h : Opened eng idx c) (h' : Advanced eng idx idx' c')
    (hcode : c'.codebook = c.codebook) (hplane : c'.plane = c.plane) : Opened eng idx' c' where
  index := h'.index
  plane := by rw [h'.plane, hplane, h.plane]
  codebook := hcode ▸ h.codebook

lemma Opened.pass (h : Opened eng idx c) {P : StoredLeaf s → StoredLeaf s → Prop}
    (h' : PassResult eng P idx c idx' c') : Opened eng idx' c' := by
  obtain rfl | hadv := h'.moved
  · exact ⟨h'.index, by rw [h'.plane, h.plane], h'.codebook ▸ h.codebook⟩
  · exact h.advanced hadv h'.codebook h'.plane

/-- **One call.** -/
theorem call_spec (h : Opened eng idx c) {op : Op s} (hok : op.Admissible eng idx)
    (hcall : op.call eng card idx = .ok idx') :
    ∃ c', Opened eng idx' c' ∧ op.Result eng card idx c idx' c' := by
  cases op with
  | insert pts =>
    obtain ⟨hnil, rfl⟩ | ⟨c', hres⟩ := (insertBatch_spec h.index hok).result hcall
    · exact ⟨c, h, .inl ⟨hnil, rfl, rfl⟩⟩
    · obtain ⟨ids, -, hins⟩ := hres.inserted
      exact ⟨c', h.advanced hres.advanced hins.blobs.1 hins.blobs.2, .inr hres⟩
  | delete rowIds =>
    obtain ⟨c', hres⟩ := (deleteBatch_spec h.index rowIds).result hcall
    refine ⟨c', ?_, hres⟩
    obtain ⟨rfl, rfl, -⟩ | ⟨hadv, -⟩ := hres.moved
    · exact h
    · exact h.advanced hadv hres.deleted.codebook hres.deleted.plane
  | vacuum cfg =>
    obtain ⟨c', hres⟩ := (vacuum_spec h.index card cfg).result hcall
    exact ⟨c', h.pass hres.pass, hres⟩
  | defrag cfg =>
    obtain ⟨c', hres⟩ := (defrag_spec h.index cfg hok).result hcall
    exact ⟨c', h.pass hres, hres⟩
  | reopen =>
    have hopen : openIndex eng idx.file = .ok idx' := by
      cases hi : openIndex eng idx.file with
      | ok i => simpa [Op.call, hi] using hcall
      | error k => simp [Op.call, hi] at hcall
    obtain ⟨hop, hfile, hman⟩ := reopen_spec h hopen
    exact ⟨c, hop, rfl, hfile, hman⟩

lemma Op.Result.moved {op : Op s} (h : op.Result eng card idx c idx' c') (hop : op ≠ .reopen) :
    idx' = idx ∨ Advanced eng idx idx' c' := by
  cases op with
  | insert pts => exact h.imp (·.2.1) (·.advanced)
  | delete rowIds => exact DeleteResult.moved h |>.imp (·.1) (·.1)
  | vacuum cfg => exact h.pass.moved
  | defrag cfg => exact PassResult.moved h
  | reopen => exact absurd rfl hop

lemma toOption_eq_some {ε α : Type*} {x : Except ε α} {a : α} : x.toOption = some a ↔ x = .ok a := by
  cases x <;> simp [Except.toOption]

/-- **A run passes open indexes only**, and has what every call keeps. -/
theorem MutationRun.keeps {I : Index s → Contents s → Prop} {ops : List (Op s)}
    (hrun : MutationRun eng card idx ops idx') (h : Opened eng idx c) (hI : I idx c)
    (hstep : ∀ {idx idx' c c'} {op : Op s}, op ∈ ops → Opened eng idx c → op.call eng card idx = .ok idx' →
      op.Result eng card idx c idx' c' → I idx c → I idx' c') :
    ∃ c', Opened eng idx' c' ∧ I idx' c' := by
  refine hrun.of_mem.invariant (I := fun idx => ∃ c, Opened eng idx c ∧ I idx c) ⟨c, h, hI⟩ ?_
  rintro idx op idx' ⟨c, h, hI⟩ ⟨hok, hmem⟩ hcall
  obtain ⟨c', h', hres⟩ := call_spec h hok (toOption_eq_some.mp hcall)
  exact ⟨c', h', hstep hmem h (toOption_eq_some.mp hcall) hres hI⟩

/-- **A run seen through a view of the contents.** -/
theorem MutationRun.steps {τ : Type*} (view : Contents s → τ) {A : τ → Op s → τ → Prop}
    {ops : List (Op s)} (hrun : MutationRun eng card idx ops idx') (h : Opened eng idx c)
    (hstep : ∀ {idx idx' c c'} {op : Op s}, Opened eng idx c → op.Result eng card idx c idx' c' →
      A (view c) op (view c')) : ∃ c', Opened eng idx' c' ∧ Steps A (view c) ops (view c') := by
  obtain ⟨a, hsteps, c', h', rfl⟩ := hrun.simulates (A := A)
    (R := fun idx a => ∃ c, Opened eng idx c ∧ a = view c) ⟨c, h, rfl⟩ (by
      rintro idx op idx' a ⟨c, h, rfl⟩ hok hcall
      obtain ⟨c', h', hres⟩ := call_spec h hok (toOption_eq_some.mp hcall)
      exact ⟨_, hstep h hres, c', h', rfl⟩)
  exact ⟨c', h', hsteps⟩

lemma file_of_build {b : BuildInput s} {old : TreeFile s} (hb : build b old = .ok file)
    (hopen : openIndex eng file = .ok idx) : idx.file = file := by
  obtain ⟨-, -, sb, c₀, -, -, -, -, hC₀⟩ := build_spec hb
  obtain ⟨-, pca, children, bases, -, -, -, rfl⟩ := openIndex_inv hC₀ hopen
  rfl

theorem opened_of_build {b : BuildInput s} {old : TreeFile s} (hb : build b old = .ok file)
    (heng : eng.coder = b.coder) (hpca : PcaShaped b) (hone : OneLeafEach b)
    (hopen : openIndex eng file = .ok idx) :
    ∃ st F c, OpenedBuild eng b old st F idx c ∧ Opened eng idx c := by
  obtain ⟨st, F, c, hbuilt⟩ := openedBuild hb heng hpca hone hopen
  rw [← file_of_build hb hopen] at hopen
  obtain ⟨hcode, pca, children, bases, -, -, -, hidx⟩ := openIndex_inv hbuilt.index.committed hopen
  refine ⟨st, F, c, hbuilt, hbuilt.index, ?_, (codebookNamed_iff hbuilt.index.committed).mp hcode⟩
  rw [slotNames_isSome hbuilt.index.committed.named.plane, hidx]
  rfl

/-! ### Runs that are computed -/

def okOr {ε α : Type*} (a : α) : Except ε α → α
  | .ok b => b
  | .error _ => a

lemma eq_okOr {ε α : Type*} {x : Except ε α} (a : α) (h : x.isOk = true) : x = .ok (okOr a x) := by
  cases x with
  | ok b => rfl
  | error e => cases h

def Op.after (eng : Engine) (card : List (FilterRow s) → Bytes) (idx : Index s) (op : Op s) : Index s :=
  okOr idx (op.call eng card idx)

/-- Every call of a list returns and passes a check where it is made. -/
def allCalls (eng : Engine) (card : List (FilterRow s) → Bytes) (check : Index s → Op s → Bool) :
    Index s → List (Op s) → Bool
  | _, [] => true
  | idx, op :: ops => (op.call eng card idx).isOk && check idx op &&
      allCalls eng card check (op.after eng card idx) ops

lemma run_of_allCalls (check : Index s → Op s → Bool) {P : Index s → Op s → Prop}
    (hP : ∀ idx op, check idx op = true → P idx op) :
    ∀ (ops : List (Op s)) (idx : Index s), allCalls eng card check idx ops = true →
      Run (fun idx op => (op.call eng card idx).toOption) P idx ops
        (ops.foldl (Op.after eng card) idx)
  | [], idx, _ => .refl idx
  | op :: ops, idx, h => by
    rw [allCalls, Bool.and_eq_true, Bool.and_eq_true] at h
    obtain ⟨⟨hok, hop⟩, hrest⟩ := h
    exact ((Run.refl idx).tail op (hP idx op hop) (toOption_eq_some.mpr (eq_okOr idx hok))).append
      (run_of_allCalls check hP ops _ hrest)

instance (file : TreeFile s) (l : Leaf s) : Decidable (PayloadSmall file l) :=
  decidable_of_iff ((readPayload file l.payload).all fun b => b.length < 2 ^ 32 + 8 * l.count) <| by
    rw [PayloadSmall]
    cases readPayload file l.payload <;> simp

/-- A leaf has room for its points of a batch, and its payload extent is small. -/
def hasRoom (eng : Engine) (idx : Index s) (pts : List (InsertPoint s)) (id : ℕ) : Bool :=
  match readLeaf idx.file idx.leafTable id, routes eng idx pts with
  | .ok l, .ok ids => decide (PayloadSmall idx.file l) &&
      decide (l.count + (pointsFor pts ids id).length ≤ splitThreshold idx.manifest.leafCapacity)
  | _, _ => false

/-- The call is admissible on an index without filter columns. -/
def Op.passes (eng : Engine) (idx : Index s) : Op s → Bool
  | insert pts => decide (splitThreshold idx.manifest.leafCapacity ≠ 0) &&
      pts.all (fun p => (routeToLeafId eng idx p.vector).isOk) &&
      (!s.hasPayload || (List.range idx.leafTable.length).all (hasRoom eng idx pts))
  | defrag cfg => !cfg.shrinkFile
  | delete _ | vacuum _ | reopen => true

lemma Op.admissible_of_passes (hcols : s.columns = []) {op : Op s} (h : op.passes eng idx = true) :
    op.Admissible eng idx := by
  cases op with
  | insert pts =>
    simp only [Op.passes, Bool.and_eq_true, decide_eq_true_eq, List.all_eq_true, Bool.or_eq_true,
      Bool.not_eq_true', List.mem_range] at h
    obtain ⟨⟨hcap, hroutes⟩, hpay⟩ := h
    refine ⟨hcap, fun p hp hr => ?_, fun ids _ id _ l _ rs _ => .inl (by simp [hcols]),
      fun hp id l hl => ?_⟩
    · have hroute := hroutes p hp
      rw [hr] at hroute
      cases hroute
    · obtain hno | hroom := hpay
      · rw [hp] at hno
        cases hno
      · have hlt : id < idx.leafTable.length := by
          by_contra hge
          rw [readLeaf, List.getElem?_eq_none (not_lt.mp hge)] at hl
          cases hl
        have := hroom id hlt
        rw [hasRoom, hl] at this
        cases hids : routes eng idx pts with
        | error k => simp [hids] at this
        | ok ids =>
          simp only [hids, Bool.and_eq_true, decide_eq_true_eq] at this
          exact ⟨this.1, fun _ hids' => by cases hids'; exact this.2⟩
  | defrag cfg => simpa [Op.Admissible, Op.passes] using h
  | delete rowIds => trivial
  | vacuum cfg => trivial
  | reopen => trivial

def linePoint (id : RowId) (v : ℚ) : InsertPoint plainSchema := ⟨id, [v], [], [], fun _ => .nil⟩

def blankIndex (s : Schema) : Index s :=
  ⟨emptyFile s, initFresh 0 0, ⟨0, 0, 0, 0, 0, 0, 0, 0⟩, 0, [], [], PcaTables.off, false⟩

def pairBuild : BuildInput plainSchema := lineBuild plainSchema 2 0 [plainRow 7 0, plainRow 8 1]

def openedTwo : Index plainSchema :=
  okOr (blankIndex _) (openIndex (lineEngine plainSchema) (builtFile pairBuild))

/-- Three points, two of them in a leaf that is split; two rows deleted; a vacuum and a defrag that
commit after every leaf; the file opened again. -/
def busyCalls : List (Op plainSchema) :=
  [.insert [linePoint 1 0, linePoint 2 0, linePoint 3 1], .delete [7, 3], .vacuum ⟨1, true⟩,
    .defrag ⟨1, false⟩, .reopen]

def busyEnd : Index plainSchema :=
  busyCalls.foldl (Op.after (lineEngine plainSchema) fun _ => []) openedTwo

lemma pairBuild_returns :
    (build pairBuild (emptyFile _)).isOk = true ∧
      (∀ r ∈ pairBuild.corpus, pairBuild.targets r.vector ≠ []) ∧
      (∀ c < pairBuild.kRoot, (staged pairBuild c).length ≤ pairBuild.leafCap) ∧
      (openIndex (lineEngine plainSchema) (builtFile pairBuild)).isOk = true ∧
      allCalls (lineEngine plainSchema) (fun _ => []) (Op.passes (lineEngine plainSchema)) openedTwo
        busyCalls = true := by
  decide +kernel

lemma build_pairBuild : build pairBuild (emptyFile _) = .ok (builtFile pairBuild) :=
  build_eq_builtFile pairBuild_returns.1

lemma oneLeafEach_pairBuild : OneLeafEach pairBuild := .inr pairBuild_returns.2.2.1

lemma pcaShaped_pairBuild : PcaShaped pairBuild := fun m hm => by cases hm

lemma open_pairBuild : openIndex (lineEngine plainSchema) (builtFile pairBuild) = .ok openedTwo :=
  eq_okOr _ pairBuild_returns.2.2.2.1

lemma busy_run : MutationRun (lineEngine plainSchema) (fun _ => []) openedTwo busyCalls busyEnd :=
  run_of_allCalls (Op.passes _) (fun _ _ => Op.admissible_of_passes rfl) _ _
    pairBuild_returns.2.2.2.2

end SextantTree
