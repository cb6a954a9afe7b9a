import SextantTree.GlobJoin

/-!
The stream of the sharded source: a reset source delivers the rows of the shards in their order,
each with its number, its own columns and its labels, batch by batch to the end.
-/

namespace SextantTree.GlobSource

open FilterHash
open PushStage (View Value)

section Stream

variable {V : Type} {shards : List (ParquetFile V)} {labels : Option (ParquetFile Unit)}
  {config : Config} {g : ParquetGlobSource V} {k : ℕ} {cols : List FilterColumn}

lemma values_nil (b : Batch V) (i : ℕ) : b.values [] i = [] := rfl

lemma Aligned.cols_nil (hal : Aligned shards labels config)
    (h : labels.isSome ∨ config.vectorsOnly = true)
    (hcols : ∀ f ∈ shards, f.batches ≠ [] → f.columns = cols) {f : ParquetFile V} (hf : f ∈ shards)
    (hne : f.batches ≠ []) : cols = [] := by
  rw [← hcols f hf hne]
  exact hal.bare h f hf hne

lemma Running.ahead (h : Running shards labels config g k) (hread : Readers shards labels) :
    Delivers g (rowsBefore shards k) ((shards.flatMap (·.batches)).drop k)
      (g.advance (g.shards.length - g.position.shard) g.position) := by
  refine advance_spec (fun b hb => ?_) h.position le_rfl
  obtain ⟨f, hf, hbf⟩ := List.mem_flatMap.1 (List.mem_of_mem_drop hb)
  exact (hread.shards f hf b hbf).1

lemma Running.end (h : Running shards labels config g k) (hread : Readers shards labels)
    (hdrop : (shards.flatMap (·.batches)).drop k = []) : ∃ g', g.next = .ok (none, g') := by
  have hadv := h.ahead hread
  rw [hdrop] at hadv
  unfold ParquetGlobSource.next
  cases hr : g.advance (g.shards.length - g.position.shard) g.position with
  | mk c pos =>
    rw [hr] at hadv
    obtain ⟨rfl, -⟩ : c = none ∧ _ := hadv
    exact ⟨_, rfl⟩

lemma Running.next_plain (h : Running shards none config g k) (hread : Readers shards none)
    (hal : Aligned shards none config) (hcols : ∀ f ∈ shards, f.batches ≠ [] → f.columns = cols)
    (hschema : g.columns = cols ++ lschema none config) {b : Batch V}
    {rest : List (Batch V)} (hdrop : (shards.flatMap (·.batches)).drop k = b :: rest) :
    ∃ c g', g.next = .ok (some c, g') ∧ Running shards none config g' (k + 1) ∧
      g'.columns = g.columns ∧ c.rows g.columns
        = ((b.rows cols).zipIdx (rowsBefore shards k)).map (joinedRow none config.labelCols) := by
  have hadv := h.ahead hread
  rw [hdrop] at hadv
  obtain ⟨hrows, hrest, -, hmem⟩ := rowsBefore_succ hdrop
  obtain ⟨f, hf, hbf⟩ := List.mem_flatMap.1 hmem
  have hlabels : g.labels.isSome = false := by simp [h.isOver.sameLabels]
  have hcolumns : g.columns = cols := by
    rw [hschema]
    exact List.append_nil cols
  have hwidth : b.columns.length = cols.length :=
    (hread.shards f hf b hbf).2.2.trans (by rw [hcols f hf (List.ne_nil_of_mem hbf)])
  cases hr : g.advance (g.shards.length - g.position.shard) g.position with
  | mk c pos =>
    rw [hr] at hadv
    obtain ⟨hc, hpos⟩ : c = some (chunkOf (rowsBefore shards k) b) ∧ _ := hadv
    subst hc
    set c := if g.config.vectorsOnly = true
      then { chunkOf (rowsBefore shards k) b with filterColumns := none }
      else chunkOf (rowsBefore shards k) b with hc
    have hnext : g.next = .ok (some c, { g with position := pos }) := by
      unfold ParquetGlobSource.next
      rw [hr]
      dsimp only
      rw [hlabels]
      rfl
    refine ⟨c, _, hnext, ⟨⟨h.isOver.sameShards, h.isOver.sameLabels, h.isOver.sameConfig,
      h.isOver.columns, h.isOver.nLabelCols, h.isOver.bufs, h.isOver.ptrs⟩, ?_,
      fun l hl => nomatch hl⟩, rfl, ?_⟩
    · rw [hrows, hrest]
      exact hpos
    · rw [hcolumns]
      refine rows_eq_of_values (b := b) ?_ ?_ fun i _ => ?_
      · rw [hc]
        split_ifs <;> rfl
      · rw [hc]
        split_ifs <;> rfl
      · have hnolabels : labelValues none config.labelCols (rowsBefore shards k + i) = [] := rfl
        rw [hnolabels, List.append_nil]
        cases hvectors : g.config.vectorsOnly with
        | true =>
          have hnil : cols = [] := hal.cols_nil (Or.inr (h.isOver.sameConfig ▸ hvectors)) hcols hf
            (List.ne_nil_of_mem hbf)
          rw [hnil]
          rfl
        | false =>
          have hplain : c = chunkOf (rowsBefore shards k) b := by
            rw [hc, hvectors]
            rfl
          rw [hplain]
          exact values_chunkOf hwidth i

lemma Running.next_labelled {l : ParquetFile Unit} (h : Running shards (some l) config g k)
    (hread : Readers shards (some l)) (hal : Aligned shards (some l) config)
    (hcols : ∀ f ∈ shards, f.batches ≠ [] → f.columns = cols)
    (hschema : g.columns = cols ++ lschema (some l) config) {b : Batch V} {rest : List (Batch V)}
    (hdrop : (shards.flatMap (·.batches)).drop k = b :: rest) :
    ∃ c g', g.next = .ok (some c, g') ∧ Running shards (some l) config g' (k + 1) ∧
      g'.columns = g.columns ∧ c.rows g.columns
        = ((b.rows cols).zipIdx (rowsBefore shards k)).map
            (joinedRow (some l) config.labelCols) := by
  have hadv := h.ahead hread
  rw [hdrop] at hadv
  obtain ⟨hrows, hrest, htotal, hmem⟩ := rowsBefore_succ hdrop
  obtain ⟨f, hf, hbf⟩ := List.mem_flatMap.1 hmem
  have hlabels : g.labels.isSome = true := by simp [h.isOver.sameLabels]
  have hnil : cols = [] := hal.cols_nil (Or.inl rfl) hcols hf (List.ne_nil_of_mem hbf)
  have hcolumns : g.columns = labelSchema l.columns config.labelCols := by
    rw [hschema, hnil]
    rfl
  have hn : g.nLabelCols = (labelSchema l.columns config.labelCols).length := h.isOver.nLabelCols
  have henough : 0 < g.nLabelCols → rowsBefore shards k + b.count ≤ l.count := fun hlt => by
    have := hal.enough l rfl (List.ne_nil_of_length_pos (hn ▸ hlt))
    omega
  have hfew := (hread.shards f hf b hbf).2.1
  have hreg : LabelsRegular l g.nLabelCols := hn ▸ labelsRegular hread hal rfl
  obtain ⟨ahead, bufs, hens, hheld, hlen, hvalue⟩ :=
    (h.held l rfl).step (p := rowsBefore shards k) hreg hfew henough fun j hj => by
      have := hal.bytes l rfl j (hn ▸ hj) k
      rwa [hrows] at this
  cases hr : g.advance (g.shards.length - g.position.shard) g.position with
  | mk c pos =>
    rw [hr] at hadv
    obtain ⟨hc, hpos⟩ : c = some (chunkOf (rowsBefore shards k) b) ∧ _ := hadv
    subst hc
    set ptrs := ParquetGlobSource.consumeLabels bufs g.chunkFilterPtrs with hptrs
    have hnext : g.next = .ok
        (some { chunkOf (rowsBefore shards k) b with filterColumns := some ptrs }, { g with
          position := pos
          labelAhead := ahead
          labelBufs := bufs.map fun b' => { b' with head := b'.head + b.count }
          chunkFilterPtrs := ptrs }) := by
      unfold ParquetGlobSource.next
      rw [hr]
      dsimp only
      have hcount : (if g.config.vectorsOnly = true
          then { chunkOf (rowsBefore shards k) b with filterColumns := none }
          else chunkOf (rowsBefore shards k) b).vectors.length = b.count := by
        split_ifs <;> rfl
      rw [if_pos hlabels, hcount, hens]
      simp only [bind, Except.bind, pure, Except.pure]
      split_ifs <;> rfl
    refine ⟨_, _, hnext, ⟨⟨h.isOver.sameShards, h.isOver.sameLabels, h.isOver.sameConfig,
      h.isOver.columns, h.isOver.nLabelCols, ?_, ?_⟩, ?_, ?_⟩, rfl, ?_⟩
    · simp only [List.length_map, hlen]
    · simp only [hptrs, length_consumeLabels]
      exact h.isOver.ptrs
    · rw [hrows, hrest]
      exact hpos
    · intro l' hl'
      obtain rfl := Option.some.inj hl'
      rw [hrows]
      exact hheld
    · rw [hcolumns]
      refine rows_eq_of_values (b := b) rfl rfl fun i hi => ?_
      rw [hnil, values_nil, List.nil_append]
      refine values_labels hread hal rfl (fun hne => ?_) fun j hj =>
        ⟨(bufs.getD j {}).view, ?_, ?_⟩
      · have := henough (hn ▸ List.length_pos_of_ne_nil hne)
        omega
      · have hle : bufs.length ≤ g.chunkFilterPtrs.length := by
          rw [h.isOver.ptrs, hcolumns, hlen, hn]
        exact getElem?_consumeLabels hle (by omega)
      · exact hvalue j (by omega) i hi

lemma Running.next (h : Running shards labels config g k) (hread : Readers shards labels)
    (hal : Aligned shards labels config) (hcols : ∀ f ∈ shards, f.batches ≠ [] → f.columns = cols)
    (hschema : g.columns = cols ++ lschema labels config) {b : Batch V}
    {rest : List (Batch V)} (hdrop : (shards.flatMap (·.batches)).drop k = b :: rest) :
    ∃ c g', g.next = .ok (some c, g') ∧ Running shards labels config g' (k + 1) ∧
      g'.columns = g.columns ∧ c.rows g.columns
        = ((b.rows cols).zipIdx (rowsBefore shards k)).map (joinedRow labels config.labelCols) := by
  cases labels with
  | none => exact h.next_plain hread hal hcols hschema hdrop
  | some l => exact h.next_labelled hread hal hcols hschema hdrop

lemma Running.drain (h : Running shards labels config g k) (hread : Readers shards labels)
    (hal : Aligned shards labels config)
    (hcols : ∀ f ∈ shards, f.batches ≠ [] → f.columns = cols)
    (hschema : g.columns = cols ++ lschema labels config)
    {todo : List (Batch V)} (hdrop : (shards.flatMap (·.batches)).drop k = todo) {fuel : ℕ}
    (hfuel : todo.length < fuel) :
    ∃ chunks g', ParquetGlobSource.drain fuel g = .ok (some chunks, g') ∧
      chunks.flatMap (·.rows g.columns)
        = ((todo.flatMap (·.rows cols)).zipIdx (rowsBefore shards k)).map
            (joinedRow labels config.labelCols) := by
  induction todo generalizing g k fuel with
  | nil =>
    obtain ⟨fuel, rfl⟩ := Nat.exists_eq_add_of_lt hfuel
    obtain ⟨g', hnext⟩ := h.end hread hdrop
    refine ⟨[], g', ?_, rfl⟩
    simp only [List.length_nil, Nat.zero_add, ParquetGlobSource.drain, hnext]
    rfl
  | cons b rest ih =>
    obtain ⟨c, g₁, hnext, hrun, hcolumns, hrows⟩ := h.next hread hal hcols hschema hdrop
    obtain ⟨hsucc, hrest, -⟩ := rowsBefore_succ hdrop
    cases fuel with
    | zero => exact absurd hfuel (Nat.not_lt_zero _)
    | succ fuel =>
      obtain ⟨chunks, g', hdrain, hchunks⟩ :=
        ih hrun (hcolumns ▸ hschema) hrest (Nat.lt_of_succ_lt_succ hfuel)
      refine ⟨c :: chunks, g', ?_, ?_⟩
      · simp only [ParquetGlobSource.drain, hnext, bind, Except.bind, hdrain]
        rfl
      · have hlen : (b.rows cols).length = b.count := by simp [Batch.rows, Batch.count]
        rw [List.flatMap_cons, hrows, ← hcolumns, hchunks, List.flatMap_cons, List.zipIdx_append,
          List.map_append, hsucc, hlen]

lemma flatMap_rows (hcols : ∀ f ∈ shards, f.batches ≠ [] → f.columns = cols) :
    shards.flatMap ParquetFile.rows
      = (shards.flatMap (·.batches)).flatMap (·.rows cols) := by
  rw [List.flatMap_assoc]
  refine List.flatMap_congr fun f hf => ?_
  by_cases hne : f.batches = []
  · rw [ParquetFile.rows, hne]
    rfl
  · rw [ParquetFile.rows, hcols f hf hne]

/-- What the source promises: the columns of the schema are those of the shards and the selected
labels, and from a reset on it delivers the rows of the shards with their numbers, columns and
labels. -/
structure Joins (shards : List (ParquetFile V)) (labels : Option (ParquetFile Unit))
    (config : Config) (g : ParquetGlobSource V) : Prop where
  schema : ∀ f ∈ shards, f.batches ≠ [] → g.columns = f.columns ++ lschema labels config
  stream : ∃ n, ∀ fuel, n ≤ fuel → ∃ chunks g',
    ParquetGlobSource.drain fuel g.reset = .ok (some chunks, g') ∧
      chunks.flatMap (·.rows g.columns) = joined shards labels config.labelCols

lemma joins_of_empty (h : Over shards labels config g) (hread : Readers shards labels)
    (hempty : ¬ ∃ f ∈ shards, f.batches ≠ []) : Joins shards labels config g := by
  have hnone : ∀ f ∈ shards, f.batches = [] := fun f hf => by
    by_contra hne
    exact hempty ⟨f, hf, hne⟩
  have hbatches : shards.flatMap (·.batches) = [] := List.flatMap_eq_nil_iff.2 hnone
  refine ⟨fun f hf hne => absurd (hnone f hf) hne, 1, fun fuel hfuel => ?_⟩
  obtain ⟨fuel, rfl⟩ := Nat.exists_eq_add_of_le' hfuel
  obtain ⟨g', hnext⟩ := (running_reset h).end hread (by rw [hbatches]; rfl)
  refine ⟨[], g', ?_, ?_⟩
  · simp only [ParquetGlobSource.drain, hnext]
    rfl
  · have hrows : shards.flatMap ParquetFile.rows = [] :=
      List.flatMap_eq_nil_iff.2 fun f hf => by rw [ParquetFile.rows, hnone f hf]; rfl
    rw [joined, hrows]
    rfl

/-- Whatever the sizes of the shards and of the batches of both readers, and whatever was read
before: if the columns line up, a reset source delivers the rows of the shards joined with their
labels. A new source is a reset one. -/
theorem joins_of_aligned (shards : List (ParquetFile V)) (labels : Option (ParquetFile Unit))
    (config : Config) (hread : Readers shards labels)
    (hal : (∃ f ∈ shards, f.batches ≠ []) → Aligned shards labels config) :
    (∀ g, ParquetGlobSource.new shards labels config = .ok g → g.reset = g) ∧
      ∀ g, Reached shards labels config g → Joins shards labels config g := by
  refine ⟨fun g h => (over_new h).2, fun g h => ?_⟩
  by_cases hrows : ∃ f ∈ shards, f.batches ≠ []
  · have hal := hal hrows
    obtain ⟨first, hfirst, hcolumns⟩ := h.over.columns
    have hcols := hal.same first hfirst
    refine ⟨fun f hf hne => by rw [hcolumns, hcols f hf hne],
      (shards.flatMap (·.batches)).length + 1, fun fuel hfuel => ?_⟩
    obtain ⟨chunks, g', hdrain, hchunks⟩ :=
      (running_reset h.over).drain hread hal hcols hcolumns rfl hfuel
    refine ⟨chunks, g', hdrain, hchunks.trans ?_⟩
    rw [joined, flatMap_rows hcols]
    rfl
  · exact joins_of_empty h.over hread hrows

end Stream

/-! ### Two label files -/

/-- A batch of vectors that stand for themselves. -/
def bare (vectors : List ℕ) : Batch ℕ := { vectors := vectors, columns := [] }

def langs : ParquetFile Unit where
  columns := [{ name := "lang", type := .string }]
  batches :=
    [{ vectors := [()], columns := [.str [0, 2] [2] [101, 110] 2] },
      { vectors := [(), ()], columns := [.str [0, 2, 4] [2, 2] [102, 114, 100, 101] 4] }]

/-- Three rows in two shards, three labels in two batches. -/
theorem joins_of_aligned_langs :
    ∃ g : ParquetGlobSource ℕ,
      ParquetGlobSource.new [⟨[], [bare [7, 8]]⟩, ⟨[], [bare [9]]⟩] (some langs) {} = .ok g ∧
        Joins [⟨[], [bare [7, 8]]⟩, ⟨[], [bare [9]]⟩] (some langs) {} g := by
  refine ⟨_, rfl, (joins_of_aligned _ _ _ ⟨?_, ?_⟩ fun _ => ⟨?_, ?_, ?_, ?_, ?_, ?_⟩).2 _ (.new rfl)⟩
  · simp [bare, Batch.count]
  · rintro l hl b hb
    obtain rfl := Option.some.inj hl
    simp only [langs, List.mem_cons, List.not_mem_nil, or_false] at hb
    rcases hb with rfl | rfl
    all_goals
      refine ⟨by decide, by decide, rfl, fun j col hcol _ => ?_⟩
      obtain rfl : j = 0 := by
        have := (List.getElem?_eq_some_iff.1 hcol).1
        simpa [langs] using this
      exact ⟨_, _, _, _, rfl, by decide⟩
  · simp
  · simp
  · rintro l hl
    obtain rfl := Option.some.inj hl
    rfl
  · rintro l hl
    obtain rfl := Option.some.inj hl
    decide
  · rintro l hl
    obtain rfl := Option.some.inj hl
    decide
  · rintro l hl j hj k
    obtain rfl := Option.some.inj hl
    have hall : (labelColumn langs j).flatten.length < 2 ^ 32 := by
      obtain rfl : j = 0 := Nat.lt_one_iff.1 hj
      decide
    exact lt_of_le_of_lt (bytesBetween_le langs j _ _) hall

def twoLabels : ParquetFile Unit where
  columns := [{ name := "a", type := .string }, { name := "b", type := .string }]
  batches := [{ vectors := [()], columns := [.str [0, 1] [1] [120] 1, .str [0, 1] [1] [121] 1] }]

/-- Of two label columns the second is selected: the row comes with the string of the first. -/
theorem selection_reads_the_first_column :
    ∃ g : ParquetGlobSource ℕ,
      ParquetGlobSource.new [⟨[], [bare [7]]⟩] (some twoLabels) { labelCols := ["b"] } = .ok g ∧
        Readers [⟨[], [bare [7]]⟩] (some twoLabels) ∧
        (∀ n, ∃ c g', ParquetGlobSource.drain (n + 2) g.reset = .ok (some [c], g') ∧
          (c.rows g.columns).map Row.values = [[some (.str [120])]]) ∧
        (joined [⟨[], [bare [7]]⟩] (some twoLabels) ["b"]).map Row.values = [[some (.str [121])]] ∧
        ¬ Joins [⟨[], [bare [7]]⟩] (some twoLabels) { labelCols := ["b"] } g := by
  have hdrain : ∀ g : ParquetGlobSource ℕ,
      ParquetGlobSource.new [⟨[], [bare [7]]⟩] (some twoLabels) { labelCols := ["b"] } = .ok g →
      ∀ n, ∃ c g', ParquetGlobSource.drain (n + 2) g.reset = .ok (some [c], g') ∧
        (c.rows g.columns).map Row.values = [[some (.str [120])]] := by
    rintro g hg n
    obtain rfl := Except.ok.inj hg
    exact ⟨_, _, rfl, by decide⟩
  have hjoined : (joined [⟨[], [bare [7]]⟩] (some twoLabels) ["b"]).map Row.values
      = [[some (.str [121])]] := by decide
  refine ⟨_, rfl, ⟨by simp [bare, Batch.count], ?_⟩, hdrain _ rfl, hjoined, fun hjoins => ?_⟩
  · rintro l hl b hb
    obtain rfl := Option.some.inj hl
    simp only [twoLabels, List.mem_cons, List.not_mem_nil, or_false] at hb
    subst hb
    refine ⟨by decide, by decide, rfl, fun j col hcol _ => ?_⟩
    have hlt : j < 2 := (List.getElem?_eq_some_iff.1 hcol).1
    interval_cases j
    · exact ⟨_, _, _, _, rfl, by decide⟩
    · exact ⟨_, _, _, _, rfl, by decide⟩
  · obtain ⟨n, hstream⟩ := hjoins.stream
    obtain ⟨chunks, g', h, hrows⟩ := hstream (n + 2) (by omega)
    obtain ⟨c, g'', h', hc⟩ := hdrain _ rfl n
    rw [h'] at h
    obtain ⟨hchunks, -⟩ := Prod.ext_iff.1 (Except.ok.inj h)
    obtain rfl := Option.some.inj hchunks
    have := congrArg (List.map Row.values) hrows
    rw [hjoined] at this
    simp only [List.flatMap_cons, List.flatMap_nil, List.append_nil, hc] at this
    exact absurd this (by decide)

end SextantTree.GlobSource
