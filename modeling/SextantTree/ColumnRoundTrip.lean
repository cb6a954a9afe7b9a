import SextantTree.ColumnPack

/-!
Filter columns through the writer and back: the size calculator, the writer, the copying reader
and the views agree on every column as long as what the layout counts in 32 bits fits there.
-/

namespace SextantTree.ColumnBytes

open FilterHash ByteMem

namespace ColumnData

/-- A column of `count` rows whose arrays have what the rows refer to. -/
structure WellFormed (col : FilterColumn) (count : ℕ) (d : ColumnData) : Prop where
  mask : d.nullMask = [] ∨ count ≤ d.nullMask.length
  fixed : col.type ≠ .string → col.type ≠ .set → count * col.type.width ≤ d.fixedData.length
  strings : col.type = .string → count ≤ d.strOffsets.length ∧ count ≤ d.strLengths.length ∧
    ∀ i < count, d.strOff i + d.strLen i ≤ d.strData.length
  sets : col.type = .set → count ≤ d.setCounts.length ∧ count ≤ d.setOffsets.length ∧
    (∀ i < count, d.setOff i + d.setCount i ≤ d.setElemLengths.length) ∧
    d.elemStart d.setElemLengths.length ≤ d.setElemData.length

/-- What the layout counts in 32 bits fits: the string bytes of a String column together, and of
a Set column the elements of all rows together, the index of each element and where its bytes
start. -/
structure Addressable (col : FilterColumn) (count : ℕ) (d : ColumnData) : Prop where
  strings : col.type = .string → total d.strLen count < 2 ^ 32
  sets : col.type = .set → total d.setCount count < 2 ^ 32 ∧
    ∀ i < count, ∀ e < d.setCount i,
      d.setOff i + e < 2 ^ 32 ∧ d.elemStart (d.setOff i + e) < 2 ^ 32

end ColumnData

/-- Memory holds the data section of a column from `p` to `e`, and both readers find it. -/
structure DataRead (m : Mem) (count : ℕ) (col : FilterColumn) (d : ColumnData) (p e : ℕ) : Prop where
  readEnd : (readData m count col p).2 = e
  data : (readData m count col p).1 = d.packed col count
  readMask : (readData m count col p).1.nullMask = []
  parseEnd : (parseData m count col p).2 = e
  parseNulls : (parseData m count col p).1.nulls = none
  raw : ∀ i < count, (readData m count col p).1.raw col i = d.raw col i
  view : ∀ i < count, (readData m count col p).1.raw col i =
    some ((parseData m count col p).1.raw m i)
  hashes : ∀ i < count, (parseData m count col p).1.hashes m i =
    ((parseData m count col p).1.raw m i).hashes

/-! ### Strings -/

section Strings

variable {d : ColumnData} {m : Mem} {col : FilterColumn} {n p : ℕ}

lemma strLen_lt (d : ColumnData) (i : ℕ) : d.strLen i < 2 ^ 16 := UInt16.toNat_lt _

lemma word_of_holds {w pos i : ℕ} {f : ℕ → ℕ}
    (h : Holds m pos ((List.range n).flatMap fun i => leBytes w (f i))) (hi : i < n) (hf : f i < 256 ^ w) : word m w (pos + w * i) = f i :=
  (h.item (w := w) (fun _ _ => length_leBytes w _) (List.getElem?_range hi)).word hf

lemma slice_eq_some {b : Bytes} {pos len : ℕ} (h : pos + len ≤ b.length) :
    slice b pos len = some ((b.drop pos).take len) := if_pos h

lemma raw_string (hcol : col.type = .string) {i : ℕ}
    (h : d.strOff i + d.strLen i ≤ d.strData.length) : d.raw col i = some (.string (d.str i)) := by
  simp only [ColumnData.raw, hcol, slice_eq_some h]
  rfl

lemma length_str {i : ℕ} (h : d.strOff i + d.strLen i ≤ d.strData.length) :
    (d.str i).length = d.strLen i := by
  rw [ColumnData.str, List.length_take, List.length_drop]
  omega

lemma dataRead_strings (hcol : col.type = .string)
    (hin : ∀ i < n, d.strOff i + d.strLen i ≤ d.strData.length) (hsum : total d.strLen n < 2 ^ 32)
    (ho : Holds m p ((List.range n).flatMap fun i => leBytes 4 (total d.strLen i % 2 ^ 32)))
    (hl : Holds m (p + n * 4) ((List.range n).flatMap fun i => leBytes 2 (d.strLen i)))
    (hh : Holds m (align4 (p + n * 4 + n * 2))
      ((List.range n).flatMap fun i => leBytes 4 (filterHash (d.str i)).toNat))
    (hq : Holds m (align4 (p + n * 4 + n * 2) + n * 4) ((List.range n).flatMap d.str)) :
    DataRead m n col d p (align4 (p + n * 4 + n * 2) + n * 4 + total d.strLen n) := by
  have hstr : ∀ i < n, (d.str i).length = d.strLen i := fun i hi => length_str (hin i hi)
  have hlt : ∀ i ≤ n, total d.strLen i < 2 ^ 32 := fun i hi => (total_mono _ hi).trans_lt hsum
  have hword : ∀ i < n, word m 2 (p + n * 4 + 2 * i) = d.strLen i := fun i hi =>
    word_of_holds hl hi (strLen_lt d i)
  have hoff : ∀ i < n, word m 4 (p + 4 * i) = total d.strLen i := fun i hi =>
    (word_of_holds ho hi (Nat.mod_lt _ (by norm_num))).trans (Nat.mod_eq_of_lt (hlt i hi.le))
  have hlens : (List.range n).map (fun i => word m 2 (p + n * 4 + 2 * i)) =
      (List.range n).map d.strLen :=
    List.map_congr_left fun i hi => hword i (List.mem_range.mp hi)
  have hdata := hq.peek
  rw [length_flatMap_range hstr] at hdata
  have hread : readData m n col p =
      ({ type := .string, strOffsets := (List.range n).map fun i => UInt32.ofNat (total d.strLen i),
         strLengths := ((List.range n).map d.strLen).map UInt16.ofNat,
         strData := (List.range n).flatMap d.str },
        align4 (p + n * 4 + n * 2) + n * 4 + total d.strLen n) := by
    simp only [readData, hcol, hlens, runOffsets_range hsum, hdata]
  have hparse : parseData m n col p =
      ({ type := .string, strOffsets := p, strLengths := p + n * 4,
         strHashes := align4 (p + n * 4 + n * 2), strData := align4 (p + n * 4 + n * 2) + n * 4 },
        align4 (p + n * 4 + n * 2) + n * 4 + total d.strLen n) := by
    simp only [parseData, hcol]
    congr 2
    -- The last string's offset and length give the size of the data.
    cases n with
    | zero => rfl
    | succ k =>
      rw [if_neg (by omega), Nat.add_sub_cancel, hoff k (by omega), hword k (by omega),
        ← total_succ, Nat.mod_eq_of_lt hsum]
  have hraw : ∀ i < n, (readData m n col p).1.raw col i = some (.string (d.str i)) := by
    intro i hi
    have hso : (readData m n col p).1.strOff i = total d.strLen i := by
      rw [hread]
      simpa [ColumnData.strOff, hi] using hlt i hi.le
    have hsl : (readData m n col p).1.strLen i = d.strLen i := by
      rw [hread]
      simp [ColumnData.strLen, hi]
    have hsd : (readData m n col p).1.strData = (List.range n).flatMap d.str := by rw [hread]
    have hb := total_add_le d.strLen hi
    rw [raw_string hcol, ColumnData.str, hso, hsl, hsd, slice_flatMap_range hstr hi]
    rw [hso, hsl, hsd, length_flatMap_range hstr]
    exact hb
  have hview : ∀ i < n, (parseData m n col p).1.raw m i = .string (d.str i) := by
    intro i hi
    have hpiece := (hq.piece hstr hi).peek
    rw [hstr i hi] at hpiece
    rw [hparse]
    simp only [ColumnView.raw, hoff i hi, hword i hi, hpiece]
  have hpacked : (readData m n col p).1 = d.packed col n := by
    rw [hread]
    simp only [ColumnData.packed, hcol, ColumnData.withStrings, offsetsOf_range hstr, lengthsOf,
      flatten_map_range, List.map_map]
    congr 1
    refine List.map_congr_left fun i hi => ?_
    simp only [Function.comp, hstr i (List.mem_range.mp hi)]
  refine ⟨by rw [hread], hpacked, by rw [hread], by rw [hparse], by rw [hparse], ?_, ?_, ?_⟩
  · intro i hi
    rw [hraw i hi, raw_string hcol (hin i hi)]
  · intro i hi
    rw [hraw i hi, hview i hi]
  · intro i hi
    rw [hview i hi, hparse]
    simp only [ColumnView.hashes, RawCell.hashes]
    rw [word_of_holds hh hi (UInt32.toNat_lt _)]

end Strings

/-! ### Sets -/

section Sets

variable {d : ColumnData} {m : Mem} {col : FilterColumn} {n p q : ℕ} {es : List Bytes}

lemma head_of_holds {b : Bytes} (h : Holds m q ((b :: es).flatMap elemRecord))
    (hlen : b.length < 2 ^ 16) : word m 2 q = b.length ∧ peek m (q + 2) b.length = b ∧
      Holds m (q + 2 + b.length) (es.flatMap elemRecord) := by
  rw [List.flatMap_cons] at h
  have hrec := h.left
  rw [elemRecord] at hrec
  have hb := hrec.right.peek
  rw [length_leBytes] at hb
  have hrest := h.right
  rw [length_elemRecord, ← Nat.add_assoc] at hrest
  exact ⟨hrec.left.word hlen, hb, hrest⟩

lemma readElems_of_holds (h : Holds m q (es.flatMap elemRecord))
    (hlen : ∀ b ∈ es, b.length < 2 ^ 16) :
    readElems m es.length q =
      (es.map fun b => UInt16.ofNat b.length, es.flatten, q + (es.flatMap elemRecord).length) := by
  induction es generalizing q with
  | nil => rfl
  | cons b es ih =>
    obtain ⟨hw, hb, hrest⟩ := head_of_holds h (hlen b List.mem_cons_self)
    have := ih hrest fun b hb => hlen b (List.mem_cons_of_mem _ hb)
    simp only [List.length_cons, readElems, hw, hb, this, List.map_cons, List.flatten_cons,
      List.flatMap_cons, List.length_append, length_elemRecord]
    simp only [Nat.add_assoc]

lemma skipElems_of_holds (h : Holds m q (es.flatMap elemRecord))
    (hlen : ∀ b ∈ es, b.length < 2 ^ 16) {k : ℕ} (hk : k ≤ es.length) :
    skipElems m k q = q + ((es.take k).flatMap elemRecord).length := by
  induction es generalizing q k with
  | nil =>
    obtain rfl : k = 0 := by simpa using hk
    rfl
  | cons b es ih =>
    cases k with
    | zero => rfl
    | succ k =>
      obtain ⟨hw, -, hrest⟩ := head_of_holds h (hlen b List.mem_cons_self)
      have := ih hrest (fun b hb => hlen b (List.mem_cons_of_mem _ hb)) (Nat.le_of_succ_le_succ hk)
      simp only [skipElems, hw, this, List.take_succ_cons, List.flatMap_cons, List.length_append,
        length_elemRecord]
      omega

lemma elems_of_holds (h : Holds m q (es.flatMap elemRecord))
    (hlen : ∀ b ∈ es, b.length < 2 ^ 16) {k : ℕ} (hk : k ≤ es.length) :
    ColumnView.elems m k q = es.take k := by
  induction es generalizing q k with
  | nil =>
    obtain rfl : k = 0 := by simpa using hk
    rfl
  | cons b es ih =>
    cases k with
    | zero => rfl
    | succ k =>
      obtain ⟨hw, hb, hrest⟩ := head_of_holds h (hlen b List.mem_cons_self)
      have := ih hrest (fun b hb => hlen b (List.mem_cons_of_mem _ hb)) (Nat.le_of_succ_le_succ hk)
      simp only [ColumnView.elems, hw, hb, this, List.take_succ_cons]

lemma holds_drop (h : Holds m q (es.flatMap elemRecord)) (k : ℕ) :
    Holds m (q + ((es.take k).flatMap elemRecord).length) ((es.drop k).flatMap elemRecord) := by
  rw [← List.take_append_drop k es, List.flatMap_append] at h
  exact h.right

lemma slice_flatten {k : ℕ} {b : Bytes} (hk : es[k]? = some b) :
    slice es.flatten ((es.take k).map List.length).sum b.length = some b := by
  induction es generalizing k with
  | nil => simp at hk
  | cons x es ih =>
    cases k with
    | zero =>
      obtain rfl : x = b := by simpa using hk
      simp [slice]
    | succ k =>
      have := ih (by simpa using hk)
      rw [slice] at this ⊢
      split at this
      · rename_i hle
        rw [if_pos]
        · rw [List.take_succ_cons, List.map_cons, List.sum_cons, List.flatten_cons,
            List.drop_append, List.drop_of_length_le (by omega), Nat.add_sub_cancel_left,
            List.nil_append]
          exact this
        · simp only [List.take_succ_cons, List.map_cons, List.sum_cons, List.flatten_cons,
            List.length_append]
          omega
      · cases this

lemma mapM_slice_eq {f : ℕ → Option Bytes} {g : ℕ → Bytes} {k : ℕ}
    (h : ∀ e < k, f e = some (g e)) : (List.range k).mapM f = some ((List.range k).map g) := by
  induction k with
  | zero => rfl
  | succ k ih =>
    rw [List.range_succ, List.mapM_append, ih fun e he => h e (by omega)]
    simp [h k (by omega)]

lemma elemStart_of_lengths {d' : ColumnData} {k : ℕ} (hlen : ∀ b ∈ es, b.length < 2 ^ 16)
    (hd : d'.setElemLengths = es.map fun b => UInt16.ofNat b.length) :
    d'.elemStart k = ((es.take k).map List.length).sum := by
  rw [ColumnData.elemStart, hd, ← List.map_take, List.map_map]
  refine congrArg List.sum (List.map_congr_left fun b hb => ?_)
  have := hlen b (List.mem_of_mem_take hb)
  simp only [Function.comp, UInt16.toNat_ofNat']
  omega

lemma setCount_lt (d : ColumnData) (i : ℕ) : d.setCount i < 2 ^ 8 := UInt8.toNat_lt _

lemma elemStart_succ_le {k : ℕ} (hk : k < d.setElemLengths.length) :
    d.elemStart k + d.elemLen k ≤ d.elemStart d.setElemLengths.length := by
  have hsplit : d.setElemLengths = d.setElemLengths.take k ++
      (d.setElemLengths[k] :: d.setElemLengths.drop (k + 1)) := by
    rw [List.cons_getElem_drop_succ, List.take_append_drop]
  have hlen : d.elemLen k = d.setElemLengths[k].toNat := by
    simp [ColumnData.elemLen, hk]
  rw [ColumnData.elemStart, ColumnData.elemStart, List.take_length, hlen]
  conv_rhs => rw [hsplit]
  rw [List.map_append, List.sum_append, List.map_cons, List.sum_cons]
  omega

lemma length_elem {k : ℕ} (h : d.elemStart k + d.elemLen k ≤ d.setElemData.length) :
    (d.elem k).length = d.elemLen k := by
  rw [ColumnData.elem, List.length_take, List.length_drop]
  omega

lemma raw_set (hcol : col.type = .set) {i : ℕ}
    (h : ∀ e < d.setCount i, d.elemStart (d.setOff i + e) + d.elemLen (d.setOff i + e) ≤
      d.setElemData.length) : d.raw col i = some (.set (d.rowElems i)) := by
  simp only [ColumnData.raw, hcol]
  rw [mapM_slice_eq fun e he => slice_eq_some (h e he)]
  rfl

lemma drop_take_elems (d : ColumnData) {i : ℕ} (hi : i < n) :
    ((d.elems n).drop (total d.setCount i)).take (d.setCount i) = d.rowElems i :=
  slice_flatMap_range (fun i _ => d.length_rowElems i) hi

lemma getElem?_elems (d : ColumnData) {i e : ℕ} (hi : i < n) (he : e < d.setCount i) :
    (d.elems n)[total d.setCount i + e]? = some (d.elem (d.setOff i + e)) := by
  have h := congrArg (·[e]?) (drop_take_elems d hi)
  simp only [List.getElem?_take_of_lt he, List.getElem?_drop] at h
  rw [h]
  simp [ColumnData.rowElems, he]

lemma map_toNat_counts (d : ColumnData) (n : ℕ) :
    (((List.range n).map fun i => UInt8.ofNat (d.setCount i)).map UInt8.toNat) =
      (List.range n).map d.setCount := by
  rw [List.map_map]
  refine List.map_congr_left fun i _ => ?_
  have := setCount_lt d i
  simp only [Function.comp, UInt8.toNat_ofNat']
  omega

lemma dataRead_sets (hcol : col.type = .set)
    (hin : ∀ i < n, ∀ e < d.setCount i,
      d.elemStart (d.setOff i + e) + d.elemLen (d.setOff i + e) ≤ d.setElemData.length)
    (hsum : total d.setCount n < 2 ^ 32)
    (hc : Holds m p ((List.range n).map fun i => UInt8.ofNat (d.setCount i)))
    (ho : Holds m (align4 (p + n * 1))
      ((List.range n).flatMap fun i => leBytes 4 (total d.setCount i)))
    (hh : Holds m (align4 (p + n * 1) + n * 4) ((d.elems n).flatMap hashWord))
    (hq : Holds m (align4 (p + n * 1) + n * 4 + total d.setCount n * 4)
      ((d.elems n).flatMap elemRecord)) :
    DataRead m n col d p (align4 (p + n * 1) + n * 4 + total d.setCount n * 4 +
      ((d.elems n).flatMap elemRecord).length) := by
  have hlt : ∀ i ≤ n, total d.setCount i < 2 ^ 32 := fun i hi => (total_mono _ hi).trans_lt hsum
  have hoff : ∀ i < n, word m 4 (align4 (p + n * 1) + 4 * i) = total d.setCount i := fun i hi =>
    word_of_holds ho hi (hlt i hi.le)
  have hcount : ∀ i < n, (m (p + i)).toNat = d.setCount i := by
    intro i hi
    have := setCount_lt d i
    rw [hc i (UInt8.ofNat (d.setCount i)) (by simp [hi]), UInt8.toNat_ofNat']
    omega
  have hpeek := hc.peek
  rw [List.length_map, List.length_range] at hpeek
  have hcounts : ((peek m p n).map UInt8.toNat) = (List.range n).map d.setCount := by
    rw [hpeek, map_toNat_counts]
  have helem : ∀ b ∈ d.elems n, b.length < 2 ^ 16 := by
    intro b hb
    obtain ⟨i, hi, hb⟩ := List.mem_flatMap.mp hb
    obtain ⟨e, he, rfl⟩ := List.mem_map.mp hb
    rw [length_elem (hin i (List.mem_range.mp hi) e (List.mem_range.mp he))]
    exact UInt16.toNat_lt _
  have hlen := d.length_elems n
  have hmod : total d.setCount n % 2 ^ 32 = total d.setCount n := Nat.mod_eq_of_lt hsum
  have hsumc : ((List.range n).map d.setCount).sum = total d.setCount n := rfl
  have helems := readElems_of_holds hq helem
  rw [hlen] at helems
  have hread : readData m n col p =
      ({ type := .set, setCounts := peek m p n,
         setOffsets := (List.range n).map fun i => UInt32.ofNat (total d.setCount i),
         setElemLengths := (d.elems n).map fun b => UInt16.ofNat b.length,
         setElemData := (d.elems n).flatten },
        align4 (p + n * 1) + n * 4 + total d.setCount n * 4 +
          ((d.elems n).flatMap elemRecord).length) := by
    simp only [readData, hcol, hcounts, hsumc, hmod, runOffsets_range hsum, helems]
  have hparse : parseData m n col p =
      ({ type := .set, setCounts := p, setOffsets := align4 (p + n * 1),
         setHashes := align4 (p + n * 1) + n * 4,
         setData := align4 (p + n * 1) + n * 4 + total d.setCount n * 4 },
        align4 (p + n * 1) + n * 4 + total d.setCount n * 4 +
          ((d.elems n).flatMap elemRecord).length) := by
    simp only [parseData, hcol, hcounts, hsumc, hmod]
    rw [skipElems_of_holds hq helem hlen.ge, ← hlen, List.take_length]
  have hraw : ∀ i < n, (readData m n col p).1.raw col i = some (.set (d.rowElems i)) := by
    intro i hi
    have hsc : (readData m n col p).1.setCount i = d.setCount i := by
      rw [← hcount i hi, hread]
      simp [ColumnData.setCount, peek, hi]
    have hso : (readData m n col p).1.setOff i = total d.setCount i := by
      rw [hread]
      simpa [ColumnData.setOff, hi] using hlt i hi.le
    have hstart : ∀ k, (readData m n col p).1.elemStart k =
        (((d.elems n).take k).map List.length).sum := fun k =>
      elemStart_of_lengths helem (by rw [hread])
    have hdata : (readData m n col p).1.setElemData = (d.elems n).flatten := by rw [hread]
    have hel : ∀ e < d.setCount i, (readData m n col p).1.elemLen (total d.setCount i + e) =
        (d.elem (d.setOff i + e)).length := by
      intro e he
      have hmem := getElem?_elems d hi he
      have := helem _ (List.mem_of_getElem? hmem)
      rw [hread]
      simp only [ColumnData.elemLen, List.getD_eq_getElem?_getD, List.getElem?_map, hmem,
        Option.map_some, Option.getD_some, UInt16.toNat_ofNat']
      omega
    simp only [ColumnData.raw, hcol, hsc, hso, hdata, hstart]
    rw [mapM_slice_eq fun e he => by
      rw [hel e he]
      exact slice_flatten (getElem?_elems d hi he)]
    rfl
  have hview : ∀ i < n, (parseData m n col p).1.raw m i = .set (d.rowElems i) := by
    intro i hi
    have hle := total_add_le d.setCount hi
    rw [hparse]
    simp only [ColumnView.raw, hcount i hi, hoff i hi]
    rw [skipElems_of_holds hq helem (by omega), elems_of_holds (holds_drop hq _)
      (fun b hb => helem b (List.mem_of_mem_drop hb)) (by rw [List.length_drop]; omega),
      drop_take_elems d hi]
  have hpacked : (readData m n col p).1 = d.packed col n := by
    rw [hread, hpeek]
    simp only [ColumnData.packed, hcol, ColumnData.withSets,
      offsetsOf_range (fun i _ => d.length_rowElems i), lengthsOf, flatten_map_range, List.map_map]
    congr 1
    refine List.map_congr_left fun i _ => ?_
    simp only [Function.comp, ColumnData.length_rowElems]
  refine ⟨by rw [hread], hpacked, by rw [hread], by rw [hparse], by rw [hparse], ?_, ?_, ?_⟩
  · intro i hi
    rw [hraw i hi, raw_set hcol (hin i hi)]
  · intro i hi
    rw [hraw i hi, hview i hi]
  · intro i hi
    rw [hview i hi, hparse]
    simp only [ColumnView.hashes, RawCell.hashes, hcount i hi, hoff i hi, ColumnData.rowElems,
      List.map_map]
    refine List.map_congr_left fun e he => ?_
    have he' := List.mem_range.mp he
    exact (hh.item (w := 4) (fun b _ => length_hashWord b) (getElem?_elems d hi he')).word
      (UInt32.toNat_lt _)

end Sets

/-! ### Fixed-width columns -/

section Fixed

variable {d : ColumnData} {m : Mem} {col : FilterColumn} {n p : ℕ}

lemma writeData_fixed (hs : col.type ≠ .string) (ht : col.type ≠ .set) (st : Mem × ℕ) :
    writeData n col d st =
      (poke st.1 st.2 (d.fixedData.take (n * col.type.width)), st.2 + n * col.type.width) := by
  unfold writeData
  cases h : col.type <;> simp_all

lemma readData_fixed (hs : col.type ≠ .string) (ht : col.type ≠ .set) :
    readData m n col p = ({ type := col.type, fixedData := peek m p (n * col.type.width) },
      p + n * col.type.width) := by
  unfold readData
  cases h : col.type <;> simp_all

lemma parseData_fixed (hs : col.type ≠ .string) (ht : col.type ≠ .set) :
    parseData m n col p = ({ type := col.type, fixedBase := p, fixedWidth := col.type.width },
      p + n * col.type.width) := by
  unfold parseData
  cases h : col.type <;> simp_all

lemma raw_fixed (hs : col.type ≠ .string) (ht : col.type ≠ .set) (i : ℕ) :
    d.raw col i = (slice d.fixedData (i * col.type.width) col.type.width).map .fixed := by
  unfold ColumnData.raw
  cases h : col.type <;> simp_all

lemma dataRead_fixed (hs : col.type ≠ .string) (ht : col.type ≠ .set)
    (hin : n * col.type.width ≤ d.fixedData.length)
    (h : Holds m p (d.fixedData.take (n * col.type.width))) :
    DataRead m n col d p (p + n * col.type.width) := by
  have hlen : (d.fixedData.take (n * col.type.width)).length = n * col.type.width := by
    rw [List.length_take, Nat.min_eq_left hin]
  have hrow : ∀ i < n, i * col.type.width + col.type.width ≤ n * col.type.width := by
    intro i hi
    rw [← Nat.succ_mul]
    exact Nat.mul_le_mul_right _ hi
  have hpeek := h.peek
  rw [hlen] at hpeek
  have hraw : ∀ i < n, d.raw col i =
      some (.fixed ((d.fixedData.drop (i * col.type.width)).take col.type.width)) := by
    intro i hi
    rw [raw_fixed hs ht, slice_eq_some ((hrow i hi).trans hin)]
    rfl
  have hread : ∀ i < n, (readData m n col p).1.raw col i = d.raw col i := by
    intro i hi
    rw [hraw i hi, raw_fixed hs ht, readData_fixed hs ht]
    dsimp only
    rw [hpeek, slice_eq_some (by rw [hlen]; exact hrow i hi), List.drop_take, List.take_take]
    have := hrow i hi
    rw [Nat.min_eq_left (by omega)]
    rfl
  have hview : ∀ i < n, (parseData m n col p).1.raw m i =
      .fixed ((d.fixedData.drop (i * col.type.width)).take col.type.width) := by
    intro i hi
    have hle := hrow i hi
    have hsl : peek m (p + i * col.type.width) col.type.width =
        ((d.fixedData.take (n * col.type.width)).drop (i * col.type.width)).take col.type.width :=
      h.slice (by rw [hlen]; exact hle)
    rw [List.drop_take, List.take_take, Nat.min_eq_left (by omega)] at hsl
    rw [parseData_fixed hs ht]
    unfold ColumnView.raw
    cases hty : col.type <;> simp_all
  have hpacked : (readData m n col p).1 = d.packed col n := by
    rw [readData_fixed hs ht, hpeek, take_eq_rows]
    unfold ColumnData.packed
    cases hty : col.type <;> first | rfl | exact absurd hty hs | exact absurd hty ht
  refine ⟨by rw [readData_fixed hs ht], hpacked, by rw [readData_fixed hs ht],
    by rw [parseData_fixed hs ht], by rw [parseData_fixed hs ht], hread, ?_, ?_⟩
  · intro i hi
    rw [hread i hi, hraw i hi, hview i hi]
  · intro i hi
    rw [hview i hi, parseData_fixed hs ht]
    unfold ColumnView.hashes
    cases hty : col.type <;> simp_all [RawCell.hashes]

end Fixed

/-! ### A column -/

section Column

variable {d : ColumnData} {m m' : Mem} {col : FilterColumn} {n p : ℕ}

/-- Where the data section of a column that starts at `p` ends. -/
def dataEnd (n : ℕ) (col : FilterColumn) (d : ColumnData) (p : ℕ) : ℕ :=
  match col.type with
  | .string => align4 (p + n * (4 + 2)) + n * 4 + total d.strLen n
  | .set =>
    align4 (p + n * 1) + n * 4 + total d.setCount n * 4 +
      total (fun i => total (fun e => 2 + d.elemLen ((d.setOff i + e) % 2 ^ 32)) (d.setCount i)) n
  | t => p + n * t.width

lemma columnBytes_eq (n : ℕ) (col : FilterColumn) (d : ColumnData) (p : ℕ) :
    columnBytes n col d p =
      align4 (if col.nullable then dataEnd n col d p + n else dataEnd n col d p) := by
  unfold columnBytes dataEnd
  cases col.type <;> rfl

/-- The writer's data section: where it ends, that it stays inside, and what it is read as. -/
structure DataWritten (m : Mem) (n : ℕ) (col : FilterColumn) (d : ColumnData) (p : ℕ)
    (st : Mem × ℕ) : Prop where
  finish : st.2 = dataEnd n col d p
  le : p ≤ st.2
  frame : ∀ i, i < p ∨ st.2 ≤ i → st.1 i = m i
  read : ∀ m', (∀ i, p ≤ i → i < st.2 → m' i = st.1 i) → DataRead m' n col d p st.2

lemma dataWritten_strings (hcol : col.type = .string)
    (hin : ∀ i < n, d.strOff i + d.strLen i ≤ d.strData.length)
    (hsum : total d.strLen n < 2 ^ 32) :
    DataWritten m n col d p (writeData n col d (m, p)) := by
  have hstr : ∀ i < n, (d.str i).length = d.strLen i := fun i hi => length_str (hin i hi)
  have hal := le_align4 (p + n * 4 + n * 2)
  have hat : StringsAt d m p (p + n * 4) (align4 (p + n * 4 + n * 2))
      (align4 (p + n * 4 + n * 2) + n * 4) n _ :=
    writeStrings_spec ⟨by omega, by omega, by omega⟩ hstr
  have hlo := length_words 4 n fun i => total d.strLen i % 2 ^ 32
  have hll := length_words 2 n d.strLen
  have hlh := length_words 4 n fun i => (filterHash (d.str i)).toNat
  have hlq := length_flatMap_range hstr
  simp only [writeData, hcol]
  refine ⟨?_, ?_, fun i hi => hat.frame i ?_, fun m' hm' => ?_⟩
  · rw [hat.pos, dataEnd, hcol]
    simp only [Nat.mul_add, Nat.add_assoc]
  · rw [hat.pos]
    omega
  · rwa [hat.pos] at hi
  · rw [hat.pos] at hm' ⊢
    exact dataRead_strings hcol hin hsum
      (hat.offsets.congr fun i h₁ h₂ => hm' i h₁ (by rw [hlo] at h₂; omega))
      (hat.lengths.congr fun i h₁ h₂ => hm' i (by omega) (by rw [hll] at h₂; omega))
      (hat.hashes.congr fun i h₁ h₂ => hm' i (by omega) (by rw [hlh] at h₂; omega))
      (hat.data.congr fun i h₁ h₂ => hm' i (by omega) (by rwa [hlq] at h₂))

lemma length_records
    (hin : ∀ i < n, ∀ e < d.setCount i,
      d.elemStart (d.setOff i + e) + d.elemLen (d.setOff i + e) ≤ d.setElemData.length)
    (haddr : ∀ i < n, ∀ e < d.setCount i, d.setOff i + e < 2 ^ 32) :
    ((d.elems n).flatMap elemRecord).length =
      total (fun i => total (fun e => 2 + d.elemLen ((d.setOff i + e) % 2 ^ 32)) (d.setCount i))
        n := by
  rw [ColumnData.elems, List.flatMap_assoc]
  refine length_flatMap_range fun i hi => ?_
  rw [ColumnData.rowElems, List.flatMap_map]
  refine length_flatMap_range fun e he => ?_
  rw [length_elemRecord, length_elem (hin i hi e he), Nat.mod_eq_of_lt (haddr i hi e he)]

lemma dataWritten_sets (hcol : col.type = .set)
    (hin : ∀ i < n, ∀ e < d.setCount i,
      d.elemStart (d.setOff i + e) + d.elemLen (d.setOff i + e) ≤ d.setElemData.length)
    (hsum : total d.setCount n < 2 ^ 32)
    (haddr : ∀ i < n, ∀ e < d.setCount i,
      d.setOff i + e < 2 ^ 32 ∧ d.elemStart (d.setOff i + e) < 2 ^ 32) :
    DataWritten m n col d p (writeData n col d (m, p)) := by
  have hal := le_align4 (p + n * 1)
  have hmod : total d.setCount n % 2 ^ 32 = total d.setCount n := Nat.mod_eq_of_lt hsum
  have hat : SetsAt d m p (align4 (p + n * 1)) (align4 (p + n * 1) + n * 4)
      (align4 (p + n * 1) + n * 4 + total d.setCount n * 4) n (d.elems n) _ :=
    writeSets_spec ⟨by omega, by omega, by omega⟩ hsum fun i hi e he =>
      ⟨(haddr i hi e he).1, (haddr i hi e he).2, length_elem (hin i hi e he)⟩
  have hlc : ((List.range n).map fun i => UInt8.ofNat (d.setCount i)).length = n := by simp
  have hlo := length_words 4 n (total d.setCount)
  have hlh := length_hashWords (d.elems n)
  have hle := d.length_elems n
  have hrecs := length_records hin fun i hi e he => (haddr i hi e he).1
  have hw : writeData n col d (m, p) = writeSets d p (align4 (p + n * 1))
      (align4 (p + n * 1) + n * 4) (List.range n) 0
      (m, align4 (p + n * 1) + n * 4 + total d.setCount n * 4) := by
    simp only [writeData, hcol]
    rw [← hmod]
    rfl
  rw [hw]
  refine ⟨?_, ?_, fun i hi => hat.frame i ?_, fun m' hm' => ?_⟩
  · rw [hat.pos, hrecs, dataEnd, hcol]
  · rw [hat.pos]
    omega
  · rwa [hat.pos] at hi
  · rw [hat.pos] at hm' ⊢
    exact dataRead_sets hcol hin hsum
      (hat.counts.congr fun i h₁ h₂ => hm' i h₁ (by rw [hlc] at h₂; omega))
      (hat.offsets.congr fun i h₁ h₂ => hm' i (by omega) (by rw [hlo] at h₂; omega))
      (hat.hashes.congr fun i h₁ h₂ => hm' i (by omega) (by rw [hlh, hle] at h₂; omega))
      (hat.data.congr fun i h₁ h₂ => hm' i (by omega) h₂)

lemma dataWritten (wf : d.WellFormed col n) (ha : d.Addressable col n) :
    DataWritten m n col d p (writeData n col d (m, p)) := by
  by_cases hs : col.type = .string
  · exact dataWritten_strings hs (wf.strings hs).2.2 (ha.strings hs)
  by_cases ht : col.type = .set
  · obtain ⟨hsum, haddr⟩ := ha.sets ht
    obtain ⟨-, -, hrows, hdata⟩ := wf.sets ht
    refine dataWritten_sets ht (fun i hi e he => ?_) hsum haddr
    have := hrows i hi
    exact (elemStart_succ_le (by omega)).trans hdata
  · have hin := wf.fixed hs ht
    have hlen : (d.fixedData.take (n * col.type.width)).length = n * col.type.width := by
      rw [List.length_take, Nat.min_eq_left hin]
    rw [writeData_fixed hs ht]
    refine ⟨?_, by dsimp only; omega, fun i hi => ?_, fun m' hm' => ?_⟩
    · unfold dataEnd
      cases h : col.type <;> simp_all
    · rcases hi with hi | hi
      · exact poke_apply_of_lt hi
      · exact poke_apply_of_le (by rw [hlen]; exact hi)
    · refine dataRead_fixed hs ht hin ((holds_poke_self m p _).congr fun i h₁ h₂ => hm' i h₁ ?_)
      rwa [hlen] at h₂

/-- Memory holds a column from `p` to `e`, and both readers find it. -/
structure ColumnRead (m : Mem) (n : ℕ) (col : FilterColumn) (d : ColumnData) (p e : ℕ) : Prop where
  readEnd : (readColumn m n col p).2 = e
  data : (readColumn m n col p).1 =
    { d.packed col n with nullMask := if col.nullable then maskBytes n d else [] }
  parseEnd : (parseColumn m n col p).2 = e
  cell : ∀ i < n, (readColumn m n col p).1.cell col i = d.cell col i
  raw : ∀ i < n, (readColumn m n col p).1.raw col i = some ((parseColumn m n col p).1.raw m i)
  hashes : ∀ i < n, (parseColumn m n col p).1.hashes m i =
    ((parseColumn m n col p).1.raw m i).hashes
  isNull : ∀ i < n, (parseColumn m n col p).1.isNull m i = (readColumn m n col p).1.isNull col i

lemma length_maskBytes (wf : d.WellFormed col n) : (maskBytes n d).length = n := by
  rw [maskBytes]
  rcases wf.mask with h | h
  · simp [h]
  · split
    · simp
    · rw [List.length_take, Nat.min_eq_left h]

lemma isNull_maskBytes (hnull : col.nullable = true) {i : ℕ} (hi : i < n) (d' : ColumnData)
    (hd : d'.nullMask = maskBytes n d) : d'.isNull col i = d.isNull col i := by
  rw [ColumnData.isNull, ColumnData.isNull, hd, hnull, maskBytes]
  by_cases h : d.nullMask.isEmpty
  · simp [h]
  · have hne : d.nullMask ≠ [] := by simpa using h
    have htake : (d.nullMask.take n).isEmpty = false := by
      rw [List.isEmpty_eq_false_iff]
      simp only [ne_eq, List.take_eq_nil_iff, not_or]
      exact ⟨by omega, hne⟩
    simp [h, htake, hi]

structure ColumnWritten (m : Mem) (n : ℕ) (col : FilterColumn) (d : ColumnData) (p : ℕ)
    (st : Mem × ℕ) : Prop where
  finish : st.2 = columnBytes n col d p
  le : p ≤ st.2
  frame : ∀ i, i < p ∨ st.2 ≤ i → st.1 i = m i
  read : ∀ m', (∀ i, p ≤ i → i < st.2 → m' i = st.1 i) → ColumnRead m' n col d p st.2

lemma columnWritten (wf : d.WellFormed col n) (ha : d.Addressable col n) :
    ColumnWritten m n col d p (writeColumn n (m, p) (col, d)) := by
  have hw : DataWritten m n col d p (writeData n col d (m, p)) := dataWritten wf ha
  obtain ⟨⟨m₁, q⟩, hst⟩ : ∃ st, writeData n col d (m, p) = st := ⟨_, rfl⟩
  rw [hst] at hw
  have hq : p ≤ q := hw.le
  by_cases hnull : col.nullable = true
  · have hmask := length_maskBytes wf
    have hal := le_align4 (q + n)
    have hwc : writeColumn n (m, p) (col, d) = (poke m₁ q (maskBytes n d), align4 (q + n)) := by
      simp only [writeColumn, hst, hnull, if_true]
    rw [hwc]
    refine ⟨?_, by dsimp only; omega, fun i hi => ?_, fun m' hm' => ?_⟩
    · rw [columnBytes_eq, hnull, if_pos rfl, ← hw.finish]
    · dsimp only at hi ⊢
      rcases hi with hi | hi
      · rw [poke_apply_of_lt (by omega)]
        exact hw.frame i (.inl hi)
      · rw [poke_apply_of_le (by omega)]
        exact hw.frame i (.inr (by dsimp only; omega))
    · have hread := hw.read m' fun i h₁ h₂ => by
        rw [hm' i h₁ (by dsimp only at h₂ ⊢; omega)]
        exact poke_apply_of_lt h₂
      have hholds : Holds m' q (maskBytes n d) :=
        (holds_poke_self m₁ q _).congr fun i h₁ h₂ => hm' i (by omega) (by dsimp only; omega)
      have hpeek := hholds.peek
      rw [hmask] at hpeek
      have hrc : readColumn m' n col p =
          ({ (readData m' n col p).1 with nullMask := maskBytes n d }, align4 (q + n)) := by
        simp only [readColumn, hread.readEnd, hnull, if_true, hpeek]
      have hpc : parseColumn m' n col p =
          ({ (parseData m' n col p).1 with nulls := some q }, align4 (q + n)) := by
        simp only [parseColumn, hread.parseEnd, hnull, if_true]
      have hnulls : ∀ i < n, (readColumn m' n col p).1.isNull col i = d.isNull col i :=
        fun i hi => isNull_maskBytes hnull hi _ (by rw [hrc])
      refine ⟨by rw [hrc], by rw [hrc, hread.data, if_pos hnull], by rw [hpc], fun i hi => ?_,
        fun i hi => ?_, fun i hi => ?_, fun i hi => ?_⟩
      · rw [ColumnData.cell, ColumnData.cell, hnulls i hi]
        have : (readColumn m' n col p).1.raw col i = d.raw col i := by
          rw [hrc]
          exact hread.raw i hi
        rw [this]
      · rw [hrc, hpc]
        exact hread.view i hi
      · rw [hpc]
        exact hread.hashes i hi
      · have hb : (maskBytes n d)[i]? = some ((maskBytes n d)[i]) :=
          List.getElem?_eq_getElem (by omega)
        have hne : (maskBytes n d).isEmpty = false := by
          rw [List.isEmpty_eq_false_iff, ← List.length_pos_iff]
          omega
        rw [hrc, hpc]
        simp only [ColumnView.isNull, ColumnData.isNull, hnull, hne, List.getD_eq_getElem?_getD,
          hholds i _ hb, hb]
        simp
  · have hal := le_align4 q
    have hwc : writeColumn n (m, p) (col, d) = (m₁, align4 q) := by
      rw [writeColumn, hst]
      exact if_neg hnull
    rw [hwc]
    refine ⟨?_, by dsimp only; omega, fun i hi => ?_, fun m' hm' => ?_⟩
    · rw [columnBytes_eq, if_neg hnull, ← hw.finish]
    · refine hw.frame i ?_
      dsimp only at hi ⊢
      omega
    · have hread := hw.read m' fun i h₁ h₂ => hm' i h₁ (by dsimp only at h₂ ⊢; omega)
      have hrc : readColumn m' n col p = ((readData m' n col p).1, align4 q) := by
        simp only [readColumn, hread.readEnd]
        exact if_neg hnull
      have hpc : parseColumn m' n col p = ((parseData m' n col p).1, align4 q) := by
        simp only [parseColumn, hread.parseEnd]
        exact if_neg hnull
      have hf : ∀ (d' : ColumnData) i, d'.isNull col i = false := fun d' i => by
        simp [ColumnData.isNull, hnull]
      have hmask : (readData m' n col p).1 = { d.packed col n with nullMask := [] } := by
        rw [← hread.data, ← hread.readMask]
      refine ⟨by rw [hrc], by rw [hrc, hmask, if_neg hnull], by rw [hpc], fun i hi => ?_,
        fun i hi => ?_, fun i hi => ?_, fun i hi => ?_⟩
      · rw [ColumnData.cell, ColumnData.cell, hf, hf, hrc, hread.raw i hi]
      · rw [hrc, hpc]
        exact hread.view i hi
      · rw [hpc]
        exact hread.hashes i hi
      · rw [hf, hpc, ColumnView.isNull, hread.parseNulls]

end Column

/-! ### The whole region -/

section Region

variable {m : Mem} {n p e : ℕ} {s : Schema} {cols : List ColumnData}

/-- Memory holds these columns one behind the other from `p` to `e`. -/
def AllRead (m : Mem) (n : ℕ) : List (FilterColumn × ColumnData) → ℕ → ℕ → Prop
  | [], p, e => e = p
  | x :: xs, p, e => ∃ q, ColumnRead m n x.1 x.2 p q ∧ AllRead m n xs q e

lemma allWritten {xs : List (FilterColumn × ColumnData)}
    (wf : ∀ x ∈ xs, x.2.WellFormed x.1 n) (ha : ∀ x ∈ xs, x.2.Addressable x.1 n) :
    let st := xs.foldl (writeColumn n) (m, p)
    st.2 = xs.foldl (fun total x => columnBytes n x.1 x.2 total) p ∧ p ≤ st.2 ∧
      (∀ i, i < p ∨ st.2 ≤ i → st.1 i = m i) ∧
      ∀ m', (∀ i, p ≤ i → i < st.2 → m' i = st.1 i) → AllRead m' n xs p st.2 := by
  induction xs generalizing m p with
  | nil => exact ⟨rfl, le_rfl, fun _ _ => rfl, fun _ _ => rfl⟩
  | cons x xs ih =>
    have hcol : ColumnWritten m n x.1 x.2 p (writeColumn n (m, p) x) :=
      columnWritten (wf x List.mem_cons_self) (ha x List.mem_cons_self)
    obtain ⟨⟨m₁, q⟩, hst⟩ : ∃ st, writeColumn n (m, p) x = st := ⟨_, rfl⟩
    rw [hst] at hcol
    have hq : p ≤ q := hcol.le
    obtain ⟨h₁, h₂, h₃, h₄⟩ := ih (m := m₁) (p := q)
      (fun y hy => wf y (List.mem_cons_of_mem _ hy)) fun y hy => ha y (List.mem_cons_of_mem _ hy)
    simp only [List.foldl_cons, hst, ← hcol.finish]
    refine ⟨h₁, hq.trans h₂, fun i hi => ?_, fun m' hm' => ⟨q, ?_, ?_⟩⟩
    · rw [h₃ i (by omega)]
      exact hcol.frame i (by dsimp only; omega)
    · -- The later columns start behind this one and leave it alone.
      refine hcol.read m' fun i hi₁ hi₂ => ?_
      dsimp only at hi₂ ⊢
      rw [hm' i hi₁ (by omega), h₃ i (.inl hi₂)]
    · exact h₄ m' fun i hi₁ hi₂ => hm' i (by omega) hi₂

lemma AllRead.readEnd {xs : List (FilterColumn × ColumnData)} (h : AllRead m n xs p e) :
    (readColumns m n (xs.map Prod.fst) p).2 = e := by
  induction xs generalizing p with
  | nil => exact h.symm
  | cons x xs ih =>
    obtain ⟨q, hx, hxs⟩ := h
    simp only [List.map_cons, readColumns, hx.readEnd]
    exact ih hxs

lemma AllRead.parseEnd {xs : List (FilterColumn × ColumnData)} (h : AllRead m n xs p e) :
    (parseColumns m n (xs.map Prod.fst) p).2 = e := by
  induction xs generalizing p with
  | nil => exact h.symm
  | cons x xs ih =>
    obtain ⟨q, hx, hxs⟩ := h
    simp only [List.map_cons, parseColumns, hx.parseEnd]
    exact ih hxs

lemma AllRead.column {xs : List (FilterColumn × ColumnData)} (h : AllRead m n xs p e) {c : ℕ}
    {x : FilterColumn × ColumnData} (hc : xs[c]? = some x) :
    ∃ q r, ColumnRead m n x.1 x.2 q r ∧
      (readColumns m n (xs.map Prod.fst) p).1[c]? = some (readColumn m n x.1 q).1 ∧
      (parseColumns m n (xs.map Prod.fst) p).1[c]? = some (parseColumn m n x.1 q).1 := by
  induction xs generalizing p c with
  | nil => simp at hc
  | cons y xs ih =>
    obtain ⟨q, hy, hxs⟩ := h
    cases c with
    | zero =>
      obtain rfl : y = x := by simpa using hc
      exact ⟨p, q, hy, rfl, rfl⟩
    | succ c =>
      obtain ⟨q', r, hread, h₁, h₂⟩ := ih hxs (by simpa using hc)
      refine ⟨q', r, hread, ?_, ?_⟩
      · simpa only [List.map_cons, readColumns, hy.readEnd, List.getElem?_cons_succ] using h₁
      · simpa only [List.map_cons, parseColumns, hy.parseEnd, List.getElem?_cons_succ] using h₂

/-- What the two readers return for a row of a column agrees with the column written: the same
logical cell, and the same value, hashes and NULL flag in the view as in the column read. -/
structure SameRow (m : Mem) (col : FilterColumn) (d d' : ColumnData) (v : ColumnView) (i : ℕ) :
    Prop where
  cell : d'.cell col i = d.cell col i
  value : d'.raw col i = some (v.raw m i)
  hashes : v.hashes m i = (v.raw m i).hashes
  isNull : v.isNull m i = d'.isNull col i

/-- Columns written to `m` come back: the writer fills exactly the computed bytes, both readers
consume them, and every row of every column is what it was. -/
structure RoundTrips (m : Mem) (n : ℕ) (s : Schema) (cols : List ColumnData) : Prop where
  size : (writeFilterColumns m n s cols).2 = filterColumnsBytes n s cols
  inside : ∀ i, (writeFilterColumns m n s cols).2 ≤ i → (writeFilterColumns m n s cols).1 i = m i
  read : (readFilterColumns (writeFilterColumns m n s cols).1 n s).2 =
    (writeFilterColumns m n s cols).2
  parse : (parseFilterColumns (writeFilterColumns m n s cols).1 n s).2 =
    (writeFilterColumns m n s cols).2
  rows : ∀ (c : ℕ) col d, s.columns[c]? = some col → cols[c]? = some d → ∀ i < n,
    ∃ d' v, (readFilterColumns (writeFilterColumns m n s cols).1 n s).1[c]? = some d' ∧
      (parseFilterColumns (writeFilterColumns m n s cols).1 n s).1[c]? = some v ∧
      SameRow (writeFilterColumns m n s cols).1 col d d' v i

lemma writeFilterColumns_eq (m : Mem) (n : ℕ) (s : Schema) (cols : List ColumnData) :
    writeFilterColumns m n s cols = (s.columns.zip cols).foldl (writeColumn n) (m, 0) := by
  rw [writeFilterColumns]
  split
  · rename_i hempty
    rw [Bool.or_eq_true, List.isEmpty_iff, List.isEmpty_iff] at hempty
    rcases hempty with h | h <;> simp [h]
  · rfl

lemma filterColumnsBytes_eq (n : ℕ) (s : Schema) (cols : List ColumnData) :
    filterColumnsBytes n s cols =
      (s.columns.zip cols).foldl (fun total x => columnBytes n x.1 x.2 total) 0 := by
  rw [filterColumnsBytes]
  split
  · rename_i hempty
    rw [Bool.or_eq_true, List.isEmpty_iff, List.isEmpty_iff] at hempty
    rcases hempty with h | h <;> simp [h]
  · rfl

lemma roundTrips_of_addressable (wf : List.Forall₂ (fun col d => d.WellFormed col n) s.columns cols)
    (ha : ∀ x ∈ s.columns.zip cols, x.2.Addressable x.1 n) : RoundTrips m n s cols := by
  have hlen := wf.length_eq
  have hcols : (s.columns.zip cols).map Prod.fst = s.columns := List.map_fst_zip hlen.le
  have hwf : ∀ x ∈ s.columns.zip cols, x.2.WellFormed x.1 n := fun x hx =>
    (List.forall₂_iff_zip.mp wf).2 hx
  obtain ⟨hsize, -, hframe, hread⟩ := allWritten (m := m) (p := 0) hwf ha
  have hw := writeFilterColumns_eq m n s cols
  have hb := filterColumnsBytes_eq n s cols
  have hall := hread _ fun _ _ _ => rfl
  refine ⟨by rw [hw, hb, hsize], fun i hi => ?_, ?_, ?_, ?_⟩
  · rw [hw] at hi ⊢
    exact hframe i (.inr hi)
  · rw [hw, readFilterColumns]
    have := hall.readEnd
    rwa [hcols] at this
  · rw [hw, parseFilterColumns]
    have := hall.parseEnd
    rwa [hcols] at this
  · intro c col d hc hd i hi
    have hx : (s.columns.zip cols)[c]? = some (col, d) := by
      rw [List.getElem?_zip_eq_some]
      exact ⟨hc, hd⟩
    obtain ⟨q, r, hcr, h₁, h₂⟩ := hall.column hx
    rw [hcols] at h₁ h₂
    rw [hw]
    exact ⟨_, _, h₁, h₂, hcr.cell i hi, hcr.raw i hi, hcr.hashes i hi, hcr.isNull i hi⟩

/-! ### Strings of `2 ^ 32` bytes and more -/

lemma readColumns_concat_snd (as : List FilterColumn) (col : FilterColumn) (p : ℕ) :
    (readColumns m n (as ++ [col]) p).2 = (readColumn m n col (readColumns m n as p).2).2 := by
  induction as generalizing p with
  | nil => rfl
  | cons a as ih => simpa only [List.cons_append, readColumns] using ih _

/-- What a string column leaves: where it ends, its lengths, and what was before it. -/
lemma writeColumn_strings {col : FilterColumn} {d : ColumnData} (hcol : col.type = .string)
    (wf : d.WellFormed col n) :
    let st := writeColumn n (m, p) (col, d)
    st.2 = align4 (align4 (p + n * 4 + n * 2) + n * 4 + total d.strLen n +
        if col.nullable then n else 0) ∧
      p + n * 4 + 2 * n ≤ st.2 ∧ Holds st.1 (p + n * 4) ((List.range n).flatMap fun i => leBytes 2 (d.strLen i)) ∧
      ∀ i < p, st.1 i = m i := by
  have hal := le_align4 (p + n * 4 + n * 2)
  have hin := (wf.strings hcol).2.2
  have hat : StringsAt d m p (p + n * 4) (align4 (p + n * 4 + n * 2))
      (align4 (p + n * 4 + n * 2) + n * 4) n _ :=
    writeStrings_spec ⟨by omega, by omega, by omega⟩ fun i hi => length_str (hin i hi)
  obtain ⟨⟨m₁, r⟩, hst⟩ : ∃ st, writeData n col d (m, p) = st := ⟨_, rfl⟩
  have hst' := hst
  simp only [writeData, hcol] at hst'
  rw [hst'] at hat
  have hr : r = _ := hat.pos
  have hll := length_words 2 n d.strLen
  by_cases hnull : col.nullable = true
  · have hwc : writeColumn n (m, p) (col, d) = (poke m₁ r (maskBytes n d), align4 (r + n)) := by
      rw [writeColumn, hst]
      exact if_pos hnull
    rw [hwc]
    have hend := le_align4 (r + n)
    refine ⟨by simp only [hr, hnull, if_true], by dsimp only; omega,
      hat.lengths.poke (.inr (by rw [hll]; omega)), fun i hi => ?_⟩
    dsimp only
    rw [poke_apply_of_lt (by omega)]
    exact hat.frame i (.inl hi)
  · have hwc : writeColumn n (m, p) (col, d) = (m₁, align4 r) := by
      rw [writeColumn, hst]
      exact if_neg hnull
    rw [hwc]
    have hend := le_align4 r
    exact ⟨by rw [if_neg hnull, hr, add_zero], by dsimp only; omega, hat.lengths,
      fun i hi => hat.frame i (.inl hi)⟩

/-- The position behind a String column as written, and as the copying reader finds it: the
reader sums the lengths in 32 bits. -/
lemma readColumn_strings {col : FilterColumn} {d : ColumnData} (hcol : col.type = .string)
    (wf : d.WellFormed col n) :
    let st := writeColumn n (m, p) (col, d)
    ∃ q, st.2 = align4 (q + total d.strLen n + if col.nullable then n else 0) ∧
      (readColumn st.1 n col p).2 =
        align4 (q + total d.strLen n % 2 ^ 32 + if col.nullable then n else 0) ∧
      ∀ i < p, st.1 i = m i := by
  obtain ⟨hend, -, hl, hframe⟩ := writeColumn_strings (m := m) (p := p) hcol wf
  refine ⟨_, hend, ?_, hframe⟩
  have hlens : (List.range n).map (fun i => word (writeColumn n (m, p) (col, d)).1 2 (p + n * 4 + 2 * i)) =
      (List.range n).map d.strLen :=
    List.map_congr_left fun i hi => word_of_holds hl (List.mem_range.mp hi) (strLen_lt d i)
  simp only [readColumn, readData, hcol, hlens, runOffsets_snd, foldl_wrap]
  split <;> rfl

lemma not_roundTrips_of_long {xs : List (FilterColumn × ColumnData)} {col : FilterColumn}
    {d : ColumnData} (wf : List.Forall₂ (fun col d => d.WellFormed col n) s.columns cols)
    (hxs : s.columns.zip cols = xs ++ [(col, d)]) (ha : ∀ x ∈ xs, x.2.Addressable x.1 n)
    (hcol : col.type = .string) (hlong : 2 ^ 32 ≤ total d.strLen n) : ¬ RoundTrips m n s cols := by
  intro hrt
  have hlen := wf.length_eq
  have hcols : (s.columns.zip cols).map Prod.fst = s.columns := List.map_fst_zip hlen.le
  have hwf : ∀ x ∈ s.columns.zip cols, x.2.WellFormed x.1 n := fun x hx =>
    (List.forall₂_iff_zip.mp wf).2 hx
  rw [hxs] at hwf hcols
  obtain ⟨-, -, -, hread⟩ := allWritten (m := m) (p := 0)
    (fun x hx => hwf x (List.mem_append_left _ hx)) ha
  obtain ⟨⟨m₁, p₁⟩, hst⟩ : ∃ st, xs.foldl (writeColumn n) (m, 0) = st := ⟨_, rfl⟩
  rw [hst] at hread
  obtain ⟨q, h₁, h₂, h₃⟩ := readColumn_strings (m := m₁) (p := p₁) hcol
    (hwf (col, d) (by simp))
  have hw : writeFilterColumns m n s cols = writeColumn n (m₁, p₁) (col, d) := by
    rw [writeFilterColumns_eq, hxs, List.foldl_append, hst]
    rfl
  have hall := (hread (writeColumn n (m₁, p₁) (col, d)).1 fun i _ hi => h₃ i hi).readEnd
  have hend := hrt.read
  rw [hw, readFilterColumns, ← hcols, List.map_append, List.map_singleton,
    readColumns_concat_snd, hall, h₁] at hend
  dsimp only at hend
  rw [h₂] at hend
  have hmod := Nat.mod_lt (total d.strLen n) (show 0 < 2 ^ 32 by norm_num)
  simp only [align4] at hend
  omega

/-- **Filter columns round-trip** when everything the layout counts in 32 bits fits; and when
only the bytes of the last column, a String column, may not fit, exactly then. -/
theorem filter_columns_round_trip (m : Mem) (n : ℕ) (s : Schema) (cols : List ColumnData)
    (wf : List.Forall₂ (fun col d => d.WellFormed col n) s.columns cols) :
    ((∀ x ∈ s.columns.zip cols, x.2.Addressable x.1 n) → RoundTrips m n s cols) ∧
    ∀ xs col d, s.columns.zip cols = xs ++ [(col, d)] → (∀ x ∈ xs, x.2.Addressable x.1 n) →
      col.type = .string → (RoundTrips m n s cols ↔ total d.strLen n < 2 ^ 32) := by
  refine ⟨roundTrips_of_addressable wf, fun xs col d hxs ha hcol => ⟨fun hrt => ?_, fun hfit => ?_⟩⟩
  · by_contra hlong
    exact not_roundTrips_of_long wf hxs ha hcol (Nat.le_of_not_lt hlong) hrt
  · refine roundTrips_of_addressable wf fun x hx => ?_
    rw [hxs, List.mem_append, List.mem_singleton] at hx
    rcases hx with hx | rfl
    · exact ha x hx
    · exact ⟨fun _ => hfit, fun h => by rw [hcol] at h; cases h⟩

/-- A schema of one String column and one nullable Set column. -/
def tagSchema : Schema :=
  ⟨[⟨"name", .string, false⟩, ⟨"tags", .set, true⟩], false⟩

/-- Two rows: a name and two tags, an empty name and NULL. -/
def tagColumns : List ColumnData :=
  [{ type := .string, strOffsets := [0, 2], strLengths := [2, 0], strData := [104, 105] },
   { type := .set, nullMask := [0, 1], setCounts := [2, 0], setOffsets := [0, 2],
     setElemLengths := [1, 3], setElemData := [97, 98, 99, 100] }]

theorem filter_columns_round_trip_tags : RoundTrips (fun _ => 0) 2 tagSchema tagColumns := by
  refine (filter_columns_round_trip _ _ _ _ ?_).1 ?_
  · refine .cons ⟨by decide, by decide, fun _ => ⟨by decide, by decide, by decide⟩, by decide⟩
      (.cons ⟨by decide, by decide, by decide,
        fun _ => ⟨by decide, by decide, by decide, by decide⟩⟩ .nil)
  · intro x hx
    have hx : x = (⟨"name", .string, false⟩, tagColumns[0]) ∨
        x = (⟨"tags", .set, true⟩, tagColumns[1]) := by simpa [tagSchema, tagColumns] using hx
    rcases hx with rfl | rfl
    · exact ⟨fun _ => by decide, by decide⟩
    · exact ⟨by decide, fun _ => ⟨by decide, by decide⟩⟩

/-- Rows of `len` bytes each, all of them the same bytes. -/
def longColumn (rows len : ℕ) : ColumnData :=
  { type := .string, strOffsets := List.replicate rows 0,
    strLengths := List.replicate rows (UInt16.ofNat len), strData := List.replicate len 0 }

def textSchema : Schema := ⟨[⟨"text", .string, false⟩], false⟩

lemma strLen_longColumn {rows len i : ℕ} (hlen : len < 2 ^ 16) (hi : i < rows) :
    (longColumn rows len).strLen i = len := by
  simpa [ColumnData.strLen, longColumn, hi] using hlen

lemma wellFormed_longColumn (rows : ℕ) {len : ℕ} (hlen : len < 2 ^ 16) :
    (longColumn rows len).WellFormed ⟨"text", .string, false⟩ rows := by
  refine ⟨.inl rfl, by simp, fun _ => ⟨by simp [longColumn], by simp [longColumn], fun i hi => ?_⟩,
    by simp⟩
  have hoff : (longColumn rows len).strOff i = 0 := by simp [ColumnData.strOff, longColumn, hi]
  rw [strLen_longColumn hlen hi, hoff]
  simp [longColumn]

lemma total_longColumn (rows : ℕ) {len : ℕ} (hlen : len < 2 ^ 16) :
    total (longColumn rows len).strLen rows = rows * len := by
  rw [total, List.map_congr_left fun i hi => strLen_longColumn hlen (List.mem_range.mp hi)]
  simp

/-- Strings of `2 ^ 32` bytes and more together do not come back. -/
theorem filter_columns_wrap :
    List.Forall₂ (fun col d => d.WellFormed col 65538) textSchema.columns
      [longColumn 65538 65535] ∧
      ¬ RoundTrips (fun _ => 0) 65538 textSchema [longColumn 65538 65535] := by
  have hwf : List.Forall₂ (fun col d => d.WellFormed col 65538) textSchema.columns
      [longColumn 65538 65535] := .cons (wellFormed_longColumn _ (by norm_num)) .nil
  refine ⟨hwf, not_roundTrips_of_long hwf (show _ = [] ++ [_] from rfl) (by simp) rfl ?_⟩
  rw [total_longColumn _ (by norm_num)]
  norm_num

end Region

end SextantTree.ColumnBytes
