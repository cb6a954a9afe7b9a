import SextantTree.ColumnImage

/-!
Columns as their rows: the arrays that the copying reader returns hold the rows one behind the other.
-/

namespace SextantTree.ColumnBytes

open FilterHash ByteMem

/-- Where the rows of a list start, in 32 bits. -/
def offsetsOf {α : Type*} (rows : List (List α)) : List UInt32 :=
  (List.range rows.length).map fun i => UInt32.ofNat (rows.take i).flatten.length

def lengthsOf (rows : List Bytes) : List UInt16 := rows.map fun b => UInt16.ofNat b.length

namespace ColumnData

def withStrings (d : ColumnData) (rows : List Bytes) : ColumnData :=
  { d with strOffsets := offsetsOf rows, strLengths := lengthsOf rows, strData := rows.flatten }

def withSets (d : ColumnData) (rows : List (List Bytes)) : ColumnData :=
  { d with setCounts := rows.map fun es => UInt8.ofNat es.length, setOffsets := offsetsOf rows,
           setElemLengths := lengthsOf rows.flatten, setElemData := rows.flatten.flatten }

def withFixed (d : ColumnData) (rows : List Bytes) : ColumnData := { d with fixedData := rows.flatten }

/-- The bytes of row `i` of a fixed-width column. -/
def fixedRow (d : ColumnData) (w i : ℕ) : Bytes := (d.fixedData.drop (i * w)).take w

/-- The first `n` rows with their arrays packed, as the copying reader returns them. -/
def packed (col : FilterColumn) (n : ℕ) (d : ColumnData) : ColumnData :=
  match col.type with
  | .string => ({ type := .string } : ColumnData).withStrings ((List.range n).map d.str)
  | .set => ({ type := .set } : ColumnData).withSets ((List.range n).map d.rowElems)
  | t => ({ type := t } : ColumnData).withFixed ((List.range n).map (d.fixedRow t.width))

end ColumnData

section Offsets

variable {α : Type*} {rows : List (List α)} {i : ℕ}

lemma length_offsetsOf (rows : List (List α)) : (offsetsOf rows).length = rows.length := by
  simp [offsetsOf]

lemma getElem?_offsetsOf (hi : i < rows.length) :
    (offsetsOf rows)[i]? = some (UInt32.ofNat (rows.take i).flatten.length) := by
  simp [offsetsOf, hi]

lemma offsetsOf_concat (rows : List (List α)) (r : List α) :
    offsetsOf (rows ++ [r]) = offsetsOf rows ++ [UInt32.ofNat rows.flatten.length] := by
  simp only [offsetsOf, List.length_append, List.length_singleton, List.range_succ, List.map_append,
    List.map_singleton, List.take_left]
  congr 1
  refine List.map_congr_left fun i hi => ?_
  rw [List.take_append_of_le_length (List.mem_range.mp hi).le]

lemma slice_row {b : List α} (h : rows[i]? = some b) :
    (rows.flatten.drop (rows.take i).flatten.length).take b.length = b ∧
      (rows.take i).flatten.length + b.length ≤ rows.flatten.length := by
  obtain ⟨hi, rfl⟩ := List.getElem?_eq_some_iff.mp h
  have hsplit : rows.flatten = (rows.take i).flatten ++ (rows[i] ++ (rows.drop (i + 1)).flatten) := by
    conv_lhs => rw [← List.take_append_drop i rows, List.flatten_append, List.drop_eq_getElem_cons hi,
      List.flatten_cons]
  constructor
  · rw [hsplit, List.drop_left, List.take_left]
  · rw [hsplit, List.length_append, List.length_append]
    omega

lemma take_map_range {β : Type*} (f : ℕ → β) {n : ℕ} (hi : i ≤ n) :
    ((List.range n).map f).take i = (List.range i).map f := by
  rw [← List.map_take, List.take_range, Nat.min_eq_left hi]

lemma flatten_map_range (g : ℕ → List α) (n : ℕ) :
    ((List.range n).map g).flatten = (List.range n).flatMap g := rfl

lemma offsetsOf_range {g : ℕ → List α} {f : ℕ → ℕ} {n : ℕ} (hg : ∀ i < n, (g i).length = f i) :
    offsetsOf ((List.range n).map g) = (List.range n).map fun i => UInt32.ofNat (total f i) := by
  simp only [offsetsOf, List.length_map, List.length_range]
  refine List.map_congr_left fun i hi => ?_
  have hi' := List.mem_range.mp hi
  rw [take_map_range g hi'.le, flatten_map_range,
    length_flatMap_range fun j hj => hg j (by omega)]

end Offsets

lemma take_eq_rows (b : Bytes) (w n : ℕ) :
    b.take (n * w) = ((List.range n).map fun i => (b.drop (i * w)).take w).flatten := by
  induction n with
  | zero => simp
  | succ n ih =>
    rw [Nat.succ_mul, List.take_add, ih, List.range_succ, List.map_append, List.flatten_append]
    simp

lemma length_take_flatten {rows : List Bytes} {w i : ℕ} (hlen : ∀ b ∈ rows, b.length = w)
    (hi : i ≤ rows.length) : (rows.take i).flatten.length = i * w := by
  rw [List.length_flatten, List.map_congr_left fun b hb => hlen b (List.mem_of_mem_take hb)]
  simp [hi]

end SextantTree.ColumnBytes
