import SextantTree.FilterScan

/-!
Filter summaries: the range of every numeric column and a Bloom filter for every string and
set column. They are written for a leaf, merged up the tree, and asked by the search whether
a subtree may hold a match.
-/

namespace SextantTree

open FilterHash

structure NumRange where
  min : ℚ
  max : ℚ
deriving DecidableEq

/-- A parsed summary: the three sections, each entry under its column id. A zeroed buffer
parses as three empty sections. Ids and the entry counts of the sections are single bytes, so
only the summaries of an addressable schema parse as what was written. -/
structure Summary where
  numeric : List (ℕ × NumRange)
  strings : List (ℕ × Bloom)
  sets : List (ℕ × Bloom)
deriving DecidableEq

def Summary.zero : Summary := ⟨[], [], []⟩

def kBloomThreshold : ℕ := 150

/-- Bits per value for a false-positive rate of one percent, `-ln 0.01 / (ln 2)²`. -/
def bitsPerValue : ℚ := 4.605170185988091 / (0.6931471805599453 * 0.6931471805599453)

def bloomMaxBytes (threshold : ℕ) : ℕ := (⌊threshold * bitsPerValue⌋₊ + 7) / 8

def bloomAlloc : ℕ := bloomMaxBytes kBloomThreshold

def Schema.summarySize (s : Schema) : ℕ :=
  if s.columns.isEmpty then 0
  else 3 + (s.columns.countP (·.type.isNumeric)) * (1 + 8 + 8) +
    (s.columns.countP fun c => c.type == .string || c.type == .set) * (1 + 2 + bloomAlloc)

/-- One section of a summary: an entry for each column of the selected types, in schema
order, under the low byte of its position. -/
def Schema.sectionOf {α : Type} (s : Schema) (sel : ColumnType → Bool) (entry : ℕ → α) :
    List (ℕ × α) :=
  (s.columns.zipIdx.filter fun x => sel x.1.type).map fun x => (x.2 % 256, entry x.2)

/-- One byte tells the columns apart and counts the entries of a section. -/
def Schema.Addressable (s : Schema) : Prop :=
  s.columns.length ≤ 256 ∧
    ∀ sel ∈ [ColumnType.isNumeric, (· == .string), (· == .set)], s.columns.countP (sel ·.type) < 256

instance (s : Schema) : Decidable s.Addressable := inferInstanceAs (Decidable (_ ∧ _))

def dblMax : ℚ := (2 ^ 53 - 1) * 2 ^ 971

def NumRange.empty : NumRange := ⟨dblMax, -dblMax⟩

def NumRange.add (r : NumRange) (v : ℚ) : NumRange :=
  ⟨if v < r.min then v else r.min, if v > r.max then v else r.max⟩

/-- The bit count chosen for that many distinct hashes. -/
def bloomBits (distinct : ℕ) : ℕ :=
  let n := (⌈distinct * bitsPerValue⌉₊ + 7) / 8 * 8
  let n := min n (bloomAlloc * 8)
  if n = 0 then 8 else n

/-- The filter written for the hashes of a column over a buffer that holds `base`; none is
kept for no values and for more than `kBloomThreshold` distinct ones. -/
def writeBloom (base : ℕ) (hashes : List UInt32) : Bloom :=
  let distinct := hashes.eraseDups
  if distinct ≠ [] ∧ distinct.length ≤ kBloomThreshold then
    Bloom.ofKeys bloomProbes (bloomBits distinct.length) base distinct
  else ⟨0, base⟩

/-- The entry of a column, the last one where ids repeat. -/
def entryOf {α : Type} (l : List (ℕ × α)) (c : ℕ) : Option α :=
  l.foldl (fun acc e => if e.1 = c then some e.2 else acc) none

section

variable {s : Schema}

def columnCells (rows : List (FilterRow s)) (c : ℕ) : List Cell := rows.filterMap (·.get c)

def columnRange (rows : List (FilterRow s)) (c : ℕ) : NumRange :=
  ((columnCells rows c).map readNumeric).foldl NumRange.add NumRange.empty

/-- `distinct_hashes_string` before duplicates are dropped. -/
def stringHashes (rows : List (FilterRow s)) (c : ℕ) : List UInt32 :=
  (columnCells rows c).filterMap fun
    | .string v => some (filterHash v)
    | _ => none

/-- `distinct_hashes_set` before duplicates are dropped. -/
def setHashes (rows : List (FilterRow s)) (c : ℕ) : List UInt32 :=
  (columnCells rows c).flatMap fun
    | .set elems => elems.map filterHash
    | _ => []

/-- `write_filter_summary` over a buffer that parses as `buf`: ranges and bit counts are
stored, the bits of the filters are or-ed in. -/
def writeFilterSummary (buf : Summary) (rows : List (FilterRow s)) : Summary where
  numeric := s.sectionOf (·.isNumeric) (columnRange rows)
  strings := s.sectionOf (· == .string) fun c =>
    writeBloom ((entryOf buf.strings c).elim 0 Bloom.bits) (stringHashes rows c)
  sets := s.sectionOf (· == .set) fun c =>
    writeBloom ((entryOf buf.sets c).elim 0 Bloom.bits) (setHashes rows c)

end

def initEmptySummary (s : Schema) : Summary where
  numeric := s.sectionOf (·.isNumeric) fun _ => NumRange.empty
  strings := s.sectionOf (· == .string) fun _ => ⟨0, 0⟩
  sets := s.sectionOf (· == .set) fun _ => ⟨0, 0⟩

def NumRange.merge (d s : NumRange) : NumRange := ⟨Min.min d.min s.min, Max.max d.max s.max⟩

/-- Merge every entry of `dst` with the first one of `src` under the same id. -/
def mergeSection {α : Type} (join : α → α → α) (dst src : List (ℕ × α)) : List (ℕ × α) :=
  dst.map fun d => (d.1, (src.lookup d.1).elim d.2 (join d.2))

/-- `merge_filter_summary`: `src` into `dst`. -/
def mergeFilterSummary (dst src : Summary) : Summary where
  numeric := mergeSection NumRange.merge dst.numeric src.numeric
  strings := mergeSection Bloom.union dst.strings src.strings
  sets := mergeSection Bloom.union dst.sets src.sets

/-- `bloom_check`: a filter of no bits cannot prune. -/
def bloomCheck (b : Bloom) (h : UInt32) : Bool := b.mayContain bloomProbes h

def rangeMayMatch (r : NumRange) (p : Predicate) : Bool :=
  match p.op with
  | .eq => !(decide (p.value < r.min) || decide (p.value > r.max))
  | .lt => !decide (r.min ≥ p.value)
  | .le => !decide (r.min > p.value)
  | .gt => !decide (r.max ≤ p.value)
  | .ge => !decide (r.max < p.value)
  | .between => !(decide (p.value > r.max) || decide (p.value2 < r.min))
  | _ => true

/-- Some query value passes the filter, or there is none. -/
def anyMayMatch (b : Bloom) (p : Predicate) : Bool :=
  p.queryVals.any (fun q => bloomCheck b (filterHash q)) || p.queryVals.isEmpty

def stringMayMatch (b : Bloom) (p : Predicate) : Bool :=
  match p.op with
  | .eq => bloomCheck b (filterHash p.strValue)
  | .inList => anyMayMatch b p
  | _ => true

def setMayMatch (b : Bloom) (p : Predicate) : Bool :=
  match p.op with
  | .contains => bloomCheck b (filterHash p.strValue)
  | .containsAny => anyMayMatch b p
  | .containsAll => p.queryVals.all fun q => bloomCheck b (filterHash q)
  | _ => true

structure GeoBounds where
  latLo : ℚ
  latHi : ℚ
  lngLo : ℚ
  lngHi : ℚ

def kKmPerDegLat : ℚ := 111

/-- The box itself, or one around the circle. -/
def geoBounds (π : Platform) (p : Predicate) : GeoBounds :=
  if p.op == .geoBox then ⟨p.value, p.value3, p.value2, p.value4⟩
  else
    let dlat := p.radiusKm / kKmPerDegLat
    let cosLat := π.cosDeg p.value
    let dlng := if |cosLat| < 1 / 10 ^ 6 then 180 else p.radiusKm / (kKmPerDegLat * cosLat)
    ⟨p.value - dlat, p.value + dlat, p.value2 - dlng, p.value2 + dlng⟩

/-- The range of a column against an interval; no range, no pruning. -/
def overlaps (sum : Summary) (c : ℕ) (lo hi : ℚ) : Bool :=
  (entryOf sum.numeric c).elim true fun r => !(decide (lo > r.max) || decide (hi < r.min))

def columnMayMatch (sum : Summary) (c : ℕ) (p : Predicate) (type : ColumnType) : Bool :=
  match type with
  | .int32 | .int64 | .float => (entryOf sum.numeric c).elim true fun rg => rangeMayMatch rg p
  | .string => stringMayMatch ((entryOf sum.strings c).getD ⟨0, 0⟩) p
  | .set => setMayMatch ((entryOf sum.sets c).getD ⟨0, 0⟩) p
  | .bool => true

variable (π : Platform)

/-- One round of the loop of `summary_may_match`. -/
def predMayMatch (s : Schema) (sum : Summary) (r : Resolved) : Bool :=
  if r.pred.op == .isNull || r.pred.op == .isNotNull then true
  else if r.pred.op.isGeo then
    let b := geoBounds π r.pred
    overlaps sum r.col b.latLo b.latHi &&
      r.lng.elim true fun lng => decide (lng ≥ 256) || overlaps sum lng b.lngLo b.lngHi
  else (s.columns[r.col]?).elim true fun col => columnMayMatch sum r.col r.pred col.type

def summaryMayMatch (s : Schema) (sum : Summary) (preds : List Resolved) : Bool :=
  if s.summarySize = 0 || preds.isEmpty then true else preds.all (predMayMatch π s sum)

end SextantTree
