import SextantTree.ByteReader
import SextantTree.Cardinality

/-!
The cardinality table as a blob, and what a search asks of it.

The blob is followed by the rest of its last page. A read past the end of what there is has no
meaning, so it is a fault here.
-/

namespace SextantTree.Cardinality

open ByteMem Reader FilterHash

variable (A : CardinalityPlatform)

/-! Writing. -/

def kCardMagic : ℕ := 0xC4DA0003

def kCardVersion : UInt8 := 3

def CardinalityMode.toUInt8 : CardinalityMode → UInt8
  | .off => 0
  | .on => 1
  | .auto => 2
  | .rejected => 3

def modeFlagBits (m : CardinalityMode) : UInt8 := m.toUInt8 <<< 3

def modeFromFlags (flags : UInt8) : CardinalityMode :=
  match (flags >>> 3) &&& 3 with
  | 0 => .off
  | 1 => .on
  | 2 => .auto
  | _ => .rejected

/-- The mode that is written: a decision that is pending counts at build time only. -/
def CardinalityMode.written : CardinalityMode → CardinalityMode
  | .auto => .on
  | m => m

def columnFlags (col : ColumnCardinality) : UInt8 :=
  (if col.isNumeric then 1 else 0) ||| (if col.binned then 2 else 0) |||
    (if col.overflowed then 4 else 0) ||| modeFlagBits col.mode.written

def writeHist (hist : List (UInt64 × UInt32)) : List UInt8 :=
  leBytes 4 hist.length ++ hist.flatMap fun e => leBytes 8 e.1.toNat ++ leBytes 4 e.2.toNat

def writeBins (col : ColumnCardinality) : List UInt8 :=
  leBytes 8 col.binMin.toNat ++ leBytes 8 col.binMax.toNat ++ leBytes 8 col.frameLo.toNat ++
    leBytes 8 col.frameHi.toNat ++ leBytes 8 col.binTotal.toNat ++
    (List.range kCardinalityNumBins).flatMap fun b => leBytes 4 (col.bins.getD b 0).toNat

def writeFreq (col : ColumnCardinality) : List UInt8 :=
  leBytes 4 col.freq.length ++ leBytes 8 (A.toUInt64 (distinctEstimate A col)).toNat ++
    (A.walk col.freq).flatMap fun e => leBytes 4 e.1.toNat ++ leBytes 4 e.2.toNat

def writeTracked (col : ColumnCardinality) : List UInt8 :=
  if col.isNumeric then
    if col.binned then writeBins col else writeHist col.numericHist
  else writeFreq A col

/-- What follows the flags: nothing for an untracked column, the frozen estimate of a rejected
one. -/
def writeData (col : ColumnCardinality) : List UInt8 :=
  match col.mode.written with
  | .off => []
  | .rejected => leBytes 8 (Max.max col.estDistinctStored 1).toNat
  | _ => writeTracked A col

def writeColumn (c : ℕ) (col : ColumnCardinality) : List UInt8 :=
  leBytes 4 c ++ columnFlags col :: writeData A col

namespace CardinalityTable

/-- The columns that have a place, in the order of the schema. -/
def entries (t : CardinalityTable) : List (ℕ × ColumnCardinality) :=
  (List.range t.colToIdx.length).filterMap fun c => (t.column c).map fun col => (c, col)

def serialize (t : CardinalityTable) : List UInt8 :=
  leBytes 4 kCardMagic ++ [kCardVersion] ++ leBytes 8 t.nVectors.toNat ++
    leBytes 4 t.columns.length ++ t.entries.flatMap fun e => writeColumn A e.1 e.2

end CardinalityTable

/-! Reading. -/

inductive BlobEnd
  /-- The sizing pass ends before all columns. -/
  | cut
  /-- A read past the end. -/
  | outside
deriving DecidableEq, Repr

def word32 (e : BlobEnd) : Reader BlobEnd UInt32 := UInt32.ofNat <$> word e 4

def word64 (e : BlobEnd) : Reader BlobEnd UInt64 := UInt64.ofNat <$> word e 8

def byte (e : BlobEnd) : Reader BlobEnd UInt8 := (fun b => b.headD 0) <$> take e 1

def peekTracked (flags : UInt8) : Reader BlobEnd Unit :=
  if flags &&& 2 ≠ 0 then skip (8 + 8 + 8 + 8 + 8 + kCardinalityNumBins * 4)
  else do
    let nEntries ← word .cut 4
    if flags &&& 1 = 0 then skip (8 + nEntries * 8) else skip (nEntries * 12)

/-- Past a column of the blob. Its number is the result. -/
def peekColumn : Reader BlobEnd ℕ := do
  let cid ← word .cut 4
  let flags ← byte .outside
  match modeFromFlags flags with
  | .off => pure cid
  | .rejected => do
    skip 8
    pure cid
  | _ => do
    peekTracked flags
    pure cid

def peekColumns : (n maxCol : ℕ) → Reader BlobEnd ℕ
  | 0, maxCol => pure maxCol
  | n + 1, maxCol => do
    let cid ← peekColumn
    peekColumns n (max maxCol cid)

/-- `numeric_hist[val] = cnt`. -/
def histPut : List (UInt64 × UInt32) → UInt64 → UInt32 → List (UInt64 × UInt32)
  | [], v, c => [(v, c)]
  | (k, n) :: rest, v, c =>
    if Double.lt k v then (k, n) :: histPut rest v c
    else if Double.lt v k then (v, c) :: (k, n) :: rest
    else (k, c) :: rest

/-- `freq[hash] = cnt`. -/
def freqPut (freq : List (UInt32 × UInt32)) (h c : UInt32) : List (UInt32 × UInt32) :=
  if (freq.lookup h).isSome then freq.map fun e => if e.1 = h then (e.1, c) else e
  else freq ++ [(h, c)]

def readBins (col : ColumnCardinality) : Reader BlobEnd ColumnCardinality := do
  let binMin ← word64 .outside
  let binMax ← word64 .outside
  let frameLo ← word64 .outside
  let frameHi ← word64 .outside
  let binTotal ← word64 .outside
  let bins ← many (word32 .outside) kCardinalityNumBins
  pure { col with
    binned := true
    binMin := binMin
    binMax := binMax
    frameLo := frameLo
    frameHi := frameHi
    binTotal := binTotal
    bins := bins }

def readPair {α β : Type} (r : Reader BlobEnd α) (r' : Reader BlobEnd β) :
    Reader BlobEnd (α × β) := do
  let a ← r
  let b ← r'
  pure (a, b)

def readHist (col : ColumnCardinality) : Reader BlobEnd ColumnCardinality := do
  let nEntries ← word .outside 4
  let es ← many (readPair (word64 .outside) (word32 .outside)) nEntries
  pure { col with numericHist := es.foldl (fun hist e => histPut hist e.1 e.2) [] }

def readFreq (col : ColumnCardinality) : Reader BlobEnd ColumnCardinality := do
  let nEntries ← word .outside 4
  let estDistinctStored ← word64 .outside
  let es ← many (readPair (word32 .outside) (word32 .outside)) nEntries
  pure { col with
    estDistinctStored := estDistinctStored
    freq := es.foldl (fun freq e => freqPut freq e.1 e.2) [] }

def readTracked (flags : UInt8) (col : ColumnCardinality) : Reader BlobEnd ColumnCardinality :=
  if flags &&& 2 ≠ 0 then readBins col
  else if col.isNumeric then readHist col
  else readFreq col

def readColumn : Reader BlobEnd (ℕ × ColumnCardinality) := do
  let c ← word .outside 4
  let flags ← byte .outside
  let col : ColumnCardinality :=
    { isNumeric := decide (flags &&& 1 ≠ 0)
      overflowed := decide (flags &&& 4 ≠ 0)
      mode := modeFromFlags flags }
  match col.mode with
  | .off => pure (c, col)
  | .rejected => do
    let est ← word64 .outside
    pure (c, { col with estDistinctStored := est })
  | _ => do
    let col ← readTracked flags col
    pure (c, col)

namespace CardinalityTable

/-- The next place goes to column `c`. -/
def placed (t : CardinalityTable) (c : ℕ) (col : ColumnCardinality) : CardinalityTable :=
  { t with columns := t.columns ++ [col], colToIdx := t.colToIdx.set c (some t.columns.length) }

def outOfRange : Reader BlobEnd CardinalityTable := fun _ => .error .outside

def readColumns : ℕ → CardinalityTable → Reader BlobEnd CardinalityTable
  | 0, t => pure t
  | n + 1, t => do
    let e ← readColumn
    if e.1 < t.colToIdx.length then readColumns n (t.placed e.1 e.2)
    else outOfRange

/-- The number of vectors and of columns, behind the magic and the version. -/
def readCounts : Reader BlobEnd (UInt64 × ℕ) := readPair (word64 .outside) (word .outside 4)

/-- The columns, if the sizing pass gets through all of them. -/
def readTable (nVectors : UInt64) (nCols : ℕ) (rest : List UInt8) :
    Except BlobEnd CardinalityTable :=
  match peekColumns nCols 0 rest with
  | .error .cut => .ok { nVectors := nVectors }
  | .error .outside => .error .outside
  | .ok (maxCol, _) =>
    (readColumns nCols
      { colToIdx := List.replicate ((maxCol + 1) % 2 ^ 32) none, nVectors := nVectors } rest).map
      (·.1)

/-- The empty table stands for a blob that is too short, or of another format. -/
def deserialize (data : List UInt8) : Except BlobEnd CardinalityTable :=
  if data.length < 12 then .ok {}
  else if leNat (data.take 4) ≠ kCardMagic then .ok {}
  else if data.getD 4 0 ≠ kCardVersion then .ok {}
  else
    match readCounts (data.drop 5) with
    | .error e => .error e
    | .ok ((nVectors, nCols), rest) => readTable nVectors nCols rest

end CardinalityTable

end SextantTree.Cardinality
