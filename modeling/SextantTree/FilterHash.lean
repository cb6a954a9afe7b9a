import SextantTree.BloomFilter

/-!
The hash of filter values: rapidhash with a fixed seed, folded to 32 bits, and the probe
positions derived from it by double hashing.
-/

namespace SextantTree.FilterHash

abbrev Bytes := List UInt8

def rapidSecret : ℕ → UInt64
  | 0 => 0x2d358dccaa6c78a5
  | 1 => 0x8bb84b93962eacc9
  | 2 => 0x4b33a62ed433d4a3
  | 3 => 0x4d5a2da51de1aa47
  | 4 => 0xa0761d6478bd642f
  | 5 => 0xe7037ed1a0b428db
  | 6 => 0x90ed1765281c388c
  | _ => 0xaaaaaaaaaaaaaaaa

/-- Low and high half of the 128-bit product. -/
def rapidMum (a b : UInt64) : UInt64 × UInt64 :=
  let r := a.toNat * b.toNat
  (UInt64.ofNat r, UInt64.ofNat (r / 2 ^ 64))

def rapidMix (a b : UInt64) : UInt64 :=
  (rapidMum a b).1 ^^^ (rapidMum a b).2

/-- `n` bytes at offset `p`, little endian. -/
def rapidRead (key : Bytes) (p n : ℕ) : UInt64 :=
  ((key.drop p).take n).foldr (fun b acc => acc * 256 + b.toUInt64) 0

def rapidRead64 (key : Bytes) (p : ℕ) : UInt64 := rapidRead key p 8

def rapidRead32 (key : Bytes) (p : ℕ) : UInt64 := rapidRead key p 4

/-- One lane: mix the two words at `p` into `seed`. -/
def lane (key : Bytes) (p secret : ℕ) (seed : UInt64) : UInt64 :=
  rapidMix (rapidRead64 key p ^^^ rapidSecret secret) (rapidRead64 key (p + 8) ^^^ seed)

structure Lanes where
  seed : UInt64
  see1 : UInt64
  see2 : UInt64
  see3 : UInt64
  see4 : UInt64
  see5 : UInt64
  see6 : UInt64

def Lanes.mixBlock (key : Bytes) (p : ℕ) (l : Lanes) : Lanes where
  seed := lane key p 0 l.seed
  see1 := lane key (p + 16) 1 l.see1
  see2 := lane key (p + 32) 2 l.see2
  see3 := lane key (p + 48) 3 l.see3
  see4 := lane key (p + 64) 4 l.see4
  see5 := lane key (p + 80) 5 l.see5
  see6 := lane key (p + 96) 6 l.see6

/-- The bulk loop over `blocks` blocks of 112 bytes. -/
def bulk (key : Bytes) (blocks : ℕ) (seed : UInt64) : Lanes :=
  (List.range blocks).foldl (fun l j => l.mixBlock key (112 * j))
    ⟨seed, seed, seed, seed, seed, seed, seed⟩

def Lanes.fold (l : Lanes) : UInt64 :=
  l.seed ^^^ l.see1 ^^^ l.see6 ^^^ ((l.see2 ^^^ l.see3) ^^^ (l.see4 ^^^ l.see5))

/-- The tail ladder: the `i` bytes left at `p`, sixteen at a time while more than that many
remain, under the secrets 2, 2, 1, 1, 2, 1. -/
def tail (key : Bytes) (p i : ℕ) (seed : UInt64) : UInt64 :=
  [2, 2, 1, 1, 2, 1].zipIdx.foldl
    (fun seed (secret, j) => if i > 16 * (j + 1) then lane key (p + 16 * j) secret seed else seed)
    seed

def rapidhashWithSeed (key : Bytes) (seed₀ : UInt64) : UInt64 :=
  let len := key.length
  let seed := seed₀ ^^^ rapidMix (seed₀ ^^^ rapidSecret 2) (rapidSecret 1)
  let byteAt (j : ℕ) : UInt64 := ((key[j]?).getD 0).toUInt64
  let (a, b, seed, i) : UInt64 × UInt64 × UInt64 × ℕ :=
    if len ≤ 16 then
      if len ≥ 8 then
        (rapidRead64 key 0, rapidRead64 key (len - 8), seed ^^^ UInt64.ofNat len, len)
      else if len ≥ 4 then
        (rapidRead32 key 0, rapidRead32 key (len - 4), seed ^^^ UInt64.ofNat len, len)
      else if len > 0 then
        ((byteAt 0 <<< 45) ||| byteAt (len - 1), byteAt (len / 2), seed, len)
      else (0, 0, seed, len)
    else
      -- the `do … while (i > 112)` loop leaves between 1 and 112 bytes
      let blocks := (len - 1) / 112
      let i := len - 112 * blocks
      let seed := if len > 112 then (bulk key blocks seed).fold else seed
      let seed := tail key (112 * blocks) i seed
      (rapidRead64 key (len - 16) ^^^ UInt64.ofNat i, rapidRead64 key (len - 8), seed, i)
  let (a, b) := rapidMum (a ^^^ rapidSecret 1) (b ^^^ seed)
  rapidMix (a ^^^ rapidSecret 7) (b ^^^ rapidSecret 1 ^^^ UInt64.ofNat i)

def kFilterHashSeed : UInt64 := 0x5E784A6E5F

def filterHash (s : Bytes) : UInt32 :=
  let h := rapidhashWithSeed s kFilterHashSeed
  (h ^^^ (h >>> 32)).toUInt32

def kBloomK : ℕ := 3

/-- The `k`-th probe of a hash, `h1 + k * h2` in 32 bits with `h2` forced odd. -/
def bloomBit (h : UInt32) (k nBits : ℕ) : ℕ :=
  (h + UInt32.ofNat k * ((h >>> 16) ||| 1)).toNat % nBits

/-- The probe positions of a hash in a filter of `nBits` bits. -/
def bloomProbes (nBits : ℕ) (h : UInt32) : List ℕ :=
  (List.range kBloomK).map fun k => bloomBit h k nBits

end SextantTree.FilterHash
