import Mathlib.Tactic

/-!
The Mersenne twister of 32 bits (`std::mt19937`).
-/

namespace SextantTree.Mersenne

/-- A word of the initial state from the one before it. -/
def initWord (prev i : ℕ) : ℕ := (1812433253 * (prev ^^^ (prev >>> 30)) + i) % 2 ^ 32

/-- A later word, from those 624, 623 and 227 before it. -/
def twist (u v m : ℕ) : ℕ :=
  let y := (u &&& 0x80000000) ||| (v &&& 0x7fffffff)
  m ^^^ (y >>> 1) ^^^ (if y % 2 = 1 then 0x9908b0df else 0)

def temper (y : ℕ) : ℕ :=
  let y := y ^^^ (y >>> 11)
  let y := y ^^^ (y <<< 7 &&& 0x9d2c5680)
  let y := y ^^^ (y <<< 15 &&& 0xefc60000)
  y ^^^ (y >>> 18)

/-- The words of the state up to a number, the last one first. -/
def words (seed : ℕ) : ℕ → List ℕ
  | 0 => [seed % 2 ^ 32]
  | n + 1 =>
    let ws := words seed n
    (if n + 1 < 624 then initWord (ws.headD 0) (n + 1)
    else twist (ws.getD 623 0) (ws.getD 622 0) (ws.getD 226 0)) :: ws

def mt19937 (seed i : ℕ) : ℕ := temper ((words seed (624 + i)).headD 0)

/-- The first draw of the default seed. -/
example : mt19937 5489 0 = 3499211612 := by decide +kernel

end SextantTree.Mersenne
