import Mathlib.Data.Nat.Init

/-!
That the numbers in formulas are at least two, by proofs with names, so that a literal of a field is
the same term wherever it is written.
-/

namespace SextantTree.Literals

instance atLeastTwo_two : Nat.AtLeastTwo 2 := ⟨by decide⟩

instance atLeastTwo_ten : Nat.AtLeastTwo 10 := ⟨by decide⟩

instance atLeastTwo_fifteen : Nat.AtLeastTwo 15 := ⟨by decide⟩

instance atLeastTwo_twentySeven : Nat.AtLeastTwo 27 := ⟨by decide⟩

/-- The largest number of binary16. -/
instance atLeastTwo_largestHalf : Nat.AtLeastTwo 65504 := ⟨by decide⟩

end SextantTree.Literals
