/-!
# Sets of characters given by code point ranges

A character class of a standard is a finite union of intervals of code points. It is kept as the
list of those intervals, so a class is data and membership is one search through it.
-/

namespace Sangria

/-- A set of characters, as the intervals of code points (both ends included) that make it up. -/
abbrev CodeSet := List (Nat × Nat)

/-- Whether the code point of a character lies in one of the intervals. -/
def CodeSet.has (s : CodeSet) (c : Char) : Bool :=
  s.any fun r ↦ r.1 ≤ c.toNat && c.toNat ≤ r.2

end Sangria
