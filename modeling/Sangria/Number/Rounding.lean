/-!
# Rounding quotients

A quotient of natural numbers is rounded to the nearest integer, and one that lies halfway goes to
the even neighbour. Powers of a base with integer exponents keep a quotient exact: a negative
exponent moves to the other side.
-/

namespace Sangria

-- Powers are those of the numbers themselves, also where these are known to be monoids.
attribute [instance (high), default_instance (high + 1)] instPowNat

/-- The integer nearest to `n / d`, the even one of two equally near. -/
def roundEven (n d : Nat) : Nat :=
  let q := n / d
  let r := n % d
  if 2 * r < d then q else if d < 2 * r then q + 1 else q + q % 2

/-- A quotient times a power of a base, as a quotient. -/
def scaled (base : Nat) (n d : Nat) (k : Int) : Nat × Nat :=
  if 0 ≤ k then (n * base ^ k.toNat, d) else (n, d * base ^ (-k).toNat)

/-- The exponent of the highest power of ten that is at most the positive quotient `n / d`. The
binary logarithms put it within one of an estimate, and three comparisons settle it. -/
def decimalExponent (n d : Nat) : Int :=
  let estimate := ((n.log2 : Int) - d.log2) * 30103 / 100000
  let reached := fun (p : Int) ↦
    let q := scaled 10 n d (-p)
    q.2 ≤ q.1
  ([estimate + 1, estimate].find? reached).getD (estimate - 1)

end Sangria
