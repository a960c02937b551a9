import Sangria.Value.Basic

/-!
# Equality and order of values

Numbers of different kinds are compared exactly: an integer is not rounded to be compared with a
real number. Texts are ordered by code points. Values of kinds that have nothing in common are
different, and not ordered.
-/

namespace Sangria

/-- What an order of two values is asked about. -/
inductive Relation
  /-- Less. -/
  | lt
  /-- Greater. -/
  | gt
  /-- At most. -/
  | le
  /-- At least. -/
  | ge
  deriving DecidableEq, Repr

/-- How a relation is written. -/
def Relation.symbol : Relation → String
  | .lt => "<"
  | .gt => ">"
  | .le => "<="
  | .ge => ">="

/-- Whether a relation holds between things that stand so to each other. -/
def Relation.holds : Relation → Ordering → Bool
  | .lt, o => o == .lt
  | .gt, o => o == .gt
  | .le, o => o != .gt
  | .ge, o => o != .lt

/-- Whether a relation holds between two real numbers; none does with a NaN. -/
def Relation.holdsReal : Relation → Float → Float → Bool
  | .lt, x, y => x < y
  | .gt, x, y => x > y
  | .le, x, y => x <= y
  | .ge, x, y => x >= y

/-- Whether a relation holds between an integer and a real number. -/
def Relation.holdsMixed (r : Relation) (n : Int) (x : Float) : Bool :=
  !x.isNaN && r.holds (Binary64.compareInt n x)

namespace Value

/-- Whether an integer is equal to a value. -/
def equalsInt (n : Int) : Value → Bool
  | .bool b => n = if b then 1 else 0
  | .int m => n = m
  | .real x => Binary64.equalsInt n x
  | .complex z => z.im == 0.0 && Binary64.equalsInt n z.re
  | _ => false

/-- Whether two values are equal. -/
def equals : Value → Value → Bool
  | .none, .none => true
  | .bool b, v => equalsInt (if b then 1 else 0) v
  | .int n, v => equalsInt n v
  | v, .bool b => equalsInt (if b then 1 else 0) v
  | v, .int n => equalsInt n v
  | .real x, .real y => x == y
  | .real x, .complex z => z.equals (.ofReal x)
  | .complex z, .real x => z.equals (.ofReal x)
  | .complex z, .complex w => z.equals w
  | .text s, .text t => s = t
  | .function m _ _ _, .function n _ _ _ => m = n
  | .builtin a, .builtin b => a = b
  | _, _ => false

/-- Whether a relation holds between two values, if they are ordered. -/
def related? (r : Relation) (a b : Value) : Option Bool :=
  match a, b with
  | .text s, .text t => some (r.holds (compare s t))
  | .real x, .real y => some (r.holdsReal x y)
  | .real x, b => b.asInt?.map fun n ↦ !x.isNaN && r.holds (Binary64.compareInt n x).swap
  | a, .real y => a.asInt?.map fun n ↦ r.holdsMixed n y
  | a, b => a.asInt?.bind fun m ↦ b.asInt?.map fun n ↦ r.holds (compare m n)

end Value

end Sangria
