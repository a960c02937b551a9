import Sangria.Value.Call

/-!
# Checks of the range

Some operations check whether a number is too large for its kind, whatever becomes of it then. What
the last of these checks found is remembered, and decides one thing: a complex number with a part
that is no number has no distance from zero after a check that failed.

`Value.rangeCheck?` and `Builtin.rangeCheck?` say what an operation finds: true for a number out of
range, false for one in range, and nothing where it does not check, so that the memory stays as it
is.
-/

namespace Sangria

/-- Whether a result is missing because it is too large. -/
def isOutOfRange {α : Type} : Except ArithmeticFault α → Bool
  | .error .tooLarge => true
  | _ => false

/-- What a power of real numbers finds. One that is settled by a base or an exponent of zero, by a
base of size one, or by one of them that is not finite, is not computed and finds nothing. -/
def Binary64.powRange? (x y : Float) : Option Bool :=
  match pow? x y with
  | .ok none => some (isOutOfRange ((ComplexNumber.ofReal x).pow (.ofReal y)))
  | p =>
    if x.isFinite && y.isFinite && x != 0.0 && y != 0.0 && x.abs != 1.0 then
      some (isOutOfRange p)
    else none

namespace NumberPair

/-- What a power finds. -/
def powRange? : NumberPair → Option Bool
  | .int m n =>
    if 0 ≤ n then none
    else match Value.realOfInt m, Value.realOfInt n with
      | .ok x, .ok y => Binary64.powRange? x y
      | _, _ => none
  | .real x y => Binary64.powRange? x y
  | .complex z w => some (isOutOfRange (z.pow w))

/-- What a quotient finds: complex ones are taken to be in range. -/
def divRange? : NumberPair → Option Bool
  | .complex _ _ => some false
  | _ => none

/-- What a quotient rounded down or its remainder finds: an infinite dividend leaves no remainder
and is taken to be in range. -/
def remainderRange? : NumberPair → Option Bool
  | .real x y => if x.isInf && y != 0.0 && !y.isNaN then some false else none
  | _ => none

end NumberPair

/-- What an operator finds on two values. -/
def Value.rangeCheck? (op : Operator) (a b : Value) : Option Bool :=
  match op with
  | .div => (numbers a b).toOption.bind NumberPair.divRange?
  | .floorDiv | .mod => (realNumbers a b).toOption.bind NumberPair.remainderRange?
  | .pow => (numbers a b).toOption.bind NumberPair.powRange?
  | _ => Option.none

namespace Builtin

/-- What a distance from zero finds: an infinite one is in range, and one that is no number is not
checked. -/
def distanceRange? (z : ComplexNumber) : Option Bool :=
  if z.re.isInf || z.im.isInf then some false
  else if z.re.isNaN || z.im.isNaN then none
  else some (isOutOfRange z.abs)

/-- What rounding to a number of places finds, if the places are among those that numbers have. -/
def roundRange? (x : Float) (places : Int) : Option Bool :=
  if x.isFinite && -308 ≤ places && places ≤ 323 then
    some (((Decimal.atPlaces x places).toReal false).isInf)
  else none

/-- What a built-in function finds on its arguments. -/
def rangeCheck? : Builtin → List Value → Option Bool
  | .abs, [.complex z] => distanceRange? z
  | .round, [.real x, places] => (placesOf? places).toOption.join.bind (roundRange? x)
  | .float, [.text t] => realRange? t
  | _, _ => none

end Builtin

end Sangria
