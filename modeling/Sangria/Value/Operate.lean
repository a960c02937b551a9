import Sangria.Value.Compare
import Sangria.Value.Template

/-!
# Operators on values

Arithmetic is exact on integers and goes to the wider kind otherwise: an integer joins a real number
as the nearest one, and either joins a complex number. A truth value counts as one or zero. Texts
can be joined, repeated, compared and filled in as templates.
-/

namespace Sangria

/-- Two numbers brought to the wider of their kinds. -/
inductive NumberPair
  /-- Two integers. -/
  | int (m n : Int)
  /-- Two real numbers. -/
  | real (x y : Float)
  /-- Two complex numbers. -/
  | complex (z w : ComplexNumber)

namespace Value

/-- An integer as the nearest real number, if it is not too large for one. -/
def realOfInt (n : Int) : Except OperatorFault Float :=
  let x := Binary64.ofInt n
  if x.isInf then .error .tooLarge else .ok x

/-- An integer and a real number as two real numbers, in the given order. -/
def joinReal (f : Float → NumberPair) (n : Int) : Except OperatorFault NumberPair :=
  (realOfInt n).map f

/-- Two values as numbers of one kind. -/
def numbers (a b : Value) : Except OperatorFault NumberPair :=
  match a, b with
  | .real x, .real y => .ok (.real x y)
  | .complex z, .complex w => .ok (.complex z w)
  | .complex z, .real y => .ok (.complex z (.ofReal y))
  | .real x, .complex w => .ok (.complex (.ofReal x) w)
  | a, b =>
    match a.asInt?, b.asInt? with
    | some m, some n => .ok (.int m n)
    | some m, .none =>
      match b with
      | .real y => joinReal (.real · y) m
      | .complex w => joinReal (fun x ↦ .complex (.ofReal x) w) m
      | _ => .error .unsupported
    | .none, some n =>
      match a with
      | .real x => joinReal (.real x ·) n
      | .complex z => joinReal (fun y ↦ .complex z (.ofReal y)) n
      | _ => .error .unsupported
    | .none, .none => .error .unsupported

/-- A fault in arithmetic, or its result. -/
def ofArithmetic (r : Except ArithmeticFault Value) : Except OperatorFault Value :=
  r.mapError (·.toOperatorFault)

/-- A text repeated. -/
def repeatText (t : Text) (n : Int) : Except OperatorFault Value :=
  if n < -(2 ^ 63) ∨ 2 ^ 63 ≤ n ∨ 2 ^ 63 ≤ n * t.length then .error .tooLarge
  else if t.isEmpty then .ok (.text [])
  else .ok (.text (List.replicate n.toNat t).flatten)

/-- The sum, or two texts joined. -/
def add (a b : Value) : Except OperatorFault Value :=
  match a, b with
  | .text s, .text t => .ok (.text (s ++ t))
  | a, b => (numbers a b).map fun
    | .int m n => .int (m + n)
    | .real x y => .real (x + y)
    | .complex z w => .complex (z.add w)

/-- The difference. -/
def sub (a b : Value) : Except OperatorFault Value :=
  (numbers a b).map fun
    | .int m n => .int (m - n)
    | .real x y => .real (x - y)
    | .complex z w => .complex (z.sub w)

/-- The product, or a text repeated. -/
def mul (a b : Value) : Except OperatorFault Value :=
  match a, a.asInt?, b, b.asInt? with
  | .text s, _, _, some n => repeatText s n
  | _, some n, .text s, _ => repeatText s n
  | a, _, b, _ => (numbers a b).map fun
    | .int m n => .int (m * n)
    | .real x y => .real (x * y)
    | .complex z w => .complex (z.mul w)

/-- The quotient of integers as the nearest real number. -/
def divInt (m n : Int) : Except OperatorFault Value :=
  if n = 0 then .error .divisionByZero
  else
    let x := Binary64.ofIntRatio m n
    if x.isInf then .error .tooLarge else .ok (.real x)

/-- The quotient. -/
def div (a b : Value) : Except OperatorFault Value :=
  match numbers a b with
  | .error f => .error f
  | .ok (.int m n) => divInt m n
  | .ok (.real x y) => if y == 0.0 then .error .divisionByZero else .ok (.real (x / y))
  | .ok (.complex z w) => ofArithmetic ((z.div w).map .complex)

/-- Two values as numbers of one kind that can be divided with a remainder; complex ones cannot. -/
def realNumbers (a b : Value) : Except OperatorFault NumberPair :=
  match a, b with
  | .complex _, _ => .error .unsupported
  | _, .complex _ => .error .unsupported
  | a, b => numbers a b

/-- The quotient rounded down. -/
def floorDiv (a b : Value) : Except OperatorFault Value :=
  match realNumbers a b with
  | .error f => .error f
  | .ok (.int m n) => if n = 0 then .error .divisionByZero else .ok (.int (m.fdiv n))
  | .ok (.real x y) =>
    if y == 0.0 then .error .divisionByZero else .ok (.real (Binary64.floorQuotient x y))
  | .ok (.complex _ _) => .error .unsupported

/-- What the quotient rounded down leaves, or a template filled in. -/
def mod (a b : Value) : Except OperatorFault Value :=
  match a with
  | .text t => (fillTemplate t b).map .text
  | a =>
    match realNumbers a b with
    | .error f => .error f
    | .ok (.int m n) => if n = 0 then .error .divisionByZero else .ok (.int (m.fmod n))
    | .ok (.real x y) =>
      if y == 0.0 then .error .divisionByZero else .ok (.real (Binary64.modulo x y))
    | .ok (.complex _ _) => .error .unsupported

/-- A power of real numbers, complex if it is not real. -/
def powReal (x y : Float) : Except OperatorFault Value :=
  match Binary64.pow? x y with
  | .error f => .error f.toOperatorFault
  | .ok (some p) => .ok (.real p)
  | .ok .none =>
    ofArithmetic (((ComplexNumber.ofReal x).pow (ComplexNumber.ofReal y)).map .complex)

/-- A power of integers. The bases of size one at most are treated apart, so that no exponent is too
large for them. -/
def intPower (m : Int) (n : Nat) : Int :=
  if n = 0 then 1
  else if m = 0 then 0
  else if m = 1 then 1
  else if m = -1 then if n % 2 = 0 then 1 else -1
  else m ^ n

/-- The powers of minus one go back and forth. -/
theorem neg_one_pow_eq (n : Nat) : (-1 : Int) ^ n = if n % 2 = 0 then 1 else -1 := by
  induction n with
  | zero => rfl
  | succ n ih =>
    rw [Int.pow_succ, ih]
    rcases Nat.mod_two_eq_zero_or_one n with h | h <;> simp [Nat.add_mod, h]

/-- It is the power. -/
theorem intPower_eq (m : Int) (n : Nat) : intPower m n = m ^ n := by
  unfold intPower
  split
  · rename_i h; simp [h]
  · rename_i hn
    split
    · rename_i h; subst h; exact (Int.zero_pow hn).symm
    · split
      · rename_i h; subst h; exact (Int.one_pow).symm
      · split
        · rename_i h; subst h; exact (neg_one_pow_eq n).symm
        · rfl

/-- A power of integers, real if the exponent is negative. -/
def powInt (m n : Int) : Except OperatorFault Value :=
  if 0 ≤ n then .ok (.int (intPower m n.toNat))
  else
    match realOfInt m, realOfInt n with
    | .ok x, .ok y => powReal x y
    | .error f, _ => .error f
    | _, .error f => .error f

/-- A power. -/
def pow (a b : Value) : Except OperatorFault Value :=
  match numbers a b with
  | .error f => .error f
  | .ok (.int m n) => powInt m n
  | .ok (.real x y) => powReal x y
  | .ok (.complex z w) => ofArithmetic ((z.pow w).map .complex)

/-- Whether a relation holds, if the values are ordered. -/
def order (r : Relation) (a b : Value) : Except OperatorFault Value :=
  match related? r a b with
  | some holds => .ok (.bool holds)
  | .none => .error .unsupported

/-- What an operator makes of two values. -/
def apply : Operator → Value → Value → Except OperatorFault Value
  | .add => add
  | .sub => sub
  | .mul => mul
  | .div => div
  | .floorDiv => floorDiv
  | .mod => mod
  | .pow => pow
  | .eq => fun a b ↦ .ok (.bool (equals a b))
  | .ne => fun a b ↦ .ok (.bool (!equals a b))
  | .lt => order .lt
  | .gt => order .gt
  | .le => order .le
  | .ge => order .ge

/-- What a sign makes of a value, if it is a number. -/
def sign? : Sign → Value → Option Value
  | .neg, .real x => some (.real (-x))
  | .neg, .complex z => some (.complex ⟨-z.re, -z.im⟩)
  | .pos, .real x => some (.real x)
  | .pos, .complex z => some (.complex z)
  | .neg, v => v.asInt?.map fun n ↦ .int (-n)
  | .pos, v => v.asInt?.map .int

end Value

end Sangria
