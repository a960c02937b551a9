import Sangria.Number.ComplexNumber
import Sangria.Number.Numeral
import Sangria.Number.RealText
import Sangria.Program
import Sangria.Text.Quoted

/-!
# Values

What expressions evaluate to. A function keeps its block and a number of its own: two functions are
the same value only if they come from one definition carried out once. The function that writes
belongs to one interpreter, and its text tells where in memory that is.

Values have two sets of kind names. `Value.kindName` is the one that this language's own messages
use, `Value.className` the one in the messages of built-in functions.
-/

namespace Sangria

/-- The built-in functions. -/
inductive Builtin
  /-- Writes the texts of its arguments, for the interpreter at an address. -/
  | print (address : Nat)
  /-- The length of a text. -/
  | len
  /-- A number rounded. -/
  | round
  /-- The distance from zero. -/
  | abs
  /-- The least argument. -/
  | min
  /-- The greatest argument. -/
  | max
  /-- An integer from a number or a text. -/
  | int
  /-- A real number from a number or a text. -/
  | float
  /-- The text of a value. -/
  | str
  deriving DecidableEq, Repr

/-- The name that a built-in function is bound to. -/
def Builtin.name : Builtin → String
  | .print _ => "print"
  | .len => "len"
  | .round => "round"
  | .abs => "abs"
  | .min => "min"
  | .max => "max"
  | .int => "int"
  | .float => "float"
  | .str => "str"

/-- Every built-in function of the interpreter at an address. -/
def Builtin.all (address : Nat) : List Builtin :=
  [.print address, .len, .round, .abs, .min, .max, .int, .float, .str]

/-- The built-in function of a name, for the interpreter at an address. -/
def Builtin.ofName? (address : Nat) (name : String) : Option Builtin :=
  (Builtin.all address).find? (·.name = name)

/-- The name of a built-in function's kind. -/
def Builtin.kindName : Builtin → String
  | .print _ => "method"
  | .len | .round | .abs | .min | .max => "builtin_function_or_method"
  | .int | .float | .str => "type"

/-- Values. -/
inductive Value
  /-- No value. -/
  | none
  /-- A truth value. -/
  | bool (b : Bool)
  /-- An integer. -/
  | int (n : Int)
  /-- A real number. -/
  | real (x : Float)
  /-- A complex number. -/
  | complex (z : ComplexNumber)
  /-- A text. -/
  | text (t : Text)
  /-- A function: the number of its definition, its name, its parameters and its block. -/
  | function (number : Nat) (name : String) (params : List String) (body : Block)
  /-- A built-in function. -/
  | builtin (b : Builtin)

/-- The value of a literal. -/
def Literal.value : Literal → Value
  | .none => .none
  | .bool b => .bool b
  | .int n => .int n
  | .real x => .real x
  | .text s => .text (.ofString s)

namespace Value

/-- The name of a value's kind in this language's own messages. -/
def kindName : Value → String
  | .none => "None"
  | .bool _ => "booleano"
  | .int _ => "entero"
  | .real _ => "real"
  | .complex _ => "complex"
  | .text _ => "cadena"
  | .function .. => "función"
  | .builtin b => b.kindName

/-- The name of a value's kind in the messages of built-in functions. -/
def className : Value → String
  | .none => "NoneType"
  | .bool _ => "bool"
  | .int _ => "int"
  | .real _ => "float"
  | .complex _ => "complex"
  | .text _ => "str"
  | .function .. => "Function"
  | .builtin b => b.kindName

/-- Whether a condition with this value holds: all values do but nothing, falsehood, zeros and the
empty text. -/
def truthy : Value → Bool
  | .none => false
  | .bool b => b
  | .int n => n ≠ 0
  | .real x => x != 0.0
  | .complex z => z.re != 0.0 || z.im != 0.0
  | .text t => !t.isEmpty
  | .function .. => true
  | .builtin _ => true

/-- A value as an integer; a truth value counts as one or zero. -/
def asInt? : Value → Option Int
  | .bool b => some (if b then 1 else 0)
  | .int n => some n
  | _ => Option.none

end Value

/-! ### The text of values -/

/-- Whether an integer has too many digits to be written in decimal. -/
def hasTooManyDigits (n : Int) : Bool :=
  10 ^ maxDigits ≤ n.natAbs

/-- An integer in decimal, if it does not have too many digits. -/
def decimalText? (n : Int) : Option String :=
  if hasTooManyDigits n then none else some (toString n)

/-- The text of a built-in function. -/
def Builtin.text : Builtin → String
  | .print address =>
    "<bound method Interpreter._print of <evaluator.Interpreter object at 0x"
      ++ String.ofList (hexPadded 1 address) ++ ">>"
  | .len => "<built-in function len>"
  | .round => "<built-in function round>"
  | .abs => "<built-in function abs>"
  | .min => "<built-in function min>"
  | .max => "<built-in function max>"
  | .int => "<class 'int'>"
  | .float => "<class 'float'>"
  | .str => "<class 'str'>"

/-- The text of a value as it is shown inside another text, where a text is quoted; an integer of
too many digits has none. -/
def Value.shown? : Value → Option String
  | .none => some "None"
  | .bool b => some (if b then "True" else "False")
  | .int n => decimalText? n
  | .real x => some (realText x)
  | .complex z => some (complexText z.re z.im)
  | .text t => some (quotedText t)
  | .function _ name _ _ => some ("<función " ++ name ++ ">")
  | .builtin b => some b.text

/-- The text of a value by itself: a text is its own. -/
def Value.text? : Value → Option Text
  | .text t => some t
  | v => v.shown?.map Text.ofString

end Sangria
