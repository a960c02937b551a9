import Sangria.Value.Basic

/-!
# Templates

A text can be a template: a percent sign begins a directive, which says how the one argument is to
be written there, and two percent signs side by side stand for one. A directive is flags, a width, a
precision, a letter of size that means nothing, and the letter of a conversion; an asterisk in place
of the width or the precision takes the argument for it.

`Directive.read` reads a directive, `convert` writes the argument, `Directive.pad` brings it to the
width. The argument must be used exactly once.
-/

namespace Sangria

/-- Why a template cannot be read, or a number not be written. -/
inductive TemplateFault
  /-- No conversion has this letter, which stands at this offset. -/
  | unknownConversion (p : CodePoint) (offset : Nat)
  /-- The template ends within a directive. -/
  | incomplete
  /-- The width is too large. -/
  | wideWidth
  /-- The precision is too large. -/
  | widePrecision
  /-- An integer is asked for of what is no number. -/
  | notANumber
  /-- An integer has too many digits. -/
  | tooLong
  deriving DecidableEq, Repr

/-- Why an operator has no result. -/
inductive OperatorFault
  /-- The divisor is zero. -/
  | divisionByZero
  /-- The result is too large. -/
  | tooLarge
  /-- The operator is not for values of these kinds. -/
  | unsupported
  /-- The left side is a template that cannot be filled. -/
  | template (f : TemplateFault)
  deriving DecidableEq, Repr

/-- A fault in arithmetic as one of an operator. -/
def ArithmeticFault.toOperatorFault : ArithmeticFault → OperatorFault
  | .divisionByZero => .divisionByZero
  | .tooLarge => .tooLarge

/-- The message for an integer of too many digits. -/
def tooLongMessage : String :=
  "Exceeds the limit (4300 digits) for integer string conversion; "
    ++ "use sys.set_int_max_str_digits() to increase the limit"

/-- The message for an integer asked for of what is no number. -/
def notANumberMessage : String :=
  "cannot convert float NaN to integer"

/-- A fault of a template in words. -/
def TemplateFault.message : TemplateFault → String
  | .unknownConversion p offset =>
    let sign := if 31 ≤ p.code ∧ p.code ≤ 126 then Char.ofNat p.code else '?'
    "unsupported format character '" ++ String.singleton sign ++ "' (0x"
      ++ String.ofList (hexPadded 1 p.code) ++ ") at index " ++ toString offset
  | .incomplete => "incomplete format"
  | .wideWidth => "width too big"
  | .widePrecision => "precision too big"
  | .notANumber => notANumberMessage
  | .tooLong => tooLongMessage

/-- How a directive asks for its argument to be written. -/
structure Directive where
  /-- Fill on the right. -/
  left : Bool
  /-- A sign before positive numbers too. -/
  plus : Bool
  /-- A space in place of that sign. -/
  blank : Bool
  /-- Mark the base of a number, or keep its point and zeros. -/
  alternate : Bool
  /-- Fill numbers with zeros. -/
  zero : Bool
  /-- The least width. -/
  width : Option Nat
  /-- The precision. -/
  precision : Option Nat

namespace Directive

/-! ### Reading a directive -/

/-- The largest offset that a text can have. -/
def maxOffset : Nat := 2 ^ 63 - 1

/-- The largest precision that a directive can have. -/
def maxPrecision : Nat := 2 ^ 31 - 1

/-- The letters of flags. -/
def isFlag (c : Char) : Bool :=
  c = '-' || c = '+' || c = ' ' || c = '#' || c = '0'

/-- The directive with some flags, and no width or precision. -/
def ofFlags (flags : List Char) : Directive :=
  { left := flags.contains '-', plus := flags.contains '+', blank := flags.contains ' ',
    alternate := flags.contains '#', zero := flags.contains '0', width := none,
    precision := none }

/-- The number that digits make, if each step to it stays within a limit. -/
def limitedValue (limit : Nat) (digits : List Char) : Option Nat :=
  let n := valueInBase 10 digits
  if n ≤ limit ∨ digits.length = 1 then some n else none

/-- The argument as an integer between two limits, if it was not used before. -/
def takeNumber (used : Bool) (v : Value) (low high : Int) : Except OperatorFault Int :=
  match used, v.asInt? with
  | false, some n => if low ≤ n ∧ n ≤ high then .ok n else .error .tooLarge
  | _, _ => .error .unsupported

/-- Read a width. The answer is the directive, whether the argument is used, and what follows. -/
def readWidth (d : Directive) (v : Value) (text : Text) :
    Except OperatorFault (Directive × Bool × Text) :=
  match text with
  | .char '*' :: rest =>
    match takeNumber false v (-(2 ^ 63)) maxOffset with
    | .ok n => .ok ({ d with left := d.left || n < 0, width := some n.natAbs }, true, rest)
    | .error f => .error f
  | _ =>
    let digits := text.takeWhile (·.isIn isAsciiDigit)
    if digits.isEmpty then .ok (d, false, text)
    else match limitedValue maxOffset (Text.chars digits) with
      | some n => .ok ({ d with width := some n }, false, text.dropWhile (·.isIn isAsciiDigit))
      | none => .error (.template .wideWidth)

/-- Read a precision, which begins with a point and is zero if nothing follows it. -/
def readPrecision (d : Directive) (used : Bool) (v : Value) (text : Text) :
    Except OperatorFault (Directive × Bool × Text) :=
  match text with
  | .char '.' :: .char '*' :: rest =>
    match takeNumber used v (-(2 ^ 31)) maxPrecision with
    | .ok n => .ok ({ d with precision := some n.toNat }, true, rest)
    | .error f => .error f
  | .char '.' :: rest =>
    let digits := rest.takeWhile (·.isIn isAsciiDigit)
    match limitedValue maxPrecision (Text.chars digits) with
    | some n =>
      .ok ({ d with precision := some n }, used, rest.dropWhile (·.isIn isAsciiDigit))
    | none => .error (.template .widePrecision)
  | _ => .ok (d, used, text)

/-- What follows a letter of size, if there is one. -/
def skipSize : Text → Text
  | p :: rest => if p.isIn fun c ↦ c = 'h' || c = 'l' || c = 'L' then rest else p :: rest
  | [] => []

/-- Read a directive up to the letter of its conversion. The answer is the directive, whether the
argument is used, the letter and what follows it. -/
def read (used : Bool) (v : Value) (text : Text) :
    Except OperatorFault (Directive × Bool × CodePoint × Text) := do
  if text.head? = some (.char '(') then throw .unsupported
  let d := ofFlags (Text.chars (text.takeWhile (·.isIn isFlag)))
  let text := text.dropWhile (·.isIn isFlag)
  if used && text.head? = some (.char '*') then throw .unsupported
  let (d, usedByWidth, text) ← d.readWidth v text
  let (d, used, text) ← d.readPrecision (used || usedByWidth) v text
  match skipSize text with
  | p :: rest => return (d, used, p, rest)
  | [] => throw (.template .incomplete)

/-! ### Writing the argument -/

/-- What a conversion makes of an argument: its sign, what marks its base, and the rest. -/
structure Written where
  /-- The sign, if there is one. -/
  sign : List Char
  /-- The mark of the base. -/
  mark : List Char
  /-- The text. -/
  body : Text
  /-- Whether it is a number. -/
  numeric : Bool

/-- Bring what was written to the width. Zeros stand behind the sign and the mark, blanks before
them or behind all. -/
def pad (d : Directive) (w : Written) : Text :=
  let front := Text.ofChars (w.sign ++ w.mark)
  let fill := List.replicate (d.width.getD 0 - (front.length + w.body.length))
  if d.left then front ++ w.body ++ fill (.char ' ')
  else if d.zero && w.numeric then front ++ fill (.char '0') ++ w.body
  else fill (.char ' ') ++ front ++ w.body

/-- The sign of a number as the flags ask for it. -/
def signOf (d : Directive) (negative : Bool) : List Char :=
  if negative then ['-'] else if d.plus then ['+'] else if d.blank then [' '] else []

/-- A text, cut to the precision. -/
def writeText (d : Directive) (t : Text) : Written :=
  ⟨[], [], match d.precision with
    | some n => t.take n
    | none => t, false⟩

/-- The digits of an integer in a base, as many as the precision asks for at least. -/
def writeDigits (d : Directive) (negative : Bool) (mark digits : List Char) : Written :=
  let zeros := List.replicate (d.precision.getD 0 - digits.length) '0'
  ⟨d.signOf negative, if d.alternate then mark else [], .ofChars (zeros ++ digits), true⟩

/-- An integer in the base of a conversion. -/
def writeInteger (d : Directive) (c : Char) (n : Int) : Except OperatorFault Written :=
  if maxPrecision - 3 < d.precision.getD 0 then .error .tooLarge
  else if c = 'o' then .ok (d.writeDigits (n < 0) ['0', 'o'] (Nat.toDigits 8 n.natAbs))
  else if c = 'x' then .ok (d.writeDigits (n < 0) ['0', 'x'] (Nat.toDigits 16 n.natAbs))
  else if c = 'X' then
    .ok (d.writeDigits (n < 0) ['0', 'X'] ((Nat.toDigits 16 n.natAbs).map Char.toUpper))
  else if hasTooManyDigits n then .error (.template .tooLong)
  else .ok (d.writeDigits (n < 0) [] (Nat.toDigits 10 n.natAbs))

/-- Digits with a point behind the first few; the point stays without digits behind it only if the
directive asks for that. -/
def pointed (d : Directive) (whole places : List Char) : List Char :=
  if places.isEmpty && !d.alternate then whole else whole ++ '.' :: places

/-- Digits without the zeros at their end. -/
def trimZeros (digits : List Char) : List Char :=
  (digits.reverse.dropWhile (· = '0')).reverse

/-- A finite number's absolute value in positional notation. -/
def fixedText (d : Directive) (places : Nat) (x : Float) : List Char :=
  let (whole, behind) := (Decimal.atPlaces x places).positional
  d.pointed whole behind

/-- A finite number's absolute value in scientific notation. -/
def scientificText (d : Directive) (places : Nat) (x : Float) : List Char :=
  let (digits, e) := Decimal.atDigits x (places + 1)
  d.pointed (digits.take 1) (digits.drop 1) ++ Decimal.exponentPart e

/-- A finite number's absolute value with a number of digits, positional if the point is among them
or at most four places before them. -/
def generalText (d : Directive) (count : Nat) (x : Float) : List Char :=
  let (digits, e) := Decimal.atDigits x count
  let keep := fun places ↦ if d.alternate then places else trimZeros places
  if e < -4 ∨ count ≤ e then
    d.pointed (digits.take 1) (keep (digits.drop 1)) ++ Decimal.exponentPart e
  else if e < 0 then d.pointed ['0'] (keep (List.replicate (-e - 1).toNat '0' ++ digits))
  else d.pointed (digits.take (e.toNat + 1)) (keep (digits.drop (e.toNat + 1)))

/-- A real number. -/
def writeReal (d : Directive) (c : Char) (x : Float) : Written :=
  let places := d.precision.getD 6
  let body :=
    if x.isNaN then ['n', 'a', 'n']
    else if x.isInf then ['i', 'n', 'f']
    else if c.toLower = 'f' then d.fixedText places x
    else if c.toLower = 'e' then d.scientificText places x
    else d.generalText (max places 1) x
  ⟨d.signOf (Binary64.isNegative x && !x.isNaN), [],
    .ofChars (if c = c.toUpper then body.map Char.toUpper else body), true⟩

/-- The integer that an integer conversion writes: a real number is cut to one for the decimal
conversions, and refused by the others. -/
def integerOf (c : Char) (v : Value) : Except OperatorFault Int :=
  match v with
  | .real x =>
    if c = 'o' ∨ c = 'x' ∨ c = 'X' then .error .unsupported
    else if x.isNaN then .error (.template .notANumber)
    else if x.isInf then .error .tooLarge
    else .ok (Binary64.truncate x)
  | v =>
    match v.asInt? with
    | some n => .ok n
    | none => .error .unsupported

/-- The real number that a conversion of real numbers writes. -/
def realOf (v : Value) : Except OperatorFault Float :=
  match v with
  | .real x => .ok x
  | v =>
    match v.asInt? with
    | some n =>
      let x := Binary64.ofInt n
      if x.isInf then .error .tooLarge else .ok x
    | none => .error .unsupported

/-- The code point that a conversion of characters writes: a text of one, or the one of a
number. -/
def codePointOf (v : Value) : Except OperatorFault CodePoint :=
  match v with
  | .text [p] => .ok p
  | v =>
    match v.asInt? with
    | some n =>
      if n < 0 then .error .tooLarge
      else match CodePoint.ofNat? n.toNat with
        | some p => .ok p
        | none => .error .tooLarge
    | none => .error .unsupported

/-- The text of a value in a conversion, or the fault of an integer of too many digits. -/
def orTooLong {α : Type} (t : Option α) : Except OperatorFault α :=
  match t with
  | some t => .ok t
  | none => .error (.template .tooLong)

/-- Write the argument as the conversion of a letter asks, which stands at an offset of the
template. -/
def convert (d : Directive) (letter : CodePoint) (offset : Nat) (v : Value) :
    Except OperatorFault Written :=
  match letter with
  | .surrogate _ => .error (.template (.unknownConversion letter offset))
  | .char c => do
    if c = 's' then return d.writeText (← orTooLong v.text?)
    else if c = 'r' then return d.writeText (.ofString (← orTooLong v.shown?))
    else if c = 'a' then
      return d.writeText (.ofChars (asciiOnly (← orTooLong v.shown?).toList))
    else if c = 'd' ∨ c = 'i' ∨ c = 'u' ∨ c = 'o' ∨ c = 'x' ∨ c = 'X' then
      d.writeInteger c (← integerOf c v)
    else if c.toLower = 'e' ∨ c.toLower = 'f' ∨ c.toLower = 'g' then
      return d.writeReal c (← realOf v)
    else if c = 'c' then return ⟨[], [], [← codePointOf v], false⟩
    else throw (.template (.unknownConversion letter offset))

end Directive

/-! ### Filling a template -/

/-- Fill what remains of a template of some length. The number bounds the directives in it, and
`used` tells whether the argument was used before. -/
def fillFrom (length : Nat) (v : Value) : Nat → Bool → Text → Except OperatorFault Text
  | 0, _, _ => .ok []
  | n + 1, used, text =>
    let plain := text.takeWhile (· ≠ .char '%')
    match text.dropWhile (· ≠ .char '%') with
    | [] => if used then .ok plain else .error .unsupported
    | _ :: .char '%' :: rest => (fillFrom length v n used rest).map fun t ↦ plain ++ .char '%' :: t
    | _ :: rest =>
      match Directive.read used v rest with
      | .error f => .error f
      | .ok (d, used, letter, rest) =>
        if used then .error .unsupported
        else
          match d.convert letter (length - rest.length - 1) v with
          | .error f => .error f
          | .ok w => (fillFrom length v n true rest).map fun t ↦ plain ++ d.pad w ++ t

/-- A template with one argument filled in. -/
def fillTemplate (template : Text) (v : Value) : Except OperatorFault Text :=
  fillFrom template.length v (template.length + 1) false template

end Sangria
