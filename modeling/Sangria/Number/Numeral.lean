import Sangria.Number.Decimal
import Sangria.Text.Blank

/-!
# Numerals

The numbers that texts hold. An integer is a sign and digits of a base, a real number a sign,
decimal digits with a point and an exponent, or one of the words for infinity and for NaN. Between
two digits there may be one underscore. In a base that is no power of two, an integer of more than
`maxDigits` digits is refused.

A real number that is too large for its kind is read as infinity all the same; `realRange?` tells
that it was.
-/

namespace Sangria

/-- The most digits that an integer may have when it is read or written in a base that is no power
of two. -/
def maxDigits : Nat := 4300

/-- Why a text is no integer. -/
inductive NumeralFault
  /-- The text is no numeral of the base. -/
  | malformed
  /-- The text has too many digits, as many as given. -/
  | tooLong (digits : Nat)
  deriving DecidableEq, Repr

/-- The value of a letter or digit as a digit of a base up to 36. -/
def digitValue? (c : Char) : Option Nat :=
  if isAsciiDigit c then some (c.toNat - '0'.toNat)
  else if 'a' ≤ c ∧ c ≤ 'z' then some (c.toNat - 'a'.toNat + 10)
  else if 'A' ≤ c ∧ c ≤ 'Z' then some (c.toNat - 'A'.toNat + 10)
  else none

/-- The value of a digit of a base. -/
def digitOf? (base : Nat) (c : Char) : Option Nat :=
  (digitValue? c).filter (· < base)

/-- A sign at the front, and whether it was the negative one. -/
def splitSign : List Char → Bool × List Char
  | '-' :: rest => (true, rest)
  | '+' :: rest => (false, rest)
  | rest => (false, rest)

/-- The base that a letter behind a zero announces. -/
def announcedBase? (c : Char) : Option Nat :=
  if c = 'x' ∨ c = 'X' then some 16
  else if c = 'o' ∨ c = 'O' then some 8
  else if c = 'b' ∨ c = 'B' then some 2
  else none

/-- Whether underscores stand singly and between digits only. -/
def underscoresBetween : List Char → Bool
  | [] => true
  | '_' :: _ => false
  | _ :: rest => go rest
where
  /-- The same behind a digit. -/
  go : List Char → Bool
    | [] => true
    | ['_'] => false
    | '_' :: '_' :: _ => false
    | _ :: rest => go rest

/-- A number with digits of a base written behind it. -/
def appendDigits (base n : Nat) (digits : List Char) : Nat :=
  digits.foldl (fun n c ↦ n * base + (digitValue? c).getD 0) n

/-- The value of digits of a base, from the values of their halves down to a number of levels. -/
def valueByHalves (base : Nat) : (levels : Nat) → List Char → Nat
  | 0, digits => appendDigits base 0 digits
  | k + 1, digits =>
    let low := digits.length / 2
    let high := digits.length - low
    valueByHalves base k (digits.take high) * base ^ low + valueByHalves base k (digits.drop high)

/-- The value of digits of a base. Long numbers are halved, so that few products have a long
factor. -/
def valueInBase (base : Nat) (digits : List Char) : Nat :=
  valueByHalves base (digits.length.log2 - 5) digits

/-- Digits behind a number move it up by as many places and add their value. -/
theorem appendDigits_eq (base n : Nat) (digits : List Char) :
    appendDigits base n digits = n * base ^ digits.length + appendDigits base 0 digits := by
  induction digits generalizing n with
  | nil => simp [appendDigits]
  | cons c rest ih =>
    have hn := ih (n * base + (digitValue? c).getD 0)
    have hz := ih (0 * base + (digitValue? c).getD 0)
    simp only [appendDigits, List.foldl_cons, List.length_cons] at hn hz ⊢
    rw [hn, hz, Nat.pow_succ', Nat.add_mul]
    simp only [Nat.zero_mul, Nat.zero_add, Nat.mul_assoc, Nat.add_assoc]

/-- However often digits are halved, their value is that of one digit behind the other. -/
theorem valueByHalves_eq (base levels : Nat) (digits : List Char) :
    valueByHalves base levels digits = appendDigits base 0 digits := by
  induction levels generalizing digits with
  | zero => rfl
  | succ k ih =>
    simp only [valueByHalves, ih]
    generalize hm : digits.length - digits.length / 2 = m
    have hl : (digits.drop m).length = digits.length / 2 := by
      rw [List.length_drop]
      omega
    have happ : appendDigits base (appendDigits base 0 (digits.take m)) (digits.drop m)
        = appendDigits base 0 digits := by
      simp only [appendDigits]
      rw [← List.foldl_append, List.take_append_drop]
    rw [← happ, appendDigits_eq base (appendDigits base 0 (digits.take m)), hl]

/-- The value of digits is that of one digit behind the other. -/
theorem valueInBase_eq (base : Nat) (digits : List Char) :
    valueInBase base digits = appendDigits base 0 digits :=
  valueByHalves_eq base _ digits

/-- The number that digits of a base make. What stands behind the digits is looked at only after
their number. -/
def readDigits (base : Nat) (text : List Char) : Except NumeralFault Nat :=
  let run := text.takeWhile fun c ↦ (digitOf? base c).isSome || c = '_'
  let digits := run.filter (· ≠ '_')
  if digits.isEmpty || !underscoresBetween run then .error .malformed
  else if base &&& (base - 1) ≠ 0 ∧ maxDigits < digits.length then
    .error (.tooLong digits.length)
  else if run.length < text.length then .error .malformed
  else .ok (valueInBase base digits)

/-- The base meant, the digits behind what announces it, and whether they may only make zero: with
base zero the text tells the base itself, and a plain leading zero tells none. -/
def resolveBase (base : Nat) (text : List Char) : Nat × List Char × Bool :=
  match text with
  | '0' :: c :: rest =>
    let announced := announcedBase? c
    if announced.isSome ∧ (base = 0 ∨ announced = some base) then
      (announced.getD base, (if rest.head? = some '_' then rest.tail else rest), false)
    else if base = 0 then (10, text, true) else (base, text, false)
  | ['0'] => (if base = 0 then 10 else base, text, false)
  | _ => (if base = 0 then 10 else base, text, false)

/-- The integer that a text holds in a base, which is zero where the text tells it. -/
def readInteger (base : Nat) (text : Text) : Except NumeralFault Int :=
  let (negative, body) := splitSign (numeralBody text)
  let (base, digits, zeroOnly) := resolveBase base body
  match readDigits base digits with
  | .error f => .error f
  | .ok n =>
    if zeroOnly && n ≠ 0 then .error .malformed
    else .ok (if negative then -(n : Int) else n)

/-! ### Real numbers -/

/-- A text without underscores, if each stands between two digits. -/
def withoutUnderscores : List Char → Option (List Char)
  | a :: '_' :: b :: rest =>
    if isAsciiDigit a ∧ isAsciiDigit b then
      (withoutUnderscores (b :: rest)).map (a :: ·)
    else none
  | '_' :: _ => none
  | [_, '_'] => none
  | c :: rest => (withoutUnderscores rest).map (c :: ·)
  | [] => some []

/-- The value of an exponent part at the front, zero where there is none, and what follows it. -/
def splitExponent : List Char → Int × List Char
  | [] => (0, [])
  | e :: rest =>
    let (negative, behind) := splitSign rest
    let digits := behind.takeWhile isAsciiDigit
    if (e ≠ 'e' ∧ e ≠ 'E') ∨ digits.isEmpty then (0, e :: rest)
    else
      let n : Int := valueInBase 10 digits
      (if negative then -n else n, behind.dropWhile isAsciiDigit)

/-- The decimal that digits with a point and an exponent make at the front, the longest there is,
and what follows it. -/
def splitDecimal (text : List Char) : Option (Decimal × List Char) :=
  let whole := text.takeWhile isAsciiDigit
  let behind := text.dropWhile isAsciiDigit
  let (places, behind) := match behind with
    | '.' :: rest => (rest.takeWhile isAsciiDigit, rest.dropWhile isAsciiDigit)
    | rest => ([], rest)
  let digits := whole ++ places
  if digits.isEmpty then none
  else
    let (e, rest) := splitExponent behind
    some (⟨valueInBase 10 digits, e - places.length⟩, rest)

/-- The decimal that takes the whole of a text. -/
def readDecimal (text : List Char) : Option Decimal :=
  match splitDecimal text with
  | some (d, []) => some d
  | _ => none

/-- The number that a text without a sign holds. -/
def readMagnitude (negative : Bool) (text : List Char) : Option Float :=
  let word := String.ofList (text.map Char.toLower)
  if word = "inf" ∨ word = "infinity" then
    some (Binary64.ofPattern negative Binary64.infinityPattern)
  else if word = "nan" then
    some (Binary64.ofPattern negative (Binary64.infinityPattern + 2 ^ 51))
  else (readDecimal text).map (·.toReal negative)

/-- The real number that a text holds. -/
def readReal (text : Text) : Option Float :=
  (withoutUnderscores (numeralBody text)).bind fun body ↦
    let (negative, body) := splitSign body
    readMagnitude negative body

/-- Whether the longest decimal at the front of a text, behind a sign, is too large for a real
number. -/
def overflowsInFront (text : List Char) : Bool :=
  match splitDecimal (splitSign text).2 with
  | some (d, _) => (d.toReal false).isInf
  | none => false

/-- Whether reading a text as a real number comes upon one that is too large, even if the text goes
on behind it. Nothing is read of blanks alone, of misplaced underscores, or of underscores before a
null character. -/
def realRange? (text : Text) : Option Bool :=
  let body := numeralBody text
  let front := body.takeWhile (· ≠ '\x00')
  if body.isEmpty || (front.contains '_' && front.length < body.length) then none
  else (withoutUnderscores front).map overflowsInFront

end Sangria
