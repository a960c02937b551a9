import Sangria.Text.Sink
import Sangria.Value.Operate

/-!
# Calls of built-in functions

What the built-in functions make of their arguments, and why they refuse some. Only `print` does
more than answer; what it writes are the texts that `printed` gives, and the stream may refuse one
of them. Only `abs` asks for more than its arguments: whether a number was out of range when that was
last checked.
-/

namespace Sangria

/-- Why a built-in function refuses its arguments. -/
inductive CallFault
  /-- It takes one argument and not as many as given. -/
  | exactlyOne (f : Builtin) (given : Nat)
  /-- It takes at most so many arguments and not as many as given. -/
  | atMost (f : Builtin) (limit given : Nat)
  /-- It takes one argument at most, and not as many as given. -/
  | optionalOne (f : Builtin) (given : Nat)
  /-- It takes one argument at least. -/
  | atLeastOne (f : Builtin)
  /-- The number to be rounded is missing. -/
  | missingNumber
  /-- A value of this class has no length. -/
  | noLength (className : String)
  /-- A value of this class has no distance from zero. -/
  | noDistance (className : String)
  /-- The distance from zero is too large. -/
  | distanceTooLarge
  /-- A value of this class cannot be rounded. -/
  | noRounding (className : String)
  /-- The rounded number is too large. -/
  | roundedTooLarge
  /-- A value of this class does not count as an integer. -/
  | noIndex (className : String)
  /-- An integer is asked for of what is no number. -/
  | notANumber
  /-- An integer is asked for of an infinite number. -/
  | infinite
  /-- The text holds nothing to choose from. -/
  | emptyChoice (f : Builtin)
  /-- A value of this class holds nothing to choose from. -/
  | notIterable (className : String)
  /-- Values of these classes are not ordered. -/
  | unordered (r : Relation) (left right : String)
  /-- There is no such base. -/
  | noSuchBase
  /-- Only a text has a base. -/
  | baseWithoutText
  /-- The text is no integer of the base. -/
  | noInteger (base : Int) (text : Text)
  /-- The text has too many digits, as many as given. -/
  | tooManyDigits (digits : Nat)
  /-- A value of this class is no integer. -/
  | noIntegerOf (className : String)
  /-- The text is no real number. -/
  | noReal (text : Text)
  /-- A value of this class is no real number. -/
  | noRealOf (className : String)
  /-- The integer is too large for a real number. -/
  | intTooLarge
  /-- A word that says how a text is encoded is no text. -/
  | noEncoding (parameter className : String)
  /-- Such a word, or a text to be written, holds surrogates. -/
  | surrogates (run : SurrogateRun)
  /-- A word that says how a text is encoded holds a null character. -/
  | nullInEncoding
  /-- A text is no bytes. -/
  | textIsDecoded
  /-- A value of this class is no bytes. -/
  | noBytes (className : String)
  /-- An integer has too many digits to be written. -/
  | tooLong
  deriving DecidableEq, Repr

/-- The message for a text of too many digits. -/
def tooManyDigitsMessage (digits : Nat) : String :=
  "Exceeds the limit (4300 digits) for integer string conversion: value has "
    ++ toString digits ++ " digits; use sys.set_int_max_str_digits() to increase the limit"

/-- The message for surrogates in a text that is to be encoded. -/
def SurrogateRun.message (r : SurrogateRun) : String :=
  let place :=
    if r.count = 1 then
      "character '" ++ String.ofList (codePointEscape r.first.code) ++ "' in position "
        ++ toString r.offset
    else
      "characters in position " ++ toString r.offset ++ "-" ++ toString (r.offset + r.count - 1)
  "'utf-8' codec can't encode " ++ place ++ ": surrogates not allowed"

/-- A refusal in words. -/
def CallFault.message : CallFault → String
  | .exactlyOne f n => f.name ++ "() takes exactly one argument (" ++ toString n ++ " given)"
  | .atMost f limit n =>
    f.name ++ "() takes at most " ++ toString limit ++ " arguments (" ++ toString n ++ " given)"
  | .optionalOne f n => f.name ++ " expected at most 1 argument, got " ++ toString n
  | .atLeastOne f => f.name ++ " expected at least 1 argument, got 0"
  | .missingNumber => "round() missing required argument 'number' (pos 1)"
  | .noLength c => "object of type '" ++ c ++ "' has no len()"
  | .noDistance c => "bad operand type for abs(): '" ++ c ++ "'"
  | .distanceTooLarge => "absolute value too large"
  | .noRounding c => "type " ++ c ++ " doesn't define __round__ method"
  | .roundedTooLarge => "rounded value too large to represent"
  | .noIndex c => "'" ++ c ++ "' object cannot be interpreted as an integer"
  | .notANumber => notANumberMessage
  | .infinite => "cannot convert float infinity to integer"
  | .emptyChoice f => f.name ++ "() arg is an empty sequence"
  | .notIterable c => "'" ++ c ++ "' object is not iterable"
  | .unordered r a b =>
    "'" ++ r.symbol ++ "' not supported between instances of '" ++ a ++ "' and '" ++ b ++ "'"
  | .noSuchBase => "int() base must be >= 2 and <= 36, or 0"
  | .baseWithoutText => "int() can't convert non-string with explicit base"
  | .noInteger base t =>
    "invalid literal for int() with base " ++ toString base ++ ": "
      ++ String.ofList ((quotedChars t).take 200)
  | .tooManyDigits n => tooManyDigitsMessage n
  | .noIntegerOf c =>
    "int() argument must be a string, a bytes-like object or a real number, not '" ++ c ++ "'"
  | .noReal t => "could not convert string to float: " ++ quotedText t
  | .noRealOf c => "float() argument must be a string or a real number, not '" ++ c ++ "'"
  | .intTooLarge => "int too large to convert to float"
  | .noEncoding p c => "str() argument '" ++ p ++ "' must be str, not " ++ c
  | .surrogates run => run.message
  | .nullInEncoding => "embedded null character"
  | .textIsDecoded => "decoding str is not supported"
  | .noBytes c => "decoding to str: need a bytes-like object, " ++ c ++ " found"
  | .tooLong => tooLongMessage

namespace Builtin

/-- The text of a value, or the refusal of an integer of too many digits. -/
def textOf (v : Value) : Except CallFault Text :=
  match v.text? with
  | some t => .ok t
  | none => .error .tooLong

/-- What `print` writes, one after the other: the texts of the arguments with a space between them,
and a line end. -/
def printed (args : List Value) : Except CallFault (List Text) :=
  (args.mapM textOf).map fun ts ↦ ts.intersperse [.char ' '] ++ [[.char '\n']]

/-- The length of a text. -/
def length : List Value → Except CallFault Value
  | [.text t] => .ok (.int t.length)
  | [v] => .error (.noLength v.className)
  | args => .error (.exactlyOne .len args.length)

/-- The distance from zero. One that is no number is refused if the last check of a range failed. -/
def distance (outOfRange : Bool) : List Value → Except CallFault Value
  | [.real x] => .ok (.real x.abs)
  | [.complex z] =>
    match z.abs with
    | .ok x => if x.isNaN && outOfRange then .error .distanceTooLarge else .ok (.real x)
    | .error _ => .error .distanceTooLarge
  | [v] =>
    match v.asInt? with
    | some n => .ok (.int n.natAbs)
    | none => .error (.noDistance v.className)
  | args => .error (.exactlyOne .abs args.length)

/-! ### Rounding -/

/-- A number of places, if one is asked for. -/
def placesOf? (v : Value) : Except CallFault (Option Int) :=
  match v with
  | .none => .ok none
  | v =>
    match v.asInt? with
    | some n => .ok (some n)
    | none => .error (.noIndex v.className)

/-- A finite number as an integer, by a way of rounding. -/
def integerBy (round : Float → Int) (x : Float) : Except CallFault Value :=
  if x.isNaN then .error .notANumber
  else if x.isInf then .error .infinite
  else .ok (.int (round x))

/-- A real number rounded to a number of decimal places. Beyond the places that any number has it is
itself, and before the first of the largest number it is zero. -/
def roundReal (x : Float) (places : Int) : Except CallFault Value :=
  if !x.isFinite || 323 < places then .ok (.real x)
  else
    let negative := Binary64.isNegative x
    if places < -308 then .ok (.real (Binary64.zero negative))
    else
      let r := (Decimal.atPlaces x places).toReal negative
      if r.isInf then .error .roundedTooLarge else .ok (.real r)

/-- An integer rounded to a number of decimal places; only negative ones change it. -/
def roundInt (n : Int) (places : Int) : Int :=
  if 0 ≤ places then n
  else
    let k := (-places).toNat
    if n.natAbs.log2 + 2 < k then 0
    else
      let r : Int := roundEven n.natAbs (10 ^ k) * 10 ^ k
      if n < 0 then -r else r

/-- A number rounded, to an integer if no number of places is given. -/
def rounded (v : Value) (places : Value) : Except CallFault Value := do
  match v with
  | .real x =>
    match ← placesOf? places with
    | none => integerBy Binary64.nearest x
    | some n => roundReal x n
  | v =>
    match v.asInt? with
    | none => throw (.noRounding v.className)
    | some n =>
      match ← placesOf? places with
      | none => return .int n
      | some places => return .int (roundInt n places)

/-- The built-in function that rounds. -/
def rounding : List Value → Except CallFault Value
  | [] => .error .missingNumber
  | [v] => rounded v .none
  | [v, places] => rounded v places
  | args => .error (.atMost .round 2 args.length)

/-! ### Choosing -/

/-- Of some values, the first to which no later one is related. -/
def choose (r : Relation) : Value → List Value → Except CallFault Value
  | best, [] => .ok best
  | best, v :: rest =>
    match Value.related? r v best with
    | some true => choose r v rest
    | some false => choose r best rest
    | none => .error (.unordered r v.className best.className)

/-- The least or the greatest of some values, or of the code points of one text. -/
def extreme (f : Builtin) (r : Relation) : List Value → Except CallFault Value
  | [] => .error (.atLeastOne f)
  | [.text t] =>
    match t.map fun p ↦ Value.text [p] with
    | [] => .error (.emptyChoice f)
    | p :: rest => choose r p rest
  | [v] => .error (.notIterable v.className)
  | v :: rest => choose r v rest

/-! ### Conversions -/

/-- The integer that a text holds in a base. -/
def integerOfText (base : Int) (t : Text) : Except CallFault Value :=
  match readInteger base.toNat t with
  | .ok n => .ok (.int n)
  | .error .malformed => .error (.noInteger base t)
  | .error (.tooLong digits) => .error (.tooManyDigits digits)

/-- The built-in function that makes integers. -/
def toInteger : List Value → Except CallFault Value
  | [] => .ok (.int 0)
  | [.text t] => integerOfText 10 t
  | [.real x] => integerBy Binary64.truncate x
  | [v] =>
    match v.asInt? with
    | some n => .ok (.int n)
    | none => .error (.noIntegerOf v.className)
  | [v, base] =>
    match base.asInt? with
    | none => .error (.noIndex base.className)
    | some base =>
      if (base ≠ 0 ∧ base < 2) ∨ 36 < base then .error .noSuchBase
      else match v with
        | .text t => integerOfText base t
        | _ => .error .baseWithoutText
  | args => .error (.atMost .int 2 args.length)

/-- The built-in function that makes real numbers. -/
def toReal : List Value → Except CallFault Value
  | [] => .ok (.real 0.0)
  | [.real x] => .ok (.real x)
  | [.text t] =>
    match readReal t with
    | some x => .ok (.real x)
    | none => .error (.noReal t)
  | [v] =>
    match v.asInt? with
    | some n =>
      let x := Binary64.ofInt n
      if x.isInf then .error .intTooLarge else .ok (.real x)
    | none => .error (.noRealOf v.className)
  | args => .error (.optionalOne .float args.length)

/-- The class of a value where no value has a word of its own. -/
def encodingClass : Value → String
  | .none => "None"
  | v => v.className

/-- Check a word that says how a text is encoded: it holds no surrogates and no null character. -/
def checkEncoding (parameter : String) : Value → Except CallFault Unit
  | .text t =>
    match t.surrogates? with
    | some run => .error (.surrogates run)
    | none => if t.contains (.char '\x00') then .error .nullInEncoding else .ok ()
  | v => .error (.noEncoding parameter (encodingClass v))

/-- A value that is to be decoded: nothing in the language can be. -/
def decode (v : Value) (encoding : Option Value) (errors : Option Value) :
    Except CallFault Value := do
  if let some e := encoding then checkEncoding "encoding" e
  if let some e := errors then checkEncoding "errors" e
  match v with
  | .text _ => throw .textIsDecoded
  | v => throw (.noBytes v.className)

/-- The built-in function that makes texts. -/
def toText : List Value → Except CallFault Value
  | [] => .ok (.text [])
  | [v] => (textOf v).map .text
  | [v, encoding] => decode v (some encoding) none
  | [v, encoding, errors] => decode v (some encoding) (some errors)
  | args => .error (.atMost .str 3 args.length)

/-- What a built-in function answers, and what it writes, one text after the other. -/
def call (outOfRange : Bool) (f : Builtin) (args : List Value) :
    Except CallFault (Value × List Text) :=
  let silent := fun (r : Except CallFault Value) ↦ r.map fun v ↦ (v, [])
  match f with
  | .print _ => (printed args).map fun ts ↦ (.none, ts)
  | .len => silent (length args)
  | .round => silent (rounding args)
  | .abs => silent (distance outOfRange args)
  | .min => silent (extreme .min .lt args)
  | .max => silent (extreme .max .gt args)
  | .int => silent (toInteger args)
  | .float => silent (toReal args)
  | .str => silent (toText args)

end Builtin

end Sangria
