import Sangria.Text.WordChar
import Sangria.Token.Kind

/-!
# The token at the front of a text

Every rule here answers with a length: how many characters at the front of a text belong together.
`munch` picks the one rule that can apply from the first character, and each rule takes as much as
it can, so the length found is the longest that any kind of token has there.

Blanks and comments are no tokens; `gap` measures them.
-/

namespace Sangria

/-! ### What stands between tokens -/

/-- The characters that separate tokens and mean nothing else. -/
def isBlank (c : Char) : Bool :=
  c = ' ' || c = '\t' || c = '\r'

/-- The length of a comment: from its sign up to the next newline. -/
def commentLength : List Char → Nat
  | '#' :: rest => 1 + (rest.takeWhile (· ≠ '\n')).length
  | _ => 0

/-- The length of the blanks at the front, with the comment behind them if there is one. -/
def gap (text : List Char) : Nat :=
  let blanks := (text.takeWhile isBlank).length
  blanks + commentLength (text.drop blanks)

/-! ### Numbers -/

/-- How many ASCII digits stand at the front. -/
def digitCount (text : List Char) : Nat :=
  (text.takeWhile isAsciiDigit).length

/-- The length of an exponent part: its letter, perhaps a sign, and at least one digit. -/
def exponentLength : List Char → Nat
  | e :: rest =>
    if e = 'e' ∨ e = 'E' then
      let sign := match rest with
        | c :: _ => if c = '+' ∨ c = '-' then 1 else 0
        | [] => 0
      let digits := digitCount (rest.drop sign)
      if digits = 0 then 0 else 1 + sign + digits
    else 0
  | [] => 0

/-- A number: digits alone are an integer, a point beside a digit or an exponent makes it real. -/
def munchNumber (text : List Char) : Option (Kind × Nat) :=
  let whole := digitCount text
  match text.drop whole with
  | '.' :: rest =>
    let places := digitCount rest
    if whole = 0 ∧ places = 0 then none
    else some (.literal .float, whole + 1 + places + exponentLength (rest.drop places))
  | rest =>
    if whole = 0 then none
    else if exponentLength rest = 0 then some (.literal .int, whole)
    else some (.literal .float, whole + exponentLength rest)

/-! ### Quoted text -/

/-- The length of quoted text behind its opening quote `q`, the closing one included. A backslash
takes the next character with it, whatever it is but a newline, and no newline stands inside. -/
def closingQuote (q : Char) : List Char → Option Nat
  | [] => none
  | '\\' :: [] => none
  | '\\' :: c :: rest => if c = '\n' then none else (closingQuote q rest).map (· + 2)
  | c :: rest =>
    if c = q then some 1
    else if c = '\n' then none
    else (closingQuote q rest).map (· + 1)

/-! ### Words -/

/-- The words that are no names. -/
def reservedWords : List (String × Kind) :=
  [("def", .defWord), ("if", .ifWord), ("elif", .elifWord), ("else", .elseWord),
    ("and", .connective .and), ("or", .connective .or), ("not", .notWord),
    ("True", .literal .trueWord), ("False", .literal .falseWord), ("None", .literal .noneWord)]

/-- The kind of a word. -/
def wordKind (word : List Char) : Kind :=
  (reservedWords.lookup (String.ofList word)).getD .name

/-! ### Signs -/

/-- The signs, longer ones before those they begin with. -/
def signs : List (List Char × Kind) :=
  [(['/', '/'], .op .floorDiv), (['*', '*'], .op .pow), (['+', '='], .binding .add),
    (['-', '='], .binding .sub), (['*', '='], .binding .mul), (['/', '='], .binding .div),
    (['=', '='], .op .eq), (['!', '='], .op .ne), (['<', '='], .op .le), (['>', '='], .op .ge),
    (['+'], .op .add), (['-'], .op .sub), (['*'], .op .mul), (['/'], .op .div), (['%'], .op .mod),
    (['='], .binding .plain), (['<'], .op .lt), (['>'], .op .gt), (['('], .openParen),
    ([')'], .closeParen), ([','], .comma), ([':'], .colon)]

/-- The sign at the front. -/
def munchSign (text : List Char) : Option (Kind × Nat) :=
  (signs.find? fun s ↦ s.1.isPrefixOf text).map fun s ↦ (s.2, s.1.length)

/-! ### Any token -/

/-- The kind and the length of the token at the front of a text. -/
def munch (text : List Char) : Option (Kind × Nat) :=
  match text with
  | [] => none
  | c :: rest =>
    if c = '\n' then some (.newline, (text.takeWhile (· = '\n')).length)
    else if isWordStart c then
      let word := text.takeWhile isWordChar
      some (wordKind word, word.length)
    else if c = '"' ∨ c = '\'' then (closingQuote c rest).map fun n ↦ (.literal .string, n + 1)
    else (munchNumber text).or (munchSign text)

end Sangria
