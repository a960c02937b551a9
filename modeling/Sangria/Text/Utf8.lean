import Sangria.Text.Quoted

/-!
# UTF-8

Bytes are read as UTF-8 without tolerance: no byte may stand where it cannot, no code point may be
written longer than it has to be, and surrogates are no characters. A fault names the bytes from the
first of the character up to where it went wrong, which is the longest part of them that some
character begins with.
-/

namespace Sangria

/-- What is wrong with bytes. -/
inductive Utf8Problem
  /-- No character begins with the byte. -/
  | start
  /-- The byte behind them continues no character that they begin. -/
  | continuation
  /-- The text ends within a character. -/
  | ending
  deriving DecidableEq, Repr

/-- Bytes that are no text. -/
structure Utf8Fault where
  /-- What is wrong. -/
  problem : Utf8Problem
  /-- How many bytes lie before them. -/
  offset : Nat
  /-- The first of them. -/
  byte : Nat
  /-- How many there are. -/
  count : Nat
  deriving DecidableEq, Repr

/-- A fault in words. -/
def Utf8Fault.message (f : Utf8Fault) : String :=
  let place :=
    if f.count = 1 then
      "byte 0x" ++ String.ofList (hexPadded 2 f.byte) ++ " in position " ++ toString f.offset
    else
      "bytes in position " ++ toString f.offset ++ "-" ++ toString (f.offset + f.count - 1)
  let reason := match f.problem with
    | .start => "invalid start byte"
    | .continuation => "invalid continuation byte"
    | .ending => "unexpected end of data"
  "'utf-8' codec can't decode " ++ place ++ ": " ++ reason

/-- What a first byte says about its character: the bits it gives, how many bytes follow, and the
range of the next one. -/
structure Utf8Lead where
  /-- The bits that the first byte gives. -/
  bits : Nat
  /-- How many bytes follow. -/
  following : Nat
  /-- The least second byte. -/
  low : Nat
  /-- The greatest second byte. -/
  high : Nat

/-- What a first byte says, if a character can begin with it. The ranges of the second byte leave
out the forms that are too long, the surrogates, and what lies beyond the last code point. -/
def utf8Lead? (b : Nat) : Option Utf8Lead :=
  if b < 0x80 then some ⟨b, 0, 0x80, 0xBF⟩
  else if b < 0xC2 then none
  else if b < 0xE0 then some ⟨b - 0xC0, 1, 0x80, 0xBF⟩
  else if b < 0xF0 then
    some ⟨b - 0xE0, 2, if b = 0xE0 then 0xA0 else 0x80, if b = 0xED then 0x9F else 0xBF⟩
  else if b < 0xF5 then
    some ⟨b - 0xF0, 3, if b = 0xF0 then 0x90 else 0x80, if b = 0xF4 then 0x8F else 0xBF⟩
  else none

/-- The bytes at the front that continue a character, up to as many as follow its first byte; the
first of them lies in a range of its own. -/
def utf8Tail : (following low high : Nat) → List Nat → List Nat
  | n + 1, low, high, b :: rest =>
    if low ≤ b ∧ b ≤ high then b :: utf8Tail n 0x80 0xBF rest else []
  | _, _, _, _ => []

/-- The text of bytes that lie behind others, as many as given. The last number bounds the
characters. -/
def decodeUtf8From (offset : Nat) : Nat → List Nat → Except Utf8Fault (List Char)
  | _, [] => .ok []
  | 0, _ => .ok []
  | n + 1, b :: rest =>
    match utf8Lead? b with
    | none => .error ⟨.start, offset, b, 1⟩
    | some lead =>
      let tail := utf8Tail lead.following lead.low lead.high rest
      let count := tail.length + 1
      if tail.length = lead.following then
        let code := tail.foldl (fun code b ↦ code * 64 + (b - 0x80)) lead.bits
        (decodeUtf8From (offset + count) n (rest.drop tail.length)).map (Char.ofNat code :: ·)
      else if tail.length = rest.length then .error ⟨.ending, offset, b, count⟩
      else .error ⟨.continuation, offset, b, count⟩

/-- The text of bytes. -/
def decodeUtf8 (bytes : List Nat) : Except Utf8Fault (List Char) :=
  decodeUtf8From 0 bytes.length bytes

end Sangria
