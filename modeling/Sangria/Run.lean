import Sangria.Interpreter.Evaluate
import Sangria.Parse

/-!
# Running sources

A source is parsed and its program carried out. What comes of it is an `Outcome`: a value, or a
diagnostic. A few faults are neither (`SourceFault`), and the machine keeps what was done before any
of them.

One machine may run several sources in turn. What matters to later ones is its names, and what the
last check of a range found.
-/

namespace Sangria

/-- Why a source comes to no value. -/
inductive SourceFault
  /-- A failure to be reported. -/
  | reported (d : Diagnostic)
  /-- An integer literal has too many digits, as many as given. -/
  | literalTooLong (digits : Nat)
  /-- The parser does not hold what its table relies on. -/
  | stuck
  /-- A fault of the run that is not the program's to report. -/
  | fault (f : Fault)
  deriving DecidableEq, Repr

/-- A fault in parsing as one of the source. -/
def ParseFault.toSourceFault : ParseFault → SourceFault
  | .reported d => .reported d
  | .tooLong digits => .literalTooLong digits
  | .stuck => .stuck

/-- A fault in a run as one of the source. -/
def RunFault.toSourceFault : RunFault → SourceFault
  | .reported d => .reported d
  | .fault f => .fault f

/-- Run a source on a machine. A source that has no program leaves the machine alone but for the
check of its literals. -/
def Machine.runSource (m : Machine) (source : String) : Except SourceFault Value × Machine :=
  let (program, range) := parseChecked source
  let m := { m with outOfRange := range.getD m.outOfRange }
  match program with
  | .error f => (.error f.toSourceFault, m)
  | .ok program =>
    let (r, m) := m.run program
    (r.mapError (·.toSourceFault), m)

/-- What comes of a source: a value or a diagnostic. -/
inductive Outcome
  /-- The source has a value. -/
  | success (v : Value)
  /-- The source has none, and this is why. -/
  | failure (d : Diagnostic)

namespace Outcome

/-- The outcome with given parts, of which there must be exactly one. -/
def ofParts? (result : Option Value) (diagnostic : Option Diagnostic) : Option Outcome :=
  match result, diagnostic with
  | some v, none => some (.success v)
  | none, some d => some (.failure d)
  | _, _ => none

/-- The message for parts of which there is not exactly one. -/
def partsMessage : String :=
  "un Outcome lleva exactamente un Result o un Diagnostic"

/-- Whether there is a value. -/
def ok : Outcome → Bool
  | .success _ => true
  | .failure _ => false

end Outcome

/-- Why a source comes to no outcome. -/
inductive Escape
  /-- An integer literal has too many digits, as many as given. -/
  | literalTooLong (digits : Nat)
  /-- The parser does not hold what its table relies on. -/
  | stuck
  /-- A fault of the run that is not the program's to report. -/
  | fault (f : Fault)
  /-- The value is an integer of too many digits to be written. -/
  | valueTooLong
  /-- The text of the value holds surrogates, and the output does not take them. -/
  | valueRefused (run : SurrogateRun)
  /-- A path holds a character that no path holds. -/
  | nullInPath
  deriving DecidableEq, Repr

/-- An escape in words. -/
def Escape.message : Escape → String
  | .literalTooLong digits => tooManyDigitsMessage digits
  | .stuck => "stuck"
  | .fault f => f.message
  | .valueTooLong => tooLongMessage
  | .valueRefused run => run.message
  | .nullInPath => "embedded null byte"

/-- A source run on a machine of its own, with what is given to that: what comes of it, and what it
wrote. -/
def runSource (source : String) (host : Host := .plain) : Except Escape Outcome × Text :=
  match (Machine.initial host).runSource source with
  | (.ok v, m) => (.ok (.success v), m.output)
  | (.error (.reported d), m) => (.ok (.failure d), m.output)
  | (.error (.literalTooLong digits), m) => (.error (.literalTooLong digits), m.output)
  | (.error .stuck, m) => (.error .stuck, m.output)
  | (.error (.fault f), m) => (.error (.fault f), m.output)

end Sangria
