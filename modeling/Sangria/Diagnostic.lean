import Sangria.Position

/-!
# Diagnostics

What is reported when a source cannot be carried to a result: the phase that stopped, the message,
the place, and, where a token was refused, the kinds of token that would have been taken there.
-/

namespace Sangria

/-- The phase that reports. -/
inductive Phase
  /-- Cutting the source into tokens. -/
  | lexical
  /-- Arranging tokens into a program. -/
  | syntactic
  /-- Carrying the program out. -/
  | runtime
  deriving DecidableEq, Repr

/-- How a phase announces its failure. -/
def Phase.heading : Phase → String
  | .lexical => "Error léxico"
  | .syntactic => "Error sintáctico"
  | .runtime => "Error de ejecución"

/-- A reported failure. -/
structure Diagnostic where
  /-- The phase that reports. -/
  phase : Phase
  /-- What went wrong. -/
  message : String
  /-- Where, if a place is known. -/
  position : Option Position
  /-- What would have been taken in place of a refused token. -/
  expected : List String
  deriving DecidableEq, Repr

/-- A diagnostic on one line: heading, place, message and what was expected, each part only if
present. -/
def Diagnostic.text (d : Diagnostic) : String :=
  let place := match d.position with
    | some p => " en " ++ p.text
    | none => ""
  let wanted := match d.expected with
    | [] => ""
    | names => " (se esperaba: " ++ ", ".intercalate names ++ ")"
  d.phase.heading ++ place ++ ": " ++ d.message ++ wanted

end Sangria
