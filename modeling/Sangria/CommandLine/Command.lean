import Sangria.CommandLine.Folder
import Sangria.Run
import Sangria.Text.LineEnd
import Sangria.Text.Utf8

/-!
# The command

The command reads one source, from the file named by its argument or from the standard input, runs
it and writes its value. `command` is the whole of it as a function of the arguments, of what reading
gives, of what is given to the interpreter, and of what is logged; what it answers is a `Reply`,
which says what to write and how to end.

Every failure leaves one message on the error stream and no value on the output. Wrong arguments are
told apart from other failures by the exit code, and nothing is read then.

What is logged stands on the error stream too, in front of the message, but only where that is asked
for. What it says is left open, and logging changes nothing else. The frames that it takes are not
counted, so nothing is said of a run in which logging itself fails, as it may on a tree that nests
too deeply to be shown.
-/

namespace Sangria

/-- What is written before the value. -/
def banner : String :=
  "===== RESULTADO ====="

/-- How the command is used. -/
def usage : String :=
  "Uso: python main.py [--tokens] [--debug] [archivo_fuente]"

/-- What the arguments ask for. -/
structure Options where
  /-- Whether the tokens are to be shown. -/
  tokens : Bool
  /-- Whether it is to be logged what is done. -/
  debug : Bool
  /-- The path of the source, or the standard input. -/
  path : Option String
  deriving DecidableEq, Repr

/-- Whether an argument is an option. -/
def isOption (arg : String) : Bool :=
  ['-', '-'].isPrefixOf arg.toList

/-- What the arguments ask for, if every option is known and there is at most one path. -/
def Options.ofArgs? (args : List String) : Option Options :=
  let options := args.filter isOption
  let paths := args.filter (!isOption ·)
  if options.all (fun o ↦ o = "--tokens" || o = "--debug") ∧ paths.length ≤ 1 then
    some ⟨options.contains "--tokens", options.contains "--debug", paths.head?⟩
  else none

/-- How the command ends. -/
inductive Exit
  /-- With an exit code. -/
  | code (n : Nat)
  /-- With a fault that is not its own to report. -/
  | escaped (e : Escape)
  deriving DecidableEq, Repr

/-- What the command writes and how it ends. -/
structure Reply where
  /-- How it ends. -/
  exit : Exit
  /-- What it writes on the output. -/
  stdout : Text
  /-- What it writes on the error stream. -/
  stderr : String
  deriving DecidableEq, Repr

/-- The reply of a command that fails with a message, after some output. -/
def Reply.failure (stdout : Text) (message : String) : Reply :=
  ⟨.code 1, stdout, message ++ "\n"⟩

/-- The message for bytes that cannot be read. -/
def unreadableMessage (path : Option String) (reason : String) : String :=
  let name := match path with
    | some "" => "<stdin>"
    | some p => p
    | none => "<stdin>"
  "Error: No se pudo leer '" ++ name ++ "': " ++ reason

/-- The source that bytes hold. -/
def sourceOfBytes (bytes : List Nat) : Except Utf8Fault String :=
  (decodeUtf8 bytes).map fun text ↦ String.ofList (normalizeLineEnds text)

/-- Why there are no bytes to be read, as far as the command tells it apart. -/
inductive InputFault
  /-- There is no file at the path. -/
  | missing
  /-- Opening or reading fails otherwise, and this is why in words. -/
  | refused (words : String)
  /-- The path holds a character that no path holds. -/
  | null
  deriving DecidableEq, Repr

/-- The message for a path at which there is no file. -/
def missingMessage (path : Option String) : String :=
  "Error: No se encontró el archivo '" ++ path.getD "None" ++ "'"

/-- The source that was asked for, or the reply where there is none. -/
def readSource (path : Option String) (bytes : Except InputFault (List Nat)) :
    Except Reply String :=
  match bytes with
  | .ok bytes =>
    (sourceOfBytes bytes).mapError fun f ↦ .failure [] (unreadableMessage path f.message)
  | .error .missing => .error (.failure [] (missingMessage path))
  | .error (.refused words) => .error (.failure [] (unreadableMessage path words))
  | .error .null => .error ⟨.escaped .nullInPath, [], ""⟩

/-- A token on a line: where it starts, its kind and its text. -/
def Token.line (t : Token) : String :=
  toString t.position.line ++ ":" ++ toString t.position.column ++ "\t" ++ t.kind.label ++ "\t"
    ++ quoted t.lexeme ++ "\n"

/-- The heading above the tokens. -/
def tokensHeading : String :=
  "[Fase 1: Análisis Léxico]\n"

/-- The tokens of a source on lines, or the reply where there are none. -/
def showTokens (source : String) : Except Reply Text :=
  match tokenize source with
  | .ok ts => .ok (.ofString (tokensHeading ++ String.join (ts.map (·.line))))
  | .error d => .error (.failure (.ofString tokensHeading) d.text)

/-- The reply to a source, behind what is shown of its tokens. The output of the program and its
value go to one stream. -/
def runCommand (host : Host) (shown : Text) (source : String) : Reply :=
  match runSource source host with
  | (.error e, output) => ⟨.escaped e, shown ++ output, ""⟩
  | (.ok (.failure d), output) => .failure (shown ++ output) d.text
  | (.ok (.success v), output) =>
    let heading := shown ++ output ++ .ofString ("\n" ++ banner ++ "\n")
    match v.text? with
    | none => ⟨.escaped .valueTooLong, heading, ""⟩
    | some t =>
      match host.sink.refusal? t with
      | none => ⟨.code 0, heading ++ t ++ [.char '\n'], ""⟩
      | some run => ⟨.escaped (.valueRefused run), heading, ""⟩

/-- What the command does with a source that was read. -/
def answerSource (host : Host) (options : Options) (source : String) : Reply :=
  if options.tokens then
    match showTokens source with
    | .ok shown => runCommand host shown source
    | .error reply => reply
  else runCommand host [] source

/-- A reply behind what was logged, if that is asked for. -/
def Reply.behind (r : Reply) (options : Options) (logged : String) : Reply :=
  if options.debug then { r with stderr := logged ++ r.stderr } else r

/-- What the command does with its arguments. Here `read` gives the bytes at a path or those of the
standard input, and `log` what is logged of a source under some options. -/
def command (read : Option String → Except InputFault (List Nat)) (args : List String)
    (host : Host := .plain) (log : Options → String → String := fun _ _ ↦ "") : Reply :=
  match Options.ofArgs? args with
  | none => ⟨.code 2, [], usage ++ "\n"⟩
  | some options =>
    match readSource options.path (read options.path) with
    | .ok source => (answerSource host options source).behind options (log options source)
    | .error reply => reply

/-! ### Reading from a folder -/

/-- A fault in access at a path as one of reading. -/
def AccessFault.toInputFault (path : String) : AccessFault → InputFault
  | .missing => .missing
  | .folder => .refused ("[Errno 21] Is a directory: " ++ quoted path)
  | .behindFile => .refused ("[Errno 20] Not a directory: " ++ quoted path)
  | .longName => .refused ("[Errno 36] File name too long: " ++ quoted path)
  | .null => .null

/-- The bytes at a path of a folder, or those of the standard input. -/
def Folder.readOr (f : Folder) (stdin : List Nat) : Option String → Except InputFault (List Nat)
  | some path => (f.read path).mapError (AccessFault.toInputFault path)
  | none => .ok stdin

end Sangria
