import Sangria.Diagnostic
import Sangria.Value.Range

/-!
# The state of an interpreter

An interpreter keeps the names bound at top level, what was written, the position of the statement
under way, how many functions were defined, and what the last check of a range found. The names of a
call under way are no part of it: they are passed along as a `Scope`, so nothing that a call binds
can be seen outside it.

Two things are given to it and never change (`Host`): where in memory it is, which shows in the text
of the function that writes, and the stream that this function writes on.

Carrying out a program may stop early (`Stop`): with an error of the program, because it nests too
deeply, or with a fault that is not the program's to report.
-/

namespace Sangria

/-! ### Names -/

/-- Names and their values; each name occurs once. -/
abbrev Bindings := List (String × Value)

namespace Bindings

/-- The value of a name. -/
def get? (b : Bindings) (x : String) : Option Value :=
  b.lookup x

/-- Bind a name, in its old place if it is bound already. -/
def set (b : Bindings) (x : String) (v : Value) : Bindings :=
  match b with
  | [] => [(x, v)]
  | (y, w) :: rest => if y = x then (x, v) :: rest else (y, w) :: set rest x v

/-- After a name is bound, it has the value and any other name the one it had. -/
theorem get?_set (b : Bindings) (x y : String) (v : Value) :
    (b.set x v).get? y = if y = x then some v else b.get? y := by
  induction b with
  | nil =>
    by_cases h : y = x
    · simp [set, get?, h]
    · simp [set, get?, List.lookup_cons, h, beq_false_of_ne h]
  | cons e rest ih =>
    obtain ⟨z, w⟩ := e
    simp only [get?] at ih
    by_cases hz : z = x
    · by_cases h : y = x
      · subst hz; subst h; simp [set, get?]
      · subst hz; simp [set, get?, List.lookup_cons, h, beq_false_of_ne h]
    · by_cases hy : y = z
      · subst hy; simp [set, get?, hz]
      · simp [set, get?, List.lookup_cons, hz, beq_false_of_ne hy, ih]

end Bindings

/-- Where names are looked up and bound first. -/
inductive Scope
  /-- At top level. -/
  | top
  /-- In a call, with the names of that call. -/
  | call (names : Bindings)

/-! ### Stopping -/

/-- An error of the program. -/
inductive RuntimeError
  /-- A name has no value. -/
  | unbound (x : String)
  /-- A divisor is zero. -/
  | divisionByZero
  /-- The result of an operator is too large. -/
  | tooLarge (op : Operator)
  /-- An operator is not for values of these kinds. -/
  | unsupported (op : Operator) (left right : String)
  /-- A sign is not for a value of this kind. -/
  | unsupportedSign (s : Sign) (kind : String)
  /-- What is called is no function but of this kind. -/
  | noFunction (x kind : String)
  /-- A built-in function refuses its arguments. -/
  | refused (x : String) (f : CallFault)
  /-- A function is called with another number of arguments than it has parameters. -/
  | arity (f : String) (params args : Nat)
  /-- A function has two parameters of one name. -/
  | repeatedParams (f : String)
  /-- Calls or expressions nest too deeply. -/
  | tooDeep
  deriving DecidableEq, Repr

/-- An error in words. -/
def RuntimeError.message : RuntimeError → String
  | .unbound x => "nombre '" ++ x ++ "' no definido"
  | .divisionByZero => "división por cero"
  | .tooLarge op => "resultado demasiado grande en '" ++ op.symbol ++ "'"
  | .unsupported op a b =>
    "operación '" ++ op.symbol ++ "' no soportada entre " ++ a ++ " y " ++ b
  | .unsupportedSign s a => "operación unaria '" ++ s.symbol ++ "' no soportada para " ++ a
  | .noFunction x a => "'" ++ x ++ "' no es una función (" ++ a ++ ")"
  | .refused x f => "error en la llamada a '" ++ x ++ "': " ++ f.message
  | .arity f n m =>
    "'" ++ f ++ "' espera " ++ toString n ++ " argumento(s) y recibió " ++ toString m
  | .repeatedParams f => "parámetros repetidos en la definición de '" ++ f ++ "'"
  | .tooDeep => "recursión demasiado profunda"

/-- An error at a position. -/
def RuntimeError.diagnostic (e : RuntimeError) (p : Option Position) : Diagnostic :=
  ⟨.runtime, e.message, p, []⟩

/-- A fault that is not the program's to report. -/
inductive Fault
  /-- A template cannot be filled. -/
  | template (f : TemplateFault)
  /-- A tree holds a node of no known kind. -/
  | unknownNode (tag : String)
  /-- A tree holds an operator that the language lacks. -/
  | unknownOperator (symbol : String)
  deriving DecidableEq, Repr

/-- A fault in words. -/
def Fault.message : Fault → String
  | .template f => f.message
  | .unknownNode tag => "nodo desconocido: " ++ quoted tag
  | .unknownOperator symbol => quoted symbol

/-- Why a program stops early. -/
inductive Stop
  /-- An error of the program, and the position it is reported at. -/
  | error (e : RuntimeError) (p : Option Position)
  /-- No more frames are left. -/
  | tooDeep
  /-- A fault that is not the program's to report. -/
  | fault (f : Fault)
  deriving DecidableEq, Repr

/-! ### The state and its changes -/

/-- What is given to an interpreter. -/
structure Host where
  /-- Where in memory the interpreter is. -/
  address : Nat
  /-- The stream that it writes on. -/
  sink : Sink
  deriving DecidableEq, Repr

/-- What is given where it plays no part: some address, and a stream that keeps text as it is. -/
def Host.plain : Host :=
  ⟨0, .memory⟩

/-- The built-in function of a name, as a value. -/
def Host.builtin? (h : Host) (x : String) : Option Value :=
  (Builtin.ofName? h.address x).map .builtin

/-- The state of an interpreter. -/
structure Machine where
  /-- The names bound at top level. -/
  globals : Bindings
  /-- The texts that were written, the last one first. -/
  written : List Text
  /-- The position of the statement under way, if there was any. -/
  position : Option Position
  /-- How many functions were defined. -/
  defined : Nat
  /-- Whether the last check of a range failed. -/
  outOfRange : Bool
  /-- What is given to the interpreter. -/
  host : Host

/-- The state before anything is carried out. -/
def Machine.initial (host : Host := .plain) : Machine :=
  ⟨[], [], none, 0, false, host⟩

/-- All that was written. -/
def Machine.output (m : Machine) : Text :=
  m.written.reverse.flatten

/-- Something carried out on a machine; its changes stay when it stops early. -/
abbrev Evaluation := ExceptT Stop (StateM Machine)

namespace Evaluation

/-- Stop with an error at the statement under way. -/
def fail {α : Type} (e : RuntimeError) : Evaluation α := do
  throw (.error e (← get).position)

/-- Let a statement be under way. -/
def enter (p : Option Position) : Evaluation Unit :=
  modify fun m ↦ { m with position := p }

/-- Write a text. -/
def write (t : Text) : Evaluation Unit :=
  modify fun m ↦ { m with written := t :: m.written }

/-- Remember what a check of a range found, if there was one. -/
def remember (found : Option Bool) : Evaluation Unit :=
  modify fun m ↦ { m with outOfRange := found.getD m.outOfRange }

/-- The value of a name: of the call under way, of the top level, or a built-in function. -/
def lookUp (scope : Scope) (x : String) : Evaluation Value := do
  let m ← get
  let own := match scope with
    | .top => none
    | .call names => names.get? x
  match own.or ((m.globals.get? x).or (m.host.builtin? x)) with
  | some v => return v
  | none => fail (.unbound x)

/-- Bind a name in a scope. -/
def bindName (scope : Scope) (x : String) (v : Value) : Evaluation Scope :=
  match scope with
  | .top => do
    modify fun m ↦ { m with globals := m.globals.set x v }
    return .top
  | .call names => return .call (names.set x v)

/-- The number of a new function. -/
def newNumber : Evaluation Nat := do
  let n := (← get).defined
  modify fun m ↦ { m with defined := n + 1 }
  return n

/-- What an operator makes of two values. -/
def operate (op : Written Operator) (a b : Value) : Evaluation Value :=
  match op with
  | .unknown symbol => throw (.fault (.unknownOperator symbol))
  | .known op => do
    remember (Value.rangeCheck? op a b)
    match Value.apply op a b with
    | .ok v => return v
    | .error .divisionByZero => fail .divisionByZero
    | .error .tooLarge => fail (.tooLarge op)
    | .error .unsupported => fail (.unsupported op a.kindName b.kindName)
    | .error (.template f) => throw (.fault (.template f))

/-- What a sign makes of a value. -/
def signed (s : Written Sign) (v : Value) : Evaluation Value :=
  match s with
  | .unknown symbol => throw (.fault (.unknownOperator symbol))
  | .known s =>
    match Value.sign? s v with
    | some v => return v
    | none => fail (.unsupportedSign s v.kindName)

/-- Write texts one after the other, for a function called by a name. One that the stream refuses is
an error of the program. -/
def writeAll (x : String) (texts : List Text) : Evaluation Unit := do
  let (t, refusal) := (← get).host.sink.write texts
  write t
  match refusal with
  | none => return
  | some run => fail (.refused x (.surrogates run))

/-- Call a built-in function by a name. -/
def callBuiltin (x : String) (f : Builtin) (args : List Value) : Evaluation Value := do
  let m ← get
  remember (f.rangeCheck? args)
  match f.call m.outOfRange args with
  | .ok (v, texts) =>
    writeAll x texts
    return v
  | .error fault => fail (.refused x fault)

end Evaluation

end Sangria
