import Sangria.Interpreter.Machine

/-!
# Carrying out programs

Everything takes a number of frames that are left. An expression uses two, its own and that of its
kind; the arguments of a call are evaluated in one more. A block uses one and each statement in it
one, and another where it is no plain expression. A call of a function uses one besides those of its
block. Without frames evaluation stops, and that is the only thing their number decides.

Counted are the frames of what calls itself again. Those of what is done in one go are not: of
looking a name up, of applying an operator or a sign, of a built-in function and of the texts that
it makes, and of reporting an error. Nor are those of whoever starts a run. So a run that comes
within a few frames of the limit may stop a few frames earlier than is said here.

Statements answer a value and the scope behind them; expressions leave the scope alone. The value of
a block is that of its last statement.
-/

namespace Sangria

open Evaluation

/-- Stop because no more frames are left. -/
def outOfFrames {α : Type} : Evaluation α :=
  throw .tooDeep

mutual

/-- The value of an expression. The frames of looking names up and of applying operators are not
counted. -/
def evaluate (frames : Nat) (scope : Scope) (e : Expr) : Evaluation Value :=
  match frames with
  | 0 => outOfFrames
  | 1 =>
    match e with
    | .foreign tag => throw (.fault (.unknownNode tag))
    | _ => outOfFrames
  | n + 2 =>
    match e with
    | .literal v => return v.value
    | .name x => lookUp scope x
    | .binary op l r => do
      let a ← evaluate n scope l
      let b ← evaluate n scope r
      operate op a b
    | .and l r => do
      let a ← evaluate n scope l
      if a.truthy then evaluate n scope r else return a
    | .or l r => do
      let a ← evaluate n scope l
      if a.truthy then return a else evaluate n scope r
    | .not e => do
      let a ← evaluate n scope e
      return .bool (!a.truthy)
    | .signed s e => do
      let a ← evaluate n scope e
      signed s a
    | .call f args => do
      let callee ← lookUp scope f
      let values ← evaluateAll n scope args
      match callee with
      | .function _ name params body => callFunction n name params body values
      | .builtin b => callBuiltin f b values
      | v => fail (.noFunction f v.kindName)
    | .foreign tag => throw (.fault (.unknownNode tag))

/-- The values of arguments, from left to right. -/
def evaluateAll (frames : Nat) (scope : Scope) (args : List Expr) : Evaluation (List Value) :=
  match frames with
  | 0 => outOfFrames
  | n + 1 => args.mapM fun e ↦ evaluate n scope e

/-- Call a function: its block is carried out with its parameters bound to the arguments, and the
statement under way is again the one of the call when it ends. -/
def callFunction (frames : Nat) (name : String) (params : List String) (body : Block)
    (args : List Value) : Evaluation Value :=
  match frames with
  | 0 => outOfFrames
  | n + 1 =>
    if args.length ≠ params.length then fail (.arity name params.length args.length)
    else do
      let caller := (← get).position
      let (v, _) ← execBlock n (.call (params.zip args)) body
      enter caller
      return v

/-- Carry out the statements of a block in order. -/
def execBlock (frames : Nat) (scope : Scope) (b : Block) : Evaluation (Value × Scope) :=
  match frames with
  | 0 => outOfFrames
  | n + 1 =>
    b.foldlM (fun (state : Value × Scope) s ↦ do
      enter (some s.position)
      exec n state.2 s.item) (.none, scope)

/-- Carry out one statement. -/
def exec (frames : Nat) (scope : Scope) (s : Stmt) : Evaluation (Value × Scope) :=
  match frames with
  | 0 => outOfFrames
  | n + 1 =>
    match s with
    | .eval e => do
      let v ← evaluate n scope e
      return (v, scope)
    | .assign x op e => assign n scope x op e
    | .define f params body =>
      if n = 0 then outOfFrames
      else if params.Nodup then do
        let v := Value.function (← newNumber) f params body
        return (v, ← bindName scope f v)
      else fail (.repeatedParams f)
    | .branch c body otherwise => branch n scope c body otherwise

/-- Bind a name to the value of an expression, or to what an operator makes of its old value and
that one. -/
def assign (frames : Nat) (scope : Scope) (x : String) (op : Option (Written Operator)) (e : Expr) :
    Evaluation (Value × Scope) :=
  match frames with
  | 0 => outOfFrames
  | n + 1 => do
    let v ← evaluate n scope e
    let v ← match op with
      | none => pure v
      | some op => do operate op (← lookUp scope x) v
    return (v, ← bindName scope x v)

/-- Carry out one of two blocks. -/
def branch (frames : Nat) (scope : Scope) (c : Expr) (body : Block) (otherwise : Option Block) :
    Evaluation (Value × Scope) :=
  match frames with
  | 0 => outOfFrames
  | n + 1 => do
    let v ← evaluate n scope c
    if v.truthy then execBlock n scope body
    else match otherwise with
      | some b => execBlock n scope b
      | none => return (.none, scope)

end

/-! ### Runs -/

/-- How many frames a run has, as they are counted here: from its outermost block on. -/
def frameLimit : Nat := 1000

/-- Why a run has no value. -/
inductive RunFault
  /-- A failure to be reported. -/
  | reported (d : Diagnostic)
  /-- A fault that is not the program's to report. -/
  | fault (f : Fault)
  deriving DecidableEq, Repr

/-- Why a run has no value, from why it stopped and the statement under way then. -/
def Stop.toRunFault (p : Option Position) : Stop → RunFault
  | .error e p => .reported (e.diagnostic p)
  | .tooDeep => .reported (RuntimeError.tooDeep.diagnostic p)
  | .fault f => .fault f

/-- Carry out a program on a machine with a number of frames. The machine keeps what was done when
the run stops early. -/
def Machine.runWithin (frames : Nat) (m : Machine) (program : Block) :
    Except RunFault Value × Machine :=
  match (execBlock frames .top program).run m with
  | (.ok (v, _), m) => (.ok v, m)
  | (.error s, m) => (.error (s.toRunFault m.position), m)

/-- Carry out a program on a machine. -/
def Machine.run (m : Machine) (program : Block) : Except RunFault Value × Machine :=
  m.runWithin frameLimit program

end Sangria
