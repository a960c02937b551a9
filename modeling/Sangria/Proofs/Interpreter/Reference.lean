import Sangria.Interpreter.Evaluate

/-!
# A reference that passes the position down

An interpreter keeps the position of the statement under way in its machine: every statement writes
it, also those of functions that are called from inside an expression, and a call that ends writes
the old one back. The reference here has no such place. It keeps a `Store`, a machine without the
position, and whatever is carried out is told the position of the statement that it is carried out
for, which is where its failures are reported. A statement of a block tells its own position to its
parts, and nothing is ever written back.

Otherwise it is the same interpreter, with the same frames.
-/

namespace Sangria

/-- The state of an interpreter but for the statement under way. -/
structure Store where
  /-- The names bound at top level. -/
  globals : Bindings
  /-- The texts that were written, the last one first. -/
  written : List Text
  /-- How many functions were defined. -/
  defined : Nat
  /-- Whether the last check of a range failed. -/
  outOfRange : Bool
  /-- What is given to the interpreter. -/
  host : Host

/-- A machine without the statement under way. -/
def Machine.store (m : Machine) : Store :=
  ⟨m.globals, m.written, m.defined, m.outOfRange, m.host⟩

/-- Something carried out on a store, which fails with what is to be reported. -/
abbrev Placed := ExceptT RunFault (StateM Store)

namespace Placed

/-- Fail with an error at a position. -/
def failAt {α : Type} (p : Option Position) (e : RuntimeError) : Placed α :=
  throw (.reported (e.diagnostic p))

/-- Remember what a check of a range found, if there was one. -/
def remember (found : Option Bool) : Placed Unit :=
  modify fun s ↦ { s with outOfRange := found.getD s.outOfRange }

/-- Write a text. -/
def write (t : Text) : Placed Unit :=
  modify fun s ↦ { s with written := t :: s.written }

/-- The value of a name: of the call under way, of the top level, or a built-in function. -/
def lookUpAt (p : Option Position) (scope : Scope) (x : String) : Placed Value := do
  let s ← get
  let own := match scope with
    | .top => none
    | .call names => names.get? x
  match own.or ((s.globals.get? x).or (s.host.builtin? x)) with
  | some v => return v
  | none => failAt p (.unbound x)

/-- Bind a name in a scope. -/
def bindName (scope : Scope) (x : String) (v : Value) : Placed Scope :=
  match scope with
  | .top => do
    modify fun s ↦ { s with globals := s.globals.set x v }
    return .top
  | .call names => return .call (names.set x v)

/-- The number of a new function. -/
def newNumber : Placed Nat := do
  let n := (← get).defined
  modify fun s ↦ { s with defined := n + 1 }
  return n

/-- What an operator makes of two values. -/
def operateAt (p : Option Position) (op : Written Operator) (a b : Value) : Placed Value :=
  match op with
  | .unknown symbol => throw (.fault (.unknownOperator symbol))
  | .known op => do
    remember (Value.rangeCheck? op a b)
    match Value.apply op a b with
    | .ok v => return v
    | .error .divisionByZero => failAt p .divisionByZero
    | .error .tooLarge => failAt p (.tooLarge op)
    | .error .unsupported => failAt p (.unsupported op a.kindName b.kindName)
    | .error (.template f) => throw (.fault (.template f))

/-- What a sign makes of a value. -/
def signedAt (p : Option Position) (s : Written Sign) (v : Value) : Placed Value :=
  match s with
  | .unknown symbol => throw (.fault (.unknownOperator symbol))
  | .known s =>
    match Value.sign? s v with
    | some v => return v
    | none => failAt p (.unsupportedSign s v.kindName)

/-- Write texts one after the other, for a function called by a name. -/
def writeAllAt (p : Option Position) (x : String) (texts : List Text) : Placed Unit := do
  let (t, refusal) := (← get).host.sink.write texts
  write t
  match refusal with
  | none => return
  | some run => failAt p (.refused x (.surrogates run))

/-- Call a built-in function by a name. -/
def callBuiltinAt (p : Option Position) (x : String) (f : Builtin) (args : List Value) :
    Placed Value := do
  let s ← get
  remember (f.rangeCheck? args)
  match f.call s.outOfRange args with
  | .ok (v, texts) =>
    writeAllAt p x texts
    return v
  | .error fault => failAt p (.refused x fault)

end Placed

open Placed

mutual

/-- The value of an expression of the statement at a position. -/
def evaluateAt (p : Option Position) (frames : Nat) (scope : Scope) (e : Expr) : Placed Value :=
  match frames with
  | 0 => failAt p .tooDeep
  | 1 =>
    match e with
    | .foreign tag => throw (.fault (.unknownNode tag))
    | _ => failAt p .tooDeep
  | n + 2 =>
    match e with
    | .literal v => return v.value
    | .name x => lookUpAt p scope x
    | .binary op l r => do
      let a ← evaluateAt p n scope l
      let b ← evaluateAt p n scope r
      operateAt p op a b
    | .and l r => do
      let a ← evaluateAt p n scope l
      if a.truthy then evaluateAt p n scope r else return a
    | .or l r => do
      let a ← evaluateAt p n scope l
      if a.truthy then return a else evaluateAt p n scope r
    | .not e => do
      let a ← evaluateAt p n scope e
      return .bool (!a.truthy)
    | .signed s e => do
      let a ← evaluateAt p n scope e
      signedAt p s a
    | .call f args => do
      let callee ← lookUpAt p scope f
      let values ← evaluateAllAt p n scope args
      match callee with
      | .function _ name params body => callFunctionAt p n name params body values
      | .builtin b => callBuiltinAt p f b values
      | v => failAt p (.noFunction f v.kindName)
    | .foreign tag => throw (.fault (.unknownNode tag))

/-- The values of arguments, from left to right. -/
def evaluateAllAt (p : Option Position) (frames : Nat) (scope : Scope) (args : List Expr) :
    Placed (List Value) :=
  match frames with
  | 0 => failAt p .tooDeep
  | n + 1 => args.mapM fun e ↦ evaluateAt p n scope e

/-- Call a function from the statement at a position. -/
def callFunctionAt (p : Option Position) (frames : Nat) (name : String) (params : List String)
    (body : Block) (args : List Value) : Placed Value :=
  match frames with
  | 0 => failAt p .tooDeep
  | n + 1 =>
    if args.length ≠ params.length then failAt p (.arity name params.length args.length)
    else do
      let (v, _) ← execBlockAt p n (.call (params.zip args)) body
      return v

/-- Carry out the statements of a block in order, each at its own position. The position before them
is that of the statement which holds the block or calls it. -/
def execBlockAt (p : Option Position) (frames : Nat) (scope : Scope) (b : Block) :
    Placed (Value × Scope) :=
  match frames with
  | 0 => failAt p .tooDeep
  | n + 1 =>
    b.foldlM (fun (state : Value × Scope) s ↦ execAt (some s.position) n state.2 s.item)
      (.none, scope)

/-- Carry out the statement at a position. -/
def execAt (p : Option Position) (frames : Nat) (scope : Scope) (s : Stmt) :
    Placed (Value × Scope) :=
  match frames with
  | 0 => failAt p .tooDeep
  | n + 1 =>
    match s with
    | .eval e => do
      let v ← evaluateAt p n scope e
      return (v, scope)
    | .assign x op e => assignAt p n scope x op e
    | .define f params body =>
      if n = 0 then failAt p .tooDeep
      else if params.Nodup then do
        let v := Value.function (← newNumber) f params body
        return (v, ← bindName scope f v)
      else failAt p (.repeatedParams f)
    | .branch c body otherwise => branchAt p n scope c body otherwise

/-- Bind a name to the value of an expression, or to what an operator makes of its old value and
that one. -/
def assignAt (p : Option Position) (frames : Nat) (scope : Scope) (x : String)
    (op : Option (Written Operator)) (e : Expr) : Placed (Value × Scope) :=
  match frames with
  | 0 => failAt p .tooDeep
  | n + 1 => do
    let v ← evaluateAt p n scope e
    let v ← match op with
      | none => pure v
      | some op => do operateAt p op (← lookUpAt p scope x) v
    return (v, ← bindName scope x v)

/-- Carry out one of two blocks. -/
def branchAt (p : Option Position) (frames : Nat) (scope : Scope) (c : Expr) (body : Block)
    (otherwise : Option Block) : Placed (Value × Scope) :=
  match frames with
  | 0 => failAt p .tooDeep
  | n + 1 => do
    let v ← evaluateAt p n scope c
    if v.truthy then execBlockAt p n scope body
    else match otherwise with
      | some b => execBlockAt p n scope b
      | none => return (.none, scope)

end

/-- Carry out a program on a store with a number of frames. No statement is under way before it. -/
def Store.runWithin (frames : Nat) (s : Store) (program : Block) : Except RunFault Value × Store :=
  match (execBlockAt none frames .top program).run s with
  | (.ok (v, _), s) => (.ok v, s)
  | (.error f, s) => (.error f, s)

end Sangria
