import Sangria.Proofs.Interpreter.Running

/-!
# An interpreter that keeps the names of every call

The interpreter passes the names of a call along as a value, a `Scope`, and leaves it to whoever
called to go on with the names of its own. Here every owner of names, the top level and each call
that was ever begun, has a place of its own in one `Ledger`. Whatever is carried out is told whose
names it works with and is free to write in all places: a name is bound by overwriting the place of
its owner, and a statement answers its value only. The names of a call stay in the ledger when it
ends.

Otherwise it is the same interpreter, with the same frames.
-/

namespace Sangria

/-- Who has names: the top level, or a call, by how many calls were begun before it. -/
inductive Owner
  /-- The top level. -/
  | top
  /-- A call. -/
  | call (number : Nat)
  deriving DecidableEq, Repr

/-- A machine and the names of all calls, those of the first call first. -/
structure Ledger where
  /-- The machine, with the names bound at top level. -/
  machine : Machine
  /-- The names of each call. -/
  calls : List Bindings

namespace Ledger

/-- Whether there is such an owner. -/
def Has (l : Ledger) : Owner → Prop
  | .top => True
  | .call i => i < l.calls.length

/-- The names of an owner. -/
def names (l : Ledger) : Owner → Bindings
  | .top => l.machine.globals
  | .call i => l.calls.getD i []

/-- What the interpreter passes along for an owner. -/
def scope (l : Ledger) : Owner → Scope
  | .top => .top
  | .call i => .call (l.names (.call i))

/-- The value of a name: of its owner, of the top level, or a built-in function. -/
def found? (l : Ledger) (o : Owner) (x : String) : Option Value :=
  ((l.names o).get? x).or ((l.machine.globals.get? x).or (l.machine.host.builtin? x))

/-- Bind a name in the place of an owner. -/
def bind (l : Ledger) (o : Owner) (x : String) (v : Value) : Ledger :=
  match o with
  | .top => { l with machine := { l.machine with globals := l.machine.globals.set x v } }
  | .call i => { l with calls := l.calls.modify i fun names ↦ names.set x v }

/-- A place for the names of a new call. -/
def extend (l : Ledger) (names : Bindings) : Ledger :=
  { l with calls := l.calls ++ [names] }

variable (l : Ledger) {o o' : Owner} (x : String) (v : Value) (b : Bindings)

/-- At top level the names are looked through twice where they are kept in a ledger, which makes no
difference. -/
theorem found?_scope (o : Owner) : l.machine.found? (l.scope o) x = l.found? o x := by
  cases o with
  | top =>
    show none.or ((l.machine.globals.get? x).or _) = (l.machine.globals.get? x).or _
    rw [Option.none_or, ← Option.or_assoc, Option.or_self]
  | call i => rfl

@[simp]
theorem has_bind : (l.bind o x v).Has o' ↔ l.Has o' := by
  cases o with
  | top => cases o' <;> exact Iff.rfl
  | call i =>
    cases o' with
    | top => exact Iff.rfl
    | call j =>
      show j < (l.calls.modify i _).length ↔ j < l.calls.length
      rw [List.length_modify]

theorem names_bind_self (ho : l.Has o) : (l.bind o x v).names o = (l.names o).set x v := by
  cases o with
  | top => rfl
  | call i =>
    have hi : i < l.calls.length := ho
    show (l.calls.modify i _).getD i [] = (l.calls.getD i []).set x v
    simp [List.getD_eq_getElem?_getD, hi]

theorem names_bind_of_ne (h : o' ≠ o) : (l.bind o x v).names o' = l.names o' := by
  cases o with
  | top =>
    cases o' with
    | top => exact absurd rfl h
    | call j => rfl
  | call i =>
    cases o' with
    | top => rfl
    | call j =>
      have hij : i ≠ j := fun hij ↦ h (congrArg Owner.call hij.symm)
      show (l.calls.modify i _).getD j [] = l.calls.getD j []
      simp [List.getD_eq_getElem?_getD, hij]

theorem written_bind : (l.bind o x v).machine.written = l.machine.written := by
  cases o <;> rfl

theorem host_bind : (l.bind o x v).machine.host = l.machine.host := by
  cases o <;> rfl

theorem has_extend (ho : l.Has o) : (l.extend b).Has o := by
  cases o with
  | top => trivial
  | call i =>
    have hi : i < l.calls.length := ho
    show i < (l.calls ++ [b]).length
    simp only [List.length_append]
    omega

theorem names_extend (ho : l.Has o) : (l.extend b).names o = l.names o := by
  cases o with
  | top => rfl
  | call i =>
    have hi : i < l.calls.length := ho
    show (l.calls ++ [b]).getD i [] = l.calls.getD i []
    rw [List.getD_eq_getElem?_getD, List.getElem?_append_left hi, List.getD_eq_getElem?_getD]

theorem has_extend_new : (l.extend b).Has (.call l.calls.length) := by
  show l.calls.length < (l.calls ++ [b]).length
  simp

theorem names_extend_new : (l.extend b).names (.call l.calls.length) = b := by
  show (l.calls ++ [b]).getD l.calls.length [] = b
  simp

/-- Whatever names are passed along, and on whatever machine, they are those of an owner. -/
theorem exists_of_scope (m : Machine) (scope : Scope) :
    ∃ (l : Ledger) (o : Owner), l.Has o ∧ l.machine = m ∧ l.scope o = scope := by
  cases scope with
  | top => exact ⟨⟨m, []⟩, .top, trivial, rfl, rfl⟩
  | call names => exact ⟨⟨m, [names]⟩, .call 0, Nat.zero_lt_one, rfl, rfl⟩

end Ledger

/-- Something carried out on a ledger; its changes stay when it stops early. -/
abbrev Recorded := ExceptT Stop (StateM Ledger)

namespace Recorded

/-- What the interpreter does to its machine alone. -/
def lift {α : Type} (x : Evaluation α) : Recorded α :=
  ExceptT.mk fun l ↦
    let (r, m) := x.run l.machine
    (r, { l with machine := m })

/-- The value of a name. -/
def lookUp (o : Owner) (x : String) : Recorded Value := do
  match (← get).found? o x with
  | some v => return v
  | none => lift (Evaluation.fail (.unbound x))

/-- Bind a name. -/
def bindName (o : Owner) (x : String) (v : Value) : Recorded Unit :=
  modify fun l ↦ l.bind o x v

/-- The owner of the names of a new call. -/
def newCall (names : Bindings) : Recorded Owner := do
  let l ← get
  set (l.extend names)
  return .call l.calls.length

theorem run_bind {α β : Type} (y : Recorded α) (g : α → Recorded β) (l : Ledger) :
    (y >>= g).run l = match y.run l with
      | (.ok a, l') => (g a).run l'
      | (.error s, l') => (.error s, l') := by
  show (match y.run l with
    | (r, l') => (ExceptT.bindCont g r) l') = _
  rcases y.run l with ⟨s | a, l'⟩
  · rfl
  · rfl

theorem run_lift {α : Type} (x : Evaluation α) (l : Ledger) :
    (lift x).run l = ((x.run l.machine).1, { l with machine := (x.run l.machine).2 }) :=
  rfl

theorem run_lookUp (o : Owner) (x : String) (l : Ledger) :
    (Recorded.lookUp o x).run l = match l.found? o x with
      | some v => (.ok v, l)
      | none => (.error (.error (.unbound x) l.machine.position), l) := by
  show (match l.found? o x with
    | some v => Pure.pure v
    | none => lift (Evaluation.fail (.unbound x)) : Recorded Value).run l = _
  cases l.found? o x <;> rfl

end Recorded

open Recorded Evaluation

mutual

/-- The value of an expression, with the names of an owner. -/
def evaluateIn (frames : Nat) (o : Owner) (e : Expr) : Recorded Value :=
  match frames with
  | 0 => lift outOfFrames
  | 1 =>
    match e with
    | .foreign tag => throw (.fault (.unknownNode tag))
    | _ => lift outOfFrames
  | n + 2 =>
    match e with
    | .literal v => return v.value
    | .name x => Recorded.lookUp o x
    | .binary op l r => do
      let a ← evaluateIn n o l
      let b ← evaluateIn n o r
      lift (operate op a b)
    | .and l r => do
      let a ← evaluateIn n o l
      if a.truthy then evaluateIn n o r else return a
    | .or l r => do
      let a ← evaluateIn n o l
      if a.truthy then return a else evaluateIn n o r
    | .not e => do
      let a ← evaluateIn n o e
      return .bool (!a.truthy)
    | .signed s e => do
      let a ← evaluateIn n o e
      lift (signed s a)
    | .call f args => do
      let callee ← Recorded.lookUp o f
      let values ← evaluateAllIn n o args
      match callee with
      | .function _ name params body => callFunctionIn n name params body values
      | .builtin b => lift (callBuiltin f b values)
      | v => lift (fail (.noFunction f v.kindName))
    | .foreign tag => throw (.fault (.unknownNode tag))

/-- The values of arguments, from left to right. -/
def evaluateAllIn (frames : Nat) (o : Owner) (args : List Expr) : Recorded (List Value) :=
  match frames with
  | 0 => lift outOfFrames
  | n + 1 => args.mapM fun e ↦ evaluateIn n o e

/-- Call a function: its block is carried out with the names of a new call. -/
def callFunctionIn (frames : Nat) (name : String) (params : List String) (body : Block)
    (args : List Value) : Recorded Value :=
  match frames with
  | 0 => lift outOfFrames
  | n + 1 =>
    if args.length ≠ params.length then lift (fail (.arity name params.length args.length))
    else do
      let caller := (← get).machine.position
      let o ← newCall (params.zip args)
      let v ← execBlockIn n o body
      lift (enter caller)
      return v

/-- Carry out the statements of a block in order. -/
def execBlockIn (frames : Nat) (o : Owner) (b : Block) : Recorded Value :=
  match frames with
  | 0 => lift outOfFrames
  | n + 1 =>
    b.foldlM (fun (_ : Value) s ↦ do
      lift (enter (some s.position))
      execIn n o s.item) .none

/-- Carry out one statement. -/
def execIn (frames : Nat) (o : Owner) (s : Stmt) : Recorded Value :=
  match frames with
  | 0 => lift outOfFrames
  | n + 1 =>
    match s with
    | .eval e => evaluateIn n o e
    | .assign x op e => assignIn n o x op e
    | .define f params body =>
      if n = 0 then lift outOfFrames
      else if params.Nodup then do
        let v := Value.function (← lift newNumber) f params body
        Recorded.bindName o f v
        return v
      else lift (fail (.repeatedParams f))
    | .branch c body otherwise => branchIn n o c body otherwise

/-- Bind a name to the value of an expression, or to what an operator makes of its old value and
that one. -/
def assignIn (frames : Nat) (o : Owner) (x : String) (op : Option (Written Operator)) (e : Expr) :
    Recorded Value :=
  match frames with
  | 0 => lift outOfFrames
  | n + 1 => do
    let v ← evaluateIn n o e
    let v ← match op with
      | none => pure v
      | some op => do lift (operate op (← Recorded.lookUp o x) v)
    Recorded.bindName o x v
    return v

/-- Carry out one of two blocks. -/
def branchIn (frames : Nat) (o : Owner) (c : Expr) (body : Block) (otherwise : Option Block) :
    Recorded Value :=
  match frames with
  | 0 => lift outOfFrames
  | n + 1 => do
    let v ← evaluateIn n o c
    if v.truthy then execBlockIn n o body
    else match otherwise with
      | some b => execBlockIn n o b
      | none => return .none

end

end Sangria
