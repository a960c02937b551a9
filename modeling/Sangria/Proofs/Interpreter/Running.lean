import Sangria.Interpreter.Evaluate

/-!
# Running evaluations

What each building block of an evaluation does to a machine, as one equation for each
(`Evaluation.run_bind` and its kin), so that nothing about runs has to open the monad. And what is
carried out for each kind of expression and statement, with the frames that it takes.
-/

namespace Sangria

namespace Evaluation

variable {α β : Type}

@[simp]
theorem run_pure (a : α) (m : Machine) : (pure a : Evaluation α).run m = (.ok a, m) :=
  rfl

@[simp]
theorem run_throw (s : Stop) (m : Machine) : (throw s : Evaluation α).run m = (.error s, m) :=
  rfl

@[simp]
theorem run_fail (e : RuntimeError) (m : Machine) :
    (fail e : Evaluation α).run m = (.error (.error e m.position), m) :=
  rfl

@[simp]
theorem run_get (m : Machine) : (get : Evaluation Machine).run m = (.ok m, m) :=
  rfl

@[simp]
theorem run_modify (f : Machine → Machine) (m : Machine) :
    (modify f : Evaluation Unit).run m = (.ok (), f m) :=
  rfl

theorem run_bind (x : Evaluation α) (f : α → Evaluation β) (m : Machine) :
    (x >>= f).run m = match x.run m with
      | (.ok a, m') => (f a).run m'
      | (.error s, m') => (.error s, m') := by
  show (match x.run m with
    | (r, m') => (ExceptT.bindCont f r) m') = _
  rcases x.run m with ⟨s | a, m'⟩
  · rfl
  · rfl

theorem run_bind_of_ok {x : Evaluation α} {f : α → Evaluation β} {m m' : Machine} {a : α}
    (h : x.run m = (.ok a, m')) : (x >>= f).run m = (f a).run m' := by
  rw [run_bind, h]

theorem run_bind_of_error {x : Evaluation α} {f : α → Evaluation β} {m m' : Machine} {s : Stop}
    (h : x.run m = (.error s, m')) : (x >>= f).run m = (.error s, m') := by
  rw [run_bind, h]

end Evaluation

/-! ### Names that are looked up -/

/-- The value of a name in a call under way. -/
def Scope.own? (scope : Scope) (x : String) : Option Value :=
  match scope with
  | .top => none
  | .call names => names.get? x

/-- The value of a name: of the call under way, of the top level, or a built-in function. -/
def Machine.found? (m : Machine) (scope : Scope) (x : String) : Option Value :=
  (scope.own? x).or ((m.globals.get? x).or (m.host.builtin? x))

theorem run_lookUp (scope : Scope) (x : String) (m : Machine) :
    (Evaluation.lookUp scope x).run m = match m.found? scope x with
      | some v => (.ok v, m)
      | none => (.error (.error (.unbound x) m.position), m) := by
  show (match m.found? scope x with
    | some v => Pure.pure v
    | none => Evaluation.fail (.unbound x) : Evaluation Value).run m = _
  cases m.found? scope x <;> rfl

/-! ### What is carried out, with the frames that it takes -/

section Frames

open Evaluation

variable (n : Nat) (scope : Scope)

theorem evaluate_binary (op : Written Operator) (l r : Expr) :
    evaluate (n + 2) scope (.binary op l r) = (do
      let a ← evaluate n scope l
      let b ← evaluate n scope r
      operate op a b) :=
  rfl

theorem evaluate_and (l r : Expr) :
    evaluate (n + 2) scope (.and l r) = (do
      let a ← evaluate n scope l
      if a.truthy then evaluate n scope r else return a) :=
  rfl

theorem evaluate_or (l r : Expr) :
    evaluate (n + 2) scope (.or l r) = (do
      let a ← evaluate n scope l
      if a.truthy then return a else evaluate n scope r) :=
  rfl

theorem evaluate_not (e : Expr) :
    evaluate (n + 2) scope (.not e) = (do
      let a ← evaluate n scope e
      return .bool (!a.truthy)) :=
  rfl

theorem evaluate_signed (s : Written Sign) (e : Expr) :
    evaluate (n + 2) scope (.signed s e) = (do
      let a ← evaluate n scope e
      signed s a) :=
  rfl

theorem evaluate_call (f : String) (args : List Expr) :
    evaluate (n + 2) scope (.call f args) = (do
      let callee ← lookUp scope f
      let values ← evaluateAll n scope args
      match callee with
      | .function _ name params body => callFunction n name params body values
      | .builtin b => callBuiltin f b values
      | v => fail (.noFunction f v.kindName)) :=
  rfl

theorem evaluateAll_succ (args : List Expr) :
    evaluateAll (n + 1) scope args = args.mapM fun e ↦ evaluate n scope e :=
  rfl

theorem callFunction_succ (name : String) (params : List String) (body : Block)
    (args : List Value) :
    callFunction (n + 1) name params body args =
      if args.length ≠ params.length then fail (.arity name params.length args.length)
      else do
        let caller := (← get).position
        let (v, _) ← execBlock n (.call (params.zip args)) body
        enter caller
        return v :=
  rfl

/-- Carry out one statement of a block, from the value and the scope before it. -/
def execNext (frames : Nat) (state : Value × Scope) (s : Located Stmt) :
    Evaluation (Value × Scope) := do
  enter (some s.position)
  exec frames state.2 s.item

theorem execBlock_succ (b : Block) :
    execBlock (n + 1) scope b = b.foldlM (execNext n) (.none, scope) :=
  rfl

theorem exec_eval (e : Expr) :
    exec (n + 1) scope (.eval e) = (do
      let v ← evaluate n scope e
      return (v, scope)) :=
  rfl

theorem exec_assign (x : String) (op : Option (Written Operator)) (e : Expr) :
    exec (n + 2) scope (.assign x op e) = (do
      let v ← evaluate n scope e
      let v ← match op with
        | none => pure v
        | some op => do operate op (← lookUp scope x) v
      return (v, ← bindName scope x v)) :=
  rfl

theorem exec_define (f : String) (params : List String) (body : Block) :
    exec (n + 2) scope (.define f params body) =
      if params.Nodup then do
        let v := Value.function (← newNumber) f params body
        return (v, ← bindName scope f v)
      else fail (.repeatedParams f) :=
  rfl

theorem exec_branch (c : Expr) (body : Block) (otherwise : Option Block) :
    exec (n + 2) scope (.branch c body otherwise) = (do
      let v ← evaluate n scope c
      if v.truthy then execBlock n scope body
      else match otherwise with
        | some b => execBlock n scope b
        | none => return (.none, scope)) :=
  rfl

end Frames

end Sangria
