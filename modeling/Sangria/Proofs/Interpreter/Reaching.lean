import Sangria.Proofs.Interpreter.Running
import Sangria.Proofs.Value.Templates

/-!
# What a run comes to

A run carries out one thing after the other: expressions, arguments, calls, statements. `Step` says
what each of them leads to at once and what it leads to after others have been carried out, with the
machine at that point; a run *comes to* all that steps lead to from its program.

An evaluation stops on the fault of a template exactly when it comes to an operator `%` with a text
on its left that cannot be filled with what is on its right (`Task.stopsOn_iff`). One direction is
that faults are passed on by everything on the way (`Task.stopsOn_of_step`); the other that a fault
was passed on from somewhere (`Task.arises_of_stopsOn`), down to where it arose.
-/

namespace Sangria

/-! ### Stopping on the fault of a template -/

namespace Evaluation

variable {α β : Type} {m : Machine} {f : TemplateFault}

/-- An evaluation on a machine stops on the fault of a template. -/
def StopsOn (x : Evaluation α) (m : Machine) (f : TemplateFault) : Prop :=
  (x.run m).1 = .error (.fault (.template f))

theorem stopsOn_bind_iff {x : Evaluation α} {g : α → Evaluation β} :
    (x >>= g).StopsOn m f ↔
      x.StopsOn m f ∨ ∃ a m', x.run m = (.ok a, m') ∧ (g a).StopsOn m' f := by
  unfold StopsOn
  rcases h : x.run m with ⟨s | a, m'⟩
  · rw [run_bind_of_error h]
    refine ⟨fun hs ↦ .inl (by rw [Except.error.inj hs]), fun h ↦ ?_⟩
    rcases h with hs | ⟨a, m₁, hrun, -⟩
    · rw [Except.error.inj hs]
    · exact absurd (Prod.mk.inj hrun).1 (by simp)
  · rw [run_bind_of_ok h]
    refine ⟨fun hg ↦ .inr ⟨a, m', rfl, hg⟩, fun h ↦ ?_⟩
    rcases h with h | ⟨b, m₁, hrun, hg⟩
    · exact absurd h (by simp)
    · obtain ⟨hb, rfl⟩ := Prod.mk.inj hrun
      rw [Except.ok.inj hb]
      exact hg

theorem not_stopsOn_pure (a : α) : ¬ (pure a : Evaluation α).StopsOn m f := by
  simp [StopsOn]

theorem not_stopsOn_fail (e : RuntimeError) : ¬ (fail e : Evaluation α).StopsOn m f := by
  rw [StopsOn, run_fail]
  exact fun h ↦ nomatch Except.error.inj h

theorem not_stopsOn_throw {s : Stop} (h : s ≠ .fault (.template f)) :
    ¬ (throw s : Evaluation α).StopsOn m f := by
  rw [StopsOn, run_throw]
  exact fun hs ↦ h (Except.error.inj hs)

theorem not_stopsOn_outOfFrames : ¬ (outOfFrames : Evaluation α).StopsOn m f :=
  not_stopsOn_throw (by simp)

/-- Looking a name up leaves the machine alone, and if it fails, that is an error of the program. -/
theorem lookUp_run (scope : Scope) (x : String) (m : Machine) :
    (∃ v, (lookUp scope x).run m = (.ok v, m)) ∨
      ∃ e p, (lookUp scope x).run m = (.error (.error e p), m) := by
  unfold lookUp
  rw [run_bind_of_ok (run_get m)]
  dsimp only
  split
  · exact .inl ⟨_, rfl⟩
  · exact .inr ⟨_, _, rfl⟩

theorem not_stopsOn_lookUp (scope : Scope) (x : String) : ¬ (lookUp scope x).StopsOn m f := by
  unfold StopsOn
  rcases lookUp_run scope x m with ⟨v, h⟩ | ⟨e, p, h⟩ <;> simp [h]

theorem machine_eq_of_lookUp {scope : Scope} {x : String} {v : Value} {m' : Machine}
    (h : (lookUp scope x).run m = (.ok v, m')) : m' = m := by
  rcases lookUp_run scope x m with ⟨w, hw⟩ | ⟨e, p, he⟩
  · exact (Prod.mk.inj (h.symm.trans hw)).2
  · exact absurd (Prod.mk.inj (h.symm.trans he)).1 (by simp)

theorem not_stopsOn_bindName (scope : Scope) (x : String) (v : Value) :
    ¬ (bindName scope x v).StopsOn m f := by
  intro h
  cases scope with
  | top => exact absurd (show (.ok .top : Except Stop Scope) = _ from h) (by simp)
  | call names => exact absurd (show (.ok (.call _) : Except Stop Scope) = _ from h) (by simp)

theorem not_stopsOn_newNumber : ¬ newNumber.StopsOn m f :=
  fun h ↦ absurd (show (.ok m.defined : Except Stop Nat) = _ from h) (by simp)

theorem not_stopsOn_signed (s : Written Sign) (v : Value) : ¬ (signed s v).StopsOn m f := by
  unfold signed
  split
  · exact not_stopsOn_throw (by simp)
  · split
    · exact not_stopsOn_pure _
    · exact not_stopsOn_fail _

theorem not_stopsOn_writeAll (x : String) (texts : List Text) :
    ¬ (writeAll x texts).StopsOn m f := by
  unfold writeAll
  rw [stopsOn_bind_iff, not_or]
  refine ⟨by simp [StopsOn], ?_⟩
  rintro ⟨m₁, m', -, h⟩
  rcases stopsOn_bind_iff.1 h with h | ⟨_, m₂, -, h⟩
  · exact absurd h (by simp [StopsOn, write])
  split at h
  · exact not_stopsOn_pure _ h
  · exact not_stopsOn_fail _ h

theorem not_stopsOn_callBuiltin (x : String) (b : Builtin) (args : List Value) :
    ¬ (callBuiltin x b args).StopsOn m f := by
  unfold callBuiltin
  rw [stopsOn_bind_iff, not_or]
  refine ⟨by simp [StopsOn], ?_⟩
  rintro ⟨m₁, m', -, h⟩
  rcases stopsOn_bind_iff.1 h with h | ⟨_, m₂, -, h⟩
  · exact absurd h (by simp [StopsOn, remember])
  split at h
  · rcases stopsOn_bind_iff.1 h with h | ⟨_, m₃, -, h⟩
    · exact not_stopsOn_writeAll _ _ h
    · exact not_stopsOn_pure _ h
  · exact not_stopsOn_fail _ h

/-- An operator stops on the fault of a template if it is `%` on a text that cannot be filled. -/
theorem stopsOn_operate_iff {op : Written Operator} {a b : Value} :
    (operate op a b).StopsOn m f ↔
      op = .known .mod ∧ ∃ t, a = .text t ∧ fillTemplate t b = .error (.template f) := by
  cases op with
  | unknown symbol => simp [operate, StopsOn]
  | known op =>
    rw [Written.known.injEq, ← Value.apply_eq_template_iff]
    unfold StopsOn operate remember
    rw [run_bind_of_ok (run_modify _ m)]
    split <;> simp_all

end Evaluation

/-! ### What is carried out -/

/-- Something to be carried out, with a number of frames. -/
inductive Task
  /-- An expression. -/
  | expr (frames : Nat) (scope : Scope) (e : Expr)
  /-- Arguments, each with that number of frames. -/
  | args (frames : Nat) (scope : Scope) (es : List Expr)
  /-- A call of a function. -/
  | call (frames : Nat) (name : String) (params : List String) (body : Block)
      (values : List Value)
  /-- Statements, each with that number of frames, from the value and the scope before them. -/
  | statements (frames : Nat) (state : Value × Scope) (b : Block)
  /-- A statement. -/
  | stmt (frames : Nat) (scope : Scope) (s : Stmt)

namespace Task

/-- A task on a machine stops on the fault of a template. -/
def StopsOn (m : Machine) (f : TemplateFault) : Task → Prop
  | expr n scope e => (evaluate n scope e).StopsOn m f
  | args n scope es => (es.mapM fun e ↦ evaluate n scope e).StopsOn m f
  | call n name params body values => (callFunction n name params body values).StopsOn m f
  | statements n state b => (b.foldlM (execNext n) state).StopsOn m f
  | stmt n scope s => (exec n scope s).StopsOn m f

/-- An operator `%` is applied to a text that cannot be filled. -/
inductive Misfills (m : Machine) (f : TemplateFault) : Task → Prop
  /-- In an expression. -/
  | expr {n : Nat} {scope : Scope} {l r : Expr} {t : Text} {v : Value} {m₁ m₂ : Machine}
      (left : (evaluate n scope l).run m = (.ok (.text t), m₁))
      (right : (evaluate n scope r).run m₁ = (.ok v, m₂))
      (fill : fillTemplate t v = .error (.template f)) :
      Misfills m f (.expr (n + 2) scope (.binary (.known .mod) l r))
  /-- In a binding, on the old value. -/
  | assign {n : Nat} {scope : Scope} {x : String} {e : Expr} {t : Text} {v : Value}
      {m₁ m₂ : Machine} (new : (evaluate n scope e).run m = (.ok v, m₁))
      (old : (Evaluation.lookUp scope x).run m₁ = (.ok (.text t), m₂))
      (fill : fillTemplate t v = .error (.template f)) :
      Misfills m f (.stmt (n + 2) scope (.assign x (some (.known .mod)) e))

/-- What a task on a machine leads to next. -/
inductive Step : Task → Machine → Task → Machine → Prop
  /-- An operator leads to its left side. -/
  | left {n : Nat} {scope : Scope} {op : Written Operator} {l r : Expr} {m : Machine} :
      Step (.expr (n + 2) scope (.binary op l r)) m (.expr n scope l) m
  /-- Then to its right side. -/
  | right {n : Nat} {scope : Scope} {op : Written Operator} {l r : Expr} {a : Value}
      {m m' : Machine} (left : (evaluate n scope l).run m = (.ok a, m')) :
      Step (.expr (n + 2) scope (.binary op l r)) m (.expr n scope r) m'
  /-- A conjunction leads to its left side. -/
  | andLeft {n : Nat} {scope : Scope} {l r : Expr} {m : Machine} :
      Step (.expr (n + 2) scope (.and l r)) m (.expr n scope l) m
  /-- If that holds, to its right side. -/
  | andRight {n : Nat} {scope : Scope} {l r : Expr} {a : Value} {m m' : Machine}
      (left : (evaluate n scope l).run m = (.ok a, m')) (holds : a.truthy = true) :
      Step (.expr (n + 2) scope (.and l r)) m (.expr n scope r) m'
  /-- A disjunction leads to its left side. -/
  | orLeft {n : Nat} {scope : Scope} {l r : Expr} {m : Machine} :
      Step (.expr (n + 2) scope (.or l r)) m (.expr n scope l) m
  /-- If that does not hold, to its right side. -/
  | orRight {n : Nat} {scope : Scope} {l r : Expr} {a : Value} {m m' : Machine}
      (left : (evaluate n scope l).run m = (.ok a, m')) (fails : a.truthy = false) :
      Step (.expr (n + 2) scope (.or l r)) m (.expr n scope r) m'
  /-- A negation leads to what it negates. -/
  | not {n : Nat} {scope : Scope} {e : Expr} {m : Machine} :
      Step (.expr (n + 2) scope (.not e)) m (.expr n scope e) m
  /-- A sign leads to what it stands before. -/
  | signed {n : Nat} {scope : Scope} {s : Written Sign} {e : Expr} {m : Machine} :
      Step (.expr (n + 2) scope (.signed s e)) m (.expr n scope e) m
  /-- A call leads to its arguments, if there is something of that name. -/
  | arguments {n : Nat} {scope : Scope} {g : String} {es : List Expr} {callee : Value}
      {m : Machine} (found : (Evaluation.lookUp scope g).run m = (.ok callee, m)) :
      Step (.expr (n + 3) scope (.call g es)) m (.args n scope es) m
  /-- If it is a function, then to its call. -/
  | called {n : Nat} {scope : Scope} {g name : String} {es : List Expr} {number : Nat}
      {params : List String} {body : Block} {values : List Value} {m m' : Machine}
      (found : (Evaluation.lookUp scope g).run m = (.ok (.function number name params body), m))
      (arguments : (evaluateAll n scope es).run m = (.ok values, m')) :
      Step (.expr (n + 2) scope (.call g es)) m (.call n name params body values) m'
  /-- Arguments lead to the first of them. -/
  | firstArg {n : Nat} {scope : Scope} {e : Expr} {es : List Expr} {m : Machine} :
      Step (.args n scope (e :: es)) m (.expr n scope e) m
  /-- Then to the others. -/
  | nextArg {n : Nat} {scope : Scope} {e : Expr} {es : List Expr} {v : Value} {m m' : Machine}
      (first : (evaluate n scope e).run m = (.ok v, m')) :
      Step (.args n scope (e :: es)) m (.args n scope es) m'
  /-- A call leads to the statements of the function, if the arguments are as many as the
  parameters. -/
  | body {n : Nat} {name : String} {params : List String} {body : Block} {values : List Value}
      {m : Machine} (arity : values.length = params.length) :
      Step (.call (n + 2) name params body values) m
        (.statements n (.none, .call (params.zip values)) body) m
  /-- Statements lead to the first of them. -/
  | firstStatement {n : Nat} {state : Value × Scope} {s : Located Stmt} {b : Block}
      {m : Machine} : Step (.statements n state (s :: b)) m (.stmt n state.2 s.item)
        { m with position := some s.position }
  /-- Then to the others. -/
  | nextStatement {n : Nat} {state state' : Value × Scope} {s : Located Stmt} {b : Block}
      {m m' : Machine} (first : (execNext n state s).run m = (.ok state', m')) :
      Step (.statements n state (s :: b)) m (.statements n state' b) m'
  /-- A statement that is an expression leads to that. -/
  | eval {n : Nat} {scope : Scope} {e : Expr} {m : Machine} :
      Step (.stmt (n + 1) scope (.eval e)) m (.expr n scope e) m
  /-- A binding leads to what is bound. -/
  | bound {n : Nat} {scope : Scope} {x : String} {op : Option (Written Operator)} {e : Expr}
      {m : Machine} : Step (.stmt (n + 2) scope (.assign x op e)) m (.expr n scope e) m
  /-- A branch leads to its condition. -/
  | condition {n : Nat} {scope : Scope} {c : Expr} {b : Block} {o : Option Block} {m : Machine} :
      Step (.stmt (n + 2) scope (.branch c b o)) m (.expr n scope c) m
  /-- If that holds, to the statements under it. -/
  | holds {n : Nat} {scope : Scope} {c : Expr} {b : Block} {o : Option Block} {v : Value}
      {m m' : Machine} (condition : (evaluate (n + 1) scope c).run m = (.ok v, m'))
      (holds : v.truthy = true) :
      Step (.stmt (n + 3) scope (.branch c b o)) m (.statements n (.none, scope) b) m'
  /-- Otherwise to the others, if there are any. -/
  | otherwise {n : Nat} {scope : Scope} {c : Expr} {b other : Block} {v : Value} {m m' : Machine}
      (condition : (evaluate (n + 1) scope c).run m = (.ok v, m')) (fails : v.truthy = false) :
      Step (.stmt (n + 3) scope (.branch c b (some other))) m
        (.statements n (.none, scope) other) m'

section Stops

variable {t t' : Task} {m m' : Machine} {f : TemplateFault}

open Evaluation

theorem stopsOn_mapM_cons {n : Nat} {scope : Scope} {e : Expr} {es : List Expr} :
    StopsOn m f (.args n scope (e :: es)) ↔ StopsOn m f (.expr n scope e) ∨
      ∃ v m', (evaluate n scope e).run m = (.ok v, m') ∧ StopsOn m' f (.args n scope es) := by
  show Evaluation.StopsOn (List.mapM _ _) m f ↔ _
  rw [List.mapM_cons, stopsOn_bind_iff]
  refine or_congr_right (exists_congr fun v ↦ exists_congr fun m' ↦ and_congr_right fun _ ↦ ?_)
  rw [stopsOn_bind_iff]
  exact ⟨fun h ↦ h.elim id fun ⟨vs, m₁, _, h⟩ ↦ absurd h (not_stopsOn_pure _), .inl⟩

theorem stopsOn_foldlM_cons {n : Nat} {state : Value × Scope} {s : Located Stmt} {b : Block} :
    StopsOn m f (.statements n state (s :: b)) ↔
      StopsOn { m with position := some s.position } f (.stmt n state.2 s.item) ∨
      ∃ state' m', (execNext n state s).run m = (.ok state', m') ∧
        StopsOn m' f (.statements n state' b) := by
  show Evaluation.StopsOn (List.foldlM _ _ _) m f ↔ _
  rw [List.foldlM_cons, stopsOn_bind_iff]
  exact Iff.rfl

/-- What a task leads to passes its fault on. -/
theorem stopsOn_of_step (h : Step t m t' m') (hs : StopsOn m' f t') : StopsOn m f t := by
  cases h with
  | left =>
    rw [StopsOn, evaluate_binary, stopsOn_bind_iff]
    exact .inl hs
  | right hl =>
    rw [StopsOn, evaluate_binary, stopsOn_bind_iff]
    exact .inr ⟨_, _, hl, stopsOn_bind_iff.2 (.inl hs)⟩
  | andLeft =>
    rw [StopsOn, evaluate_and, stopsOn_bind_iff]
    exact .inl hs
  | andRight hl hholds =>
    rw [StopsOn, evaluate_and, stopsOn_bind_iff]
    refine .inr ⟨_, _, hl, ?_⟩
    rw [if_pos hholds]
    exact hs
  | orLeft =>
    rw [StopsOn, evaluate_or, stopsOn_bind_iff]
    exact .inl hs
  | orRight hl hfails =>
    rw [StopsOn, evaluate_or, stopsOn_bind_iff]
    refine .inr ⟨_, _, hl, ?_⟩
    rw [if_neg (Bool.eq_false_iff.1 hfails)]
    exact hs
  | not =>
    rw [StopsOn, evaluate_not, stopsOn_bind_iff]
    exact .inl hs
  | signed =>
    rw [StopsOn, evaluate_signed, stopsOn_bind_iff]
    exact .inl hs
  | arguments hfound =>
    rw [StopsOn, evaluate_call, stopsOn_bind_iff]
    refine .inr ⟨_, _, hfound, stopsOn_bind_iff.2 (.inl ?_)⟩
    rw [evaluateAll_succ]
    exact hs
  | called hfound hvalues =>
    rw [StopsOn, evaluate_call, stopsOn_bind_iff]
    exact .inr ⟨_, _, hfound, stopsOn_bind_iff.2 (.inr ⟨_, _, hvalues, hs⟩)⟩
  | firstArg => exact stopsOn_mapM_cons.2 (.inl hs)
  | nextArg hfirst => exact stopsOn_mapM_cons.2 (.inr ⟨_, _, hfirst, hs⟩)
  | body harity =>
    rw [StopsOn, callFunction_succ, if_neg (fun h ↦ h harity), stopsOn_bind_iff]
    refine .inr ⟨_, _, run_get m, stopsOn_bind_iff.2 (.inl ?_)⟩
    rw [execBlock_succ]
    exact hs
  | firstStatement => exact stopsOn_foldlM_cons.2 (.inl hs)
  | nextStatement hfirst => exact stopsOn_foldlM_cons.2 (.inr ⟨_, _, hfirst, hs⟩)
  | eval =>
    rw [StopsOn, exec_eval, stopsOn_bind_iff]
    exact .inl hs
  | bound =>
    rw [StopsOn, exec_assign, stopsOn_bind_iff]
    exact .inl hs
  | condition =>
    rw [StopsOn, exec_branch, stopsOn_bind_iff]
    exact .inl hs
  | holds hc hholds =>
    rw [StopsOn, exec_branch, stopsOn_bind_iff]
    refine .inr ⟨_, _, hc, ?_⟩
    rw [if_pos hholds, execBlock_succ]
    exact hs
  | otherwise hc hfails =>
    rw [StopsOn, exec_branch, stopsOn_bind_iff]
    refine .inr ⟨_, _, hc, ?_⟩
    rw [if_neg (Bool.eq_false_iff.1 hfails)]
    exact hs

/-- Where `%` cannot fill a text, the task stops. -/
theorem stopsOn_of_misfills (h : Misfills m f t) : StopsOn m f t := by
  cases h with
  | expr hl hr hfill =>
    rw [StopsOn, evaluate_binary, stopsOn_bind_iff]
    refine .inr ⟨_, _, hl, stopsOn_bind_iff.2 (.inr ⟨_, _, hr, ?_⟩)⟩
    exact stopsOn_operate_iff.2 ⟨rfl, _, rfl, hfill⟩
  | assign hnew hold hfill =>
    rw [StopsOn, exec_assign, stopsOn_bind_iff]
    refine .inr ⟨_, _, hnew, stopsOn_bind_iff.2 (.inr ⟨_, _, hold, stopsOn_bind_iff.2 (.inl ?_)⟩)⟩
    exact stopsOn_operate_iff.2 ⟨rfl, _, rfl, hfill⟩

/-- The fault that a task stops on arises in it, or in what it leads to. -/
def Arises (m : Machine) (f : TemplateFault) (t : Task) : Prop :=
  Misfills m f t ∨ ∃ t' m', Step t m t' m' ∧ StopsOn m' f t'

theorem Arises.of_step (hstep : Step t m t' m') (h : StopsOn m' f t') : Arises m f t :=
  .inr ⟨t', m', hstep, h⟩

section Expressions

variable {n : Nat} {scope : Scope}

theorem arises_binary {op : Written Operator} {l r : Expr}
    (h : StopsOn m f (.expr (n + 2) scope (.binary op l r))) :
    Arises m f (.expr (n + 2) scope (.binary op l r)) := by
  rw [StopsOn, evaluate_binary, stopsOn_bind_iff] at h
  rcases h with h | ⟨a, m₁, hl, h⟩
  · exact .of_step .left h
  rcases stopsOn_bind_iff.1 h with h | ⟨b, m₂, hr, h⟩
  · exact .of_step (.right hl) h
  -- both sides have values, so the operator itself stops
  obtain ⟨rfl, u, rfl, hfill⟩ := stopsOn_operate_iff.1 h
  exact .inl (.expr hl hr hfill)

theorem arises_and {l r : Expr} (h : StopsOn m f (.expr (n + 2) scope (.and l r))) :
    Arises m f (.expr (n + 2) scope (.and l r)) := by
  rw [StopsOn, evaluate_and, stopsOn_bind_iff] at h
  rcases h with h | ⟨a, m₁, hl, h⟩
  · exact .of_step .andLeft h
  split at h
  · exact .of_step (.andRight hl ‹_›) h
  · exact absurd h (not_stopsOn_pure _)

theorem arises_or {l r : Expr} (h : StopsOn m f (.expr (n + 2) scope (.or l r))) :
    Arises m f (.expr (n + 2) scope (.or l r)) := by
  rw [StopsOn, evaluate_or, stopsOn_bind_iff] at h
  rcases h with h | ⟨a, m₁, hl, h⟩
  · exact .of_step .orLeft h
  split at h
  · exact absurd h (not_stopsOn_pure _)
  · exact .of_step (.orRight hl (Bool.eq_false_iff.2 ‹_›)) h

theorem arises_callExpr {g : String} {es : List Expr}
    (h : StopsOn m f (.expr (n + 2) scope (.call g es))) :
    Arises m f (.expr (n + 2) scope (.call g es)) := by
  rw [StopsOn, evaluate_call, stopsOn_bind_iff] at h
  rcases h with h | ⟨callee, m₁, hfound, hrest⟩
  · exact absurd h (not_stopsOn_lookUp _ _)
  obtain rfl := machine_eq_of_lookUp hfound
  rcases stopsOn_bind_iff.1 hrest with hargs | ⟨values, m₂, hvalues, hcall⟩
  · -- the arguments want a frame of their own
    cases n with
    | zero => exact absurd hargs not_stopsOn_outOfFrames
    | succ n =>
      rw [evaluateAll_succ] at hargs
      exact .of_step (.arguments hfound) hargs
  split at hcall
  · exact .of_step (.called hfound hvalues) hcall
  · exact absurd hcall (not_stopsOn_callBuiltin _ _ _)
  · exact absurd hcall (not_stopsOn_fail _)

theorem arises_expr {n : Nat} {e : Expr} (h : StopsOn m f (.expr n scope e)) :
    Arises m f (.expr n scope e) := by
  match n with
  | 0 => exact absurd h not_stopsOn_outOfFrames
  | 1 =>
    cases e with
    | foreign tag => exact absurd h (not_stopsOn_throw (by simp))
    | _ => exact absurd h not_stopsOn_outOfFrames
  | n + 2 =>
    cases e with
    | literal v => exact absurd h (not_stopsOn_pure _)
    | name x => exact absurd h (not_stopsOn_lookUp _ _)
    | binary op l r => exact arises_binary h
    | and l r => exact arises_and h
    | or l r => exact arises_or h
    | not e =>
      rw [StopsOn, evaluate_not, stopsOn_bind_iff] at h
      rcases h with h | ⟨a, m₁, -, h⟩
      · exact .of_step .not h
      · exact absurd h (not_stopsOn_pure _)
    | signed s e =>
      rw [StopsOn, evaluate_signed, stopsOn_bind_iff] at h
      rcases h with h | ⟨a, m₁, -, h⟩
      · exact .of_step .signed h
      · exact absurd h (not_stopsOn_signed _ _)
    | call g es => exact arises_callExpr h
    | foreign tag => exact absurd h (not_stopsOn_throw (by simp))

theorem arises_call {name : String} {params : List String} {body : Block} {values : List Value}
    (h : StopsOn m f (.call n name params body values)) :
    Arises m f (.call n name params body values) := by
  cases n with
  | zero => exact absurd h not_stopsOn_outOfFrames
  | succ n =>
    rw [StopsOn, callFunction_succ] at h
    split at h
    · exact absurd h (not_stopsOn_fail _)
    · rename_i harity
      rcases stopsOn_bind_iff.1 h with h | ⟨m₁, m₂, hget, hrest⟩
      · exact absurd h (by simp [Evaluation.StopsOn])
      obtain ⟨-, rfl⟩ := Prod.mk.inj hget
      rcases stopsOn_bind_iff.1 hrest with hblock | ⟨r, m₃, -, hlast⟩
      · cases n with
        | zero => exact absurd hblock not_stopsOn_outOfFrames
        | succ n =>
          rw [execBlock_succ] at hblock
          exact .of_step (.body (Decidable.not_not.1 harity)) hblock
      · exact absurd (show (.ok r.1 : Except Stop Value) = _ from hlast) (by simp)

end Expressions

section Statements

variable {n : Nat} {scope : Scope}

theorem not_stopsOn_rebind (x : String) (v : Value) :
    ¬ (do return (v, ← bindName scope x v) : Evaluation (Value × Scope)).StopsOn m f := by
  intro h
  rcases stopsOn_bind_iff.1 h with h | ⟨s, m₁, -, h⟩
  · exact not_stopsOn_bindName _ _ _ h
  · exact not_stopsOn_pure _ h

theorem arises_eval {e : Expr} (h : StopsOn m f (.stmt (n + 1) scope (.eval e))) :
    Arises m f (.stmt (n + 1) scope (.eval e)) := by
  rw [StopsOn, exec_eval, stopsOn_bind_iff] at h
  rcases h with h | ⟨v, m₁, -, h⟩
  · exact .of_step .eval h
  · exact absurd h (not_stopsOn_pure _)

theorem arises_assign {x : String} {op : Option (Written Operator)} {e : Expr}
    (h : StopsOn m f (.stmt (n + 2) scope (.assign x op e))) :
    Arises m f (.stmt (n + 2) scope (.assign x op e)) := by
  rw [StopsOn, exec_assign, stopsOn_bind_iff] at h
  rcases h with h | ⟨v, m₁, hnew, h⟩
  · exact .of_step .bound h
  cases op with
  | none => exact absurd h (not_stopsOn_rebind x v)
  | some op =>
    rcases stopsOn_bind_iff.1 h with h | ⟨old, m₂, hold, h⟩
    · exact absurd h (not_stopsOn_lookUp _ _)
    rcases stopsOn_bind_iff.1 h with h | ⟨w, m₃, -, h⟩
    · obtain ⟨rfl, u, rfl, hfill⟩ := stopsOn_operate_iff.1 h
      exact .inl (.assign hnew hold hfill)
    · exact absurd h (not_stopsOn_rebind x w)

/-- A definition carries nothing out. -/
theorem not_stopsOn_define (g : String) (params : List String) (body : Block) :
    ¬ StopsOn m f (.stmt (n + 2) scope (.define g params body)) := by
  intro h
  rw [StopsOn, exec_define] at h
  split at h
  · rcases stopsOn_bind_iff.1 h with h | ⟨number, m₁, -, h⟩
    · exact not_stopsOn_newNumber h
    rcases stopsOn_bind_iff.1 h with h | ⟨s, m₂, -, h⟩
    · exact not_stopsOn_bindName _ _ _ h
    · exact not_stopsOn_pure _ h
  · exact not_stopsOn_fail _ h

theorem arises_branch {c : Expr} {b : Block} {o : Option Block}
    (h : StopsOn m f (.stmt (n + 2) scope (.branch c b o))) :
    Arises m f (.stmt (n + 2) scope (.branch c b o)) := by
  rw [StopsOn, exec_branch, stopsOn_bind_iff] at h
  rcases h with h | ⟨v, m₁, hc, h⟩
  · exact .of_step .condition h
  cases n with
  | zero =>
    -- a condition has no value without frames
    exact absurd (Prod.mk.inj hc).1 (by simp)
  | succ n =>
    split at h
    · exact .of_step (.holds hc ‹_›) h
    · rename_i hfails
      cases o with
      | none => exact absurd h (not_stopsOn_pure _)
      | some other => exact .of_step (.otherwise hc (Bool.eq_false_iff.2 hfails)) h

theorem arises_stmt {n : Nat} {s : Stmt} (h : StopsOn m f (.stmt n scope s)) :
    Arises m f (.stmt n scope s) := by
  match n with
  | 0 => exact absurd h not_stopsOn_outOfFrames
  | 1 =>
    cases s with
    | eval e => exact arises_eval h
    | assign | define | branch => exact absurd h not_stopsOn_outOfFrames
  | n + 2 =>
    cases s with
    | eval e => exact arises_eval h
    | assign x op e => exact arises_assign h
    | define g params body => exact absurd h (not_stopsOn_define _ _ _)
    | branch c b o => exact arises_branch h

end Statements

theorem arises_of_stopsOn (h : StopsOn m f t) : Arises m f t := by
  cases t with
  | expr n scope e => exact arises_expr h
  | args n scope es =>
    cases es with
    | nil => exact absurd h (not_stopsOn_pure _)
    | cons e es =>
      rcases stopsOn_mapM_cons.1 h with h | ⟨v, m₁, hfirst, h⟩
      · exact .of_step .firstArg h
      · exact .of_step (.nextArg hfirst) h
  | call n name params body values => exact arises_call h
  | statements n state b =>
    cases b with
    | nil => exact absurd h (not_stopsOn_pure _)
    | cons s b =>
      rcases stopsOn_foldlM_cons.1 h with h | ⟨state', m₁, hfirst, h⟩
      · exact .of_step .firstStatement h
      · exact .of_step (.nextStatement hfirst) h
  | stmt n scope s => exact arises_stmt h

end Stops

/-! ### Everything a task comes to -/

/-- What steps lead to from a task on a machine. -/
inductive ComesTo : Task → Machine → Task → Machine → Prop
  /-- The task itself. -/
  | refl {t : Task} {m : Machine} : ComesTo t m t m
  /-- What is come to from where a step leads. -/
  | step {t t' t'' : Task} {m m' m'' : Machine} (first : Step t m t' m')
      (rest : ComesTo t' m' t'' m'') : ComesTo t m t'' m''

/-- How many frames a task has. -/
def frames : Task → Nat
  | expr n _ _ | args n _ _ | call n _ _ _ _ | statements n _ _ | stmt n _ _ => n

/-- How many things with the frames of the task are left in it. -/
def pieces : Task → Nat
  | args _ _ es => es.length + 1
  | statements _ _ b => b.length + 1
  | _ => 0

/-- A step takes a frame, or leaves less to carry out with the same frames. -/
theorem lt_of_step {t t' : Task} {m m' : Machine} (h : Step t m t' m') :
    t'.frames < t.frames ∨ t'.frames = t.frames ∧ t'.pieces < t.pieces := by
  cases h <;> simp [frames, pieces]

/-- A task that stops comes to one that misfills a template. -/
theorem exists_comesTo_of_stopsOn {t : Task} {m : Machine} {f : TemplateFault}
    (h : StopsOn m f t) : ∃ t' m', ComesTo t m t' m' ∧ Misfills m' f t' := by
  rcases arises_of_stopsOn h with h | ⟨t₁, m₁, hstep, h⟩
  · exact ⟨t, m, .refl, h⟩
  · have hlt := lt_of_step hstep
    obtain ⟨t', m', hrest, h⟩ := exists_comesTo_of_stopsOn h
    exact ⟨t', m', .step hstep hrest, h⟩
termination_by (t.frames, t.pieces)
decreasing_by
  rcases hlt with hlt | ⟨heq, hlt⟩
  · exact .left _ _ hlt
  · rw [heq]
    exact .right _ hlt

/-- A task stops on the fault of a template exactly if it comes to an operator `%` that cannot fill
its text. -/
theorem stopsOn_iff {t : Task} {m : Machine} {f : TemplateFault} :
    StopsOn m f t ↔ ∃ t' m', ComesTo t m t' m' ∧ Misfills m' f t' := by
  refine ⟨exists_comesTo_of_stopsOn, ?_⟩
  rintro ⟨t', m', hcomes, hfill⟩
  induction hcomes with
  | refl => exact stopsOn_of_misfills hfill
  | step hstep _ ih => exact stopsOn_of_step hstep (ih hfill)

end Task

end Sangria
