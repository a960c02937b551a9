import Sangria.Proofs.Interpreter.Running
import Sangria.Proofs.Value.Answers

/-!
# Rules that a run upholds

A `Rule` says which statements may be carried out and where, which functions may be called, and with
which faults a run may stop. If a rule allows what a program is made of and the functions that are
bound already, then whatever a run of it meets is allowed, and it stops only as the rule allows
(`Rule.Lawful.runWithin`): a run carries out parts of its program, and the blocks of functions that
were bound or are defined on the way.

The statement is proved once for all rules and for all that a run is made of, by induction on the
frames that are left. What a rule has to satisfy for it is `Rule.Lawful`: a part of what is allowed
is allowed.
-/

namespace Sangria

/-- What a run may carry out, where, and how it may stop. -/
structure Rule where
  /-- The expressions that may be evaluated. -/
  expr : Expr → Prop
  /-- The statements that may be carried out. -/
  stmt : Stmt → Prop
  /-- The positions that a statement under way may have, or that there is none. -/
  place : Option Position → Prop
  /-- The functions that may be called, by their parameters and their blocks. -/
  function : List String → Block → Prop
  /-- The faults with which a run may stop. -/
  fault : Fault → Prop

namespace Rule

variable (R : Rule)

/-- The statements of a block may be carried out where they stand. -/
def block (b : Block) : Prop :=
  ∀ s ∈ b, R.place (some s.position) ∧ R.stmt s.item

/-- A value may be called if it is a function that a program defined. -/
def value : Value → Prop
  | .function _ _ params body => R.function params body
  | _ => True

/-- The values of names are allowed. -/
def bindings (b : Bindings) : Prop :=
  ∀ e ∈ b, R.value e.2

/-- The values of names of a call are allowed. -/
def scope : Scope → Prop
  | .top => True
  | .call names => R.bindings names

/-- The values at top level are allowed, and so is the position of the statement under way. -/
structure Admits (m : Machine) : Prop where
  /-- The values at top level. -/
  globals : R.bindings m.globals
  /-- The position. -/
  position : R.place m.position

/-- A run may stop so. -/
def stop : Stop → Prop
  | .error _ p => R.place p
  | .tooDeep => True
  | .fault f => R.fault f

/-- What a block answers is allowed: a value and the scope behind it. -/
def answer (r : Value × Scope) : Prop :=
  R.value r.1 ∧ R.scope r.2

/-- Parts of what a rule allows are allowed, and it allows the fault of what is only carried. -/
structure Lawful : Prop where
  /-- Operators. -/
  binary : ∀ {op l r}, R.expr (.binary op l r) → R.expr l ∧ R.expr r ∧
    ∀ symbol, op = .unknown symbol → R.fault (.unknownOperator symbol)
  /-- Both sides. -/
  and : ∀ {l r}, R.expr (.and l r) → R.expr l ∧ R.expr r
  /-- Either side. -/
  or : ∀ {l r}, R.expr (.or l r) → R.expr l ∧ R.expr r
  /-- Negation. -/
  not : ∀ {e}, R.expr (.not e) → R.expr e
  /-- Signs. -/
  signed : ∀ {s e}, R.expr (.signed s e) → R.expr e ∧
    ∀ symbol, s = .unknown symbol → R.fault (.unknownOperator symbol)
  /-- Arguments. -/
  call : ∀ {f args}, R.expr (.call f args) → ∀ e ∈ args, R.expr e
  /-- Nodes of no known kind. -/
  foreign : ∀ {tag}, R.expr (.foreign tag) → R.fault (.unknownNode tag)
  /-- Templates that cannot be filled. -/
  template : ∀ t, R.fault (.template t)
  /-- Expressions for their values. -/
  eval : ∀ {e}, R.stmt (.eval e) → R.expr e
  /-- Names that are bound. -/
  assign : ∀ {x op e}, R.stmt (.assign x op e) → R.expr e ∧
    ∀ symbol, op = some (.unknown symbol) → R.fault (.unknownOperator symbol)
  /-- Functions that are defined. -/
  define : ∀ {f params body}, R.stmt (.define f params body) → params.Nodup →
    R.function params body
  /-- Branches. -/
  branch : ∀ {c body otherwise}, R.stmt (.branch c body otherwise) →
    R.expr c ∧ R.block body ∧ ∀ b ∈ otherwise, R.block b
  /-- Functions that are called. -/
  body : ∀ {params body}, R.function params body → R.block body

variable {R}

theorem value_of_isFunction {v : Value} (h : v.isFunction = false) : R.value v := by
  cases v with
  | function => exact absurd h (by simp [Value.isFunction])
  | _ => trivial

theorem bindings_set {b : Bindings} (h : R.bindings b) (x : String) {v : Value}
    (hv : R.value v) : R.bindings (b.set x v) := by
  induction b with
  | nil => exact List.forall_mem_singleton.2 hv
  | cons e rest ih =>
    obtain ⟨he, hrest⟩ := List.forall_mem_cons.1 h
    unfold Bindings.set
    split
    · exact List.forall_mem_cons.2 ⟨hv, hrest⟩
    · exact List.forall_mem_cons.2 ⟨he, ih hrest⟩

theorem value_of_get? {b : Bindings} (h : R.bindings b) {x : String} {v : Value}
    (hx : b.get? x = some v) : R.value v := by
  obtain ⟨front, behind, rfl, -⟩ := List.lookup_eq_some_iff.1 hx
  exact h _ (List.mem_append_right _ List.mem_cons_self)

theorem bindings_zip {params : List String} {args : List Value} (h : ∀ v ∈ args, R.value v) :
    R.bindings (params.zip args) :=
  fun _ he ↦ h _ (List.of_mem_zip he).2

end Rule

/-- An evaluation leaves a machine as a rule allows it; what it answers has a property, and where it
stops, it does so as the rule allows. -/
def Evaluation.Upholds {α : Type} (R : Rule) (x : Evaluation α) (Q : α → Prop) : Prop :=
  ∀ m : Machine, R.Admits m → R.Admits (x.run m).2 ∧
    match (x.run m).1 with
    | .ok a => Q a
    | .error s => R.stop s

namespace Evaluation.Upholds

variable {α β : Type} {R : Rule} {Q : α → Prop} {Q' : β → Prop}

theorem pure {a : α} (h : Q a) : Upholds R (Pure.pure a) Q :=
  fun _ hm ↦ ⟨hm, h⟩

theorem throw {s : Stop} (h : R.stop s) : Upholds R (MonadExcept.throw s) Q :=
  fun _ hm ↦ ⟨hm, h⟩

/-- An error is told of the statement under way. -/
theorem fail (e : RuntimeError) : Upholds R (Evaluation.fail e) Q :=
  fun _ hm ↦ ⟨hm, hm.position⟩

theorem modify {f : Machine → Machine} (h : ∀ m, R.Admits m → R.Admits (f m)) :
    Upholds R (modify f) fun _ ↦ True :=
  fun m hm ↦ ⟨h m hm, trivial⟩

theorem get : Upholds R get R.Admits :=
  fun _ hm ↦ ⟨hm, hm⟩

theorem bind {x : Evaluation α} {f : α → Evaluation β} (hx : x.Upholds R Q)
    (hf : ∀ a, Q a → (f a).Upholds R Q') : (x >>= f).Upholds R Q' := by
  intro m hm
  obtain ⟨hm', hq⟩ := hx m hm
  rcases hrun : x.run m with ⟨s | a, m'⟩
  · rw [run_bind_of_error hrun]
    rw [hrun] at hm' hq
    exact ⟨hm', hq⟩
  · rw [run_bind_of_ok hrun]
    rw [hrun] at hm' hq
    exact hf a hq m' hm'

theorem outOfFrames : Upholds R (outOfFrames : Evaluation α) Q :=
  throw trivial

theorem enter {p : Option Position} (hp : R.place p) :
    Upholds R (Evaluation.enter p) fun _ ↦ True :=
  modify fun _ hm ↦ ⟨hm.globals, hp⟩

theorem remember (found : Option Bool) : Upholds R (Evaluation.remember found) fun _ ↦ True :=
  modify fun _ hm ↦ ⟨hm.globals, hm.position⟩

theorem write (t : Text) : Upholds R (Evaluation.write t) fun _ ↦ True :=
  modify fun _ hm ↦ ⟨hm.globals, hm.position⟩

theorem newNumber : Upholds R Evaluation.newNumber fun _ ↦ True :=
  bind get fun _ _ ↦ bind (modify fun _ hm ↦ ⟨hm.globals, hm.position⟩) fun _ _ ↦ pure trivial

theorem lookUp {scope : Scope} (hs : R.scope scope) (x : String) :
    Upholds R (Evaluation.lookUp scope x) R.value := by
  refine bind get fun m hm ↦ ?_
  have hrest : ∀ v, (m.globals.get? x).or (m.host.builtin? x) = some v →
      R.value v := by
    intro v hv
    rcases Option.or_eq_some_iff.1 hv with hglobal | ⟨-, hbuiltin⟩
    · exact Rule.value_of_get? hm.globals hglobal
    · obtain ⟨f, -, rfl⟩ := Option.map_eq_some_iff.1 hbuiltin
      trivial
  cases scope with
  | top =>
    dsimp only
    split
    · exact pure (hrest _ ‹_›)
    · exact fail _
  | call names =>
    dsimp only
    split
    · rename_i v heq
      rcases Option.or_eq_some_iff.1 heq with hown | ⟨-, hv⟩
      · exact pure (Rule.value_of_get? hs hown)
      · exact pure (hrest v hv)
    · exact fail _

theorem bindName {scope : Scope} (hs : R.scope scope) (x : String) {v : Value} (hv : R.value v) :
    Upholds R (Evaluation.bindName scope x v) R.scope := by
  cases scope with
  | top =>
    exact bind (modify fun m hm ↦ ⟨Rule.bindings_set hm.globals x hv, hm.position⟩) fun _ _ ↦
      pure trivial
  | call names => exact pure (Rule.bindings_set hs x hv)

theorem operate (hR : R.Lawful) {op : Written Operator}
    (hop : ∀ symbol, op = .unknown symbol → R.fault (.unknownOperator symbol)) (a b : Value) :
    Upholds R (Evaluation.operate op a b) R.value := by
  cases op with
  | unknown symbol => exact throw (hop symbol rfl)
  | known op =>
    refine bind (remember _) fun _ _ ↦ ?_
    split
    · rename_i v heq
      exact pure (Rule.value_of_isFunction (Value.isFunction_of_apply heq))
    · exact fail _
    · exact fail _
    · exact fail _
    · exact throw (hR.template _)

theorem signed {s : Written Sign}
    (hs : ∀ symbol, s = .unknown symbol → R.fault (.unknownOperator symbol)) (v : Value) :
    Upholds R (Evaluation.signed s v) R.value := by
  cases s with
  | unknown symbol => exact throw (hs symbol rfl)
  | known s =>
    unfold Evaluation.signed
    dsimp only
    split
    · rename_i w heq
      exact pure (Rule.value_of_isFunction (Value.isFunction_of_sign heq))
    · exact fail _

theorem writeAll (x : String) (texts : List Text) :
    Upholds R (Evaluation.writeAll x texts) fun _ ↦ True := by
  refine bind get fun m _ ↦ bind (write _) fun _ _ ↦ ?_
  split
  · exact pure trivial
  · exact fail _

theorem callBuiltin (x : String) (f : Builtin) {args : List Value} (h : ∀ v ∈ args, R.value v) :
    Upholds R (Evaluation.callBuiltin x f args) R.value := by
  refine bind get fun m _ ↦ bind (remember _) fun _ _ ↦ ?_
  split
  · rename_i v ts heq
    refine bind (writeAll x ts) fun _ _ ↦ pure ?_
    rcases Builtin.mem_or_isFunction_of_call heq with hv | hv
    · exact h v hv
    · exact Rule.value_of_isFunction hv
  · exact fail _

/-- Evaluations in a row. -/
theorem mapM {γ : Type} {f : γ → Evaluation α} {as : List γ} (h : ∀ a ∈ as, (f a).Upholds R Q) :
    (as.mapM f).Upholds R fun bs ↦ ∀ b ∈ bs, Q b := by
  induction as with
  | nil => exact pure (List.forall_mem_nil _)
  | cons a rest ih =>
    obtain ⟨ha, hrest⟩ := List.forall_mem_cons.1 h
    rw [List.mapM_cons]
    exact bind ha fun b hb ↦ bind (ih hrest) fun bs hbs ↦ pure (List.forall_mem_cons.2 ⟨hb, hbs⟩)

/-- Evaluations in a row, each of which goes on from what the last one answered. -/
theorem foldlM {γ : Type} {f : α → γ → Evaluation α} {as : List γ} {a : α} (ha : Q a)
    (h : ∀ c ∈ as, ∀ b, Q b → (f b c).Upholds R Q) : (as.foldlM f a).Upholds R Q := by
  induction as generalizing a with
  | nil => exact pure ha
  | cons c rest ih =>
    obtain ⟨hc, hrest⟩ := List.forall_mem_cons.1 h
    rw [List.foldlM_cons]
    exact bind (hc a ha) fun b hb ↦ ih hb hrest

end Evaluation.Upholds

/-! ### All that a run is made of -/

/-- With so many frames, everything that a rule allows upholds it. -/
structure Rule.UpheldWithin (R : Rule) (n : Nat) : Prop where
  /-- Expressions. -/
  evaluate : ∀ {scope e}, R.scope scope → R.expr e → (evaluate n scope e).Upholds R R.value
  /-- Arguments. -/
  evaluateAll : ∀ {scope es}, R.scope scope → (∀ e ∈ es, R.expr e) →
    (evaluateAll n scope es).Upholds R fun vs ↦ ∀ v ∈ vs, R.value v
  /-- Calls. -/
  callFunction : ∀ name {params body args}, R.function params body → (∀ v ∈ args, R.value v) →
    (callFunction n name params body args).Upholds R R.value
  /-- Blocks. -/
  execBlock : ∀ {scope b}, R.scope scope → R.block b → (execBlock n scope b).Upholds R R.answer
  /-- Statements. -/
  exec : ∀ {scope s}, R.scope scope → R.stmt s → (exec n scope s).Upholds R R.answer

section Steps

variable {R : Rule} (hR : R.Lawful) {n : Nat} (ih : ∀ k < n, R.UpheldWithin k) {scope : Scope}
  (hs : R.scope scope)

include hR ih

theorem upholds_callFunction (name : String) {params : List String} {body : Block}
    {args : List Value} (hf : R.function params body) (ha : ∀ v ∈ args, R.value v) :
    (callFunction n name params body args).Upholds R R.value := by
  unfold callFunction
  split
  · exact .outOfFrames
  · rename_i n
    split
    · exact .fail _
    · have hscope : R.scope (.call (params.zip args)) := Rule.bindings_zip ha
      have hblock := (ih n (Nat.lt_succ_self n)).execBlock hscope (hR.body hf)
      exact .bind .get fun m hm ↦ .bind hblock fun r hr ↦
        .bind (.enter hm.position) fun _ _ ↦ .pure hr.1

include hs

theorem upholds_evaluate {e : Expr} (he : R.expr e) :
    (evaluate n scope e).Upholds R R.value := by
  unfold evaluate
  split
  · exact .outOfFrames
  · split
    · exact .throw (hR.foreign he)
    · exact .outOfFrames
  · rename_i n
    have ih := ih n (by omega)
    cases e with
    | literal v => exact .pure (by cases v <;> trivial)
    | name x => exact .lookUp hs x
    | binary op l r =>
      obtain ⟨hl, hr, hop⟩ := hR.binary he
      exact .bind (ih.evaluate hs hl) fun a _ ↦ .bind (ih.evaluate hs hr) fun b _ ↦
        .operate hR hop a b
    | and l r =>
      obtain ⟨hl, hr⟩ := hR.and he
      refine .bind (ih.evaluate hs hl) fun a ha ↦ ?_
      split
      · exact ih.evaluate hs hr
      · exact .pure ha
    | or l r =>
      obtain ⟨hl, hr⟩ := hR.or he
      refine .bind (ih.evaluate hs hl) fun a ha ↦ ?_
      split
      · exact .pure ha
      · exact ih.evaluate hs hr
    | not e => exact .bind (ih.evaluate hs (hR.not he)) fun a _ ↦ .pure trivial
    | signed s e =>
      obtain ⟨he, hsign⟩ := hR.signed he
      exact .bind (ih.evaluate hs he) fun a _ ↦ .signed hsign a
    | call f args =>
      refine .bind (.lookUp hs f) fun callee hcallee ↦
        .bind (ih.evaluateAll hs (hR.call he)) fun values hvalues ↦ ?_
      split
      · exact ih.callFunction _ hcallee hvalues
      · exact .callBuiltin f _ hvalues
      · exact .fail _
    | foreign tag => exact .throw (hR.foreign he)

omit hR in
theorem upholds_execBlock {b : Block} (hb : R.block b) :
    (execBlock n scope b).Upholds R R.answer := by
  unfold execBlock
  split
  · exact .outOfFrames
  · rename_i n
    refine .foldlM (Q := R.answer) ⟨trivial, hs⟩ fun s hmem state hstate ↦ ?_
    obtain ⟨hplace, hstmt⟩ := hb s hmem
    exact .bind (.enter hplace) fun _ _ ↦ (ih n (Nat.lt_succ_self n)).exec hstate.2 hstmt

theorem upholds_assign {x : String} {op : Option (Written Operator)} {e : Expr}
    (h : R.stmt (.assign x op e)) : (assign n scope x op e).Upholds R R.answer := by
  unfold assign
  split
  · exact .outOfFrames
  · rename_i n
    obtain ⟨he, hop⟩ := hR.assign h
    have hvalue := (ih n (Nat.lt_succ_self n)).evaluate hs he
    have bound (v : Value) (hv : R.value v) :
        (do return (v, ← Evaluation.bindName scope x v) : Evaluation (Value × Scope)).Upholds R
          R.answer :=
      .bind (.bindName hs x hv) fun s hs ↦ .pure ⟨hv, hs⟩
    cases op with
    | none => exact .bind hvalue fun v hv ↦ .bind (.pure hv) bound
    | some op =>
      exact .bind hvalue fun v _ ↦ .bind (.lookUp hs x) fun old _ ↦
        .bind (.operate hR (fun symbol heq ↦ hop symbol (congrArg some heq)) old v) bound

theorem upholds_branch {c : Expr} {body : Block} {otherwise : Option Block}
    (h : R.stmt (.branch c body otherwise)) :
    (branch n scope c body otherwise).Upholds R R.answer := by
  unfold branch
  split
  · exact .outOfFrames
  · rename_i n
    have ih := ih n (Nat.lt_succ_self n)
    obtain ⟨hc, hbody, hother⟩ := hR.branch h
    refine .bind (ih.evaluate hs hc) fun v _ ↦ ?_
    split
    · exact ih.execBlock hs hbody
    · cases otherwise with
      | none => exact .pure ⟨trivial, hs⟩
      | some other => exact ih.execBlock hs (hother other rfl)

theorem upholds_exec {s : Stmt} (h : R.stmt s) : (exec n scope s).Upholds R R.answer := by
  unfold exec
  split
  · exact .outOfFrames
  · rename_i n
    have ih' : ∀ k < n, R.UpheldWithin k := fun k hk ↦ ih k (by omega)
    cases s with
    | eval e =>
      exact .bind ((ih n (Nat.lt_succ_self n)).evaluate hs (hR.eval h)) fun v hv ↦ .pure ⟨hv, hs⟩
    | assign x op e => exact upholds_assign hR ih' hs h
    | define f params body =>
      dsimp only
      split
      · exact .outOfFrames
      · split
        · rename_i hparams
          have hv (number : Nat) : R.value (.function number f params body) :=
            hR.define h hparams
          exact .bind .newNumber fun number _ ↦ .bind (.bindName hs f (hv number)) fun s hs ↦
            .pure ⟨hv number, hs⟩
        · exact .fail _
    | branch c body otherwise => exact upholds_branch hR ih' hs h

end Steps

/-- Everything that a lawful rule allows upholds it, whatever the frames. -/
theorem Rule.Lawful.upheldWithin {R : Rule} (hR : R.Lawful) (n : Nat) : R.UpheldWithin n := by
  induction n using Nat.strongRecOn with
  | ind n ih =>
    refine ⟨fun hs h ↦ upholds_evaluate hR ih hs h, fun {scope es} hs h ↦ ?_,
      upholds_callFunction hR ih, fun hs h ↦ upholds_execBlock ih hs h,
      fun hs h ↦ upholds_exec hR ih hs h⟩
    unfold Sangria.evaluateAll
    split
    · exact .outOfFrames
    · rename_i n
      exact .mapM fun e he ↦ (ih n (Nat.lt_succ_self n)).evaluate hs (h e he)

/-- A run of what a rule allows, on a machine that it allows, leaves such a machine and stops as the
rule allows. -/
theorem Rule.Lawful.runWithin {R : Rule} (hR : R.Lawful) (n : Nat) {m : Machine} {program : Block}
    (hm : R.Admits m) (hprogram : R.block program) :
    R.Admits (m.runWithin n program).2 ∧ match (m.runWithin n program).1 with
      | .ok v => R.value v
      | .error (.reported d) => d.phase = .runtime ∧ R.place d.position
      | .error (.fault f) => R.fault f := by
  have htop : R.scope .top := trivial
  obtain ⟨hm', hq⟩ := (hR.upheldWithin n).execBlock htop hprogram m hm
  unfold Machine.runWithin
  rcases hrun : (Sangria.execBlock n .top program).run m with ⟨s | ⟨v, scope⟩, m'⟩
  · rw [hrun] at hm' hq
    cases s with
    | error e p => exact ⟨hm', rfl, hq⟩
    | tooDeep => exact ⟨hm', rfl, hm'.position⟩
    | fault f => exact ⟨hm', hq⟩
  · rw [hrun] at hm' hq
    exact ⟨hm', hq.1⟩

end Sangria
