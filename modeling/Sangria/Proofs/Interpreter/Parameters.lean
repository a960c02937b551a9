import Sangria.Proofs.Interpreter.Reaching
import Sangria.Proofs.Interpreter.Upholding

/-!
# The parameters of functions

No function has two parameters of one name: a definition that repeats one fails, and there is no
other way for a function to come about. So whatever programs a machine has carried out, to their end
or not, and wherever it is in the next one, all functions that are bound at top level or in a call
under way, and all that something comes to, have distinct parameters. Hence binding the parameters
of a call to its arguments one after the other loses none of them: the call starts with each
parameter bound to the argument in its place, and with no other name (`functions_bind_arguments`).

## What each part rests on

* That a function has distinct parameters is a rule (`Rule.distinctParams`) which a definition
  guards. `Rule.Lawful.of_comesTo` carries a rule along everything that a run comes to, one step at
  a time.
* Names that are bound one after the other are looked up as pairs if no name comes twice
  (`Bindings.ofPairs_eq`).
-/

namespace Sangria

/-! ### Rules along a run -/

/-- What an evaluation answers has the property it is to have, and the machine is allowed. -/
theorem Evaluation.Upholds.of_run {α : Type} {R : Rule} {Q : α → Prop} {x : Evaluation α}
    (h : x.Upholds R Q) {m m' : Machine} (hm : R.Admits m) {a : α} (hrun : x.run m = (.ok a, m')) :
    R.Admits m' ∧ Q a := by
  have h := h m hm
  rwa [hrun] at h

/-- Carrying out the next statement of a block upholds a rule that allows it. -/
theorem Rule.Lawful.upholds_execNext {R : Rule} (hR : R.Lawful) (n : Nat) {state : Value × Scope}
    {s : Located Stmt} (hplace : R.place (some s.position)) (hs : R.scope state.2)
    (h : R.stmt s.item) : (execNext n state s).Upholds R R.answer :=
  .bind (.enter hplace) fun _ _ ↦ (hR.upheldWithin n).exec hs h

/-- The names of the call under way. -/
def Scope.locals : Scope → Bindings
  | top => []
  | call names => names

namespace Task

/-- The names of the call under way where a task is carried out. -/
def locals : Task → Bindings
  | expr _ scope _ | args _ scope _ | stmt _ scope _ | statements _ (_, scope) _ => scope.locals
  | call .. => []

/-- A task on a machine answers a value, or several with this one among them. -/
def Answers (m : Machine) (v : Value) : Task → Prop
  | expr n scope e => ((evaluate n scope e).run m).1 = .ok v
  | args n scope es => ∃ vs, ((es.mapM fun e ↦ evaluate n scope e).run m).1 = .ok vs ∧ v ∈ vs
  | call n name params body values =>
    ((callFunction n name params body values).run m).1 = .ok v
  | statements n state b => ∃ scope, ((b.foldlM (execNext n) state).run m).1 = .ok (v, scope)
  | stmt n scope s => ∃ scope', ((exec n scope s).run m).1 = .ok (v, scope')

end Task

namespace Rule

/-- A rule allows a task: what is carried out, and the values that it is carried out with. -/
def task (R : Rule) : Task → Prop
  | .expr _ scope e => R.scope scope ∧ R.expr e
  | .args _ scope es => R.scope scope ∧ ∀ e ∈ es, R.expr e
  | .call _ _ params body values => R.function params body ∧ ∀ v ∈ values, R.value v
  | .statements _ state b => R.answer state ∧ R.block b
  | .stmt _ scope s => R.scope scope ∧ R.stmt s

variable {R : Rule} {t t' : Task} {m m' : Machine}

/-- What a task leads to is allowed if the task is. -/
theorem Lawful.of_step (hR : R.Lawful) (h : Task.Step t m t' m') (hm : R.Admits m)
    (ht : R.task t) : R.Admits m' ∧ R.task t' := by
  have evaluated {n : Nat} {scope : Scope} {e : Expr} {v : Value} {m' : Machine}
      (hs : R.scope scope) (he : R.expr e) (hrun : (evaluate n scope e).run m = (.ok v, m')) :
      R.Admits m' :=
    (((hR.upheldWithin n).evaluate hs he).of_run hm hrun).1
  cases h with
  | left =>
    obtain ⟨hs, he⟩ := ht
    exact ⟨hm, hs, (hR.binary he).1⟩
  | right hl =>
    obtain ⟨hs, he⟩ := ht
    exact ⟨evaluated hs (hR.binary he).1 hl, hs, (hR.binary he).2.1⟩
  | andLeft =>
    obtain ⟨hs, he⟩ := ht
    exact ⟨hm, hs, (hR.and he).1⟩
  | andRight hl =>
    obtain ⟨hs, he⟩ := ht
    exact ⟨evaluated hs (hR.and he).1 hl, hs, (hR.and he).2⟩
  | orLeft =>
    obtain ⟨hs, he⟩ := ht
    exact ⟨hm, hs, (hR.or he).1⟩
  | orRight hl =>
    obtain ⟨hs, he⟩ := ht
    exact ⟨evaluated hs (hR.or he).1 hl, hs, (hR.or he).2⟩
  | not =>
    obtain ⟨hs, he⟩ := ht
    exact ⟨hm, hs, hR.not he⟩
  | signed =>
    obtain ⟨hs, he⟩ := ht
    exact ⟨hm, hs, (hR.signed he).1⟩
  | arguments =>
    obtain ⟨hs, he⟩ := ht
    exact ⟨hm, hs, hR.call he⟩
  | called hfound hvalues =>
    obtain ⟨hs, he⟩ := ht
    have hcallee := (Evaluation.Upholds.lookUp hs _).of_run hm hfound
    have harguments := ((hR.upheldWithin _).evaluateAll hs (hR.call he)).of_run hm hvalues
    exact ⟨harguments.1, hcallee.2, harguments.2⟩
  | firstArg =>
    obtain ⟨hs, hes⟩ := ht
    exact ⟨hm, hs, hes _ List.mem_cons_self⟩
  | nextArg hfirst =>
    obtain ⟨hs, hes⟩ := ht
    obtain ⟨he, hrest⟩ := List.forall_mem_cons.1 hes
    exact ⟨evaluated hs he hfirst, hs, hrest⟩
  | body =>
    obtain ⟨hf, hvalues⟩ := ht
    exact ⟨hm, ⟨trivial, Rule.bindings_zip hvalues⟩, hR.body hf⟩
  | firstStatement =>
    obtain ⟨hstate, hb⟩ := ht
    obtain ⟨hplace, hstmt⟩ := hb _ List.mem_cons_self
    exact ⟨⟨hm.globals, hplace⟩, hstate.2, hstmt⟩
  | nextStatement hfirst =>
    obtain ⟨hstate, hb⟩ := ht
    obtain ⟨⟨hplace, hstmt⟩, hrest⟩ := List.forall_mem_cons.1 hb
    obtain ⟨hm', hstate'⟩ := (hR.upholds_execNext _ hplace hstate.2 hstmt).of_run hm hfirst
    exact ⟨hm', hstate', hrest⟩
  | eval =>
    obtain ⟨hs, h⟩ := ht
    exact ⟨hm, hs, hR.eval h⟩
  | bound =>
    obtain ⟨hs, h⟩ := ht
    exact ⟨hm, hs, (hR.assign h).1⟩
  | condition =>
    obtain ⟨hs, h⟩ := ht
    exact ⟨hm, hs, (hR.branch h).1⟩
  | holds hc =>
    obtain ⟨hs, h⟩ := ht
    exact ⟨evaluated hs (hR.branch h).1 hc, ⟨trivial, hs⟩, (hR.branch h).2.1⟩
  | otherwise hc =>
    obtain ⟨hs, h⟩ := ht
    exact ⟨evaluated hs (hR.branch h).1 hc, ⟨trivial, hs⟩, (hR.branch h).2.2 _ rfl⟩

/-- Everything that a task comes to is allowed if the task is. -/
theorem Lawful.of_comesTo (hR : R.Lawful) (h : Task.ComesTo t m t' m') (hm : R.Admits m)
    (ht : R.task t) : R.Admits m' ∧ R.task t' := by
  induction h with
  | refl => exact ⟨hm, ht⟩
  | step hstep _ ih =>
    obtain ⟨hm', ht'⟩ := hR.of_step hstep hm ht
    exact ih hm' ht'

/-- What an allowed task answers is allowed. -/
theorem Lawful.of_answers (hR : R.Lawful) (hm : R.Admits m) (ht : R.task t) {v : Value}
    (h : t.Answers m v) : R.value v := by
  have answered {α : Type} {x : Evaluation α} {Q : α → Prop} {a : α} (hx : x.Upholds R Q)
      (ha : (x.run m).1 = .ok a) : Q a :=
    (hx.of_run hm (Prod.ext ha rfl)).2
  cases t with
  | expr n scope e => exact answered ((hR.upheldWithin n).evaluate ht.1 ht.2) h
  | args n scope es =>
    obtain ⟨vs, hvs, hv⟩ := h
    exact answered (.mapM fun e he ↦ (hR.upheldWithin n).evaluate ht.1 (ht.2 e he)) hvs v hv
  | call n name params body values =>
    exact answered ((hR.upheldWithin n).callFunction name ht.1 ht.2) h
  | statements n state b =>
    obtain ⟨scope, h⟩ := h
    have hb : (b.foldlM (execNext n) state).Upholds R R.answer :=
      .foldlM ht.1 fun s hs state hstate ↦
        hR.upholds_execNext n (ht.2 s hs).1 hstate.2 (ht.2 s hs).2
    exact (answered hb h).1
  | stmt n scope s =>
    obtain ⟨scope', h⟩ := h
    exact (answered ((hR.upheldWithin n).exec ht.1 ht.2) h).1

/-- The names of an allowed task have values that are allowed. -/
theorem bindings_locals (ht : R.task t) : R.bindings t.locals := by
  have of_scope {scope : Scope} (hs : R.scope scope) : R.bindings scope.locals := by
    cases scope with
    | top => exact List.forall_mem_nil _
    | call names => exact hs
  cases t with
  | expr n scope e => exact of_scope ht.1
  | args n scope es => exact of_scope ht.1
  | call => exact List.forall_mem_nil _
  | statements n state b => exact of_scope ht.1.2
  | stmt n scope s => exact of_scope ht.1

end Rule

/-! ### Names bound one after the other -/

namespace Bindings

/-- The names that are bound when those of some pairs are bound one after the other, a later value
in place of an earlier one. -/
def ofPairs (pairs : List (String × Value)) : Bindings :=
  pairs.foldl (fun b e ↦ b.set e.1 e.2) []

/-- A name that is not bound yet is bound behind the others. -/
theorem set_of_not_mem {b : Bindings} {x : String} (h : x ∉ b.map Prod.fst) (v : Value) :
    b.set x v = b ++ [(x, v)] := by
  induction b with
  | nil => rfl
  | cons e rest ih =>
    rw [List.map_cons, List.mem_cons, not_or] at h
    rw [set, if_neg (Ne.symm h.1), ih h.2, List.cons_append]

/-- Binding names one after the other keeps all pairs if no name comes twice. -/
theorem ofPairs_eq {pairs : List (String × Value)} (h : (pairs.map Prod.fst).Nodup) :
    ofPairs pairs = pairs := by
  have append (b : Bindings) (hb : ((b ++ pairs).map Prod.fst).Nodup) :
      pairs.foldl (fun b e ↦ b.set e.1 e.2) b = b ++ pairs := by
    clear h
    induction pairs generalizing b with
    | nil => exact (List.append_nil b).symm
    | cons e rest ih =>
      have hnew : e.1 ∉ b.map Prod.fst := by
        rw [List.map_append, List.map_cons] at hb
        exact fun hmem ↦ (List.nodup_append.1 hb).2.2 _ hmem _ List.mem_cons_self rfl
      rw [List.foldl_cons, set_of_not_mem hnew, ih _ (by rwa [List.append_assoc]),
        List.append_assoc, List.singleton_append]
  exact append [] h

/-- Distinct names that are paired with values have the values in their places. -/
theorem get?_zip {params : List String} (h : params.Nodup) (values : List Value) {i : Nat}
    (hi : i < params.length) : get? (params.zip values) params[i] = values[i]? := by
  induction params generalizing values i with
  | nil => exact absurd hi (Nat.not_lt_zero _)
  | cons x rest ih =>
    obtain ⟨hx, hrest⟩ := List.nodup_cons.1 h
    cases values with
    | nil => rfl
    | cons v values =>
      rw [List.zip_cons_cons, get?, List.lookup_cons]
      cases i with
      | zero => simp
      | succ i =>
        have hi : i < rest.length := Nat.lt_of_succ_lt_succ hi
        have hne : rest[i] ≠ x := fun heq ↦ hx (heq ▸ List.getElem_mem hi)
        rw [List.getElem_cons_succ, List.getElem?_cons_succ, beq_false_of_ne hne]
        exact ih hrest values hi

/-- Names that are paired with values are all that is bound. -/
theorem get?_zip_of_not_mem {params : List String} {x : String} (h : x ∉ params)
    (values : List Value) : get? (params.zip values) x = none :=
  List.lookup_eq_none_iff.2 fun _ he ↦
    bne_iff_ne.2 fun heq ↦ h (heq ▸ (List.of_mem_zip he).1)

end Bindings

/-! ### Distinct parameters -/

/-- A function has distinct parameters. -/
def Value.DistinctParams : Value → Prop
  | .function _ _ params _ => params.Nodup
  | _ => True

/-- All functions that are bound have distinct parameters. -/
def Bindings.DistinctParams (b : Bindings) : Prop :=
  ∀ e ∈ b, e.2.DistinctParams

/-- A machine in a session: programs were carried out on it one after the other, whatever trees they
are, each with any number of frames, to its end or not. What the last check of a range found before
a program may have come from anywhere. -/
inductive Machine.InSession : Machine → Prop
  /-- Before anything was carried out. -/
  | initial (host : Host) : InSession (.initial host)
  /-- A check of a range was made. -/
  | checked {m : Machine} (before : InSession m) (failed : Bool) :
      InSession { m with outOfRange := failed }
  /-- A program was carried out. -/
  | run {m : Machine} (before : InSession m) (frames : Nat) (program : Block) :
      InSession (m.runWithin frames program).2

namespace Rule

/-- Functions have distinct parameters; anything else is allowed. -/
def distinctParams : Rule where
  expr _ := True
  stmt _ := True
  place _ := True
  function params _ := params.Nodup
  fault _ := True

theorem block_distinctParams (b : Block) : distinctParams.block b :=
  fun _ _ ↦ ⟨trivial, trivial⟩

/-- A definition is carried out only if it repeats no parameter. -/
theorem lawful_distinctParams : distinctParams.Lawful where
  binary _ := ⟨trivial, trivial, fun _ _ ↦ trivial⟩
  and _ := ⟨trivial, trivial⟩
  or _ := ⟨trivial, trivial⟩
  not _ := trivial
  signed _ := ⟨trivial, fun _ _ ↦ trivial⟩
  call _ _ _ := trivial
  foreign _ := trivial
  template _ := trivial
  eval _ := trivial
  assign _ := ⟨trivial, fun _ _ ↦ trivial⟩
  define _ h := h
  branch _ := ⟨trivial, block_distinctParams _, fun b _ ↦ block_distinctParams b⟩
  body _ := block_distinctParams _

theorem value_distinctParams_iff {v : Value} : distinctParams.value v ↔ v.DistinctParams := by
  cases v <;> exact Iff.rfl

theorem bindings_distinctParams_iff {b : Bindings} :
    distinctParams.bindings b ↔ b.DistinctParams :=
  forall₂_congr fun _ _ ↦ value_distinctParams_iff

end Rule

theorem Machine.InSession.admits {m : Machine} (h : m.InSession) :
    Rule.distinctParams.Admits m := by
  induction h with
  | initial _ => exact ⟨List.forall_mem_nil _, trivial⟩
  | checked _ _ ih => exact ⟨ih.globals, trivial⟩
  | run _ n program ih =>
    exact (Rule.lawful_distinctParams.runWithin n ih (Rule.block_distinctParams program)).1

/-- Whatever programs a machine has carried out, a run of any program on it comes to functions with
distinct parameters only:

* such are those that are bound at top level before and behind the run, and the value of the run if
  it is a function;
* wherever the run comes to, such are those that are bound at top level and in the call under way,
  and what is carried out there answers no others;
* so a call with as many arguments as parameters starts with the names that come about when the
  parameters are bound to the arguments one after the other: each parameter has the argument in its
  place, and no other name is bound. -/
theorem functions_bind_arguments {m : Machine} (h : m.InSession) (n : Nat) (program : Block) :
    (m.globals.DistinctParams ∧ (m.runWithin (n + 1) program).2.globals.DistinctParams ∧
      ∀ v, (m.runWithin (n + 1) program).1 = .ok v → v.DistinctParams) ∧
    (∀ t m', Task.ComesTo (.statements n (.none, .top) program) m t m' →
      m'.globals.DistinctParams ∧ t.locals.DistinctParams ∧
        ∀ v, t.Answers m' v → v.DistinctParams) ∧
    ∀ k name params body values m',
      Task.ComesTo (.statements n (.none, .top) program) m
        (.call (k + 1) name params body values) m' →
      values.length = params.length →
      let names := Bindings.ofPairs (params.zip values)
      callFunction (k + 1) name params body values = (do
          let caller := (← get).position
          let (v, _) ← execBlock k (.call names) body
          Evaluation.enter caller
          return v) ∧
        (∀ i (hi : i < params.length), names.get? params[i] = values[i]?) ∧
        ∀ x, x ∉ params → names.get? x = none := by
  have hm := h.admits
  have hlawful := Rule.lawful_distinctParams
  have hprogram := Rule.block_distinctParams program
  have hstart : Rule.distinctParams.task (.statements n (.none, .top) program) :=
    ⟨⟨trivial, trivial⟩, hprogram⟩
  refine ⟨⟨Rule.bindings_distinctParams_iff.1 hm.globals, ?_, fun v hv ↦ ?_⟩,
    fun t m' hcomes ↦ ?_, fun k name params body values m' hcomes harity ↦ ?_⟩
  · exact Rule.bindings_distinctParams_iff.1 (h.run (n + 1) program).admits.globals
  · have hends := (hlawful.runWithin (n + 1) hm hprogram).2
    rw [hv] at hends
    exact Rule.value_distinctParams_iff.1 hends
  · obtain ⟨hm', ht⟩ := hlawful.of_comesTo hcomes hm hstart
    exact ⟨Rule.bindings_distinctParams_iff.1 hm'.globals,
      Rule.bindings_distinctParams_iff.1 (Rule.bindings_locals ht),
      fun v hv ↦ Rule.value_distinctParams_iff.1 (hlawful.of_answers hm' ht hv)⟩
  · obtain ⟨hparams, -⟩ : params.Nodup ∧ _ := (hlawful.of_comesTo hcomes hm hstart).2
    have hkeys : ((params.zip values).map Prod.fst).Nodup := by
      rwa [List.map_fst_zip (Nat.le_of_eq harity.symm)]
    rw [Bindings.ofPairs_eq hkeys, callFunction_succ, if_neg (fun hne ↦ hne harity)]
    exact ⟨rfl, fun i ↦ Bindings.get?_zip hparams values,
      fun x hx ↦ Bindings.get?_zip_of_not_mem hx values⟩

/-- A program that defines a function of two parameters fails behind that; the next one calls the
function. -/
theorem functions_bind_arguments_after_failure :
    let body : Block := [⟨⟨2, 5⟩, .eval (.name "b")⟩]
    let first : Block :=
      [⟨⟨1, 1⟩, .define "f" ["a", "b"] body⟩, ⟨⟨3, 1⟩, .define "g" ["a", "a"] body⟩]
    let second : Block := [⟨⟨1, 1⟩, .eval (.call "f" [.literal (.int 1), .literal (.int 2)])⟩]
    let (ended, m) := Machine.initial.runWithin 20 first
    let names := Bindings.ofPairs (["a", "b"].zip [.int 1, .int 2])
    ended = .error (.reported ((RuntimeError.repeatedParams "g").diagnostic (some ⟨3, 1⟩))) ∧
      m.InSession ∧
      Task.ComesTo (.statements 19 (.none, .top) second) m
        (.call 16 "f" ["a", "b"] body [.int 1, .int 2]) { m with position := some ⟨1, 1⟩ } ∧
      names.get? "a" = some (.int 1) ∧ names.get? "b" = some (.int 2) ∧ names.get? "c" = none := by
  intro body first second
  have hsession : (Machine.initial.runWithin 20 first).2.InSession :=
    .run (.initial .plain) 20 first
  have hcall : Task.ComesTo (.statements 19 (.none, .top) second)
      (Machine.initial.runWithin 20 first).2 (.call 16 "f" ["a", "b"] body [.int 1, .int 2])
      { (Machine.initial.runWithin 20 first).2 with position := some ⟨1, 1⟩ } :=
    .step .firstStatement (.step .eval (.step (.called rfl rfl) .refl))
  obtain ⟨-, hbound, hothers⟩ :=
    (functions_bind_arguments hsession 19 second).2.2 15 "f" ["a", "b"] body [.int 1, .int 2] _
      hcall rfl
  exact ⟨rfl, hsession, hcall, hbound 0 (by decide), hbound 1 (by decide),
    hothers "c" (by decide)⟩

end Sangria
