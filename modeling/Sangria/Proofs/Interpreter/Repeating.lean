import Sangria.Proofs.Interpreter.Agreement

/-!
# Runs that are repeated elsewhere

What was written and where a machine stands decide nothing. Carried out again on a machine of the
same host that has the same names at top level, an expression or a statement has the same answer
and writes the same texts (`repeatsWithin`); if it stops, then for the same reason, and only the
position that this is told of may be another, which is the one before the run if no statement was
reached in it.

As in `Evaluation.AgreeOn`, two runs are compared on two machines at once. Here the same is carried
out on both, down to the positions in it, so the answers are the same and nothing is asked of the
values that are come by.
-/

namespace Sangria

/-! ### Machines -/

/-- Two machines of one host have the same names at top level, have defined as many functions, and
have found the same with the last check of a range. -/
structure Machine.Akin (m m' : Machine) : Prop where
  /-- The names are the same. -/
  globals : m.globals = m'.globals
  /-- As many functions were defined. -/
  defined : m.defined = m'.defined
  /-- The last check found the same. -/
  outOfRange : m.outOfRange = m'.outOfRange
  /-- The same is given to them. -/
  host : m.host = m'.host

/-- From two machines, runs have come to the same answer, or to a stop for the same reason, and have
written the same texts. The machines behind them are akin. -/
structure Machine.SameEnds {α : Type} (m m' : Machine) (end₁ end₂ : Except Stop α × Machine) :
    Prop where
  /-- The answer is the same. -/
  answer : end₁.1.mapError Stop.unplaced = end₂.1.mapError Stop.unplaced
  /-- The machines are akin. -/
  akin : end₁.2.Akin end₂.2
  /-- The same texts were written. -/
  written : ∃ new, end₁.2.written = new ++ m.written ∧ end₂.2.written = new ++ m'.written

/-- Behind first parts that have come to the same, both runs go on with the same value. -/
theorem Machine.SameEnds.bind {α β : Type} {m m' : Machine} {x y : Evaluation α}
    {f g : α → Evaluation β} (h : m.SameEnds m' (x.run m) (y.run m'))
    (hf : ∀ a (k k' : Machine), k.Akin k' → k.SameEnds k' ((f a).run k) ((g a).run k')) :
    m.SameEnds m' ((x >>= f).run m) ((y >>= g).run m') := by
  rw [Evaluation.run_bind, Evaluation.run_bind]
  rcases hx : x.run m with ⟨s | a, k⟩ <;> rcases hy : y.run m' with ⟨s' | a', k'⟩ <;>
    rw [hx, hy] at h
  · exact ⟨congrArg Except.error (Except.error.inj h.answer), h.akin, h.written⟩
  · exact nomatch h.answer
  · exact nomatch h.answer
  · obtain rfl : a = a' := Except.ok.inj h.answer
    obtain ⟨new, hwritten, hwritten'⟩ := h.written
    obtain ⟨hanswer, hakin, later, hlater, hlater'⟩ := hf a k k' h.akin
    refine ⟨hanswer, hakin, later ++ new, ?_, ?_⟩
    · rw [List.append_assoc, ← hwritten]
      exact hlater
    · rw [List.append_assoc, ← hwritten']
      exact hlater'

/-- What depends on the machines is carried out on them. -/
theorem Machine.SameEnds.get_bind {α : Type} {m m' : Machine} {f g : Machine → Evaluation α}
    (h : m.SameEnds m' ((f m).run m) ((g m').run m')) :
    m.SameEnds m' ((get >>= f).run m) ((get >>= g).run m') :=
  h

/-! ### Evaluations -/

/-- On any two machines that are akin, an evaluation comes to the same. -/
def Evaluation.Repeats {α : Type} (x : Evaluation α) : Prop :=
  ∀ m m' : Machine, m.Akin m' → m.SameEnds m' (x.run m) (x.run m')

namespace Evaluation.Repeats

variable {α β γ : Type}

theorem bind {x : Evaluation α} {f : α → Evaluation β} (h : x.Repeats) (hf : ∀ a, (f a).Repeats) :
    (x >>= f).Repeats :=
  fun m m' hm ↦ (h m m' hm).bind fun a ↦ hf a

theorem pure (a : α) : (Pure.pure a : Evaluation α).Repeats :=
  fun _ _ hm ↦ ⟨rfl, hm, [], rfl, rfl⟩

theorem throw (s : Stop) : (MonadExcept.throw s : Evaluation α).Repeats :=
  fun _ _ hm ↦ ⟨rfl, hm, [], rfl, rfl⟩

/-- An error is told of where the machine stands. -/
theorem fail (e : RuntimeError) : (Evaluation.fail e : Evaluation α).Repeats :=
  fun _ _ hm ↦ ⟨rfl, hm, [], rfl, rfl⟩

theorem outOfFrames : (Sangria.outOfFrames : Evaluation α).Repeats :=
  throw .tooDeep

theorem enter (p : Option Position) : (Evaluation.enter p).Repeats :=
  fun _ _ hm ↦ ⟨rfl, { hm with }, [], rfl, rfl⟩

theorem remember (found : Option Bool) : (Evaluation.remember found).Repeats :=
  fun _ _ hm ↦ ⟨rfl, { hm with outOfRange := congrArg found.getD hm.outOfRange }, [], rfl, rfl⟩

theorem write (t : Text) : (Evaluation.write t).Repeats :=
  fun _ _ hm ↦ ⟨rfl, { hm with }, [t], rfl, rfl⟩

theorem writeAll (x : String) (texts : List Text) : (Evaluation.writeAll x texts).Repeats := by
  intro m m' hm
  refine .get_bind ?_
  rw [hm.host]
  refine (write _ m m' hm).bind fun _ k k' hk ↦ ?_
  split
  · exact pure () k k' hk
  · exact fail _ k k' hk

theorem newNumber : Evaluation.newNumber.Repeats :=
  fun _ _ hm ↦ ⟨congrArg Except.ok hm.defined,
    { hm with defined := congrArg (· + 1) hm.defined }, [], rfl, rfl⟩

theorem bindName (scope : Scope) (x : String) (v : Value) :
    (Evaluation.bindName scope x v).Repeats := by
  cases scope with
  | top =>
    intro m m' hm
    exact ⟨rfl, { hm with globals := congrArg (Bindings.set · x v) hm.globals }, [], rfl, rfl⟩
  | call names => exact pure _

theorem lookUp (scope : Scope) (x : String) : (Evaluation.lookUp scope x).Repeats := by
  intro m m' hm
  have hfound : m.found? scope x = m'.found? scope x := by
    rw [Machine.found?, Machine.found?, hm.globals, hm.host]
  rw [run_lookUp, run_lookUp, hfound]
  cases m'.found? scope x with
  | some v => exact pure v m m' hm
  | none => exact fail (.unbound x) m m' hm

theorem operate (op : Written Operator) (a b : Value) : (Evaluation.operate op a b).Repeats := by
  cases op with
  | unknown symbol => exact throw _
  | known op =>
    refine bind (remember _) fun _ ↦ ?_
    split
    · exact pure _
    · exact fail _
    · exact fail _
    · exact fail _
    · exact throw _

theorem signed (s : Written Sign) (v : Value) : (Evaluation.signed s v).Repeats := by
  cases s with
  | unknown symbol => exact throw _
  | known s =>
    unfold Evaluation.signed
    dsimp only
    split
    · exact pure _
    · exact fail _

/-- A built-in function looks at the last check of a range and at the stream that it writes on, and
at nothing else of a machine. -/
theorem callBuiltin (x : String) (f : Builtin) (args : List Value) :
    (Evaluation.callBuiltin x f args).Repeats := by
  intro m m' hm
  refine .get_bind ((remember _ m m' hm).bind fun _ k k' hk ↦ ?_)
  rw [hm.outOfRange]
  split
  · exact bind (writeAll x _) (fun _ ↦ pure _) k k' hk
  · exact fail _ k k' hk

/-- A call puts the position back, which may be another on each machine. -/
theorem returning {x : Evaluation (Value × Scope)} (h : x.Repeats) :
    Repeats (do
      let caller := (← get).position
      let (v, _) ← x
      Evaluation.enter caller
      return v) := by
  intro m m' hm
  refine .get_bind ((h m m' hm).bind fun _ k k' hk ↦ ?_)
  exact ⟨rfl, { hk with }, [], rfl, rfl⟩

theorem mapM {f : γ → Evaluation α} (h : ∀ c, (f c).Repeats) (cs : List γ) :
    (cs.mapM f).Repeats := by
  induction cs with
  | nil => exact pure []
  | cons c rest ih =>
    rw [List.mapM_cons]
    exact bind (h c) fun a ↦ bind ih fun as ↦ pure (a :: as)

theorem foldlM {f : α → γ → Evaluation α} (h : ∀ a c, (f a c).Repeats) (cs : List γ) (a : α) :
    (cs.foldlM f a).Repeats := by
  induction cs generalizing a with
  | nil => exact pure a
  | cons c rest ih =>
    rw [List.foldlM_cons]
    exact bind (h a c) fun b ↦ ih b

end Evaluation.Repeats

/-! ### All that a run is made of -/

open Evaluation

/-- With so many frames, all that is carried out comes to the same on machines that are akin. -/
structure RepeatsWithin (n : Nat) : Prop where
  /-- Expressions. -/
  evaluate : ∀ scope e, (evaluate n scope e).Repeats
  /-- Arguments. -/
  evaluateAll : ∀ scope es, (evaluateAll n scope es).Repeats
  /-- Calls. -/
  callFunction : ∀ name params body args, (callFunction n name params body args).Repeats
  /-- Blocks. -/
  execBlock : ∀ scope b, (execBlock n scope b).Repeats
  /-- Statements. -/
  exec : ∀ scope s, (exec n scope s).Repeats

section Steps

variable {n : Nat} (ih : ∀ k < n, RepeatsWithin k) (scope : Scope)

include ih

theorem repeats_evaluate (e : Expr) : (evaluate n scope e).Repeats := by
  rcases n with - | - | n
  · exact .outOfFrames
  · cases e with
    | foreign tag => exact .throw _
    | _ => exact .outOfFrames
  · have ih := ih n (by omega)
    cases e with
    | literal v => exact .pure _
    | name x => exact .lookUp scope x
    | binary op l r =>
      rw [evaluate_binary]
      exact .bind (ih.evaluate scope l) fun a ↦ .bind (ih.evaluate scope r) fun b ↦
        .operate op a b
    | and l r =>
      rw [evaluate_and]
      refine .bind (ih.evaluate scope l) fun a ↦ ?_
      split
      · exact ih.evaluate scope r
      · exact .pure a
    | or l r =>
      rw [evaluate_or]
      refine .bind (ih.evaluate scope l) fun a ↦ ?_
      split
      · exact .pure a
      · exact ih.evaluate scope r
    | not e =>
      rw [evaluate_not]
      exact .bind (ih.evaluate scope e) fun a ↦ .pure _
    | signed s e =>
      rw [evaluate_signed]
      exact .bind (ih.evaluate scope e) fun a ↦ .signed s a
    | call f args =>
      rw [evaluate_call]
      refine .bind (.lookUp scope f) fun callee ↦ .bind (ih.evaluateAll scope args) fun values ↦ ?_
      cases callee with
      | function number name params body => exact ih.callFunction name params body values
      | builtin b => exact .callBuiltin f b values
      | _ => exact .fail _
    | foreign tag => exact .throw _

theorem repeats_evaluateAll (es : List Expr) : (evaluateAll n scope es).Repeats := by
  rcases n with - | n
  · exact .outOfFrames
  · rw [evaluateAll_succ]
    exact .mapM (fun e ↦ (ih n (Nat.lt_succ_self n)).evaluate scope e) es

theorem repeats_execBlock (b : Block) : (execBlock n scope b).Repeats := by
  rcases n with - | n
  · exact .outOfFrames
  · rw [execBlock_succ]
    exact .foldlM (fun state s ↦ .bind (.enter _) fun _ ↦
      (ih n (Nat.lt_succ_self n)).exec state.2 s.item) b _

theorem repeats_exec (s : Stmt) : (exec n scope s).Repeats := by
  rcases n with - | n
  · exact .outOfFrames
  · cases s with
    | eval e =>
      rw [exec_eval]
      exact .bind ((ih n (Nat.lt_succ_self n)).evaluate scope e) fun v ↦ .pure _
    | assign x op e =>
      rcases n with - | n
      · exact .outOfFrames
      · rw [exec_assign]
        refine .bind ((ih n (by omega)).evaluate scope e) fun v ↦ ?_
        have hbound (w : Value) : Repeats (do return (w, ← bindName scope x w)) :=
          .bind (.bindName scope x w) fun _ ↦ .pure _
        cases op with
        | none => exact hbound v
        | some op => exact .bind (.lookUp scope x) fun old ↦ .bind (.operate op old v) hbound
    | define f params body =>
      rcases n with - | n
      · exact .outOfFrames
      · rw [exec_define]
        split
        · exact .bind .newNumber fun number ↦ .bind (.bindName scope f _) fun _ ↦ .pure _
        · exact .fail _
    | branch c body otherwise =>
      rcases n with - | n
      · exact .outOfFrames
      · rw [exec_branch]
        have ih := ih n (by omega)
        refine .bind (ih.evaluate scope c) fun v ↦ ?_
        split
        · exact ih.execBlock scope body
        · cases otherwise with
          | some other => exact ih.execBlock scope other
          | none => exact .pure _

omit scope

theorem repeats_callFunction (name : String) (params : List String) (body : Block)
    (args : List Value) : (callFunction n name params body args).Repeats := by
  rcases n with - | n
  · exact .outOfFrames
  · rw [callFunction_succ]
    split
    · exact .fail _
    · exact .returning ((ih n (Nat.lt_succ_self n)).execBlock _ body)

end Steps

/-- All that is carried out comes to the same on machines that are akin, whatever the frames. -/
theorem repeatsWithin (n : Nat) : RepeatsWithin n := by
  induction n using Nat.strongRecOn with
  | ind n ih =>
    exact ⟨repeats_evaluate ih, repeats_evaluateAll ih, repeats_callFunction ih,
      repeats_execBlock ih, repeats_exec ih⟩

end Sangria
