import Sangria.Proofs.Interpreter.Framing

/-!
# More frames

The number of frames that a run has decides nothing but whether it is cut off. With more of them a
run that was not cut off comes to the same, and one that was goes on from there
(`Machine.runWithin_of_le`).

Both are said of two evaluations at once (`Evaluation.Extends`). An evaluation that is cut off has
written a part of what the other one writes, because whatever the other one does afterwards only
adds to that (`Evaluation.Appends`); and nothing that goes on from an evaluation that is cut off
makes anything else of it.
-/

namespace Sangria

/-- An evaluation only adds to what was written. -/
def Evaluation.Appends {α : Type} (x : Evaluation α) : Prop :=
  ∀ m, m.written <:+ (x.run m).2.written

/-- An evaluation does what another does, or it is cut off where it has written a part of what the
other writes. -/
structure Evaluation.Extends {α : Type} (x y : Evaluation α) : Prop where
  /-- The same, or cut off. -/
  cut : ∀ m, x.run m = y.run m ∨
    ((x.run m).1 = .error .tooDeep ∧ (x.run m).2.written <:+ (y.run m).2.written)
  /-- The other one only adds to what was written. -/
  appends : y.Appends

namespace Evaluation

variable {α β : Type} {x y : Evaluation α}

theorem Quiet.appends (hx : x.Quiet) : x.Appends :=
  fun m ↦ (hx m _ _ rfl).2.1.written

theorem Appends.bind {f : α → Evaluation β} (hx : x.Appends) (hf : ∀ a, (f a).Appends) :
    (x >>= f).Appends := by
  intro m
  have hfirst := hx m
  rw [run_bind]
  rcases h : x.run m with ⟨s | a, m'⟩
  · rwa [h] at hfirst
  · rw [h] at hfirst
    exact hfirst.trans (hf a m')

namespace Extends

theorem refl (hx : x.Appends) : x.Extends x :=
  ⟨fun _ ↦ .inl rfl, hx⟩

theorem of_quiet (hx : x.Quiet) : x.Extends x :=
  refl hx.appends

theorem outOfFrames (hy : y.Appends) : Extends Sangria.outOfFrames y :=
  ⟨fun m ↦ .inr ⟨rfl, hy m⟩, hy⟩

/-- What follows an evaluation that is cut off is not carried out, and what follows the other one
only adds to what that has written. -/
theorem bind {f g : α → Evaluation β} (hx : x.Extends y) (hf : ∀ a, (f a).Extends (g a)) :
    (x >>= f).Extends (y >>= g) := by
  have happends : ∀ a, (g a).Appends := fun a ↦ (hf a).appends
  refine ⟨fun m ↦ ?_, hx.appends.bind happends⟩
  rcases hx.cut m with hsame | ⟨hcut, hwritten⟩
  · rw [run_bind, run_bind, hsame]
    rcases y.run m with ⟨s | a, m'⟩
    · exact .inl rfl
    · exact (hf a).cut m'
  · rcases h : x.run m with ⟨r, m'⟩
    rw [h] at hcut hwritten
    subst hcut
    rw [run_bind_of_error h]
    refine .inr ⟨rfl, hwritten.trans ?_⟩
    rw [run_bind]
    rcases y.run m with ⟨s | a, m''⟩
    · exact List.suffix_rfl
    · exact happends a m''

theorem pure (a : α) : Extends (Pure.pure a) (Pure.pure a) :=
  of_quiet (.pure a)

theorem lookUp (scope : Scope) (x : String) :
    Extends (Evaluation.lookUp scope x) (Evaluation.lookUp scope x) := by
  refine refl fun m ↦ ?_
  rw [run_lookUp]
  split <;> exact List.suffix_rfl

theorem bindName (scope : Scope) (x : String) (v : Value) :
    Extends (Evaluation.bindName scope x v) (Evaluation.bindName scope x v) := by
  refine refl fun m ↦ ?_
  cases scope <;> exact List.suffix_rfl

theorem enter (p : Option Position) : Extends (Evaluation.enter p) (Evaluation.enter p) :=
  refl fun _ ↦ List.suffix_rfl

/-- Evaluations in a row. -/
theorem mapM {γ : Type} {f g : γ → Evaluation α} (h : ∀ c, (f c).Extends (g c)) (cs : List γ) :
    (cs.mapM f).Extends (cs.mapM g) := by
  induction cs with
  | nil => exact pure []
  | cons c rest ih =>
    rw [List.mapM_cons, List.mapM_cons]
    exact bind (h c) fun a ↦ bind ih fun as ↦ pure (a :: as)

/-- Evaluations in a row, each of which goes on from what the last one answered. -/
theorem foldlM {γ : Type} {f g : α → γ → Evaluation α} (h : ∀ a c, (f a c).Extends (g a c))
    (cs : List γ) (a : α) : (cs.foldlM f a).Extends (cs.foldlM g a) := by
  induction cs generalizing a with
  | nil => exact pure a
  | cons c rest ih =>
    rw [List.foldlM_cons, List.foldlM_cons]
    exact bind (h a c) ih

end Extends

end Evaluation

/-! ### All that a run is made of -/

theorem appends_of_performs (scope : Scope) {xs : List String} {x : Evaluation (Value × Scope)}
    {y : Owner → Recorded Value} (h : ∀ o, Recorded.Performs o scope xs x (y o)) : x.Appends := by
  intro m
  obtain ⟨l, o, ho, rfl, hs⟩ := Ledger.exists_of_scope m scope
  obtain ⟨hagree, hbinds⟩ := h o l ho hs _ _ rfl
  rw [hagree]
  exact hbinds.goesOn.written

/-- With so many frames, everything that is carried out is extended by what is carried out with
more. -/
structure ExtendsWithin (n : Nat) : Prop where
  /-- Expressions. -/
  evaluate : ∀ {n'}, n ≤ n' → ∀ scope e, (evaluate n scope e).Extends (evaluate n' scope e)
  /-- Arguments. -/
  evaluateAll : ∀ {n'}, n ≤ n' → ∀ scope es,
    (evaluateAll n scope es).Extends (evaluateAll n' scope es)
  /-- Calls. -/
  callFunction : ∀ {n'}, n ≤ n' → ∀ name params body args,
    (callFunction n name params body args).Extends (callFunction n' name params body args)
  /-- Blocks. -/
  execBlock : ∀ {n'}, n ≤ n' → ∀ scope b, (execBlock n scope b).Extends (execBlock n' scope b)
  /-- Statements. -/
  exec : ∀ {n'}, n ≤ n' → ∀ scope s, (exec n scope s).Extends (exec n' scope s)

section Steps

variable {n n' : Nat} (ih : ∀ k < n, ExtendsWithin k) (h : n ≤ n') (scope : Scope)

include ih h

theorem extends_evaluate (e : Expr) : (evaluate n scope e).Extends (evaluate n' scope e) := by
  have happends : (evaluate n' scope e).Appends :=
    (quiet_evaluate n' scope e).appends
  rcases n with - | - | n
  · exact .outOfFrames happends
  · cases e with
    | foreign tag =>
      -- told apart from the others before its second frame is asked for
      obtain ⟨k, rfl⟩ := Nat.exists_eq_add_of_le' h
      rcases k with - | k <;> exact .refl happends
    | _ => exact .outOfFrames happends
  · obtain ⟨n', rfl⟩ : ∃ k, n' = k + 2 := ⟨n' - 2, by omega⟩
    have hn : n ≤ n' := by omega
    have ih := ih n (by omega)
    cases e with
    | literal v => exact .pure _
    | name x => exact .lookUp scope x
    | binary op l r =>
      exact .bind (ih.evaluate hn scope l) fun a ↦ .bind (ih.evaluate hn scope r) fun b ↦
        .of_quiet (.operate op a b)
    | and l r =>
      refine .bind (ih.evaluate hn scope l) fun a ↦ ?_
      split
      · exact ih.evaluate hn scope r
      · exact .pure a
    | or l r =>
      refine .bind (ih.evaluate hn scope l) fun a ↦ ?_
      split
      · exact .pure a
      · exact ih.evaluate hn scope r
    | not e => exact .bind (ih.evaluate hn scope e) fun a ↦ .pure _
    | signed s e => exact .bind (ih.evaluate hn scope e) fun a ↦ .of_quiet (.signed s a)
    | call f args =>
      refine .bind (.lookUp scope f) fun callee ↦
        .bind (ih.evaluateAll hn scope args) fun values ↦ ?_
      cases callee with
      | function number name params body => exact ih.callFunction hn name params body values
      | builtin b => exact .of_quiet (.callBuiltin f b values)
      | _ => exact .of_quiet (.fail _)
    | foreign tag => exact .of_quiet (.throw _)

theorem extends_evaluateAll (es : List Expr) :
    (evaluateAll n scope es).Extends (evaluateAll n' scope es) := by
  rcases n with - | n
  · have hquiet : (evaluateAll n' scope es).Quiet :=
      quiet_of_follows scope fun o ↦ (framedWithin n').evaluateAll o scope es
    exact .outOfFrames hquiet.appends
  · obtain ⟨n', rfl⟩ : ∃ k, n' = k + 1 := ⟨n' - 1, by omega⟩
    exact .mapM (fun e ↦ (ih n (Nat.lt_succ_self n)).evaluate (Nat.le_of_succ_le_succ h) scope e) es

theorem extends_callFunction (name : String) (params : List String) (body : Block)
    (args : List Value) :
    (callFunction n name params body args).Extends (callFunction n' name params body args) := by
  rcases n with - | n
  · have hquiet : (callFunction n' name params body args).Quiet :=
      quiet_of_follows .top fun o ↦ (framedWithin n').callFunction o .top name params body args
    exact .outOfFrames hquiet.appends
  · obtain ⟨n', rfl⟩ : ∃ k, n' = k + 1 := ⟨n' - 1, by omega⟩
    rw [callFunction_succ, callFunction_succ]
    split
    · exact .of_quiet (.fail _)
    · have hblock := (ih n (Nat.lt_succ_self n)).execBlock (Nat.le_of_succ_le_succ h)
        (.call (params.zip args)) body
      exact .bind (.of_quiet .get) fun m ↦ .bind hblock fun r ↦ .bind (.enter _) fun _ ↦ .pure r.1

theorem extends_execBlock (b : Block) :
    (execBlock n scope b).Extends (execBlock n' scope b) := by
  rcases n with - | n
  · exact .outOfFrames (appends_of_performs scope fun o ↦ (framedWithin n').execBlock o scope b)
  · obtain ⟨n', rfl⟩ : ∃ k, n' = k + 1 := ⟨n' - 1, by omega⟩
    rw [execBlock_succ, execBlock_succ]
    exact .foldlM (fun state s ↦ .bind (.enter _) fun _ ↦
      (ih n (Nat.lt_succ_self n)).exec (Nat.le_of_succ_le_succ h) state.2 s.item) b _

theorem extends_exec (s : Stmt) : (exec n scope s).Extends (exec n' scope s) := by
  have happends : (exec n' scope s).Appends :=
    appends_of_performs scope fun o ↦ (framedWithin n').exec o scope s
  rcases n with - | - | n
  · exact .outOfFrames happends
  · obtain ⟨n', rfl⟩ : ∃ k, n' = k + 1 := ⟨n' - 1, by omega⟩
    cases s with
    | eval e =>
      exact .bind ((ih 0 Nat.zero_lt_one).evaluate (Nat.zero_le n') scope e) fun v ↦ .pure _
    | _ => exact .outOfFrames happends
  · obtain ⟨n', rfl⟩ : ∃ k, n' = k + 2 := ⟨n' - 2, by omega⟩
    have hn : n ≤ n' := by omega
    have ih' := ih n (by omega)
    cases s with
    | eval e =>
      have hvalue := (ih (n + 1) (Nat.lt_succ_self _)).evaluate (Nat.le_of_succ_le_succ h) scope e
      exact .bind hvalue fun v ↦ .pure _
    | assign x op e =>
      have bound (v : Value) :
          (do return (v, ← Evaluation.bindName scope x v) : Evaluation (Value × Scope)).Extends
            (do return (v, ← Evaluation.bindName scope x v)) :=
        .bind (.bindName scope x v) fun s ↦ .pure _
      rw [exec_assign, exec_assign]
      refine .bind (ih'.evaluate hn scope e) fun v ↦ ?_
      cases op with
      | none => exact .bind (.pure v) bound
      | some op =>
        exact .bind (.lookUp scope x) fun old ↦ .bind (.of_quiet (.operate op old v)) bound
    | define f params body =>
      rw [exec_define, exec_define]
      split
      · exact .bind (.of_quiet .newNumber) fun number ↦ .bind (.bindName scope f _) fun s ↦ .pure _
      · exact .of_quiet (.fail _)
    | branch c body otherwise =>
      rw [exec_branch, exec_branch]
      refine .bind (ih'.evaluate hn scope c) fun v ↦ ?_
      split
      · exact ih'.execBlock hn scope body
      · split
        · exact ih'.execBlock hn scope _
        · exact .pure _

end Steps

/-- Everything that is carried out is extended by what is carried out with more frames. -/
theorem extendsWithin (n : Nat) : ExtendsWithin n := by
  induction n using Nat.strongRecOn with
  | ind n ih =>
    exact ⟨extends_evaluate ih, extends_evaluateAll ih, extends_callFunction ih,
      extends_execBlock ih, extends_exec ih⟩

/-- With more frames, a run that does not end because calls or expressions nest too deeply comes to
the same value or failure and leaves the same machine, so also the same names and output; and
whatever a run comes to, what it has written begins what it writes with more. -/
theorem Machine.runWithin_of_le {n n' : Nat} (h : n ≤ n') (m : Machine) (program : Block) :
    ((∀ p, (m.runWithin n program).1 ≠ .error (.reported (RuntimeError.tooDeep.diagnostic p))) →
      m.runWithin n' program = m.runWithin n program) ∧
    (m.runWithin n program).2.output <+: (m.runWithin n' program).2.output := by
  have hextends := (extendsWithin n).execBlock h .top program
  unfold Machine.runWithin
  rcases hextends.cut m with hsame | ⟨hcut, hwritten⟩
  · rw [hsame]
    exact ⟨fun _ ↦ rfl, List.prefix_rfl⟩
  · rcases hrun : (execBlock n .top program).run m with ⟨r, m'⟩
    rw [hrun] at hcut hwritten
    obtain rfl : r = .error .tooDeep := hcut
    refine ⟨fun hdeep ↦ absurd rfl (hdeep m'.position), ?_⟩
    rcases hrun' : (execBlock n' .top program).run m with ⟨s | ⟨v, scope⟩, m''⟩
    · rw [hrun'] at hwritten
      exact Machine.output_prefix hwritten
    · rw [hrun'] at hwritten
      exact Machine.output_prefix hwritten

/-- A function that writes is called: twelve frames are enough for that, so a thousand come to the
same. -/
theorem Machine.runWithin_of_le_call :
    let body : Block := [⟨⟨1, 1⟩, .eval (.call "print" [.literal (.text "a")])⟩]
    let program : Block :=
      [⟨⟨1, 1⟩, .define "f" [] body⟩, ⟨⟨2, 1⟩, .eval (.call "f" [])⟩]
    (Machine.initial.runWithin 12 program).1 = .ok .none ∧
      Machine.initial.runWithin 1000 program = Machine.initial.runWithin 12 program := by
  intro body program
  have hvalue : (Machine.initial.runWithin 12 program).1 = .ok .none := by rfl
  exact ⟨hvalue, (Machine.runWithin_of_le (by decide) _ program).1 fun p hp ↦
    nomatch hvalue.symm.trans hp⟩

end Sangria
