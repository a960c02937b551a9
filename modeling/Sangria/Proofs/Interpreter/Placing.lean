import Sangria.Proofs.Interpreter.Reference
import Sangria.Proofs.Interpreter.Running

/-!
# Errors are reported where they arise

The position in a machine is overwritten by every statement of every function that is called, and
still it is right whenever something fails: an interpreter gives the same answers as the reference
that passes positions down (`Machine.runEach_eq`), so an error carries the position of the innermost
statement that was being carried out.

Two things make this work. An expression that has a value leaves the position as it was, because a
call puts it back when it ends; and after a block, which does not, nothing is evaluated before the
next statement begins. `Evaluation.Matches` has a place for both: it says from which position an
evaluation starts and what is known of the position that it leaves behind a value.
-/

namespace Sangria

theorem Placed.run_bind {α β : Type} (y : Placed α) (g : α → Placed β) (s : Store) :
    (y >>= g).run s = match y.run s with
      | (.ok a, s') => (g a).run s'
      | (.error f, s') => (.error f, s') := by
  show (match y.run s with
    | (r, s') => (ExceptT.bindCont g r) s') = _
  rcases y.run s with ⟨f | a, s'⟩
  · rfl
  · rfl

/-- From a position, an evaluation does what another does without it: the same answer, or the
failure that is to be reported, and the same store. Behind an answer, the position has a
property. -/
def Evaluation.Matches {α : Type} (p : Option Position) (Left : Option Position → Prop)
    (x : Evaluation α) (y : Placed α) : Prop :=
  ∀ m : Machine, m.position = p →
    match x.run m with
    | (.ok a, m') => y.run m.store = (.ok a, m'.store) ∧ Left m'.position
    | (.error s, m') => y.run m.store = (.error (s.toRunFault m'.position), m'.store)

namespace Evaluation.Matches

variable {α β : Type} {p p' : Option Position} {Left Left' : Option Position → Prop}
  {x : Evaluation α} {y : Placed α}

theorem bind {f : α → Evaluation β} {g : α → Placed β} (hx : x.Matches p Left y)
    (hf : ∀ a p', Left p' → (f a).Matches p' Left' (g a)) :
    (x >>= f).Matches p Left' (y >>= g) := by
  intro m hm
  have hrun := hx m hm
  rw [Evaluation.run_bind, Placed.run_bind]
  rcases h : x.run m with ⟨s | a, m'⟩
  · rw [h] at hrun
    rw [hrun]
  · rw [h] at hrun
    obtain ⟨hy, hleft⟩ := hrun
    rw [hy]
    exact hf a _ hleft m' rfl

theorem pure (a : α) : Matches p (· = p) (Pure.pure a) (Pure.pure a) :=
  fun _ hm ↦ ⟨rfl, hm⟩

/-- What is known of the position that is left may be forgotten. -/
theorem mono (hx : x.Matches p Left y) (h : ∀ p', Left p' → Left' p') : x.Matches p Left' y := by
  intro m hm
  have hrun := hx m hm
  rcases hx' : x.run m with ⟨s | a, m'⟩
  · rwa [hx'] at hrun
  · rw [hx'] at hrun
    exact ⟨hrun.1, h _ hrun.2⟩

theorem ends (hx : x.Matches p Left y) : x.Matches p (fun _ ↦ True) y :=
  hx.mono fun _ _ ↦ trivial

theorem fail (e : RuntimeError) : Matches (α := α) p Left (Evaluation.fail e) (Placed.failAt p e) :=
  fun m hm ↦ by subst hm; rfl

theorem fault (f : Fault) :
    Matches (α := α) p Left (MonadExcept.throw (Stop.fault f)) (MonadExcept.throw (.fault f)) :=
  fun _ _ ↦ rfl

theorem outOfFrames :
    Matches (α := α) p Left Sangria.outOfFrames (Placed.failAt p .tooDeep) :=
  fun m hm ↦ by subst hm; rfl

/-- A change of the machine that leaves the position alone. -/
theorem modify {f : Machine → Machine} {g : Store → Store}
    (hstore : ∀ m, (f m).store = g m.store) (hposition : ∀ m, (f m).position = m.position) :
    Matches p (· = p) (modify f) (modify g) :=
  fun m hm ↦ ⟨by rw [hstore m]; rfl, (hposition m).trans hm⟩

/-- What depends on the machine is carried out on that machine. -/
theorem get_bind {f : Machine → Evaluation α}
    (h : ∀ m, m.position = p → (f m).Matches p Left y) : (get >>= f).Matches p Left y :=
  fun m hm ↦ h m hm m hm

/-- What depends on the machine's store may be told the store. -/
theorem get_bind_get {f : Machine → Evaluation α} {g : Store → Placed α}
    (h : ∀ m, m.position = p → (f m).Matches p Left (g m.store)) :
    (get >>= f).Matches p Left (get >>= g) :=
  fun m hm ↦ h m hm m hm

/-- From the statement under way on, its position is what is passed down. -/
theorem enter_bind {f : Unit → Evaluation α} (h : (f ()).Matches p' Left y) :
    (enter p' >>= f).Matches p Left y :=
  fun m _ ↦ h { m with position := p' } rfl

theorem remember (found : Option Bool) :
    Matches p (· = p) (Evaluation.remember found) (Placed.remember found) :=
  modify (fun _ ↦ rfl) fun _ ↦ rfl

theorem write (t : Text) : Matches p (· = p) (Evaluation.write t) (Placed.write t) :=
  modify (fun _ ↦ rfl) fun _ ↦ rfl

theorem newNumber : Matches p (· = p) Evaluation.newNumber Placed.newNumber :=
  get_bind_get fun m _ ↦
    bind (modify (fun _ ↦ rfl) fun _ ↦ rfl) fun _ _ hp ↦ hp ▸ pure m.defined

theorem lookUp (scope : Scope) (x : String) :
    Matches p (· = p) (Evaluation.lookUp scope x) (Placed.lookUpAt p scope x) := by
  refine get_bind_get fun m _ ↦ ?_
  have hglobals : m.store.globals = m.globals := rfl
  have hhost : m.store.host = m.host := rfl
  rw [hglobals, hhost]
  dsimp only
  generalize Option.or _ _ = found
  cases found with
  | some v => exact pure v
  | none => exact fail _

theorem bindName (scope : Scope) (x : String) (v : Value) :
    Matches p (· = p) (Evaluation.bindName scope x v) (Placed.bindName scope x v) := by
  cases scope with
  | top => exact bind (modify (fun _ ↦ rfl) fun _ ↦ rfl) fun _ _ hp ↦ hp ▸ pure Scope.top
  | call names => exact pure _

theorem operate (op : Written Operator) (a b : Value) :
    Matches p (· = p) (Evaluation.operate op a b) (Placed.operateAt p op a b) := by
  cases op with
  | unknown symbol => exact fault _
  | known op =>
    refine bind (remember _) fun _ p' hp ↦ ?_
    subst hp
    cases Value.apply op a b with
    | ok v => exact pure v
    | error f =>
      cases f with
      | template f => exact fault _
      | _ => exact fail _

theorem signed (s : Written Sign) (v : Value) :
    Matches p (· = p) (Evaluation.signed s v) (Placed.signedAt p s v) := by
  cases s with
  | unknown symbol => exact fault _
  | known s =>
    unfold Evaluation.signed Placed.signedAt
    dsimp only
    cases Value.sign? s v with
    | some w => exact pure w
    | none => exact fail _

theorem writeAll (x : String) (texts : List Text) :
    Matches p (· = p) (Evaluation.writeAll x texts) (Placed.writeAllAt p x texts) := by
  refine get_bind_get fun m _ ↦ ?_
  have hhost : m.store.host = m.host := rfl
  rw [hhost]
  refine bind (write _) fun _ p' hp ↦ ?_
  subst hp
  cases (m.host.sink.write texts).2 with
  | none => exact pure ()
  | some run => exact fail _

theorem callBuiltin (x : String) (f : Builtin) (args : List Value) :
    Matches p (· = p) (Evaluation.callBuiltin x f args) (Placed.callBuiltinAt p x f args) := by
  refine get_bind_get fun m _ ↦ bind (remember _) fun _ p' hp ↦ ?_
  have hrange : m.store.outOfRange = m.outOfRange := rfl
  subst hp
  rw [hrange]
  cases f.call m.outOfRange args with
  | ok r => exact bind (writeAll x r.2) fun _ p' hp ↦ hp ▸ pure r.1
  | error fault => exact fail _

/-- Evaluations in a row, all for one statement. -/
theorem mapM {γ : Type} {f : γ → Evaluation α} {g : γ → Placed α} {as : List γ}
    (h : ∀ a ∈ as, (f a).Matches p (· = p) (g a)) : (as.mapM f).Matches p (· = p) (as.mapM g) := by
  induction as with
  | nil => exact pure []
  | cons a rest ih =>
    obtain ⟨ha, hrest⟩ := List.forall_mem_cons.1 h
    rw [List.mapM_cons, List.mapM_cons]
    refine bind ha fun b p₁ hp₁ ↦ ?_
    subst hp₁
    refine bind (ih hrest) fun bs p₂ hp₂ ↦ ?_
    subst hp₂
    exact pure _

/-- Statements in a row, each of which starts from any position. -/
theorem foldlM {γ : Type} {f : α → γ → Evaluation α} {g : α → γ → Placed α} {as : List γ} {a : α}
    (h : ∀ c ∈ as, ∀ a p, (f a c).Matches p (fun _ ↦ True) (g a c)) :
    (as.foldlM f a).Matches p (fun _ ↦ True) (as.foldlM g a) := by
  induction as generalizing a p with
  | nil => exact (pure a).ends
  | cons c rest ih =>
    obtain ⟨hc, hrest⟩ := List.forall_mem_cons.1 h
    rw [List.foldlM_cons, List.foldlM_cons]
    exact bind (hc a p) fun b p' _ ↦ ih hrest

end Evaluation.Matches

/-! ### All that a run is made of -/

/-- With so many frames, everything that is carried out matches the reference. An expression leaves
the position as it was. -/
structure MatchesWithin (n : Nat) : Prop where
  /-- Expressions. -/
  evaluate : ∀ p scope e,
    (evaluate n scope e).Matches p (· = p) (evaluateAt p n scope e)
  /-- Arguments. -/
  evaluateAll : ∀ p scope es,
    (evaluateAll n scope es).Matches p (· = p) (evaluateAllAt p n scope es)
  /-- Calls. -/
  callFunction : ∀ p name params body args,
    (callFunction n name params body args).Matches p (· = p)
      (callFunctionAt p n name params body args)
  /-- Blocks. -/
  execBlock : ∀ p scope b,
    (execBlock n scope b).Matches p (fun _ ↦ True) (execBlockAt p n scope b)
  /-- Statements. -/
  exec : ∀ p scope s,
    (exec n scope s).Matches p (fun _ ↦ True) (execAt p n scope s)

section Steps

variable {n : Nat} (ih : ∀ k < n, MatchesWithin k) (p : Option Position)

include ih

theorem matches_evaluate (scope : Scope) (e : Expr) :
    (evaluate n scope e).Matches p (· = p) (evaluateAt p n scope e) := by
  unfold evaluate evaluateAt
  rcases n with - | - | n
  · exact .outOfFrames
  · cases e with
    | foreign tag => exact .fault _
    | _ => exact .outOfFrames
  · have ih := ih n (by omega)
    cases e with
    | literal v => exact .pure _
    | name x => exact .lookUp scope x
    | binary op l r =>
      refine .bind (ih.evaluate p scope l) fun a p₁ h₁ ↦ ?_
      subst h₁
      refine .bind (ih.evaluate p₁ scope r) fun b p₂ h₂ ↦ ?_
      subst h₂
      exact .operate op a b
    | and l r =>
      refine .bind (ih.evaluate p scope l) fun a p₁ h₁ ↦ ?_
      subst h₁
      split
      · exact ih.evaluate p₁ scope r
      · exact .pure a
    | or l r =>
      refine .bind (ih.evaluate p scope l) fun a p₁ h₁ ↦ ?_
      subst h₁
      split
      · exact .pure a
      · exact ih.evaluate p₁ scope r
    | not e =>
      refine .bind (ih.evaluate p scope e) fun a p₁ h₁ ↦ ?_
      subst h₁
      exact .pure _
    | signed s e =>
      refine .bind (ih.evaluate p scope e) fun a p₁ h₁ ↦ ?_
      subst h₁
      exact .signed s a
    | call f args =>
      refine .bind (.lookUp scope f) fun callee p₁ h₁ ↦ ?_
      subst h₁
      refine .bind (ih.evaluateAll p₁ scope args) fun values p₂ h₂ ↦ ?_
      subst h₂
      cases callee with
      | function number name params body => exact ih.callFunction p₂ name params body values
      | builtin b => exact .callBuiltin f b values
      | _ => exact .fail _
    | foreign tag => exact .fault _

theorem matches_evaluateAll (scope : Scope) (es : List Expr) :
    (evaluateAll n scope es).Matches p (· = p) (evaluateAllAt p n scope es) := by
  unfold evaluateAll evaluateAllAt
  split
  · exact .outOfFrames
  · rename_i n
    exact .mapM fun e _ ↦ (ih n (Nat.lt_succ_self n)).evaluate p scope e

/-- A call leaves its block wherever the last statement stood, and then goes back to the statement
that it is part of. -/
theorem matches_callFunction (name : String) (params : List String) (body : Block)
    (args : List Value) :
    (callFunction n name params body args).Matches p (· = p)
      (callFunctionAt p n name params body args) := by
  unfold callFunction callFunctionAt
  split
  · exact .outOfFrames
  · rename_i n
    split
    · exact .fail _
    · refine .get_bind fun m hm ↦ ?_
      rw [hm]
      have hblock := (ih n (Nat.lt_succ_self n)).execBlock p (.call (params.zip args)) body
      exact .bind hblock fun r _ _ ↦ .enter_bind (.pure r.1)

theorem matches_execBlock (scope : Scope) (b : Block) :
    (execBlock n scope b).Matches p (fun _ ↦ True) (execBlockAt p n scope b) := by
  unfold execBlock execBlockAt
  split
  · exact .outOfFrames
  · rename_i n
    exact .foldlM fun s _ state _ ↦
      .enter_bind ((ih n (Nat.lt_succ_self n)).exec (some s.position) state.2 s.item)

theorem matches_assign (scope : Scope) (x : String) (op : Option (Written Operator)) (e : Expr) :
    (assign n scope x op e).Matches p (fun _ ↦ True) (assignAt p n scope x op e) := by
  unfold assign assignAt
  split
  · exact .outOfFrames
  · rename_i n
    have ih := ih n (Nat.lt_succ_self n)
    have bound (p : Option Position) (v : Value) :
        (do return (v, ← Evaluation.bindName scope x v) : Evaluation (Value × Scope)).Matches p
          (fun _ ↦ True) (do return (v, ← Placed.bindName scope x v)) :=
      .bind (.bindName scope x v) fun s _ _ ↦ (Evaluation.Matches.pure (v, s)).ends
    refine .bind (ih.evaluate p scope e) fun v p₁ h₁ ↦ ?_
    subst h₁
    cases op with
    | none => exact .bind (.pure v) fun v p₂ _ ↦ bound p₂ v
    | some op =>
      refine .bind (.lookUp scope x) fun old p₂ h₂ ↦ ?_
      subst h₂
      exact .bind (.operate op old v) fun v p₃ _ ↦ bound p₃ v

theorem matches_branch (scope : Scope) (c : Expr) (body : Block) (otherwise : Option Block) :
    (branch n scope c body otherwise).Matches p (fun _ ↦ True)
      (branchAt p n scope c body otherwise) := by
  unfold branch branchAt
  split
  · exact .outOfFrames
  · rename_i n
    have ih := ih n (Nat.lt_succ_self n)
    refine .bind (ih.evaluate p scope c) fun v p₁ h₁ ↦ ?_
    subst h₁
    split
    · exact ih.execBlock p₁ scope body
    · split
      · exact ih.execBlock p₁ scope _
      · exact (Evaluation.Matches.pure _).ends

theorem matches_exec (scope : Scope) (s : Stmt) :
    (exec n scope s).Matches p (fun _ ↦ True) (execAt p n scope s) := by
  unfold exec execAt
  split
  · exact .outOfFrames
  · rename_i n
    have ih' : ∀ k < n, MatchesWithin k := fun k hk ↦ ih k (by omega)
    cases s with
    | eval e =>
      exact .bind ((ih n (Nat.lt_succ_self n)).evaluate p scope e) fun v _ _ ↦
        (Evaluation.Matches.pure (v, scope)).ends
    | assign x op e => exact matches_assign ih' p scope x op e
    | define f params body =>
      dsimp only
      split
      · exact .outOfFrames
      · split
        · exact .bind .newNumber fun number _ _ ↦
            .bind (.bindName scope f (.function number f params body)) fun s _ _ ↦
              (Evaluation.Matches.pure (_, s)).ends
        · exact .fail _
    | branch c body otherwise => exact matches_branch ih' p scope c body otherwise

end Steps

/-- Everything that is carried out matches the reference, whatever the frames. -/
theorem matchesWithin (n : Nat) : MatchesWithin n := by
  induction n using Nat.strongRecOn with
  | ind n ih =>
    exact ⟨matches_evaluate ih, matches_evaluateAll ih, matches_callFunction ih,
      matches_execBlock ih, matches_exec ih⟩

/-! ### Sessions -/

/-- What programs come to that are carried out one after the other on one machine, each with so many
frames: the answer of each and the store behind it. A program that fails does not keep the others
from being carried out. -/
def Machine.runEach (frames : Nat) (m : Machine) : List Block → List (Except RunFault Value × Store)
  | [] => []
  | program :: rest =>
    let (r, m) := m.runWithin frames program
    (r, m.store) :: m.runEach frames rest

/-- The same for the reference. -/
def Store.runEach (frames : Nat) (s : Store) : List Block → List (Except RunFault Value × Store)
  | [] => []
  | program :: rest =>
    let (r, s) := s.runWithin frames program
    (r, s) :: s.runEach frames rest

/-- A run gives the answer of the reference, and leaves the same store. It begins with a frame for
its block; where the machine stood before does not matter then. -/
theorem Machine.runWithin_eq (n : Nat) (m : Machine) (program : Block) :
    m.store.runWithin (n + 1) program =
      ((m.runWithin (n + 1) program).1, (m.runWithin (n + 1) program).2.store) := by
  have hblock : (execBlock (n + 1) .top program).Matches m.position (fun _ ↦ True)
      (execBlockAt none (n + 1) .top program) :=
    -- with a frame, the reference asks for the position of its statements only
    (matchesWithin (n + 1)).execBlock m.position .top program
  have hrun := hblock m rfl
  unfold Store.runWithin Machine.runWithin
  rcases h : (execBlock (n + 1) .top program).run m with ⟨s | ⟨v, scope⟩, m'⟩
  · rw [h] at hrun
    rw [hrun]
  · rw [h] at hrun
    rw [hrun.1]

/-- An interpreter that keeps the position of the statement under way in its machine, and puts it
back where a call ends, cannot be told from one that passes the position of the enclosing statement
down and keeps none. On any machine, programs carried out one after the other come to the same
values, the same failures at the same positions, the same names and the same output. -/
theorem Machine.runEach_eq (n : Nat) (m : Machine) (programs : List Block) :
    m.runEach (n + 1) programs = m.store.runEach (n + 1) programs := by
  induction programs generalizing m with
  | nil => rfl
  | cons program rest ih =>
    rw [Machine.runEach, Store.runEach, Machine.runWithin_eq]
    exact congrArg _ (ih _)

end Sangria
