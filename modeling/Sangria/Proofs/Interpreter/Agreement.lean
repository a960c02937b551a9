import Sangria.Proofs.Interpreter.Reaching
import Sangria.Proofs.Value.Relocation

/-!
# Runs of programs from elsewhere

A run does not depend on where the statements stand that it carries out, nor on where in memory its
interpreter is: programs that are the same but for positions, carried out on machines that are the
same but for positions and for their address, come to the same but for these (`agreeWithin`).
Neither does it depend on what the last check of a range found, which is a trace of what was parsed
and carried out before. There are two exceptions (`Task.Tells`). The distance of a number from zero
that is no number is refused after a check that failed, and the text of the function that writes
tells the address. So the runs agree as long as the one is not asked for, and the other is not where
the addresses differ.

Two evaluations are compared on two machines at once (`Evaluation.AgreeOn`), and behind a first part
the comparison goes on where that part has led, so that what a run never comes to is never come to
in its parts either (`Task.NeverTells.of_step`). The addresses are renamed by a permutation, which
takes that of the first machine to that of the second.
-/

namespace Sangria

/-! ### The same but for positions and addresses -/

/-- A value with all positions in it at the start. -/
abbrev Value.unplaced (v : Value) : Value :=
  v.moved (.refl Nat)

/-- Names and their values, with all positions at the start and addresses renamed. -/
def Bindings.moved (ρ : Equiv.Perm Nat) (b : Bindings) : Bindings :=
  b.map fun e ↦ (e.1, e.2.moved ρ)

/-- Names and their values, with all positions at the start. -/
abbrev Bindings.unplaced (b : Bindings) : Bindings :=
  b.moved (.refl Nat)

/-- A scope with all positions in its values at the start and addresses renamed. -/
def Scope.moved (ρ : Equiv.Perm Nat) : Scope → Scope
  | .top => .top
  | .call names => .call (names.moved ρ)

/-- A scope with all positions in its values at the start. -/
abbrev Scope.unplaced (scope : Scope) : Scope :=
  scope.moved (.refl Nat)

/-- Two machines are the same but for positions, for addresses, and for what the last check of a
range found. -/
structure Machine.Alike (ρ : Equiv.Perm Nat) (m m' : Machine) : Prop where
  /-- The names bound at top level are. -/
  globals : m.globals.moved ρ = m'.globals.unplaced
  /-- The same texts were written. -/
  written : m.written = m'.written
  /-- As many functions were defined. -/
  defined : m.defined = m'.defined
  /-- The address of the one is renamed to that of the other. -/
  address : ρ m.host.address = m'.host.address
  /-- Their streams take the same texts. -/
  sink : m.host.sink = m'.host.sink

/-- Why a program stops early, without the position that it is reported at. -/
def Stop.unplaced : Stop → Stop
  | .error e _ => .error e none
  | s => s

section Moved

variable (ρ : Equiv.Perm Nat)

theorem Bindings.get?_moved (b : Bindings) (x : String) :
    (b.moved ρ).get? x = (b.get? x).map (Value.moved ρ) := by
  induction b with
  | nil => rfl
  | cons e rest ih =>
    obtain ⟨y, v⟩ := e
    simp only [moved, get?, List.map_cons, List.lookup_cons] at ih ⊢
    split
    · rfl
    · exact ih

theorem Bindings.moved_set (b : Bindings) (x : String) (v : Value) :
    (b.set x v).moved ρ = (b.moved ρ).set x (v.moved ρ) := by
  induction b with
  | nil => rfl
  | cons e rest ih =>
    obtain ⟨y, w⟩ := e
    simp only [moved, set, List.map_cons] at ih ⊢
    split
    · rfl
    · rw [List.map_cons, ih]

theorem Bindings.moved_zip (params : List String) (args : List Value) :
    Bindings.moved ρ (params.zip args) = params.zip (args.map (Value.moved ρ)) := by
  rw [moved, List.zip_map_right]
  rfl

/-- The built-in function of a name is the one there, if the address is renamed to the one there. -/
theorem Host.builtin?_moved {h h' : Host} (hρ : ρ h.address = h'.address) (x : String) :
    (h.builtin? x).map (Value.moved ρ) = h'.builtin? x := by
  rw [builtin?, builtin?, ← hρ, Builtin.ofName?_moved, Option.map_map, Option.map_map]
  rfl

end Moved

/-- Statements that are the same but for positions. -/
inductive Stmt.Alike : Stmt → Stmt → Prop
  /-- An expression has no positions. -/
  | eval (e : Expr) : Alike (.eval e) (.eval e)
  /-- Neither has a binding. -/
  | assign (x : String) (op : Option (Written Operator)) (e : Expr) :
      Alike (.assign x op e) (.assign x op e)
  /-- A function has those of its block. -/
  | define (f : String) (params : List String) {body body' : Block}
      (body_eq : Block.unplaced body = Block.unplaced body') :
      Alike (.define f params body) (.define f params body')
  /-- A branch has those of its blocks. -/
  | branch (c : Expr) {body body' : Block} {otherwise otherwise' : Option Block}
      (body_eq : Block.unplaced body = Block.unplaced body')
      (otherwise_eq : otherwise.map Block.unplaced = otherwise'.map Block.unplaced) :
      Alike (.branch c body otherwise) (.branch c body' otherwise')

theorem Stmt.unplaced_branch (c : Expr) (body : Block) (otherwise : Option Block) :
    (Stmt.branch c body otherwise).unplaced =
      .branch c (Block.unplaced body) (otherwise.map Block.unplaced) := by
  cases otherwise <;> rfl

theorem Stmt.alike_of_unplaced {s s' : Stmt} (h : s.unplaced = s'.unplaced) : s.Alike s' := by
  cases s with
  | eval e =>
    cases s' with
    | eval e' =>
      obtain rfl := Stmt.eval.inj h
      exact .eval e
    | branch c body otherwise => cases otherwise <;> exact absurd h (by simp [unplaced])
    | _ => exact absurd h (by simp [unplaced])
  | assign x op e =>
    cases s' with
    | assign x' op' e' =>
      obtain ⟨rfl, rfl, rfl⟩ := Stmt.assign.inj h
      exact .assign x op e
    | branch c body otherwise => cases otherwise <;> exact absurd h (by simp [unplaced])
    | _ => exact absurd h (by simp [unplaced])
  | define f params body =>
    cases s' with
    | define f' params' body' =>
      obtain ⟨rfl, rfl, hbody⟩ := Stmt.define.inj h
      exact .define f params hbody
    | branch c body otherwise => cases otherwise <;> exact absurd h (by simp [unplaced])
    | _ => exact absurd h (by simp [unplaced])
  | branch c body otherwise =>
    rw [unplaced_branch] at h
    cases s' with
    | branch c' body' otherwise' =>
      rw [unplaced_branch] at h
      obtain ⟨rfl, hbody, hotherwise⟩ := Stmt.branch.inj h
      exact .branch c hbody hotherwise
    | _ => exact absurd h (by simp [unplaced])

theorem Block.unplaced_eq_map (b : Block) :
    Block.unplaced b = b.map fun s ↦ ⟨⟨1, 1⟩, s.item.unplaced⟩ := by
  induction b with
  | nil => rfl
  | cons s rest ih =>
    obtain ⟨p, s⟩ := s
    rw [Block.unplaced, ih, List.map_cons]

/-- A block that is the same as another but for positions begins as that does. -/
theorem Block.exists_cons_of_unplaced {s : Located Stmt} {b b' : Block}
    (h : Block.unplaced (s :: b) = Block.unplaced b') :
    ∃ s' rest, b' = s' :: rest ∧ s.item.Alike s'.item ∧ Block.unplaced b = Block.unplaced rest := by
  simp only [Block.unplaced_eq_map, List.map_cons] at h ⊢
  obtain ⟨s', rest, rfl, hs, hrest⟩ := List.map_eq_cons_iff.1 h.symm
  exact ⟨s', rest, rfl, Stmt.alike_of_unplaced (congrArg Located.item hs).symm, hrest.symm⟩

/-! ### Names that are looked up -/

/-- Values of a name are the same but for positions and addresses. -/
theorem Machine.Alike.found?_eq {ρ : Equiv.Perm Nat} {m m' : Machine} (hm : m.Alike ρ m')
    {scope scope' : Scope} (hscope : scope.moved ρ = scope'.unplaced) (x : String) :
    (m.found? scope x).map (Value.moved ρ) = (m'.found? scope' x).map Value.unplaced := by
  have hown (ρ : Equiv.Perm Nat) (scope : Scope) :
      (scope.own? x).map (Value.moved ρ) = (scope.moved ρ).own? x := by
    cases scope with
    | top => rfl
    | call names => exact (names.get?_moved ρ x).symm
  have hbuiltin : (m.host.builtin? x).map (Value.moved ρ) =
      (m'.host.builtin? x).map Value.unplaced := by
    rw [Host.builtin?_moved ρ hm.address, Host.builtin?_moved (.refl Nat) rfl]
  rw [found?, found?, Option.map_or, Option.map_or, Option.map_or, Option.map_or, hown, hown,
    hscope, ← Bindings.get?_moved, ← Bindings.get?_moved, hm.globals, hbuiltin]

/-! ### Evaluations that agree -/

variable {ρ : Equiv.Perm Nat}

/-- What two evaluations come to, each with the machine behind it, is the same but for positions and
addresses; values are compared by a relation. -/
inductive Evaluation.Ends {α : Type} (ρ : Equiv.Perm Nat) (R : α → α → Prop) :
    Except Stop α × Machine → Except Stop α × Machine → Prop
  /-- Both have values. -/
  | values {a b : α} {m m' : Machine} (value : R a b) (machine : m.Alike ρ m') :
      Ends ρ R (.ok a, m) (.ok b, m')
  /-- Both stop, and for the same reason. -/
  | stops {s s' : Stop} {m m' : Machine} (stop : s.unplaced = s'.unplaced)
      (machine : m.Alike ρ m') : Ends ρ R (.error s, m) (.error s', m')

/-- Two evaluations, each on a machine of its own, come to the same but for positions and
addresses. -/
def Evaluation.AgreeOn {α : Type} (ρ : Equiv.Perm Nat) (R : α → α → Prop) (m m' : Machine)
    (x y : Evaluation α) : Prop :=
  Ends ρ R (x.run m) (y.run m')

/-- Two values are the same but for positions and addresses. -/
def Value.Alike (ρ : Equiv.Perm Nat) (v w : Value) : Prop :=
  v.moved ρ = w.unplaced

theorem Value.Alike.kindName_eq {v w : Value} (h : v.Alike ρ w) : v.kindName = w.kindName := by
  rw [← v.kindName_moved ρ, h, kindName_moved]

theorem Value.Alike.truthy_eq {v w : Value} (h : v.Alike ρ w) : v.truthy = w.truthy := by
  rw [← v.truthy_moved ρ, h, truthy_moved]

/-- What is no function is from nowhere, so it is the same as itself. -/
theorem Value.Alike.refl {v : Value} (h : v.isFunction = false) : v.Alike ρ v := by
  rw [Alike, unplaced, moved_of_isFunction ρ h, moved_of_isFunction _ h]

/-- Values that are the same but for positions and addresses are functions with such blocks, the
same built-in function, or the same. -/
theorem Value.Alike.cases {v w : Value} (h : v.Alike ρ w) :
    (v.isFunction = false ∧ w = v) ∨
      (∃ f, v = .builtin f ∧ w = .builtin (f.moved ρ)) ∨
      ∃ number name params body body', v = .function number name params body ∧
        w = .function number name params body' ∧ Block.unplaced body = Block.unplaced body' := by
  cases v with
  | function number name params body =>
    cases w with
    | function number' name' params' body' =>
      obtain ⟨rfl, rfl, rfl, hbody⟩ := Value.function.inj h
      exact .inr (.inr ⟨_, _, _, _, _, rfl, rfl, hbody⟩)
    | _ => exact nomatch h
  | builtin f =>
    cases w with
    | builtin g =>
      refine .inr (.inl ⟨f, rfl, congrArg Value.builtin ?_⟩)
      have hf : f.moved ρ = g.moved (.refl Nat) := Value.builtin.inj h
      rw [hf]
      cases g <;> rfl
    | _ => exact nomatch h
  | _ =>
    refine .inl ⟨rfl, ?_⟩
    cases w with
    | function => exact nomatch h
    | builtin => exact nomatch h
    | _ => exact h.symm

/-- A built-in function is asked for a distance from zero that is no number. -/
def Builtin.AsksUndefined (f : Builtin) (args : List Value) : Prop :=
  f = .abs ∧ ∃ z x, args = [.complex z] ∧ z.abs = .ok x ∧ x.isNaN = true

/-- Only then the last check of a range matters to it. -/
theorem Builtin.call_eq_of_not_asks {f : Builtin} {args : List Value} (h : ¬ f.AsksUndefined args)
    (outOfRange outOfRange' : Bool) : f.call outOfRange args = f.call outOfRange' args := by
  cases f with
  | abs =>
    have hdistance : distance outOfRange args = distance outOfRange' args := by
      rcases args with - | ⟨v, - | ⟨w, rest⟩⟩
      · rfl
      · cases v with
        | complex z =>
          rw [distance, distance]
          cases hz : z.abs with
          | error f => rfl
          | ok x =>
            have hx : x.isNaN = false :=
              Bool.eq_false_iff.2 fun hx ↦ h ⟨rfl, z, x, rfl, hz, hx⟩
            simp only [hx, Bool.false_and]
        | _ => rfl
      · cases v <;> rfl
    rw [call, call, hdistance]
  | _ => rfl

namespace Evaluation.AgreeOn

variable {α β : Type} {R : α → α → Prop} {S : β → β → Prop} {m m' : Machine} {x y : Evaluation α}

/-- Behind a first part, the comparison goes on where it has led. -/
theorem bind {f g : α → Evaluation β} (h : AgreeOn ρ R m m' x y)
    (hf : ∀ a b m₁ m₁', x.run m = (.ok a, m₁) → R a b → m₁.Alike ρ m₁' →
      AgreeOn ρ S m₁ m₁' (f a) (g b)) : AgreeOn ρ S m m' (x >>= f) (y >>= g) := by
  unfold AgreeOn at h ⊢
  rw [Evaluation.run_bind, Evaluation.run_bind]
  rcases hx : x.run m with ⟨s | a, m₁⟩
  · rw [hx] at h
    rcases hy : y.run m' with ⟨s' | b, m₁'⟩
    · rw [hy] at h
      cases h with
      | stops hs hm => exact .stops hs hm
    · rw [hy] at h
      exact nomatch h
  · rw [hx] at h
    rcases hy : y.run m' with ⟨s' | b, m₁'⟩
    · rw [hy] at h
      exact nomatch h
    · rw [hy] at h
      cases h with
      | values hab hm => exact hf a b m₁ m₁' hx hab hm

/-- What is known of the values may be weakened. -/
theorem mono {R' : α → α → Prop} (h : AgreeOn ρ R m m' x y) (hR : ∀ a b, R a b → R' a b) :
    AgreeOn ρ R' m m' x y := by
  unfold AgreeOn at h ⊢
  generalize x.run m = r at h ⊢
  generalize y.run m' = r' at h ⊢
  cases h with
  | values hab hm => exact .values (hR _ _ hab) hm
  | stops hs hm => exact .stops hs hm

theorem pure (hm : m.Alike ρ m') {a b : α} (h : R a b) :
    AgreeOn ρ R m m' (Pure.pure a) (Pure.pure b) :=
  .values h hm

theorem throw (hm : m.Alike ρ m') (s : Stop) :
    AgreeOn ρ R m m' (MonadExcept.throw s) (MonadExcept.throw s) :=
  .stops rfl hm

theorem fail (hm : m.Alike ρ m') (e : RuntimeError) :
    AgreeOn ρ R m m' (Evaluation.fail e) (Evaluation.fail e) :=
  .stops rfl hm

theorem outOfFrames (hm : m.Alike ρ m') :
    AgreeOn ρ R m m' Sangria.outOfFrames Sangria.outOfFrames :=
  throw hm .tooDeep

/-- Changes of the machines that keep them the same but for positions and addresses. -/
theorem modify {f g : Machine → Machine} (h : (f m).Alike ρ (g m')) :
    AgreeOn ρ (fun _ _ ↦ True) m m' (modify f) (modify g) :=
  .values trivial h

/-- What depends on the machines is carried out on them. -/
theorem get_bind {f g : Machine → Evaluation α} (h : AgreeOn ρ R m m' (f m) (g m')) :
    AgreeOn ρ R m m' (get >>= f) (get >>= g) :=
  h

theorem enter (hm : m.Alike ρ m') (p p' : Option Position) :
    AgreeOn ρ (fun _ _ ↦ True) m m' (Evaluation.enter p) (Evaluation.enter p') :=
  modify { hm with }

theorem remember (hm : m.Alike ρ m') (found found' : Option Bool) :
    AgreeOn ρ (fun _ _ ↦ True) m m' (Evaluation.remember found) (Evaluation.remember found') :=
  modify { hm with }

theorem write (hm : m.Alike ρ m') (t : Text) :
    AgreeOn ρ (fun _ _ ↦ True) m m' (Evaluation.write t) (Evaluation.write t) :=
  modify { hm with written := congrArg (t :: ·) hm.written }

/-- The streams refuse the same texts. -/
theorem writeAll (hm : m.Alike ρ m') (x : String) (texts : List Text) :
    AgreeOn ρ (fun _ _ ↦ True) m m' (Evaluation.writeAll x texts)
      (Evaluation.writeAll x texts) := by
  refine get_bind ?_
  rw [hm.sink]
  refine bind (write hm _) fun _ _ _ _ _ _ hm ↦ ?_
  cases (m'.host.sink.write texts).2 with
  | none => exact pure hm trivial
  | some run => exact fail hm _

/-- In scopes that are the same but for positions and addresses, so are the values of a name. -/
theorem lookUp {scope scope' : Scope} (hscope : scope.moved ρ = scope'.unplaced)
    (hm : m.Alike ρ m') (x : String) :
    AgreeOn ρ (Value.Alike ρ) m m' (Evaluation.lookUp scope x) (Evaluation.lookUp scope' x) := by
  have hfound := hm.found?_eq hscope x
  rw [AgreeOn, run_lookUp, run_lookUp]
  generalize m.found? scope x = found at hfound ⊢
  generalize m'.found? scope' x = found' at hfound ⊢
  cases found with
  | none =>
    obtain rfl := Option.map_eq_none_iff.1 hfound.symm
    exact .stops rfl hm
  | some v =>
    obtain ⟨w, rfl, hw⟩ := Option.map_eq_some_iff.1 hfound.symm
    exact .values hw.symm hm

/-- Names are bound to values that are the same but for positions and addresses. -/
theorem bindName {scope scope' : Scope} (hscope : scope.moved ρ = scope'.unplaced)
    (hm : m.Alike ρ m') (x : String) {v w : Value} (hv : v.Alike ρ w) :
    AgreeOn ρ (fun s s' ↦ s.moved ρ = s'.unplaced ∧ (scope = .top → s = .top)) m m'
      (Evaluation.bindName scope x v) (Evaluation.bindName scope' x w) := by
  have hset {b b' : Bindings} (h : b.moved ρ = b'.unplaced) :
      (b.set x v).moved ρ = (b'.set x w).unplaced := by
    rw [Bindings.moved_set, h, show v.moved ρ = w.unplaced from hv, ← Bindings.moved_set]
  cases scope with
  | top =>
    cases scope' with
    | top => exact .values ⟨rfl, fun _ ↦ rfl⟩ { hm with globals := hset hm.globals }
    | call => exact nomatch hscope
  | call names =>
    cases scope' with
    | top => exact nomatch hscope
    | call names' =>
      refine .values ⟨congrArg Scope.call (hset (Scope.call.inj hscope)), ?_⟩ hm
      exact fun h ↦ absurd h (by simp)

theorem newNumber (hm : m.Alike ρ m') :
    AgreeOn ρ Eq m m' Evaluation.newNumber Evaluation.newNumber :=
  .values hm.defined { hm with defined := congrArg (· + 1) hm.defined }

theorem signed (hm : m.Alike ρ m') (s : Written Sign) {v w : Value} (hv : v.Alike ρ w) :
    AgreeOn ρ (Value.Alike ρ) m m' (Evaluation.signed s v) (Evaluation.signed s w) := by
  cases s with
  | unknown symbol => exact throw hm _
  | known s =>
    have hsign : Value.sign? s v = Value.sign? s w := by
      rw [← Value.sign?_moved ρ s v, hv, Value.sign?_moved]
    unfold Evaluation.signed
    dsimp only
    rw [hsign, hv.kindName_eq]
    cases hu : Value.sign? s w with
    | some u => exact pure hm (Value.Alike.refl (Value.isFunction_of_sign hu))
    | none => exact fail hm _

/-- An operator makes the same of values that are the same but for positions and addresses, unless
it tells an address. -/
theorem operate (hm : m.Alike ρ m') (op : Written Operator) {a a' b b' : Value}
    (ha : a.Alike ρ a') (hb : b.Alike ρ b')
    (h : ∀ o, op = .known o → ρ = .refl Nat ∨ ¬ Value.Fills o a b) :
    AgreeOn ρ (Value.Alike ρ) m m' (Evaluation.operate op a b) (Evaluation.operate op a' b') := by
  cases op with
  | unknown symbol => exact throw hm _
  | known op =>
    have happly : Value.apply op a b = Value.apply op a' b' := by
      rw [← Value.apply_moved ρ (h op rfl), ha, hb, Value.apply_moved _ (.inl rfl)]
    refine bind (remember hm _ _) fun _ _ m₁ m₁' _ _ hm ↦ ?_
    rw [happly, ha.kindName_eq, hb.kindName_eq]
    cases hv : Value.apply op a' b' with
    | ok v => exact pure hm (Value.Alike.refl (Value.isFunction_of_apply hv))
    | error f =>
      cases f with
      | template f => exact throw hm _
      | _ => exact fail hm _

/-- A built-in function that is not asked for an undefined distance does not look at the last check
of a range, and does the same as from elsewhere unless it tells an address. -/
theorem callBuiltin (hm : m.Alike ρ m') (x : String) {f : Builtin} {args args' : List Value}
    (hargs : args.map (Value.moved ρ) = args'.map Value.unplaced) (hasks : ¬ f.AsksUndefined args)
    (htells : ρ = .refl Nat ∨ ¬ f.AsksText args) :
    AgreeOn ρ (Value.Alike ρ) m m' (Evaluation.callBuiltin x f args)
      (Evaluation.callBuiltin x (f.moved ρ) args') := by
  have hcall := f.call_eq_of_not_asks hasks m.outOfRange m'.outOfRange
  -- it answers for the values without positions, and those are the same
  have hsame := f.call_moved ρ args m'.outOfRange htells
  have hunplaced := (f.moved ρ).call_moved (.refl Nat) args' m'.outOfRange (.inl rfl)
  rw [← hargs, Builtin.moved_refl, hsame] at hunplaced
  refine get_bind (bind (remember hm _ _) fun _ _ m₁ m₁' _ _ hm ↦ ?_)
  rw [hcall]
  generalize f.call m'.outOfRange args = r at hunplaced ⊢
  generalize (f.moved ρ).call m'.outOfRange args' = r' at hunplaced ⊢
  cases r with
  | error fault =>
    cases r' with
    | error fault' =>
      obtain rfl := Except.error.inj hunplaced
      exact fail hm _
    | ok r' => exact nomatch hunplaced
  | ok r =>
    cases r' with
    | error fault' => exact nomatch hunplaced
    | ok r' =>
      obtain ⟨hvalue, htexts⟩ := Prod.mk.inj (Except.ok.inj hunplaced)
      dsimp only at hvalue htexts ⊢
      rw [htexts]
      exact bind (writeAll hm x r'.2) fun _ _ _ _ _ _ hm ↦ pure hm hvalue

end Evaluation.AgreeOn

/-! ### Tasks that never tell where they are carried out -/

namespace Task

/-- What a task comes to may tell machines apart that are the same but for positions and addresses:
it asks for what is left of an earlier check, or, where addresses are renamed, for the text of the
function that writes. -/
inductive Tells (ρ : Equiv.Perm Nat) (m : Machine) : Task → Prop
  /-- A call asks for a distance from zero that is no number. -/
  | distance {n : Nat} {scope : Scope} {x : String} {es : List Expr} {f : Builtin}
      {args : List Value} {m' : Machine}
      (found : (Evaluation.lookUp scope x).run m = (.ok (.builtin f), m))
      (arguments : (evaluateAll n scope es).run m = (.ok args, m')) (asks : f.AsksUndefined args) :
      Tells ρ m (.expr (n + 2) scope (.call x es))
  /-- A call asks for the text of the function that writes. -/
  | text (elsewhere : ρ ≠ .refl Nat) {n : Nat} {scope : Scope} {x : String} {es : List Expr}
      {f : Builtin} {args : List Value} {m' : Machine}
      (found : (Evaluation.lookUp scope x).run m = (.ok (.builtin f), m))
      (arguments : (evaluateAll n scope es).run m = (.ok args, m')) (asks : f.AsksText args) :
      Tells ρ m (.expr (n + 2) scope (.call x es))
  /-- An operator fills a template with that text. -/
  | template (elsewhere : ρ ≠ .refl Nat) {n : Nat} {scope : Scope} {op : Operator} {l r : Expr}
      {a b : Value} {m' m'' : Machine} (left : (evaluate n scope l).run m = (.ok a, m'))
      (right : (evaluate n scope r).run m' = (.ok b, m'')) (fills : Value.Fills op a b) :
      Tells ρ m (.expr (n + 2) scope (.binary (.known op) l r))
  /-- So does the operator of a binding. -/
  | binding (elsewhere : ρ ≠ .refl Nat) {n : Nat} {scope : Scope} {x : String} {op : Operator}
      {e : Expr} {a b : Value} {m' : Machine} (new : (evaluate n scope e).run m = (.ok b, m'))
      (old : (Evaluation.lookUp scope x).run m' = (.ok a, m')) (fills : Value.Fills op a b) :
      Tells ρ m (.stmt (n + 2) scope (.assign x (some (.known op)) e))

/-- A task comes to nothing that tells machines apart. -/
def NeverTells (ρ : Equiv.Perm Nat) (t : Task) (m : Machine) : Prop :=
  ∀ t' m', ComesTo t m t' m' → ¬ Tells ρ m' t'

theorem NeverTells.of_step {t t' : Task} {m m' : Machine} (h : t.NeverTells ρ m)
    (hstep : Step t m t' m') : t'.NeverTells ρ m' :=
  fun t'' m'' hcomes ↦ h t'' m'' (.step hstep hcomes)

/-- A task that does not tell machines apart, and leads only to such that never do, never does. -/
theorem NeverTells.intro {t : Task} {m : Machine} (h : ¬ Tells ρ m t)
    (hstep : ∀ t' m', Step t m t' m' → t'.NeverTells ρ m') : t.NeverTells ρ m := by
  intro t' m' hcomes
  cases hcomes with
  | refl => exact h
  | step hfirst hrest => exact hstep _ _ hfirst _ _ hrest

end Task

/-! ### Everything that is carried out -/

/-- What statements come to from a scope is the same but for positions and addresses; from the top
level they come back to it. -/
structure Answer.Alike (ρ : Equiv.Perm Nat) (scope : Scope) (r r' : Value × Scope) : Prop where
  /-- The values are the same but for positions and addresses. -/
  value : r.1.Alike ρ r'.1
  /-- The scopes are. -/
  names : r.2.moved ρ = r'.2.unplaced
  /-- The top level is left for no other scope. -/
  top : scope = .top → r.2 = .top

/-- With so many frames, all that never tells where it is carried out agrees with the same from
elsewhere. -/
structure AgreeWithin (ρ : Equiv.Perm Nat) (n : Nat) : Prop where
  /-- Expressions. -/
  expr : ∀ {scope scope' : Scope} {e : Expr} {m m' : Machine}, scope.moved ρ = scope'.unplaced →
    m.Alike ρ m' → (Task.expr n scope e).NeverTells ρ m →
      Evaluation.AgreeOn ρ (Value.Alike ρ) m m' (evaluate n scope e) (evaluate n scope' e)
  /-- Arguments. -/
  args : ∀ {scope scope' : Scope} {es : List Expr} {m m' : Machine},
    scope.moved ρ = scope'.unplaced → m.Alike ρ m' → (Task.args n scope es).NeverTells ρ m →
      Evaluation.AgreeOn ρ (fun vs ws ↦ vs.map (Value.moved ρ) = ws.map Value.unplaced) m m'
        (es.mapM fun e ↦ evaluate n scope e) (es.mapM fun e ↦ evaluate n scope' e)
  /-- Calls. -/
  call : ∀ {name : String} {params : List String} {body body' : Block} {values values' : List Value}
    {m m' : Machine}, Block.unplaced body = Block.unplaced body' →
      values.map (Value.moved ρ) = values'.map Value.unplaced → m.Alike ρ m' →
      (Task.call n name params body values).NeverTells ρ m →
        Evaluation.AgreeOn ρ (Value.Alike ρ) m m' (callFunction n name params body values)
          (callFunction n name params body' values')
  /-- Statements in a row. -/
  statements : ∀ {state state' : Value × Scope} {b b' : Block} {m m' : Machine},
    Block.unplaced b = Block.unplaced b' → state.1.Alike ρ state'.1 →
    state.2.moved ρ = state'.2.unplaced → m.Alike ρ m' →
    (Task.statements n state b).NeverTells ρ m →
      Evaluation.AgreeOn ρ (Answer.Alike ρ state.2) m m' (b.foldlM (execNext n) state)
        (b'.foldlM (execNext n) state')
  /-- Statements. -/
  stmt : ∀ {scope scope' : Scope} {s s' : Stmt} {m m' : Machine}, s.Alike s' →
    scope.moved ρ = scope'.unplaced → m.Alike ρ m' → (Task.stmt n scope s).NeverTells ρ m →
      Evaluation.AgreeOn ρ (Answer.Alike ρ scope) m m' (exec n scope s) (exec n scope' s')

section Steps

open Evaluation

variable {n : Nat} {scope scope' : Scope} {m m' : Machine}

theorem agree_evaluateAll {es : List Expr} (ih : ∀ k < n, AgreeWithin ρ k)
    (hscope : scope.moved ρ = scope'.unplaced) (hm : m.Alike ρ m')
    (h : ∀ k, n = k + 1 → (Task.args k scope es).NeverTells ρ m) :
    AgreeOn ρ (fun vs ws ↦ vs.map (Value.moved ρ) = ws.map Value.unplaced) m m'
      (evaluateAll n scope es) (evaluateAll n scope' es) := by
  cases n with
  | zero => exact .outOfFrames hm
  | succ n => exact (ih n (Nat.lt_succ_self n)).args hscope hm (h n rfl)

theorem agree_callExpr {x : String} {es : List Expr} (ih : ∀ k < n + 2, AgreeWithin ρ k)
    (hscope : scope.moved ρ = scope'.unplaced) (hm : m.Alike ρ m')
    (h : (Task.expr (n + 2) scope (.call x es)).NeverTells ρ m) :
    AgreeOn ρ (Value.Alike ρ) m m' (evaluate (n + 2) scope (.call x es))
      (evaluate (n + 2) scope' (.call x es)) := by
  rw [evaluate_call, evaluate_call]
  refine .bind (.lookUp hscope hm x) fun callee callee' m₁ m₁' hfound hcallee hm₁ ↦ ?_
  obtain rfl := machine_eq_of_lookUp hfound
  have hvalues := agree_evaluateAll (n := n) (fun k hk ↦ ih k (by omega)) hscope hm₁
    fun k hk ↦ h.of_step (by rw [hk]; exact .arguments hfound)
  refine .bind hvalues fun values values' m₂ m₂' harguments hvalues hm ↦ ?_
  rcases hcallee.cases with ⟨hplain, rfl⟩ | ⟨f, rfl, rfl⟩ |
    ⟨number, name, params, body, body', rfl, rfl, hbody⟩
  · cases callee' with
    | function => exact absurd hplain (by simp [Value.isFunction])
    | builtin f => exact absurd hplain (by simp [Value.isFunction])
    | _ => exact .fail hm _
  · refine .callBuiltin hm x hvalues (fun hasks ↦ ?_) (or_iff_not_imp_left.2 fun hρ hasks ↦ ?_)
    · exact h _ _ .refl (.distance hfound harguments hasks)
    · exact h _ _ .refl (.text hρ hfound harguments hasks)
  · exact (ih n (by omega)).call hbody hvalues hm (h.of_step (.called hfound harguments))

theorem agree_expr {e : Expr} (ih : ∀ k < n, AgreeWithin ρ k)
    (hscope : scope.moved ρ = scope'.unplaced) (hm : m.Alike ρ m')
    (h : (Task.expr n scope e).NeverTells ρ m) :
    AgreeOn ρ (Value.Alike ρ) m m' (evaluate n scope e) (evaluate n scope' e) := by
  -- an expression needs two frames; a foreign one is found out with the first
  rcases n with - | - | n
  · exact .outOfFrames hm
  · cases e with
    | foreign tag => exact .throw hm _
    | _ => exact .outOfFrames hm
  have part {e : Expr} {m m' : Machine} (hm : m.Alike ρ m')
      (h : (Task.expr n scope e).NeverTells ρ m) :
      AgreeOn ρ (Value.Alike ρ) m m' (evaluate n scope e) (evaluate n scope' e) :=
    (ih n (by omega)).expr hscope hm h
  cases e with
  | literal v => exact .pure hm (Value.Alike.refl (by cases v <;> rfl))
  | name x => exact .lookUp hscope hm x
  | binary op l r =>
    rw [evaluate_binary, evaluate_binary]
    refine .bind (part hm (h.of_step .left)) fun a a' m₁ m₁' hleft ha hm ↦ ?_
    refine .bind (part hm (h.of_step (.right hleft))) fun b b' m₂ m₂' hright hb hm ↦ ?_
    refine .operate hm op ha hb fun o ho ↦ or_iff_not_imp_left.2 fun hρ hfills ↦ ?_
    subst ho
    exact h _ _ .refl (.template hρ hleft hright hfills)
  | and l r =>
    rw [evaluate_and, evaluate_and]
    refine .bind (part hm (h.of_step .andLeft)) fun a a' m₁ m₁' hleft ha hm ↦ ?_
    rw [← ha.truthy_eq]
    split
    · exact part hm (h.of_step (.andRight hleft ‹_›))
    · exact .pure hm ha
  | or l r =>
    rw [evaluate_or, evaluate_or]
    refine .bind (part hm (h.of_step .orLeft)) fun a a' m₁ m₁' hleft ha hm ↦ ?_
    rw [← ha.truthy_eq]
    split
    · exact .pure hm ha
    · exact part hm (h.of_step (.orRight hleft (Bool.eq_false_iff.2 ‹_›)))
  | not e =>
    rw [evaluate_not, evaluate_not]
    refine .bind (part hm (h.of_step .not)) fun a a' m₁ m₁' _ ha hm ↦ ?_
    rw [ha.truthy_eq]
    exact .pure hm rfl
  | signed s e =>
    rw [evaluate_signed, evaluate_signed]
    exact .bind (part hm (h.of_step .signed)) fun a a' m₁ m₁' _ ha hm ↦ .signed hm s ha
  | call x es => exact agree_callExpr ih hscope hm h
  | foreign tag => exact .throw hm _

/-- Arguments are evaluated one after the other. -/
theorem agree_args {es : List Expr}
    (hexpr : ∀ {e : Expr} {m m' : Machine}, m.Alike ρ m' → (Task.expr n scope e).NeverTells ρ m →
      AgreeOn ρ (Value.Alike ρ) m m' (evaluate n scope e) (evaluate n scope' e))
    (hm : m.Alike ρ m') (h : (Task.args n scope es).NeverTells ρ m) :
    AgreeOn ρ (fun vs ws ↦ vs.map (Value.moved ρ) = ws.map Value.unplaced) m m'
      (es.mapM fun e ↦ evaluate n scope e) (es.mapM fun e ↦ evaluate n scope' e) := by
  induction es generalizing m m' with
  | nil => exact .pure hm rfl
  | cons e es ih =>
    rw [List.mapM_cons, List.mapM_cons]
    refine .bind (hexpr hm (h.of_step .firstArg)) fun v w m₁ m₁' hfirst hv hm ↦ ?_
    refine .bind (ih hm (h.of_step (.nextArg hfirst))) fun vs ws m₂ m₂' _ hvs hm ↦ ?_
    refine .pure hm ?_
    rw [List.map_cons, List.map_cons, hvs, show v.moved ρ = w.unplaced from hv]

/-- A block is carried out with a frame of its own, if there is one. -/
theorem agree_execBlock {b b' : Block} (ih : ∀ k < n, AgreeWithin ρ k)
    (hb : Block.unplaced b = Block.unplaced b') (hscope : scope.moved ρ = scope'.unplaced)
    (hm : m.Alike ρ m') (h : ∀ k, n = k + 1 → (Task.statements k (.none, scope) b).NeverTells ρ m) :
    AgreeOn ρ (Answer.Alike ρ scope) m m' (execBlock n scope b) (execBlock n scope' b') := by
  cases n with
  | zero => exact .outOfFrames hm
  | succ n =>
    show AgreeOn ρ (Answer.Alike ρ (Value.none, scope).2) m m'
      (b.foldlM (execNext n) (.none, scope)) (b'.foldlM (execNext n) (.none, scope'))
    exact (ih n (Nat.lt_succ_self n)).statements hb rfl hscope hm (h n rfl)

theorem agree_call {name : String} {params : List String} {body body' : Block}
    {values values' : List Value} (ih : ∀ k < n, AgreeWithin ρ k)
    (hbody : Block.unplaced body = Block.unplaced body')
    (hvalues : values.map (Value.moved ρ) = values'.map Value.unplaced) (hm : m.Alike ρ m')
    (h : (Task.call n name params body values).NeverTells ρ m) :
    AgreeOn ρ (Value.Alike ρ) m m' (callFunction n name params body values)
      (callFunction n name params body' values') := by
  cases n with
  | zero => exact .outOfFrames hm
  | succ n =>
    have hlength : values.length = values'.length := by
      simpa using congrArg List.length hvalues
    have hscope : (Scope.call (params.zip values)).moved ρ =
        (Scope.call (params.zip values')).unplaced := by
      refine congrArg Scope.call ?_
      rw [Bindings.moved_zip, hvalues, ← Bindings.moved_zip]
    rw [callFunction_succ, callFunction_succ, ← hlength]
    split
    · exact .fail hm _
    · rename_i harity
      have hblock := agree_execBlock (n := n) (fun k hk ↦ ih k (by omega)) hbody hscope hm
        fun k hk ↦ h.of_step (by rw [hk]; exact .body (Decidable.not_not.1 harity))
      exact .get_bind (.bind hblock fun r r' _ _ _ hr hm ↦
        .bind (.enter hm _ _) fun _ _ _ _ _ _ hm ↦ .pure hm hr.value)

theorem agree_bound {x : String} {v w : Value} (hscope : scope.moved ρ = scope'.unplaced)
    (hm : m.Alike ρ m') (hv : v.Alike ρ w) :
    AgreeOn ρ (Answer.Alike ρ scope) m m' (do return (v, ← bindName scope x v))
      (do return (w, ← bindName scope' x w)) :=
  .bind (.bindName hscope hm x hv) fun _ _ _ _ _ hs hm ↦ .pure hm ⟨hv, hs.1, hs.2⟩

theorem agree_assign {x : String} {op : Option (Written Operator)} {e : Expr}
    (ih : ∀ k < n + 2, AgreeWithin ρ k) (hscope : scope.moved ρ = scope'.unplaced)
    (hm : m.Alike ρ m') (h : (Task.stmt (n + 2) scope (.assign x op e)).NeverTells ρ m) :
    AgreeOn ρ (Answer.Alike ρ scope) m m' (exec (n + 2) scope (.assign x op e))
      (exec (n + 2) scope' (.assign x op e)) := by
  rw [exec_assign, exec_assign]
  have hnew := (ih n (by omega)).expr hscope hm (h.of_step .bound)
  refine .bind hnew fun v w m₁ m₁' hrun hv hm ↦ ?_
  cases op with
  | none => exact agree_bound hscope hm hv
  | some op =>
    refine .bind (.lookUp hscope hm x) fun old old' m₂ m₂' hfound hold hm₂ ↦ ?_
    obtain rfl := machine_eq_of_lookUp hfound
    refine .bind (.operate hm₂ op hold hv fun o ho ↦ or_iff_not_imp_left.2 fun hρ hfills ↦ ?_)
      fun _ _ _ _ _ hv hm ↦ agree_bound hscope hm hv
    subst ho
    exact h _ _ .refl (.binding hρ hrun hfound hfills)

theorem agree_branch {c : Expr} {body body' : Block} {otherwise otherwise' : Option Block}
    (ih : ∀ k < n + 2, AgreeWithin ρ k) (hbody : Block.unplaced body = Block.unplaced body')
    (hotherwise : otherwise.map Block.unplaced = otherwise'.map Block.unplaced)
    (hscope : scope.moved ρ = scope'.unplaced) (hm : m.Alike ρ m')
    (h : (Task.stmt (n + 2) scope (.branch c body otherwise)).NeverTells ρ m) :
    AgreeOn ρ (Answer.Alike ρ scope) m m' (exec (n + 2) scope (.branch c body otherwise))
      (exec (n + 2) scope' (.branch c body' otherwise')) := by
  rw [exec_branch, exec_branch]
  have hcondition := (ih n (by omega)).expr hscope hm (h.of_step .condition)
  refine .bind hcondition fun v w m₁ m₁' hrun hv hm ↦ ?_
  have hblocks : ∀ k < n, AgreeWithin ρ k := fun k hk ↦ ih k (by omega)
  rw [← hv.truthy_eq]
  split
  · rename_i hholds
    refine agree_execBlock hblocks hbody hscope hm fun k hk ↦ ?_
    subst hk
    exact h.of_step (.holds hrun hholds)
  · rename_i hfails
    cases otherwise with
    | none =>
      obtain rfl := Option.map_eq_none_iff.1 hotherwise.symm
      exact .pure hm ⟨rfl, hscope, fun h ↦ h⟩
    | some other =>
      obtain ⟨other', rfl, hother⟩ := Option.map_eq_some_iff.1 hotherwise.symm
      refine agree_execBlock hblocks hother.symm hscope hm fun k hk ↦ ?_
      subst hk
      exact h.of_step (.otherwise hrun (Bool.eq_false_iff.2 hfails))

theorem agree_define {f : String} {params : List String} {body body' : Block}
    (hbody : Block.unplaced body = Block.unplaced body') (hscope : scope.moved ρ = scope'.unplaced)
    (hm : m.Alike ρ m') :
    AgreeOn ρ (Answer.Alike ρ scope) m m' (exec (n + 2) scope (.define f params body))
      (exec (n + 2) scope' (.define f params body')) := by
  rw [exec_define, exec_define]
  split
  · refine .bind (.newNumber hm) fun number number' _ _ _ hnumber hm ↦ ?_
    refine agree_bound hscope hm ?_
    exact congrArg₂ (Value.function · f params) hnumber hbody
  · exact .fail hm _

theorem agree_stmt {s s' : Stmt} (ih : ∀ k < n, AgreeWithin ρ k) (hs : s.Alike s')
    (hscope : scope.moved ρ = scope'.unplaced) (hm : m.Alike ρ m')
    (h : (Task.stmt n scope s).NeverTells ρ m) :
    AgreeOn ρ (Answer.Alike ρ scope) m m' (exec n scope s) (exec n scope' s') := by
  rcases n with - | n
  · exact .outOfFrames hm
  · cases hs with
    | eval e =>
      rw [exec_eval, exec_eval]
      refine .bind ((ih n (by omega)).expr hscope hm (h.of_step .eval)) fun v w _ _ _ hv hm ↦ ?_
      exact .pure hm ⟨hv, hscope, fun h ↦ h⟩
    | assign x op e =>
      cases n with
      | zero => exact .outOfFrames hm
      | succ n => exact agree_assign ih hscope hm h
    | define f params hbody =>
      cases n with
      | zero => exact .outOfFrames hm
      | succ n => exact agree_define hbody hscope hm
    | branch c hbody hotherwise =>
      cases n with
      | zero => exact .outOfFrames hm
      | succ n => exact agree_branch ih hbody hotherwise hscope hm h

/-- Statements are carried out one after the other; the values between them are dropped. -/
theorem agree_statements {state state' : Value × Scope} {b b' : Block}
    (hstmt : ∀ {scope scope' : Scope} {s s' : Stmt} {m m' : Machine}, s.Alike s' →
      scope.moved ρ = scope'.unplaced → m.Alike ρ m' → (Task.stmt n scope s).NeverTells ρ m →
        AgreeOn ρ (Answer.Alike ρ scope) m m' (exec n scope s) (exec n scope' s'))
    (hb : Block.unplaced b = Block.unplaced b') (hvalue : state.1.Alike ρ state'.1)
    (hscope : state.2.moved ρ = state'.2.unplaced) (hm : m.Alike ρ m')
    (h : (Task.statements n state b).NeverTells ρ m) :
    AgreeOn ρ (Answer.Alike ρ state.2) m m' (b.foldlM (execNext n) state)
      (b'.foldlM (execNext n) state') := by
  induction b generalizing b' state state' m m' with
  | nil =>
    obtain rfl : b' = [] := by
      rw [Block.unplaced_eq_map, Block.unplaced_eq_map] at hb
      exact List.map_eq_nil_iff.1 hb.symm
    exact .pure hm ⟨hvalue, hscope, fun h ↦ h⟩
  | cons s b ih =>
    obtain ⟨s', rest, rfl, hs, hrest⟩ := Block.exists_cons_of_unplaced hb
    rw [List.foldlM_cons, List.foldlM_cons]
    -- where the statements stand is entered in the machines, which are compared without it
    have hfirst : AgreeOn ρ (Answer.Alike ρ state.2) m m' (execNext n state s)
        (execNext n state' s') := by
      refine .bind (.enter hm _ _) fun _ _ m₁ m₁' hrun _ hm ↦ ?_
      obtain rfl := (Prod.mk.inj hrun).2
      exact hstmt hs hscope hm (h.of_step .firstStatement)
    refine .bind hfirst fun r r' m₁ m₁' hrun hr hm ↦ ?_
    have hlater := ih hrest hr.value hr.names hm (h.of_step (.nextStatement hrun))
    exact hlater.mono fun _ _ hr' ↦ { hr' with top := fun htop ↦ hr'.top (hr.top htop) }

end Steps

/-- All that never tells where it is carried out agrees with the same from elsewhere. -/
theorem agreeWithin (ρ : Equiv.Perm Nat) (n : Nat) : AgreeWithin ρ n := by
  induction n using Nat.strongRecOn with
  | ind n ih =>
    exact ⟨agree_expr ih, fun hscope ↦ agree_args (agree_expr ih hscope), agree_call ih,
      agree_statements (agree_stmt ih), agree_stmt ih⟩

end Sangria
