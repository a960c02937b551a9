import Sangria.Proofs.Interpreter.Ledger

/-!
# What an expression and a statement leave alone

An expression changes no names at all, whoever has them, and only adds to what was written
(`Follows`); a statement changes names of its own owner only, and of those only the ones that it
binds itself, outside the blocks of functions (`Performs`). Both say this of the interpreter that
keeps all names in one ledger, where a call could write anywhere, and both say that it does what the
interpreter does that passes names along. The main statement, `frame`, is about both.

It rests on calls: the names of a new call belong to an owner that was not there before, so whatever
its block binds, the owners that were there have the names they had.
-/

namespace Sangria

mutual

/-- The names that a statement binds itself, not in the blocks of functions. -/
def Stmt.targets : Stmt → List String
  | .eval _ => []
  | .assign x _ _ => [x]
  | .define f _ _ => [f]
  | .branch _ body none => Block.targets body
  | .branch _ body (some other) => Block.targets body ++ Block.targets other

/-- The same for all statements of a block. -/
def Block.targets : List (Located Stmt) → List String
  | [] => []
  | ⟨_, s⟩ :: rest => s.targets ++ Block.targets rest

end

theorem Block.targets_subset {b : Block} {s : Located Stmt} (h : s ∈ b) :
    s.item.targets ⊆ Block.targets b := by
  induction b with
  | nil => exact absurd h List.not_mem_nil
  | cons c rest ih =>
    rw [Block.targets]
    rcases List.mem_cons.1 h with rfl | hrest
    · exact List.subset_append_left _ _
    · exact List.subset_append_of_subset_right _ (ih hrest)

/-! ### What never changes -/

/-- A machine is the same as one before it in what nothing changes: what was written is only added
to, and what was given to the interpreter stays. -/
structure Machine.GoesOn (m m' : Machine) : Prop where
  /-- Texts are only added. -/
  written : m.written <:+ m'.written
  /-- What was given stays. -/
  host : m'.host = m.host

namespace Machine.GoesOn

theorem refl (m : Machine) : m.GoesOn m :=
  ⟨List.suffix_rfl, rfl⟩

theorem trans {m m' m'' : Machine} (h : m.GoesOn m') (h' : m'.GoesOn m'') : m.GoesOn m'' :=
  ⟨h.written.trans h'.written, h'.host.trans h.host⟩

end Machine.GoesOn

/-- What was written is only added to. -/
theorem Machine.output_prefix {m m' : Machine} (h : m.written <:+ m'.written) :
    m.output <+: m'.output := by
  obtain ⟨new, hnew⟩ := h
  refine ⟨new.reverse.flatten, ?_⟩
  rw [Machine.output, Machine.output, ← hnew, List.reverse_append, List.flatten_append]

/-! ### Ledgers -/

namespace Ledger

/-- What an expression does to a ledger: every owner that is there stays, with the names it has, and
the machine goes on. -/
structure Grows (l l' : Ledger) : Prop where
  /-- Nobody loses a place. -/
  has : ∀ o, l.Has o → l'.Has o
  /-- Nobody's names change. -/
  names : ∀ o, l.Has o → l'.names o = l.names o
  /-- The machine goes on. -/
  goesOn : l.machine.GoesOn l'.machine

/-- What a statement does to a ledger that binds some names of an owner: all else is as after an
expression. -/
structure Binds (o : Owner) (xs : List String) (l l' : Ledger) : Prop where
  /-- Nobody loses a place. -/
  has : ∀ o', l.Has o' → l'.Has o'
  /-- The names of others do not change. -/
  others : ∀ o', o' ≠ o → l.Has o' → l'.names o' = l.names o'
  /-- Other names of the owner do not change. -/
  own : ∀ x, x ∉ xs → (l'.names o).get? x = (l.names o).get? x
  /-- The machine goes on. -/
  goesOn : l.machine.GoesOn l'.machine

variable {l l' l'' : Ledger} {o : Owner} {xs ys : List String}

theorem Grows.refl (l : Ledger) : l.Grows l :=
  ⟨fun _ h ↦ h, fun _ _ ↦ rfl, .refl _⟩

theorem Grows.trans (h : l.Grows l') (h' : l'.Grows l'') : l.Grows l'' :=
  ⟨fun o ho ↦ h'.has o (h.has o ho), fun o ho ↦ (h'.names o (h.has o ho)).trans (h.names o ho),
    h.goesOn.trans h'.goesOn⟩

theorem Grows.scope_eq (h : l.Grows l') (ho : l.Has o) : l'.scope o = l.scope o := by
  cases o with
  | top => rfl
  | call i => exact congrArg Scope.call (h.names _ ho)

theorem Grows.binds (h : l.Grows l') (ho : l.Has o) : Binds o xs l l' :=
  ⟨h.has, fun o' _ ho' ↦ h.names o' ho',
    fun x _ ↦ congrArg (fun names : Bindings ↦ names.get? x) (h.names o ho), h.goesOn⟩

/-- A change of the machine that touches no names. -/
theorem Grows.of_machine {m : Machine} (hglobals : m.globals = l.machine.globals)
    (hm : l.machine.GoesOn m) : l.Grows { l with machine := m } := by
  refine ⟨fun o ho ↦ ?_, fun o _ ↦ ?_, hm⟩
  · cases o <;> exact ho
  · cases o with
    | top => exact hglobals
    | call i => rfl

theorem Binds.trans (h : Binds o xs l l') (h' : Binds o xs l' l'') : Binds o xs l l'' :=
  ⟨fun o' ho' ↦ h'.has o' (h.has o' ho'),
    fun o' hne ho' ↦ (h'.others o' hne (h.has o' ho')).trans (h.others o' hne ho'),
    fun x hx ↦ (h'.own x hx).trans (h.own x hx), h.goesOn.trans h'.goesOn⟩

theorem Binds.mono (h : Binds o xs l l') (hsub : xs ⊆ ys) : Binds o ys l l' :=
  ⟨h.has, h.others, fun x hx ↦ h.own x fun hmem ↦ hx (hsub hmem), h.goesOn⟩

theorem binds_bind (ho : l.Has o) (x : String) (v : Value) : Binds o [x] l (l.bind o x v) := by
  refine ⟨fun o' ho' ↦ (l.has_bind x v).2 ho', fun o' hne _ ↦ l.names_bind_of_ne x v hne,
    fun y hy ↦ ?_, (l.written_bind x v).symm ▸ List.suffix_rfl, l.host_bind x v⟩
  rw [names_bind_self l x v ho, Bindings.get?_set, if_neg fun h ↦ hy (List.mem_singleton.2 h)]

/-- What is bound in the names of a new call changes nobody's names who was there before. -/
theorem Binds.grows_of_extend {b : Bindings}
    (h : Binds (.call l.calls.length) xs (l.extend b) l') : l.Grows l' := by
  refine ⟨fun o ho ↦ h.has o (l.has_extend b ho), fun o ho ↦ ?_, h.goesOn⟩
  have hne : o ≠ .call l.calls.length := by
    rintro rfl
    exact Nat.lt_irrefl _ ho
  exact (h.others o hne (l.has_extend b ho)).trans (l.names_extend b ho)

end Ledger

/-! ### What touches no names -/

/-- An evaluation from which the machine goes on, that changes no names of the top level, and leaves
the position as it was if it has a value. -/
def Evaluation.Quiet {α : Type} (x : Evaluation α) : Prop :=
  ∀ m r m', x.run m = (r, m') → m'.globals = m.globals ∧ m.GoesOn m' ∧
    ∀ a, r = .ok a → m'.position = m.position

namespace Evaluation.Quiet

variable {α β : Type}

theorem pure (a : α) : Quiet (Pure.pure a) := by
  rintro m r m' ⟨⟩
  exact ⟨rfl, ⟨List.suffix_rfl, rfl⟩, fun _ _ ↦ rfl⟩

theorem throw (s : Stop) : Quiet (MonadExcept.throw s : Evaluation α) := by
  rintro m r m' ⟨⟩
  exact ⟨rfl, ⟨List.suffix_rfl, rfl⟩, fun _ _ ↦ rfl⟩

theorem fail (e : RuntimeError) : Quiet (Evaluation.fail e : Evaluation α) := by
  rintro m r m' ⟨⟩
  exact ⟨rfl, ⟨List.suffix_rfl, rfl⟩, fun _ _ ↦ rfl⟩

theorem get : Quiet get := by
  rintro m r m' ⟨⟩
  exact ⟨rfl, ⟨List.suffix_rfl, rfl⟩, fun _ _ ↦ rfl⟩

theorem bind {x : Evaluation α} {f : α → Evaluation β} (hx : x.Quiet) (hf : ∀ a, (f a).Quiet) :
    (x >>= f).Quiet := by
  intro m r m' hrun
  rw [run_bind] at hrun
  rcases h : x.run m with ⟨s | a, m₁⟩
  · rw [h] at hrun
    obtain ⟨⟩ := hrun
    obtain ⟨hglobals, hgoesOn, -⟩ := hx m _ _ h
    exact ⟨hglobals, hgoesOn, fun _ hok ↦ nomatch hok⟩
  · rw [h] at hrun
    obtain ⟨hglobals, hgoesOn, hposition⟩ := hx m _ _ h
    obtain ⟨hglobals', hgoesOn', hposition'⟩ := hf a m₁ r m' hrun
    exact ⟨hglobals'.trans hglobals, hgoesOn.trans hgoesOn',
      fun b hb ↦ (hposition' b hb).trans (hposition a rfl)⟩

theorem remember (found : Option Bool) : Quiet (Evaluation.remember found) := by
  rintro m r m' ⟨⟩
  exact ⟨rfl, ⟨List.suffix_rfl, rfl⟩, fun _ _ ↦ rfl⟩

theorem write (t : Text) : Quiet (Evaluation.write t) := by
  rintro m r m' ⟨⟩
  exact ⟨rfl, ⟨List.suffix_cons t m.written, rfl⟩, fun _ _ ↦ rfl⟩

theorem writeAll (x : String) (texts : List Text) : Quiet (Evaluation.writeAll x texts) := by
  refine bind get fun m ↦ bind (write _) fun _ ↦ ?_
  split
  · exact pure _
  · exact fail _

theorem newNumber : Quiet Evaluation.newNumber := by
  rintro m r m' ⟨⟩
  exact ⟨rfl, ⟨List.suffix_rfl, rfl⟩, fun _ _ ↦ rfl⟩

theorem operate (op : Written Operator) (a b : Value) : Quiet (Evaluation.operate op a b) := by
  cases op with
  | unknown symbol => exact throw _
  | known op =>
    refine bind (remember _) fun _ ↦ ?_
    split
    · exact pure _
    · exact fail _
    · exact fail _
    · exact fail _
    · exact throw _

theorem signed (s : Written Sign) (v : Value) : Quiet (Evaluation.signed s v) := by
  cases s with
  | unknown symbol => exact throw _
  | known s =>
    unfold Evaluation.signed
    dsimp only
    split
    · exact pure _
    · exact fail _

theorem callBuiltin (x : String) (f : Builtin) (args : List Value) :
    Quiet (Evaluation.callBuiltin x f args) := by
  refine bind get fun m ↦ bind (remember _) fun _ ↦ ?_
  split
  · exact bind (writeAll x _) fun _ ↦ pure _
  · exact fail _

end Evaluation.Quiet

/-! ### What is carried out with the names of an owner -/

/-- What an expression does, told whose names it works with: the same as what is told the names
themselves, and it changes no names. If it has a value, it leaves the position as it was. -/
def Recorded.Follows {α : Type} (o : Owner) (scope : Scope) (x : Evaluation α) (y : Recorded α) :
    Prop :=
  ∀ l : Ledger, l.Has o → l.scope o = scope → ∀ r l', y.run l = (r, l') →
    x.run l.machine = (r, l'.machine) ∧ l.Grows l' ∧
      ∀ a, r = .ok a → l'.machine.position = l.machine.position

/-- What a statement does, told whose names it works with: the same as what answers the scope behind
it as well, and it binds some names of that owner only. -/
def Recorded.Performs (o : Owner) (scope : Scope) (xs : List String)
    (x : Evaluation (Value × Scope)) (y : Recorded Value) : Prop :=
  ∀ l : Ledger, l.Has o → l.scope o = scope → ∀ r l', y.run l = (r, l') →
    x.run l.machine = (r.map fun v ↦ (v, l'.scope o), l'.machine) ∧ Ledger.Binds o xs l l'

namespace Recorded

variable {α β : Type} {o : Owner} {scope : Scope} {xs ys : List String}

theorem Follows.bind {x : Evaluation α} {y : Recorded α} {f : α → Evaluation β}
    {g : α → Recorded β} (hx : Follows o scope x y) (hf : ∀ a, Follows o scope (f a) (g a)) :
    Follows o scope (x >>= f) (y >>= g) := by
  intro l ho hs r l' hrun
  rw [Recorded.run_bind] at hrun
  rcases hy : y.run l with ⟨s | a, l₁⟩
  · rw [hy] at hrun
    obtain ⟨⟩ := hrun
    obtain ⟨hagree, hgrows, -⟩ := hx l ho hs _ _ hy
    exact ⟨Evaluation.run_bind_of_error hagree, hgrows, fun _ hok ↦ nomatch hok⟩
  · rw [hy] at hrun
    obtain ⟨hagree, hgrows, hposition⟩ := hx l ho hs _ _ hy
    obtain ⟨hagree', hgrows', hposition'⟩ :=
      hf a l₁ (hgrows.has o ho) ((hgrows.scope_eq ho).trans hs) r l' hrun
    exact ⟨(Evaluation.run_bind_of_ok hagree).trans hagree', hgrows.trans hgrows',
      fun b hb ↦ (hposition' b hb).trans (hposition a rfl)⟩

/-- A statement may begin with an expression. -/
theorem Performs.bind {x : Evaluation α} {y : Recorded α}
    {f : α → Evaluation (Value × Scope)} {g : α → Recorded Value} (hx : Follows o scope x y)
    (hf : ∀ a, Performs o scope xs (f a) (g a)) : Performs o scope xs (x >>= f) (y >>= g) := by
  intro l ho hs r l' hrun
  rw [Recorded.run_bind] at hrun
  rcases hy : y.run l with ⟨s | a, l₁⟩
  · rw [hy] at hrun
    obtain ⟨⟩ := hrun
    obtain ⟨hagree, hgrows, -⟩ := hx l ho hs _ _ hy
    exact ⟨Evaluation.run_bind_of_error hagree, hgrows.binds ho⟩
  · rw [hy] at hrun
    obtain ⟨hagree, hgrows, -⟩ := hx l ho hs _ _ hy
    obtain ⟨hagree', hbinds⟩ :=
      hf a l₁ (hgrows.has o ho) ((hgrows.scope_eq ho).trans hs) r l' hrun
    exact ⟨(Evaluation.run_bind_of_ok hagree).trans hagree', (hgrows.binds ho).trans hbinds⟩

/-- What touches no names does the same, whoever it is carried out for. -/
theorem Follows.lift {x : Evaluation α} (hx : x.Quiet) : Follows o scope x (Recorded.lift x) := by
  intro l ho hs r l' hrun
  rw [run_lift] at hrun
  obtain ⟨rfl, rfl⟩ := hrun
  obtain ⟨hglobals, hgoesOn, hposition⟩ := hx l.machine _ _ rfl
  exact ⟨rfl, .of_machine hglobals hgoesOn, hposition⟩

theorem Follows.pure (a : α) : Follows o scope (Pure.pure a) (Pure.pure a) :=
  .lift (.pure a)

theorem Follows.throw (s : Stop) :
    Follows (α := α) o scope (MonadExcept.throw s) (MonadExcept.throw s) :=
  .lift (.throw s)

theorem Follows.fail (e : RuntimeError) :
    Follows (α := α) o scope (Evaluation.fail e) (Recorded.lift (Evaluation.fail e)) :=
  .lift (.fail e)

theorem Follows.outOfFrames :
    Follows (α := α) o scope Sangria.outOfFrames (Recorded.lift Sangria.outOfFrames) :=
  .lift (.throw _)

theorem Follows.lookUp (x : String) :
    Follows o scope (Evaluation.lookUp scope x) (Recorded.lookUp o x) := by
  intro l ho hs r l' hrun
  subst hs
  rw [run_lookUp] at hrun
  rw [Sangria.run_lookUp, l.found?_scope]
  cases hfound : l.found? o x with
  | some v =>
    rw [hfound] at hrun
    obtain ⟨rfl, rfl⟩ := hrun
    exact ⟨rfl, .refl l, fun _ _ ↦ rfl⟩
  | none =>
    rw [hfound] at hrun
    obtain ⟨rfl, rfl⟩ := hrun
    exact ⟨rfl, .refl l, fun _ _ ↦ rfl⟩

/-- Expressions in a row. -/
theorem Follows.mapM {γ : Type} {f : γ → Evaluation α} {g : γ → Recorded α} {as : List γ}
    (h : ∀ a ∈ as, Follows o scope (f a) (g a)) :
    Follows o scope (as.mapM f) (as.mapM g) := by
  induction as with
  | nil => exact .pure []
  | cons a rest ih =>
    obtain ⟨ha, hrest⟩ := List.forall_mem_cons.1 h
    rw [List.mapM_cons, List.mapM_cons]
    exact .bind ha fun b ↦ .bind (ih hrest) fun bs ↦ .pure (b :: bs)

/-- What has the value of an expression, with the scope that was passed along, binds no names. -/
theorem Performs.of_follows {x : Evaluation Value} {y : Recorded Value} (h : Follows o scope x y) :
    Performs o scope xs (do return (← x, scope)) y := by
  intro l ho hs r l' hrun
  obtain ⟨hagree, hgrows, -⟩ := h l ho hs r l' hrun
  refine ⟨?_, hgrows.binds ho⟩
  cases r with
  | error s => exact Evaluation.run_bind_of_error hagree
  | ok v =>
    rw [Evaluation.run_bind_of_ok hagree, Evaluation.run_pure, ← hs, ← hgrows.scope_eq ho]
    rfl

theorem Performs.mono {x : Evaluation (Value × Scope)} {y : Recorded Value}
    (h : Performs o scope xs x y) (hsub : xs ⊆ ys) : Performs o scope ys x y := by
  intro l ho hs r l' hrun
  obtain ⟨hagree, hbinds⟩ := h l ho hs r l' hrun
  exact ⟨hagree, hbinds.mono hsub⟩

/-- A statement may end with the binding of a name. -/
theorem performs_bindName (x : String) (v : Value) :
    Performs o scope [x] (do return (v, ← Evaluation.bindName scope x v))
      (do Recorded.bindName o x v; return v) := by
  rintro l ho hs r l' ⟨⟩
  subst hs
  refine ⟨?_, Ledger.binds_bind ho x v⟩
  cases o with
  | top => rfl
  | call i =>
    have hscope : (l.bind (.call i) x v).scope (.call i) =
        .call ((l.names (.call i)).set x v) :=
      congrArg Scope.call (l.names_bind_self x v ho)
    show _ = (Except.ok (v, (l.bind (.call i) x v).scope (.call i)), _)
    rw [hscope]
    rfl

/-- Whatever the position, a statement can be entered. -/
theorem Performs.enter_bind {x : Evaluation (Value × Scope)} {y : Recorded Value}
    (p : Option Position) (h : Performs o scope xs x y) :
    Performs o scope xs (do Evaluation.enter p; x) (do Recorded.lift (Evaluation.enter p); y) := by
  intro l ho hs r l' hrun
  let entered : Ledger := { l with machine := { l.machine with position := p } }
  have hgrows : l.Grows entered := .of_machine rfl ⟨List.suffix_rfl, rfl⟩
  obtain ⟨hagree, hbinds⟩ :=
    h entered (hgrows.has o ho) ((hgrows.scope_eq ho).trans hs) r l' hrun
  exact ⟨hagree, (hgrows.binds ho).trans hbinds⟩

/-- Statements in a row, each of which goes on from the scope behind the one before. -/
theorem Performs.foldlM {γ : Type} {f : Value × Scope → γ → Evaluation (Value × Scope)}
    {g : Value → γ → Recorded Value} {cs : List γ} (v : Value)
    (h : ∀ c ∈ cs, ∀ v scope, Performs o scope xs (f (v, scope) c) (g v c)) :
    Performs o scope xs (cs.foldlM f (v, scope)) (cs.foldlM g v) := by
  induction cs generalizing v scope with
  | nil => exact .of_follows (.pure v)
  | cons c rest ih =>
    obtain ⟨hc, hrest⟩ := List.forall_mem_cons.1 h
    rw [List.foldlM_cons, List.foldlM_cons]
    -- the scope behind a statement is known from the ledger behind it only, not from its value
    intro l ho hs r l' hrun
    rw [Recorded.run_bind] at hrun
    rcases hg : (g v c).run l with ⟨s | w, l₁⟩
    · rw [hg] at hrun
      obtain ⟨⟩ := hrun
      obtain ⟨hagree, hbinds⟩ := hc v scope l ho hs _ _ hg
      exact ⟨Evaluation.run_bind_of_error hagree, hbinds⟩
    · rw [hg] at hrun
      obtain ⟨hagree, hbinds⟩ := hc v scope l ho hs _ _ hg
      obtain ⟨hagree', hbinds'⟩ := ih w hrest l₁ (hbinds.has o ho) rfl r l' hrun
      exact ⟨(Evaluation.run_bind_of_ok hagree).trans hagree', hbinds.trans hbinds'⟩

/-- What binds names of a new call only is an expression for whoever calls, because its owner was
not there before, and the position is put back. -/
theorem Follows.newCall (names : Bindings) {x : Evaluation (Value × Scope)}
    {y : Owner → Recorded Value} (h : ∀ i, Performs (.call i) (.call names) xs x (y (.call i))) :
    Follows o scope
      (do
        let caller := (← get).position
        let (v, _) ← x
        Evaluation.enter caller
        return v)
      (do
        let caller := (← get).machine.position
        let o ← Recorded.newCall names
        let v ← y o
        Recorded.lift (Evaluation.enter caller)
        return v) := by
  intro l ho hs r l' hrun
  let begun := l.extend names
  have hscope : begun.scope (.call l.calls.length) = .call names :=
    congrArg Scope.call (l.names_extend_new names)
  have hcall := h l.calls.length begun (l.has_extend_new names) hscope
  -- the machine of the ledger is the same with the new call in it
  replace hrun : (y (.call l.calls.length) >>= fun v ↦ do
      Recorded.lift (Evaluation.enter l.machine.position)
      return v).run begun = (r, l') := hrun
  show (x >>= fun (v, _) ↦ do
      Evaluation.enter l.machine.position
      return v).run begun.machine = (r, l'.machine) ∧ _
  rw [Recorded.run_bind] at hrun
  rcases hy : (y (.call l.calls.length)).run begun with ⟨s | v, l₁⟩
  · rw [hy] at hrun
    obtain ⟨⟩ := hrun
    obtain ⟨hagree, hbinds⟩ := hcall _ _ hy
    exact ⟨Evaluation.run_bind_of_error hagree, hbinds.grows_of_extend, fun _ hok ↦ nomatch hok⟩
  · rw [hy] at hrun
    obtain ⟨⟩ := hrun
    obtain ⟨hagree, hbinds⟩ := hcall _ _ hy
    exact ⟨Evaluation.run_bind_of_ok hagree,
      hbinds.grows_of_extend.trans (.of_machine rfl ⟨List.suffix_rfl, rfl⟩), fun _ _ ↦ rfl⟩

end Recorded

/-! ### All that a run is made of -/

open Recorded

/-- With so many frames, expressions change no names, and statements only those that they bind. -/
structure FramedWithin (n : Nat) : Prop where
  /-- Expressions. -/
  evaluate : ∀ o scope e, Follows o scope (evaluate n scope e) (evaluateIn n o e)
  /-- Arguments. -/
  evaluateAll : ∀ o scope es, Follows o scope (evaluateAll n scope es) (evaluateAllIn n o es)
  /-- Calls, whoever calls. -/
  callFunction : ∀ o scope name params body args,
    Follows o scope (callFunction n name params body args) (callFunctionIn n name params body args)
  /-- Blocks. -/
  execBlock : ∀ o scope b,
    Performs o scope (Block.targets b) (execBlock n scope b) (execBlockIn n o b)
  /-- Statements. -/
  exec : ∀ o scope s, Performs o scope s.targets (exec n scope s) (execIn n o s)

section Steps

variable {n : Nat} (ih : ∀ k < n, FramedWithin k) (o : Owner) (scope : Scope)

theorem performs_outOfFrames {xs : List String} :
    Performs o scope xs outOfFrames (Recorded.lift outOfFrames) :=
  Performs.of_follows (x := outOfFrames) .outOfFrames

include ih

theorem framed_evaluate (e : Expr) : Follows o scope (evaluate n scope e) (evaluateIn n o e) := by
  unfold evaluate evaluateIn
  rcases n with - | - | n
  · exact .outOfFrames
  · cases e with
    | foreign tag => exact .throw _
    | _ => exact .outOfFrames
  · have ih := ih n (by omega)
    cases e with
    | literal v => exact .pure _
    | name x => exact .lookUp x
    | binary op l r =>
      exact .bind (ih.evaluate o scope l) fun a ↦ .bind (ih.evaluate o scope r) fun b ↦
        .lift (.operate op a b)
    | and l r =>
      refine .bind (ih.evaluate o scope l) fun a ↦ ?_
      split
      · exact ih.evaluate o scope r
      · exact .pure a
    | or l r =>
      refine .bind (ih.evaluate o scope l) fun a ↦ ?_
      split
      · exact .pure a
      · exact ih.evaluate o scope r
    | not e => exact .bind (ih.evaluate o scope e) fun a ↦ .pure _
    | signed s e => exact .bind (ih.evaluate o scope e) fun a ↦ .lift (.signed s a)
    | call f args =>
      refine .bind (.lookUp f) fun callee ↦ .bind (ih.evaluateAll o scope args) fun values ↦ ?_
      cases callee with
      | function number name params body => exact ih.callFunction o scope name params body values
      | builtin b => exact .lift (.callBuiltin f b values)
      | _ => exact .fail _
    | foreign tag => exact .throw _

theorem framed_evaluateAll (es : List Expr) :
    Follows o scope (evaluateAll n scope es) (evaluateAllIn n o es) := by
  unfold evaluateAll evaluateAllIn
  split
  · exact .outOfFrames
  · rename_i n
    exact .mapM fun e _ ↦ (ih n (Nat.lt_succ_self n)).evaluate o scope e

theorem framed_callFunction (name : String) (params : List String) (body : Block)
    (args : List Value) :
    Follows o scope (callFunction n name params body args)
      (callFunctionIn n name params body args) := by
  unfold callFunction callFunctionIn
  split
  · exact .outOfFrames
  · rename_i n
    split
    · exact .fail _
    · exact .newCall (params.zip args) fun i ↦
        (ih n (Nat.lt_succ_self n)).execBlock (.call i) (.call (params.zip args)) body

theorem framed_execBlock (b : Block) :
    Performs o scope (Block.targets b) (execBlock n scope b) (execBlockIn n o b) := by
  unfold execBlock execBlockIn
  split
  · exact performs_outOfFrames o scope
  · rename_i n
    exact .foldlM .none fun s hmem v scope ↦ .enter_bind (some s.position)
      (((ih n (Nat.lt_succ_self n)).exec o scope s.item).mono (Block.targets_subset hmem))

theorem framed_assign (x : String) (op : Option (Written Operator)) (e : Expr) :
    Performs o scope [x] (assign n scope x op e) (assignIn n o x op e) := by
  unfold assign assignIn
  split
  · exact performs_outOfFrames o scope
  · rename_i n
    refine .bind ((ih n (Nat.lt_succ_self n)).evaluate o scope e) fun v ↦ ?_
    cases op with
    | none => exact .bind (.pure v) (performs_bindName x)
    | some op =>
      exact .bind (.lookUp x) fun old ↦ .bind (.lift (.operate op old v)) (performs_bindName x)

theorem framed_branch (c : Expr) (body : Block) (otherwise : Option Block) :
    Performs o scope (Stmt.branch c body otherwise).targets (branch n scope c body otherwise)
      (branchIn n o c body otherwise) := by
  unfold branch branchIn
  split
  · exact performs_outOfFrames o scope
  · rename_i n
    have ih := ih n (Nat.lt_succ_self n)
    refine .bind (ih.evaluate o scope c) fun v ↦ ?_
    cases otherwise with
    | none =>
      rw [Stmt.targets]
      split
      · exact ih.execBlock o scope body
      · exact .of_follows (.pure _)
    | some other =>
      rw [Stmt.targets]
      split
      · exact (ih.execBlock o scope body).mono (List.subset_append_left _ _)
      · exact (ih.execBlock o scope other).mono (List.subset_append_right _ _)

theorem framed_exec (s : Stmt) :
    Performs o scope s.targets (exec n scope s) (execIn n o s) := by
  unfold exec execIn
  split
  · exact performs_outOfFrames o scope
  · rename_i n
    have ih' : ∀ k < n, FramedWithin k := fun k hk ↦ ih k (by omega)
    cases s with
    | eval e => exact .of_follows ((ih n (Nat.lt_succ_self n)).evaluate o scope e)
    | assign x op e => exact framed_assign ih' o scope x op e
    | define f params body =>
      dsimp only
      split
      · exact performs_outOfFrames o scope
      · split
        · exact .bind (.lift .newNumber) fun number ↦
            performs_bindName f (.function number f params body)
        · exact .of_follows (x := Evaluation.fail _) (.fail _)
    | branch c body otherwise => exact framed_branch ih' o scope c body otherwise

end Steps

/-- Expressions change no names, and statements only those that they bind, whatever the frames. -/
theorem framedWithin (n : Nat) : FramedWithin n := by
  induction n using Nat.strongRecOn with
  | ind n ih =>
    exact ⟨framed_evaluate ih, framed_evaluateAll ih, framed_callFunction ih, framed_execBlock ih,
      framed_exec ih⟩

/-- What changes nobody's names, whoever it is carried out for, touches none at top level. -/
theorem quiet_of_follows {α : Type} (scope : Scope) {x : Evaluation α} {y : Owner → Recorded α}
    (h : ∀ o, Follows o scope x (y o)) : x.Quiet := by
  rintro m r m' hrun
  obtain ⟨l, o, ho, rfl, hs⟩ := Ledger.exists_of_scope m scope
  obtain ⟨hagree, hgrows, hposition⟩ := h o l ho hs _ _ rfl
  obtain ⟨rfl, rfl⟩ := Prod.mk.inj (hrun.symm.trans hagree)
  exact ⟨hgrows.names .top trivial, hgrows.goesOn, hposition⟩

theorem quiet_evaluate (n : Nat) (scope : Scope) (e : Expr) : (evaluate n scope e).Quiet :=
  quiet_of_follows scope fun o ↦ (framedWithin n).evaluate o scope e

/-- An expression leaves the names at top level alone. -/
theorem globals_of_evaluate {n : Nat} {scope : Scope} {e : Expr} {m m' : Machine}
    {r : Except Stop Value} (h : (evaluate n scope e).run m = (r, m')) : m'.globals = m.globals :=
  (quiet_evaluate n scope e m r m' h).1

/-- An expression leaves alone what names stand for, also those that it does not look at. -/
theorem Machine.found?_of_evaluate {n : Nat} {scope : Scope} {e : Expr} {m m' : Machine}
    {r : Except Stop Value} (h : (evaluate n scope e).run m = (r, m')) (scope' : Scope)
    (x : String) : m'.found? scope' x = m.found? scope' x := by
  obtain ⟨hglobals, hgoesOn, -⟩ := quiet_evaluate n scope e m r m' h
  rw [found?, found?, hglobals, hgoesOn.host]

/-- With the names of any owner in any ledger, the top level or a call under way, and whether it has
a value or fails:

* an expression comes to what it comes to with the names passed along, and behind it the top level
  and every call that was ever begun have the names they had, what was written is only added to, and
  if there is a value, the position is the same as before;
* a statement comes to what it comes to with the names passed along, and behind it every other owner
  has the names it had, and this one too but for names that the statement binds itself, outside the
  blocks of functions;
* so whatever the block of a function binds, a call of it leaves all names there are alone. -/
theorem Ledger.frame (n : Nat) {l : Ledger} {o : Owner} (ho : l.Has o) :
    (∀ e, let (r, l') := (evaluateIn n o e).run l
      (evaluate n (l.scope o) e).run l.machine = (r, l'.machine) ∧
        (∀ o', l.Has o' → l'.names o' = l.names o') ∧
        l.machine.output <+: l'.machine.output ∧
        ∀ v, r = .ok v → l'.machine.position = l.machine.position) ∧
    (∀ s, let (r, l') := (execIn n o s).run l
      (exec n (l.scope o) s).run l.machine = (r.map fun v ↦ (v, l'.scope o), l'.machine) ∧
        (∀ o', o' ≠ o → l.Has o' → l'.names o' = l.names o') ∧
        (∀ x, x ∉ s.targets → (l'.names o).get? x = (l.names o).get? x) ∧
        l.machine.output <+: l'.machine.output) ∧
    ∀ name params body args, let (r, l') := (callFunctionIn n name params body args).run l
      (callFunction n name params body args).run l.machine = (r, l'.machine) ∧
        ∀ o', l.Has o' → l'.names o' = l.names o' := by
  refine ⟨fun e ↦ ?_, fun s ↦ ?_, fun name params body args ↦ ?_⟩
  · rcases h : (evaluateIn n o e).run l with ⟨r, l'⟩
    obtain ⟨hagree, hgrows, hposition⟩ := (framedWithin n).evaluate o _ e l ho rfl r l' h
    exact ⟨hagree, hgrows.names, Machine.output_prefix hgrows.goesOn.written, hposition⟩
  · rcases h : (execIn n o s).run l with ⟨r, l'⟩
    obtain ⟨hagree, hbinds⟩ := (framedWithin n).exec o _ s l ho rfl r l' h
    exact ⟨hagree, hbinds.others, hbinds.own, Machine.output_prefix hbinds.goesOn.written⟩
  · rcases h : (callFunctionIn n name params body args).run l with ⟨r, l'⟩
    obtain ⟨hagree, hgrows, -⟩ :=
      (framedWithin n).callFunction o _ name params body args l ho rfl r l' h
    exact ⟨hagree, hgrows.names⟩

/-- A function that binds `x` and `y` is called from a call that has an `x`, where the top level has
an `x` too: none of them changes. -/
theorem Ledger.frame_call :
    let body : Block :=
      [⟨⟨1, 1⟩, .assign "x" none (.name "a")⟩, ⟨⟨2, 1⟩, .assign "y" none (.name "x")⟩]
    let m : Machine := { Machine.initial with
      globals := [("x", .int 1), ("f", .function 0 "f" ["a"] body)] }
    let l : Ledger := ⟨m, [[("x", .int 2)]]⟩
    let (r, l') := (evaluateIn 20 (.call 0) (.call "f" [.literal (.int 3)])).run l
    l.Has (.call 0) ∧ r = .ok (.int 3) ∧ l'.names .top = m.globals ∧
      l'.names (.call 0) = [("x", .int 2)] ∧ l'.machine.position = m.position := by
  intro body m l
  have ho : l.Has (.call 0) := Nat.zero_lt_one
  obtain ⟨-, hnames, -, hposition⟩ :=
    (Ledger.frame 20 ho).1 (.call "f" [.literal (.int 3)])
  have hvalue : ((evaluateIn 20 (.call 0) (.call "f" [.literal (.int 3)])).run l).1 =
      .ok (.int 3) := by rfl
  exact ⟨ho, hvalue, hnames .top trivial, hnames (.call 0) ho, hposition _ hvalue⟩

end Sangria
