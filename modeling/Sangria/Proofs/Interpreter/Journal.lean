import Sangria.Proofs.Interpreter.Framing

/-!
# What a run that fails leaves behind

A statement binds its name last. So where a binding, a definition or an expression fails, for
whatever reason and however deep in the calls that it makes, no names have changed, whoever has them
(`Recorded.BindsLast`).

A branch may have carried out statements before it fails. So what a run leaves behind is told
statement by statement: a `Journal` has an entry for each binding and each definition at top level
that was completed, made when it was, and it has none for anything else. The names at top level are
what the entries make of those before the run, in whatever way the run ends, and the next run goes
on from there (`failure_binds_nothing`).
-/

namespace Sangria

/-- The name that a statement binds, if it is a binding or a definition. -/
def Stmt.target? : Stmt → Option String
  | .assign x _ _ => some x
  | .define f _ _ => some f
  | _ => none

/-- Whether a statement may carry out others. -/
def Stmt.isBranch : Stmt → Bool
  | .branch _ _ _ => true
  | _ => false

/-! ### Statements that fail -/

namespace Recorded

/-- A statement that is no branch does what an expression does, and then binds its name to what it
answers, if it has a name to bind. -/
def BindsLast (o : Owner) (scope : Scope) (target : Option String) (y : Recorded Value) : Prop :=
  ∀ l : Ledger, l.Has o → l.scope o = scope → ∀ r l', y.run l = (r, l') →
    match r with
    | .error _ => l.Grows l'
    | .ok v => ∃ l₁, l.Grows l₁ ∧ l' = target.elim l₁ fun x ↦ l₁.bind o x v

namespace BindsLast

variable {α : Type} {o : Owner} {scope : Scope} {target : Option String}

/-- An expression binds no name. -/
theorem of_follows {x : Evaluation Value} {y : Recorded Value} (h : Follows o scope x y) :
    BindsLast o scope none y := by
  intro l ho hs r l' hrun
  obtain ⟨-, hgrows, -⟩ := h l ho hs r l' hrun
  cases r with
  | error s => exact hgrows
  | ok v => exact ⟨l', hgrows, rfl⟩

/-- What only fails binds nothing. -/
theorem fail (e : RuntimeError) : BindsLast o scope target (lift (Evaluation.fail e)) := by
  rintro l - - r l' ⟨⟩
  exact .refl l

theorem outOfFrames : BindsLast o scope target (lift outOfFrames) := by
  rintro l - - r l' ⟨⟩
  exact .refl l

theorem bindName (x : String) (v : Value) :
    BindsLast o scope (some x) (do Recorded.bindName o x v; return v) := by
  rintro l - - r l' ⟨⟩
  exact ⟨l, .refl l, rfl⟩

/-- What comes before is an expression. -/
theorem bind {x : Evaluation α} {y : Recorded α} {g : α → Recorded Value}
    (hx : Follows o scope x y) (hg : ∀ a, BindsLast o scope target (g a)) :
    BindsLast o scope target (y >>= g) := by
  intro l ho hs r l' hrun
  rw [run_bind] at hrun
  rcases hy : y.run l with ⟨s | a, l₁⟩
  · rw [hy] at hrun
    obtain ⟨⟩ := hrun
    obtain ⟨-, hgrows, -⟩ := hx l ho hs _ _ hy
    exact hgrows
  · rw [hy] at hrun
    obtain ⟨-, hgrows, -⟩ := hx l ho hs _ _ hy
    have hlater := hg a l₁ (hgrows.has o ho) ((hgrows.scope_eq ho).trans hs) r l' hrun
    cases r with
    | error s => exact hgrows.trans hlater
    | ok v =>
      obtain ⟨l₂, hgrows', heq⟩ := hlater
      exact ⟨l₂, hgrows.trans hgrows', heq⟩

end BindsLast

/-- A statement that is no branch binds its name last. -/
theorem bindsLast_exec (n : Nat) (o : Owner) (scope : Scope) {s : Stmt} (hs : s.isBranch = false) :
    BindsLast o scope s.target? (execIn n o s) := by
  unfold execIn
  split
  · exact .outOfFrames
  · rename_i n
    cases s with
    | eval e => exact .of_follows ((framedWithin n).evaluate o scope e)
    | assign x op e =>
      dsimp only
      unfold assignIn
      split
      · exact .outOfFrames
      · rename_i n
        refine .bind ((framedWithin n).evaluate o scope e) fun v ↦ ?_
        cases op with
        | none => exact .bind (.pure v) (.bindName x)
        | some op =>
          exact .bind (.lookUp x) fun old ↦ .bind (.lift (.operate op old v)) (.bindName x)
    | define f params body =>
      dsimp only
      split
      · exact .outOfFrames
      · split
        · exact .bind (.lift .newNumber) fun number ↦ .bindName f (.function number f params body)
        · exact .fail _
    | branch c body otherwise => exact absurd hs (by simp [Stmt.isBranch])

end Recorded

/-! ### Entries -/

/-- Make entries in names, one after the other. -/
def Bindings.record (b : Bindings) (entries : List (String × Value)) : Bindings :=
  entries.foldl (fun b e ↦ b.set e.1 e.2) b

theorem Bindings.record_append (b : Bindings) (es es' : List (String × Value)) :
    b.record (es ++ es') = (b.record es).record es' :=
  List.foldl_append

/-- A statement at top level that is no branch makes one entry if it is completed and has a name to
bind, and none if it fails. -/
theorem globals_of_exec {n : Nat} {s : Stmt} (hs : s.isBranch = false) {m m' : Machine}
    {r : Except Stop (Value × Scope)} (h : (exec n .top s).run m = (r, m')) :
    (∀ e, r = .error e → m'.globals = m.globals) ∧
    ∀ v scope, r = .ok (v, scope) → scope = .top ∧
      m'.globals = m.globals.record (s.target?.map fun x ↦ (x, v)).toList := by
  rcases hrun : (execIn n .top s).run ⟨m, []⟩ with ⟨r₁, l⟩
  obtain ⟨hagree, -⟩ := (framedWithin n).exec .top .top s ⟨m, []⟩ trivial rfl _ _ hrun
  have hlast := Recorded.bindsLast_exec n .top .top hs ⟨m, []⟩ trivial rfl _ _ hrun
  obtain ⟨rfl, rfl⟩ := Prod.mk.inj (h.symm.trans hagree)
  cases r₁ with
  | error e =>
    exact ⟨fun _ _ ↦ hlast.names .top trivial, fun v scope hok ↦ absurd hok (by simp [Except.map])⟩
  | ok v =>
    refine ⟨fun e herror ↦ absurd herror (by simp [Except.map]), fun v' scope hok ↦ ?_⟩
    obtain ⟨rfl, rfl⟩ := Prod.mk.inj (Except.ok.inj hok)
    obtain ⟨l₁, hgrows, rfl⟩ := hlast
    have hnames : l₁.machine.globals = m.globals := hgrows.names .top trivial
    refine ⟨rfl, ?_⟩
    cases s.target? with
    | none => exact hnames
    | some x => exact congrArg (Bindings.set · x v) hnames

/-! ### An interpreter that keeps a journal -/

/-- A machine and a journal of the bindings and definitions that were completed at top level, the
first one first. -/
structure Journal where
  /-- The machine. -/
  machine : Machine
  /-- The names that were bound and what they were bound to. -/
  entries : List (String × Value)

/-- Something carried out with a journal; its entries stay when it stops early. -/
abbrev Journaled := ExceptT Stop (StateM Journal)

namespace Journaled

/-- What the interpreter does, of which nothing is noted. -/
def lift {α : Type} (x : Evaluation α) : Journaled α :=
  ExceptT.mk fun j ↦
    let (r, m) := x.run j.machine
    (r, { j with machine := m })

/-- Note what a name was bound to, if there is a name. -/
def note (target : Option String) (v : Value) : Journaled Unit :=
  modify fun j ↦ { j with entries := j.entries ++ (target.map fun x ↦ (x, v)).toList }

end Journaled

open Journaled

mutual

/-- Carry out the statements of a block at top level in order. -/
def execBlockNoting (frames : Nat) (b : Block) : Journaled Value :=
  match frames with
  | 0 => lift outOfFrames
  | n + 1 =>
    b.foldlM (fun (_ : Value) s ↦ do
      lift (Evaluation.enter (some s.position))
      execNoting n s.item) .none

/-- Carry out one statement at top level. The statements of a branch are noted one by one; any other
is carried out as a whole, and noted when it is completed. -/
def execNoting (frames : Nat) (s : Stmt) : Journaled Value :=
  match frames, s with
  | n + 2, .branch c body otherwise => do
    let v ← lift (evaluate n .top c)
    if v.truthy then execBlockNoting n body
    else match otherwise with
      | some b => execBlockNoting n b
      | none => return .none
  | frames, s => do
    let (v, _) ← lift (exec frames .top s)
    note s.target? v
    return v

end

namespace Journaled

variable {α β : Type}

theorem run_bind (y : Journaled α) (g : α → Journaled β) (j : Journal) :
    (y >>= g).run j = match y.run j with
      | (.ok a, j') => (g a).run j'
      | (.error s, j') => (.error s, j') := by
  show (match y.run j with
    | (r, j') => (ExceptT.bindCont g r) j') = _
  rcases y.run j with ⟨s | a, j'⟩
  · rfl
  · rfl

/-- What is carried out with a journal does at top level what is carried out without one, and the
names at top level are what the new entries make of those before. -/
def Notes (x : Evaluation (Value × Scope)) (y : Journaled Value) : Prop :=
  ∀ j r j', y.run j = (r, j') →
    x.run j.machine = (r.map fun v ↦ (v, .top), j'.machine) ∧
      ∃ new, j'.entries = j.entries ++ new ∧ j'.machine.globals = j.machine.globals.record new

namespace Notes

theorem pure (v : Value) : Notes (Pure.pure (v, .top)) (Pure.pure v) := by
  rintro j r j' ⟨⟩
  exact ⟨rfl, [], (List.append_nil _).symm, rfl⟩

/-- What leaves the names at top level alone may come before. -/
theorem bind {x : Evaluation α} {f : α → Evaluation (Value × Scope)} {g : α → Journaled Value}
    (hx : ∀ m r m', x.run m = (r, m') → m'.globals = m.globals) (hf : ∀ a, Notes (f a) (g a)) :
    Notes (x >>= f) (lift x >>= g) := by
  intro j r j' hrun
  have hlift : (lift x).run j = ((x.run j.machine).1, ⟨(x.run j.machine).2, j.entries⟩) := rfl
  rw [run_bind, hlift] at hrun
  rcases h : x.run j.machine with ⟨s | a, m⟩
  · rw [h] at hrun
    obtain ⟨⟩ := hrun
    exact ⟨Evaluation.run_bind_of_error h, [], (List.append_nil _).symm, hx _ _ _ h⟩
  · rw [h] at hrun
    obtain ⟨hagree, new, hentries, hglobals⟩ := hf a _ _ _ hrun
    exact ⟨(Evaluation.run_bind_of_ok h).trans hagree, new, hentries,
      hglobals.trans (congrArg (Bindings.record · new) (hx _ _ _ h))⟩

theorem outOfFrames : Notes Sangria.outOfFrames (lift Sangria.outOfFrames) := by
  rintro j r j' ⟨⟩
  exact ⟨rfl, [], (List.append_nil _).symm, rfl⟩

/-- Statements in a row. -/
theorem foldlM {γ : Type} {f : Value × Scope → γ → Evaluation (Value × Scope)}
    {g : Value → γ → Journaled Value} {cs : List γ} (v : Value)
    (h : ∀ c ∈ cs, ∀ v, Notes (f (v, .top) c) (g v c)) :
    Notes (cs.foldlM f (v, .top)) (cs.foldlM g v) := by
  induction cs generalizing v with
  | nil => exact .pure v
  | cons c rest ih =>
    obtain ⟨hc, hrest⟩ := List.forall_mem_cons.1 h
    rw [List.foldlM_cons, List.foldlM_cons]
    intro j r j' hrun
    rw [run_bind] at hrun
    rcases hg : (g v c).run j with ⟨s | w, j₁⟩
    · rw [hg] at hrun
      obtain ⟨⟩ := hrun
      obtain ⟨hagree, hnoted⟩ := hc v _ _ _ hg
      exact ⟨Evaluation.run_bind_of_error hagree, hnoted⟩
    · rw [hg] at hrun
      obtain ⟨hagree, new, hentries, hglobals⟩ := hc v _ _ _ hg
      obtain ⟨hagree', new', hentries', hglobals'⟩ := ih w hrest _ _ _ hrun
      refine ⟨(Evaluation.run_bind_of_ok hagree).trans hagree', new ++ new', ?_, ?_⟩
      · rw [hentries', hentries, List.append_assoc]
      · rw [hglobals', hglobals, Bindings.record_append]

/-- A statement that is no branch is noted when it is completed. -/
theorem statement (n : Nat) {s : Stmt} (hs : s.isBranch = false) :
    Notes (exec n .top s) (do
      let (v, _) ← lift (exec n .top s)
      note s.target? v
      return v) := by
  intro j r j' hrun
  have hlift : (lift (exec n .top s)).run j = (((exec n .top s).run j.machine).1,
    ⟨((exec n .top s).run j.machine).2, j.entries⟩) := rfl
  rw [run_bind, hlift] at hrun
  rcases h : (exec n .top s).run j.machine with ⟨e | ⟨v, scope⟩, m⟩
  · rw [h] at hrun
    obtain ⟨⟩ := hrun
    exact ⟨rfl, [], (List.append_nil _).symm, (globals_of_exec hs h).1 e rfl⟩
  · rw [h] at hrun
    obtain ⟨⟩ := hrun
    obtain ⟨rfl, hglobals⟩ := (globals_of_exec hs h).2 v scope rfl
    exact ⟨rfl, _, rfl, hglobals⟩

end Notes

end Journaled

/-- With so many frames, blocks and statements are carried out with a journal as without one. -/
structure NotesWithin (n : Nat) : Prop where
  /-- Blocks. -/
  execBlock : ∀ b, Notes (execBlock n .top b) (execBlockNoting n b)
  /-- Statements. -/
  exec : ∀ s, Notes (exec n .top s) (execNoting n s)

section Steps

variable {n : Nat} (ih : ∀ k < n, NotesWithin k)

include ih

theorem notes_execBlock (b : Block) : Notes (execBlock n .top b) (execBlockNoting n b) := by
  unfold execBlock execBlockNoting
  split
  · exact .outOfFrames
  · rename_i n
    exact .foldlM .none fun s _ v ↦ .bind (fun _ _ _ h ↦ (Prod.mk.inj h).2 ▸ rfl) fun _ ↦
      (ih n (Nat.lt_succ_self n)).exec s.item

theorem notes_exec (s : Stmt) : Notes (exec n .top s) (execNoting n s) := by
  by_cases hs : s.isBranch = false
  · have hnoting : execNoting n s = (do
        let (v, _) ← lift (exec n .top s)
        note s.target? v
        return v) := by
      unfold execNoting
      split
      · exact absurd hs (by simp [Stmt.isBranch])
      · rfl
    rw [hnoting]
    exact .statement n hs
  · cases s with
    | branch c body otherwise =>
      rcases n with - | - | n
      · exact .outOfFrames
      · exact .outOfFrames
      · have ih := ih n (by omega)
        rw [exec_branch]
        unfold execNoting
        refine .bind (fun _ _ _ ↦ globals_of_evaluate) fun v ↦ ?_
        split
        · exact ih.execBlock body
        · split
          · exact ih.execBlock _
          · exact .pure _
    | _ => exact absurd rfl hs

end Steps

theorem notesWithin (n : Nat) : NotesWithin n := by
  induction n using Nat.strongRecOn with
  | ind n ih => exact ⟨notes_execBlock ih, notes_exec ih⟩

/-! ### Runs -/

/-- A machine behind several programs that were carried out on it in turn, however each of them
ended. -/
def Machine.afterEach (frames : Nat) (m : Machine) (programs : List Block) : Machine :=
  programs.foldl (fun m program ↦ (m.runWithin frames program).2) m

/-- The same with a journal. -/
def Journal.afterEach (frames : Nat) (j : Journal) (programs : List Block) : Journal :=
  programs.foldl (fun j program ↦ ((execBlockNoting frames program).run j).2) j

/-- A run does the same with a journal. -/
theorem Notes.runWithin {n : Nat} {program : Block} {j j' : Journal} {r : Except Stop Value}
    (h : Notes (execBlock n .top program) (execBlockNoting n program))
    (hrun : (execBlockNoting n program).run j = (r, j')) :
    j.machine.runWithin n program =
        (r.mapError (·.toRunFault j'.machine.position), j'.machine) ∧
      ∃ new, j'.entries = j.entries ++ new ∧
        j'.machine.globals = j.machine.globals.record new := by
  obtain ⟨hagree, hnoted⟩ := h j r j' hrun
  refine ⟨?_, hnoted⟩
  rw [Machine.runWithin, hagree]
  cases r <;> rfl

theorem Journal.afterEach_eq (n : Nat) (j : Journal) (programs : List Block) :
    (j.afterEach n programs).machine = j.machine.afterEach n programs ∧
      ∃ new, (j.afterEach n programs).entries = j.entries ++ new ∧
        (j.afterEach n programs).machine.globals = j.machine.globals.record new := by
  induction programs generalizing j with
  | nil => exact ⟨rfl, [], (List.append_nil _).symm, rfl⟩
  | cons program rest ih =>
    rcases hrun : (execBlockNoting n program).run j with ⟨r, j₁⟩
    obtain ⟨hagree, new, hentries, hglobals⟩ :=
      Notes.runWithin ((notesWithin n).execBlock program) hrun
    have hmachine : j.machine.afterEach n (program :: rest) = j₁.machine.afterEach n rest :=
      congrArg (fun ending ↦ Machine.afterEach n ending.2 rest) hagree
    have hjournal : j.afterEach n (program :: rest) = j₁.afterEach n rest :=
      congrArg (fun ending ↦ Journal.afterEach n ending.2 rest) hrun
    obtain ⟨hagree', new', hentries', hglobals'⟩ := ih j₁
    rw [hmachine, hjournal]
    refine ⟨hagree', new ++ new', ?_, ?_⟩
    · rw [hentries', hentries, List.append_assoc]
    · rw [hglobals', hglobals, Bindings.record_append]

/-- Whatever fails binds nothing:

* where a binding, a definition or an expression is carried out with the names of any owner in any
  ledger, the top level or a call under way, and it fails, every owner that was there, this one and
  the top level among them, has the names it had;
* however a run ends, it ends as it does with a journal, and the names at top level are those that
  were there with the entries of the journal made in them, in their order;
* the same goes for several runs on one machine, each of which goes on from the names that the one
  before has left, whether it failed or not. -/
theorem failure_binds_nothing (n : Nat) :
    (∀ (l : Ledger) o s, l.Has o → s.isBranch = false →
      let (r, l') := (execIn n o s).run l
      (exec n (l.scope o) s).run l.machine = (r.map fun v ↦ (v, l'.scope o), l'.machine) ∧
        ∀ e, r = .error e → ∀ o', l.Has o' → l'.names o' = l.names o') ∧
    (∀ (m : Machine) program,
      let (r, j) := (execBlockNoting n program).run ⟨m, []⟩
      m.runWithin n program = (r.mapError (·.toRunFault j.machine.position), j.machine) ∧
        j.machine.globals = m.globals.record j.entries) ∧
    ∀ (m : Machine) programs,
      let j := Journal.afterEach n ⟨m, []⟩ programs
      j.machine = m.afterEach n programs ∧
        (m.afterEach n programs).globals = m.globals.record j.entries := by
  refine ⟨fun l o s ho hs ↦ ?_, fun m program ↦ ?_, fun m programs ↦ ?_⟩
  · rcases hrun : (execIn n o s).run l with ⟨r, l'⟩
    have hlast := Recorded.bindsLast_exec n o _ hs l ho rfl r l' hrun
    refine ⟨((framedWithin n).exec o _ s l ho rfl r l' hrun).1, ?_⟩
    rintro e rfl
    exact hlast.names
  · rcases hrun : (execBlockNoting n program).run ⟨m, []⟩ with ⟨r, j⟩
    obtain ⟨hagree, new, rfl, hglobals⟩ :=
      Notes.runWithin ((notesWithin n).execBlock program) hrun
    exact ⟨hagree, hglobals⟩
  · obtain ⟨hagree, new, hentries, hglobals⟩ := Journal.afterEach_eq n ⟨m, []⟩ programs
    refine ⟨hagree, ?_⟩
    rw [← hagree, hentries]
    exact hglobals

/-- In a call, `x` is to be what it was divided by nothing. At top level a branch binds `y` and then
fails, so `z` is never bound; the next run finds `y`. -/
theorem failure_binds_nothing_branch :
    let divide : Stmt := .assign "x" (some (.known .floorDiv)) (.literal (.int 0))
    let m : Machine := { Machine.initial with globals := [("x", .int 1)] }
    let l : Ledger := ⟨m, [[("x", .int 2)]]⟩
    let failing : Block := [⟨⟨1, 1⟩, .branch (.literal (.bool true))
      [⟨⟨2, 3⟩, .assign "y" none (.literal (.int 3))⟩, ⟨⟨3, 3⟩, divide⟩] none⟩,
      ⟨⟨4, 1⟩, .assign "z" none (.literal (.int 4))⟩]
    let next : Block := [⟨⟨1, 1⟩, .assign "x" none (.name "y")⟩]
    let r := (execIn 20 (.call 0) divide).run l
    l.Has (.call 0) ∧ divide.isBranch = false ∧ r.1 = .error (.error .divisionByZero none) ∧
      r.2.names (.call 0) = [("x", .int 2)] ∧
      (m.runWithin 20 failing).1 =
        .error (.reported (RuntimeError.divisionByZero.diagnostic (some ⟨3, 3⟩))) ∧
      (m.runWithin 20 failing).2.globals = m.globals.record [("y", .int 3)] ∧
      (m.afterEach 20 [failing, next]).globals =
        m.globals.record [("y", .int 3), ("x", .int 3)] := by
  intro divide m l failing next r
  have ho : l.Has (.call 0) := Nat.zero_lt_one
  have hr : r.1 = .error (.error .divisionByZero none) := by rfl
  obtain ⟨hstatement, hrun, hruns⟩ := failure_binds_nothing 20
  exact ⟨ho, rfl, hr, (hstatement l (.call 0) divide ho rfl).2 _ hr (.call 0) ho, rfl,
    (hrun m failing).2, (hruns m [failing, next]).2⟩

end Sangria
