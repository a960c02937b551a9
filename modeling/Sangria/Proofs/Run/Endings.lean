import Sangria.Proofs.Run.Escapes

/-!
# What a run can end with

Parser and interpreter agree on the trees that one makes and the other carries out. So on a machine
that came about by carrying out parsed programs (`Machine.Reached`), a run of a parsed program ends
in one of three ways (`Machine.Reached.answers_or_reports`): with a value, with an error of the
program, or at an operator `%` with a text on its left that cannot be filled. It never meets an
operator that the language lacks or a node of no known kind, also not in the functions that earlier
programs left behind.
-/

namespace Sangria

/-- A machine that came about by carrying out parsed programs one after the other, each with any
number of frames. What the last check of a range found before a program may have come from anywhere,
as the parser makes such checks too. -/
inductive Machine.Reached : Machine → Prop
  /-- Before anything was carried out. -/
  | initial (host : Host) : Reached (.initial host)
  /-- A check of a range was made. -/
  | checked {m : Machine} (reached : Reached m) (failed : Bool) :
      Reached { m with outOfRange := failed }
  /-- A parsed program was carried out, to its end or not. -/
  | run {m : Machine} {source : String} {program : Block} (reached : Reached m)
      (parsed : parse source = .ok program) (frames : Nat) :
      Reached (m.runWithin frames program).2

/-- The functions that parsed programs leave behind are well-formed. -/
theorem Machine.Reached.wellFormed {m : Machine} (h : m.Reached) : m.WellFormed := by
  induction h with
  | initial _ => exact fun _ h ↦ absurd h List.not_mem_nil
  | checked _ _ ih => exact ih
  | run _ parsed frames ih =>
    exact (Machine.wellFormed_runWithin frames ih (wellFormed_of_parse parsed)).1

/-- What a run reports is an error of the program. -/
theorem Machine.exists_of_reported {n : Nat} {m : Machine} {program : Block} {d : Diagnostic}
    (h : (m.runWithin n program).1 = .error (.reported d)) :
    ∃ (e : RuntimeError) (p : Option Position), d = e.diagnostic p := by
  unfold Machine.runWithin at h
  rcases hrun : (execBlock n .top program).run m with ⟨s | r, m'⟩
  · rw [hrun] at h
    cases s with
    | error e p => exact ⟨e, p, (RunFault.reported.inj (Except.error.inj h)).symm⟩
    | tooDeep => exact ⟨.tooDeep, m'.position, (RunFault.reported.inj (Except.error.inj h)).symm⟩
    | fault f => exact absurd h (by simp [Stop.toRunFault])
  · rw [hrun] at h
    exact absurd h (by simp)

/-- Whatever parsed programs a machine has carried out, a run of a parsed program on it with any
number of frames answers a value, or reports an error of the program, or ends with the fault of a
template; and it ends so exactly if it comes to an operator `%` with a text on its left that cannot
be filled with what is on its right. In particular it meets no operator that the language lacks and
no node of no known kind. -/
theorem Machine.Reached.answers_or_reports {m : Machine} (h : m.Reached) {source : String}
    {program : Block} (hparse : parse source = .ok program) (n : Nat) :
    ((∃ v, (m.runWithin (n + 1) program).1 = .ok v) ∨
      (∃ (e : RuntimeError) (p : Option Position),
        (m.runWithin (n + 1) program).1 = .error (.reported (e.diagnostic p))) ∨
      ∃ f, (m.runWithin (n + 1) program).1 = .error (.fault (.template f))) ∧
    ∀ f, (m.runWithin (n + 1) program).1 = .error (.fault (.template f)) ↔
      ∃ t m', Task.ComesTo (.statements n (.none, .top) program) m t m' ∧
        Task.Misfills m' f t := by
  refine ⟨?_, fun f ↦ Machine.runWithin_eq_template_iff⟩
  have hfault := (Machine.wellFormed_runWithin (n + 1) h.wellFormed (wellFormed_of_parse hparse)).2
  rcases hrun : (m.runWithin (n + 1) program).1 with (d | f) | v
  · obtain ⟨e, p, rfl⟩ := Machine.exists_of_reported hrun
    exact .inr (.inl ⟨e, p, rfl⟩)
  · obtain ⟨t, rfl⟩ := hfault f hrun
    exact .inr (.inr ⟨t, rfl⟩)
  · exact .inl ⟨v, rfl⟩

/-- A template from one program that the next one cannot fill. -/
theorem answers_or_reports_template :
    let first : Block := [⟨⟨1, 1⟩, .assign "t" none (.literal (.text "%y"))⟩]
    let second : Block := [⟨⟨1, 1⟩, .eval (.binary (.known .mod) (.name "t") (.literal (.int 1)))⟩]
    let m := (Machine.initial.runWithin 1000 first).2
    m.Reached ∧ parse "t % 1\n" = .ok second ∧
      (m.runWithin 1000 second).1 =
        .error (.fault (.template (.unknownConversion (.char 'y') 1))) ∧
      ∃ t m', Task.ComesTo (.statements 999 (.none, .top) second) m t m' ∧
        Task.Misfills m' (.unknownConversion (.char 'y') 1) t := by
  intro first second m
  have hfirst : parse "t = '%y'\n" = .ok first := by rfl
  have hsecond : parse "t % 1\n" = .ok second := by rfl
  have hreached : m.Reached := .run (.initial .plain) hfirst 1000
  have hfault : (m.runWithin 1000 second).1 =
      .error (.fault (.template (.unknownConversion (.char 'y') 1))) := by rfl
  exact ⟨hreached, hsecond, hfault, ((hreached.answers_or_reports hsecond 999).2 _).1 hfault⟩

end Sangria
