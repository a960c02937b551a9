import Sangria.Proofs.Grammar.Fitting
import Sangria.Proofs.Interpreter.Keeping
import Sangria.Proofs.Interpreter.Reaching
import Sangria.Proofs.Parse.Safety
import Sangria.Run

/-!
# Sources that come to no outcome

Almost every failure of a source is a diagnostic. What is not is an integer literal of too many
digits that the parser puts into an expression, and a template that cannot be filled with what
stands on the right of `%`. `runSource_eq_error_iff` says that these two are all, and when they
occur: the parser gets as far as the literal, or the run comes to the operator.
-/

namespace Sangria

/-- A program that is parsed has statements and is well-formed. -/
theorem admits_of_parse {source : String} {program : Block} (h : parse source = .ok program) :
    program ≠ [] ∧ Block.wellFormed program = true := by
  rw [parse_eq_readProgram] at h
  obtain ⟨-, d, -, -, hsymbol, hvalid, hvalue⟩ :=
    exists_derivation_of_readProgram .nil (fun t _ ↦ closesAhead_nil t.kind) h
  have hadmits := Derivation.admits_of_value hvalid hvalue
  rw [hsymbol] at hadmits
  obtain ⟨b, hb, hwell⟩ := hadmits
  obtain rfl := Meaning.block.inj hb
  exact hwell

theorem wellFormed_of_parse {source : String} {program : Block}
    (h : parse source = .ok program) : Block.wellFormed program = true :=
  (admits_of_parse h).2

/-- The machine on which the program of a source is carried out: only the check of the source's
literals was done. -/
def Machine.forSource (source : String) (host : Host := .plain) : Machine :=
  { Machine.initial host with
    outOfRange := (parseChecked source).2.getD (Machine.initial host).outOfRange }

theorem Machine.wellFormed_forSource (source : String) (host : Host) :
    (forSource source host).WellFormed :=
  fun _ h ↦ absurd h List.not_mem_nil

/-- What comes of a source is what the parser or the run comes to. -/
theorem runSource_fst (source : String) (host : Host) :
    (runSource source host).1 = match parse source with
      | .error (.reported d) => .ok (.failure d)
      | .error (.tooLong digits) => .error (.literalTooLong digits)
      | .error .stuck => .error .stuck
      | .ok program => match ((Machine.forSource source host).run program).1 with
        | .ok v => .ok (.success v)
        | .error (.reported d) => .ok (.failure d)
        | .error (.fault f) => .error (.fault f) := by
  unfold runSource Machine.runSource Machine.forSource
  rw [← parseChecked_fst]
  rcases parseChecked source with ⟨f | program, range⟩
  · cases f <;> rfl
  · dsimp only
    rcases Machine.run _ program with ⟨f | v, m⟩
    · cases f <;> rfl
    · rfl

/-- A run ends with the fault of a template exactly if its statements come to an operator `%` that
cannot fill its text. -/
theorem Machine.runWithin_eq_template_iff {n : Nat} {m : Machine} {program : Block}
    {f : TemplateFault} :
    (m.runWithin (n + 1) program).1 = .error (.fault (.template f)) ↔
      ∃ t m', Task.ComesTo (.statements n (.none, .top) program) m t m' ∧
        Task.Misfills m' f t := by
  rw [← Task.stopsOn_iff]
  show _ ↔ ((execBlock (n + 1) .top program).run m).1 = _
  unfold Machine.runWithin
  rcases (execBlock (n + 1) .top program).run m with ⟨s | ⟨v, scope⟩, m'⟩
  · cases s <;> simp [Stop.toRunFault]
  · simp

theorem Machine.run_eq_template_iff {m : Machine} {program : Block} {f : TemplateFault} :
    (m.run program).1 = .error (.fault (.template f)) ↔
      ∃ t m', Task.ComesTo (.statements (frameLimit - 1) (.none, .top) program) m t m' ∧
        Task.Misfills m' f t :=
  Machine.runWithin_eq_template_iff

/-- A source comes to no outcome exactly if its parse gets as far as an integer literal of too many
digits, or the run of its program comes to an operator `%` with a text on its left that cannot be
filled with what is on its right. That is so wherever in memory it runs, and whatever stream it
writes on. -/
theorem runSource_eq_error_iff {source : String} {host : Host} {e : Escape} :
    (runSource source host).1 = .error e ↔
      (∃ digits, e = .literalTooLong digits ∧ ReadsLong source digits) ∨
      ∃ program f, parse source = .ok program ∧ e = .fault (.template f) ∧
        ∃ t m, Task.ComesTo (.statements (frameLimit - 1) (.none, .top) program)
          (Machine.forSource source host) t m ∧ Task.Misfills m f t := by
  simp only [← parse_eq_tooLong_iff, ← Machine.run_eq_template_iff]
  rw [runSource_fst]
  rcases hparse : parse source with f | program
  · rcases fault_of_parse hparse with ⟨d, rfl⟩ | ⟨digits, rfl, -⟩
    · simp
    · simp [eq_comm]
  · have hfault := (Machine.wellFormed_run (Machine.wellFormed_forSource source host)
      (wellFormed_of_parse hparse)).2
    rcases hrun : ((Machine.forSource source host).run program).1 with (d | f) | v
    · simp [hrun]
    · obtain ⟨t, rfl⟩ := hfault f hrun
      simp [hrun, eq_comm, and_comm]
    · simp [hrun]

/-- No conversion has the letter `y`. -/
example : (runSource "'%y' % 1\n").1 =
    .error (.fault (.template (.unknownConversion (.char 'y') 1))) := by
  rfl

end Sangria
