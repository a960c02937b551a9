import Sangria.Proofs.Interpreter.Agreement
import Sangria.Proofs.Parse.Joining
import Sangria.Proofs.Run.Escapes

/-!
# Sources that are run one after the other

Sources can be run one after the other on one machine, or joined with newlines and run as one on
another. The two come to the same but for positions: the value of the last source, the same output
and names; or the failure of the first source that fails, with what was written up to there
(`runSource_intercalate`).

There are two exceptions. A source is parsed before it is run, and parsing its real literals is a
check of their range. So when sources are run one after the other, the literals of a source are
checked behind the runs of those before it, and when they are joined, before all runs. The distance
of a number from zero that is no number is refused after a check that failed, and nothing else looks
at the last check. And the function that writes belongs to its interpreter: its text holds the
address of that, and the two machines need not be at the same one. So the two come to the same if no
such distance is asked for, nor that text where the addresses differ (`Task.Tells`).
-/

namespace Sangria

/-- Run sources one after the other on a machine, up to the first that comes to no value. The value
is that of the last. -/
def Machine.runSources (m : Machine) : List String → Except SourceFault Value × Machine
  | [] => (.ok .none, m)
  | [source] => m.runSource source
  | source :: next :: rest =>
    match m.runSource source with
    | (.ok _, m) => m.runSources (next :: rest)
    | (.error f, m) => (.error f, m)

/-- Why a source comes to no value, without the position that it is reported at. -/
def SourceFault.unplaced : SourceFault → SourceFault
  | .reported d => .reported { d with position := none }
  | f => f

/-- What sources come to is the same but for positions and addresses, and so are the machines behind
them. -/
structure RunsAlike (ρ : Equiv.Perm Nat) (r r' : Except SourceFault Value × Machine) : Prop where
  /-- The values are the same, or the faults. -/
  result : (r.1.map (Value.moved ρ)).mapError SourceFault.unplaced =
    (r'.1.map Value.unplaced).mapError SourceFault.unplaced
  /-- The machines are. -/
  machine : r.2.Alike ρ r'.2

/-! ### Statements in two parts -/

namespace Task

variable {ρ : Equiv.Perm Nat} {n : Nat} {state state' : Value × Scope} {b b' : Block}
  {m m' : Machine}

/-- What never tells machines apart does not in its first statements. -/
theorem NeverTells.of_append (h : (Task.statements n state (b ++ b')).NeverTells ρ m) :
    (Task.statements n state b).NeverTells ρ m := by
  induction b generalizing state m with
  | nil =>
    intro t m' hcomes htells
    cases hcomes with
    | refl => exact nomatch htells
    | step hstep _ => exact nomatch hstep
  | cons s b ih =>
    intro t m' hcomes htells
    cases hcomes with
    | refl => exact nomatch htells
    | step hstep hrest =>
      cases hstep with
      | firstStatement => exact h t m' (.step .firstStatement hrest) htells
      | nextStatement hfirst => exact ih (h.of_step (.nextStatement hfirst)) t m' hrest htells

/-- Nor in the others, from where the first have led. -/
theorem NeverTells.of_append_of_run (h : (Task.statements n state (b ++ b')).NeverTells ρ m)
    (hrun : (b.foldlM (execNext n) state).run m = (.ok state', m')) :
    (Task.statements n state' b').NeverTells ρ m' := by
  induction b generalizing state m with
  | nil =>
    obtain ⟨hstate, rfl⟩ := Prod.mk.inj hrun
    obtain rfl := Except.ok.inj hstate
    exact h
  | cons s b ih =>
    rw [List.foldlM_cons, Evaluation.run_bind] at hrun
    rcases hfirst : (execNext n state s).run m with ⟨stop | state₁, m₁⟩
    · rw [hfirst] at hrun
      exact nomatch hrun
    · rw [hfirst] at hrun
      exact ih (h.of_step (.nextStatement hfirst)) hrun

end Task

/-- The value before a statement is dropped. -/
theorem foldlM_execNext_eq {b : Block} (hb : b ≠ []) (n : Nat) (v w : Value) (scope : Scope) :
    b.foldlM (execNext n) (v, scope) = b.foldlM (execNext n) (w, scope) := by
  obtain ⟨s, rest, rfl⟩ := List.exists_cons_of_ne_nil hb
  -- the first statement looks at the scope alone
  rfl

/-- What statements come to, as what a source does. -/
def ofStatements : Except Stop (Value × Scope) × Machine → Except SourceFault Value × Machine
  | (.ok (v, _), m) => (.ok v, m)
  | (.error s, m) => (.error (s.toRunFault m.position).toSourceFault, m)

/-- A source that is parsed is run as the statements of its program, behind the check of its
literals. -/
theorem Machine.runSource_eq {source : String} {program : Block}
    (h : parse source = .ok program) (m : Machine) :
    m.runSource source =
      ofStatements ((program.foldlM (execNext (frameLimit - 1)) (.none, .top)).run
        { m with outOfRange := (parseChecked source).2.getD m.outOfRange }) := by
  rw [← parseChecked_fst] at h
  have hblock : execBlock frameLimit .top program =
      program.foldlM (execNext (frameLimit - 1)) (.none, .top) := rfl
  unfold runSource
  rcases hparsed : parseChecked source with ⟨parsed, range⟩
  obtain rfl : parsed = .ok program := by rw [← h, hparsed]
  dsimp only
  rw [run, runWithin, hblock]
  rcases (program.foldlM (execNext (frameLimit - 1)) (.none, .top)).run _ with ⟨s | ⟨v, scope⟩, m'⟩
  · rfl
  · rfl

/-- The fault of a source depends on a position only in what is reported. -/
theorem Stop.unplaced_toSourceFault (s : Stop) (p : Option Position) :
    (s.toRunFault p).toSourceFault.unplaced =
      (s.unplaced.toRunFault none).toSourceFault.unplaced := by
  cases s <;> rfl

/-- Statements that come to the same but for positions and addresses do the same but for these. -/
theorem Evaluation.Ends.runsAlike {ρ : Equiv.Perm Nat}
    {r r' : Except Stop (Value × Scope) × Machine} (h : Ends ρ (Answer.Alike ρ .top) r r') :
    RunsAlike ρ (ofStatements r) (ofStatements r') := by
  cases h with
  | values hr hm =>
    exact ⟨congrArg (Except.mapError SourceFault.unplaced ∘ Except.ok) hr.value, hm⟩
  | @stops s s' _ _ hs hm =>
    refine ⟨congrArg Except.error ?_, hm⟩
    rw [Stop.unplaced_toSourceFault s, hs, ← Stop.unplaced_toSourceFault s']

/-! ### Joined sources -/

variable {ρ : Equiv.Perm Nat} {sources : List String} {programs : List Block}

/-- Joined sources are parsed as their programs one after the other, but for positions. -/
theorem exists_parse_intercalate
    (h : List.Forall₂ (fun source program ↦ parse source = .ok program) sources programs)
    (hne : sources ≠ []) :
    ∃ program, parse ("\n".intercalate sources) = .ok program ∧
      Block.unplaced program = Block.unplaced programs.flatten := by
  induction h with
  | nil => exact absurd rfl hne
  | @cons source program sources programs hfirst hrest ih =>
    cases hrest with
    | nil => exact ⟨program, hfirst, by simp⟩
    | cons _ _ =>
      obtain ⟨later, hlater, hsame⟩ := ih (List.cons_ne_nil _ _)
      have hjoined := parse_append hfirst hlater
      rw [← String.intercalate_cons_cons] at hjoined
      refine ⟨_, hjoined, ?_⟩
      rw [Block.unplaced_append, Block.unplaced_relocated, hsame,
        List.flatten_cons (l := program), Block.unplaced_append program]

/-- A program that is the same as that of a source but for positions does the same as the source. -/
theorem agreeOn_runSource {source : String} {b program : Block} (h : parse source = .ok program)
    (hb : Block.unplaced b = Block.unplaced program) {m m' : Machine} (hm : m.Alike ρ m')
    {v w : Value} (hv : v.Alike ρ w)
    (htells : (Task.statements (frameLimit - 1) (v, .top) b).NeverTells ρ m) (range : Bool) :
    Evaluation.AgreeOn ρ (Answer.Alike ρ .top) m { m' with outOfRange := range }
      (b.foldlM (execNext (frameLimit - 1)) (v, .top))
      (program.foldlM (execNext (frameLimit - 1)) (.none, .top)) := by
  rw [foldlM_execNext_eq (admits_of_parse h).1 _ .none w]
  show Evaluation.AgreeOn ρ (Answer.Alike ρ (v, Scope.top).2) _ _ _ _
  exact (agreeWithin ρ _).statements hb hv rfl { hm with } htells

/-- Statements that are the same as the programs of sources one after the other, but for positions,
do the same as the sources one after the other. -/
theorem runsAlike_of_unplaced
    (h : List.Forall₂ (fun source program ↦ parse source = .ok program) sources programs)
    (hne : sources ≠ []) {b : Block} (hb : Block.unplaced b = Block.unplaced programs.flatten)
    {m m' : Machine} (hm : m.Alike ρ m') {v w : Value} (hv : v.Alike ρ w)
    (htells : (Task.statements (frameLimit - 1) (v, .top) b).NeverTells ρ m) :
    RunsAlike ρ (ofStatements ((b.foldlM (execNext (frameLimit - 1)) (v, .top)).run m))
      (m'.runSources sources) := by
  induction h generalizing b m m' v w with
  | nil => exact absurd rfl hne
  | @cons source program sources programs hfirst hrest ih =>
    cases hrest with
    | nil =>
      rw [Machine.runSources, Machine.runSource_eq hfirst]
      exact (agreeOn_runSource hfirst (by simpa using hb) hm hv htells _).runsAlike
    | cons hsecond hothers =>
      -- the statements are cut behind those of the first source
      rw [List.flatten_cons (l := program), Block.unplaced_append program,
        Block.unplaced_eq_map b] at hb
      obtain ⟨b, rest, rfl, hb, hrest⟩ := List.map_eq_append_iff.1 hb
      rw [← Block.unplaced_eq_map] at hb hrest
      have hsame := agreeOn_runSource hfirst hb hm hv htells.of_append
        ((parseChecked source).2.getD m'.outOfRange)
      rw [Machine.runSources, Machine.runSource_eq hfirst, List.foldlM_append, Evaluation.run_bind]
      rw [Evaluation.AgreeOn] at hsame
      generalize hrun : (b.foldlM (execNext (frameLimit - 1)) (v, .top)).run m = r at hsame ⊢
      generalize (program.foldlM (execNext (frameLimit - 1)) (.none, .top)).run _ = r' at hsame ⊢
      cases hsame with
      | stops hs hm => exact Evaluation.Ends.runsAlike (.stops hs hm)
      | @values a a' _ _ hr hm =>
        obtain ⟨u, scope⟩ := a
        obtain rfl : scope = .top := hr.top rfl
        exact ih (List.cons_ne_nil _ _) hrest hm hr.value (htells.of_append_of_run hrun)

/-- Sources that are parsed, run one after the other on one machine, and the same sources joined
with newlines and run as one on another that writes on such a stream, come to the same but for
positions and the addresses of the two: the value of the last source, or the failure of the first
that fails, and the same names and output. The joined sources must not ask for the distance from
zero of a number that is no number, and, if the machines are at different addresses, not for the
text of the function that writes. -/
theorem runSource_intercalate {host host' : Host} (hsink : host.sink = host'.sink)
    (hne : sources ≠ []) (hparse : ∀ source ∈ sources, ∃ program, parse source = .ok program)
    (htells : ∀ program, parse ("\n".intercalate sources) = .ok program →
      (Task.statements (frameLimit - 1) (.none, .top) program).NeverTells
        (.swap host.address host'.address)
        (Machine.forSource ("\n".intercalate sources) host)) :
    RunsAlike (.swap host.address host'.address)
      ((Machine.initial host).runSource ("\n".intercalate sources))
      ((Machine.initial host').runSources sources) := by
  choose! programOf hprogramOf using hparse
  have hprograms : List.Forall₂ (fun source program ↦ parse source = .ok program) sources
      (sources.map programOf) := by
    rw [List.forall₂_map_right_iff, List.forall₂_same]
    exact hprogramOf
  obtain ⟨program, hprogram, hsame⟩ := exists_parse_intercalate hprograms hne
  -- the two begin with different checks, which play no part
  have hmachine : (Machine.forSource ("\n".intercalate sources) host).Alike
      (.swap host.address host'.address) (Machine.initial host') :=
    ⟨rfl, rfl, rfl, Equiv.swap_apply_left _ _, hsink⟩
  rw [Machine.runSource_eq hprogram]
  exact runsAlike_of_unplaced hprograms hne hsame hmachine (.refl rfl) (htells program hprogram)

/-- A name that is bound in one source and printed in the next, on machines at two addresses. -/
theorem runSource_intercalate_print :
    let host : Host := ⟨1, .utf8⟩
    let host' : Host := ⟨2, .utf8⟩
    RunsAlike (.swap host.address host'.address)
      ((Machine.initial host).runSource ("\n".intercalate ["n = 1\n", "print(n)"]))
      ((Machine.initial host').runSources ["n = 1\n", "print(n)"]) := by
  intro host host'
  have hfirst : parse "n = 1\n" = .ok [⟨⟨1, 1⟩, .assign "n" none (.literal (.int 1))⟩] := by rfl
  have hsecond : parse "print(n)" = .ok [⟨⟨1, 1⟩, .eval (.call "print" [.name "n"])⟩] := by rfl
  have hparse : parse ("\n".intercalate ["n = 1\n", "print(n)"]) =
      .ok [⟨⟨1, 1⟩, .assign "n" none (.literal (.int 1))⟩,
        ⟨⟨3, 1⟩, .eval (.call "print" [.name "n"])⟩] := by rfl
  have hsink : host.sink = host'.sink := rfl
  refine runSource_intercalate hsink (List.cons_ne_nil _ _) ?_ fun program hprogram ↦ ?_
  · exact List.forall_mem_cons.2 ⟨⟨_, hfirst⟩, List.forall_mem_singleton.2 ⟨_, hsecond⟩⟩
  obtain rfl := Except.ok.inj (hparse.symm.trans hprogram)
  refine .intro nofun fun t m hstep ↦ ?_
  cases hstep with
  | firstStatement =>
    refine .intro nofun fun t m hstep ↦ ?_
    cases hstep with
    | bound => exact .intro nofun fun _ _ hstep ↦ nomatch hstep
  | nextStatement hbound =>
    obtain rfl := congrArg Prod.snd hbound
    obtain rfl := Except.ok.inj (congrArg Prod.fst hbound)
    refine .intro nofun fun t m' hstep ↦ ?_
    cases hstep with
    | nextStatement => exact .intro nofun fun _ _ hstep ↦ nomatch hstep
    | firstStatement =>
      refine .intro nofun fun t m' hstep ↦ ?_
      cases hstep with
      | eval =>
        -- the function that is found writes, and what it is given is the integer
        refine .intro ?_ fun t m' hstep ↦ ?_
        · rintro (⟨hfound, -, hasks⟩ | ⟨-, hfound, hargs, hasks⟩)
          · obtain rfl := Value.builtin.inj (Except.ok.inj (congrArg Prod.fst hfound))
            exact nomatch hasks.1
          · obtain rfl := Value.builtin.inj (Except.ok.inj (congrArg Prod.fst hfound))
            obtain rfl := Except.ok.inj (congrArg Prod.fst hargs)
            obtain ⟨v, hv, a, ha⟩ := hasks
            exact nomatch (List.mem_singleton.1 hv).symm.trans ha
        · cases hstep with
          | called hfound => exact nomatch hfound
          | arguments =>
            refine .intro nofun fun t m' hstep ↦ ?_
            cases hstep with
            | firstArg => exact .intro nofun fun _ _ hstep ↦ nomatch hstep
            | nextArg => exact .intro nofun fun _ _ hstep ↦ nomatch hstep

end Sangria
