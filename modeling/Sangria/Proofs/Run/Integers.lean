import Sangria.Proofs.Interpreter.Calculating
import Sangria.Proofs.Parse.OneLine
import Sangria.Proofs.Run.Joining

/-!
# Sources that calculate with integers

An expression over integers is written with parentheses only where precedence asks for them. A
source that holds nothing else comes to the integer that the expression stands for, or, where some
divisor is zero, to the diagnostic that says so (`runSource_integers`).

Parsing gives the expression back because its words are read again; evaluation is that of
`IntegerExpr.settles_evaluate`, with the frames that are left behind those of the program and its
statement.
-/

namespace Sangria

/-- An expression is written in a source: its words, with the parentheses that precedence asks for,
stand in one line from the start on. -/
def Expr.IsWrittenIn (e : Expr) (source : String) : Prop :=
  ∃ tokens, tokenize source = .ok tokens ∧ InOneLine tokens e.print.words ∧
    tokens.head?.map Token.position = some ⟨1, 1⟩

namespace IntegerExpr

variable {e : IntegerExpr}

theorem printable_toExpr (h : ∀ n, literal n ∈ e.parts → n < 10 ^ maxDigits) :
    e.toExpr.Printable := by
  induction e with
  | literal n =>
    have hn : (n : Int) < 10 ^ maxDigits := by
      have hlt := Int.ofNat_lt.2 (h n (List.mem_singleton.2 rfl))
      rwa [Int.natCast_pow] at hlt
    exact .literal ⟨Int.natCast_nonneg n, hn⟩
  | signed s e ih => exact .signed s (ih fun n hn ↦ h n (List.mem_cons_of_mem _ hn))
  | binary op l r ihl ihr =>
    exact .join (.apply op.operator) (ihl fun n hn ↦ h n (parts_left op l r hn))
      (ihr fun n hn ↦ h n (parts_right op l r hn))

end IntegerExpr

theorem Expr.Printable.parse_of_isWrittenIn {source : String} {e : Expr} (h : e.Printable)
    (hsource : e.IsWrittenIn source) : parse source = .ok [⟨⟨1, 1⟩, .eval e⟩] := by
  obtain ⟨tokens, htokens, hline, hfirst⟩ := hsource
  exact parse_of_inOneLine htokens hline hfirst
    (fun w hw ↦ (h.tidy_print.legible w hw).isWord) h.spells_print.spellsPhrase

/-- One expression is carried out as a statement at its position. -/
theorem run_foldlM_eval (n : Nat) (p : Position) (e : Expr) (v : Value) (m : Machine) :
    (([⟨p, .eval e⟩] : Block).foldlM (execNext (n + 1)) (v, .top)).run m =
      match (evaluate n .top e).run { m with position := some p } with
      | (.ok v, m') => (.ok (v, .top), m')
      | (.error s, m') => (.error s, m') := by
  have hstatement : (execNext (n + 1) (v, .top) ⟨p, .eval e⟩).run m =
      (evaluate n .top e >>= fun v ↦ return (v, .top)).run { m with position := some p } := rfl
  rw [List.foldlM_cons, Evaluation.run_bind, hstatement, Evaluation.run_bind]
  rcases (evaluate n .top e).run { m with position := some p } with ⟨s | v, m'⟩
  · rfl
  · rfl

/-- A source with one expression comes to what its evaluation comes to, with two frames less than
there are. -/
theorem Machine.runSource_eval {source : String} {p : Position} {e : Expr}
    (h : parse source = .ok [⟨p, .eval e⟩]) (m : Machine) :
    ∃ m₁ : Machine, m₁.written = m.written ∧ m₁.position = some p ∧
      m.runSource source = match (evaluate (frameLimit - 2) .top e).run m₁ with
        | (.ok v, m') => (.ok v, m')
        | (.error s, m') => (.error (s.toRunFault m'.position).toSourceFault, m') := by
  refine ⟨{ m with
    position := some p, outOfRange := (parseChecked source).2.getD m.outOfRange }, rfl, rfl, ?_⟩
  rw [Machine.runSource_eq h, show frameLimit - 1 = frameLimit - 2 + 1 from rfl, run_foldlM_eval]
  rcases (evaluate (frameLimit - 2) .top e).run _ with ⟨s | v, m'⟩
  · rfl
  · rfl

/-- Over literals that are not too long, and where no exponent is negative and every literal is
reached before the frames run out, an expression over integers is printed in a source in which it is
written; and any source in which it is written, with its words and the parentheses that precedence
asks for in one line, comes to the following and writes nothing.

* If some divisor in it is zero, to the diagnostic of a division by zero at the start of the source.
* If none is, the expression stands for one integer, in which quotients are rounded down and
  remainders are on the side of the divisor, and the source comes to that.

The frames of the bound are those that are counted (`evaluate`), from the outermost block on: an
operator that is applied and an error that is reported take a few more, as does whoever starts the
run, so an expression that comes that close to the limit is not spoken for. -/
theorem runSource_integers {e : IntegerExpr}
    (hliterals : ∀ n, IntegerExpr.literal n ∈ e.parts → n < 10 ^ maxDigits)
    (hexponents : e.ExponentsNonneg) (hheight : 2 * e.height + 2 ≤ frameLimit) :
    e.toExpr.IsWrittenIn (Block.print [⟨⟨1, 1⟩, .eval e.toExpr⟩]) ∧
    ∀ source host, e.toExpr.IsWrittenIn source →
      (e.DividesByZero → runSource source host =
        (.ok (.failure ⟨.runtime, "división por cero", some ⟨1, 1⟩, []⟩), [])) ∧
      (¬ e.DividesByZero → ∃ v, (∀ w, e.Computes w ↔ w = v) ∧
        runSource source host = (.ok (.success (.int v)), [])) := by
  have hprintable := IntegerExpr.printable_toExpr hliterals
  refine ⟨exists_tokens_print hprintable ⟨1, 1⟩, fun source host hsource ↦ ?_⟩
  obtain ⟨m, hwritten, hposition, hrun⟩ :=
    Machine.runSource_eval (hprintable.parse_of_isWrittenIn hsource) (Machine.initial host)
  have houtput : m.output = [] := by
    rw [Machine.output, hwritten]
    rfl
  have hsettles := IntegerExpr.settles_evaluate hexponents
    (show 2 * e.height ≤ frameLimit - 2 by omega) .top m
  generalize (evaluate (frameLimit - 2) .top e.toExpr).run m = result at hsettles hrun
  cases hsettles with
  | @value v h =>
    refine ⟨fun hzero ↦ absurd hzero h.not_dividesByZero, fun _ ↦ ⟨v, fun w ↦ ?_, ?_⟩⟩
    · exact ⟨fun hw ↦ hw.unique h, fun hw ↦ hw ▸ h⟩
    · rw [runSource, hrun]
      dsimp only
      rw [houtput]
  | zero h =>
    refine ⟨fun _ ↦ ?_, fun hnone ↦ absurd h hnone⟩
    rw [runSource, hrun, hposition]
    dsimp only [Stop.toRunFault, RunFault.toSourceFault]
    rw [houtput]
    rfl

/-- The sign of a power that is divided with a remainder, and a divisor that is zero. -/
theorem runSource_integers_power :
    runSource "-2**2 % 3  # two" = (.ok (.success (.int 2)), []) ∧
      runSource "7 // (1 - 1)" =
        (.ok (.failure ⟨.runtime, "división por cero", some ⟨1, 1⟩, []⟩), []) := by
  have hsmall (n : Nat) (h : n < 10) : n < 10 ^ maxDigits :=
    Nat.lt_of_lt_of_le h (Nat.le_self_pow (by decide) 10)
  constructor
  · let power : IntegerExpr := .binary .pow (.literal 2) (.literal 2)
    let e : IntegerExpr := .binary .mod (.signed .neg power) (.literal 3)
    have hliterals : ∀ n, IntegerExpr.literal n ∈ e.parts → n < 10 ^ maxDigits := by
      intro n hn
      have hcases : n = 2 ∨ n = 3 := by simpa [e, power, IntegerExpr.parts] using hn
      exact hsmall n (by omega)
    have hexponents : e.ExponentsNonneg := by
      intro l r hmem k hk
      obtain ⟨-, rfl⟩ : l = .literal 2 ∧ r = .literal 2 := by
        simpa [e, power, IntegerExpr.parts] using hmem
      obtain rfl := hk.unique (.literal 2)
      decide
    have hcomputes : e.Computes 2 :=
      .binary (.signed .neg (.binary (.literal 2) (.literal 2) ⟨by decide, rfl⟩)) (.literal 3)
        ⟨-2, by decide, .inl ⟨by decide, by decide⟩⟩
    obtain ⟨v, hv, hrun⟩ := ((runSource_integers hliterals hexponents (by decide)).2
      "-2**2 % 3  # two" .plain ⟨_, rfl, rfl, rfl⟩).2 hcomputes.not_dividesByZero
    rwa [← (hv 2).1 hcomputes] at hrun
  · let zero : IntegerExpr := .binary .sub (.literal 1) (.literal 1)
    let e : IntegerExpr := .binary .floorDiv (.literal 7) zero
    have hliterals : ∀ n, IntegerExpr.literal n ∈ e.parts → n < 10 ^ maxDigits := by
      intro n hn
      have hcases : n = 7 ∨ n = 1 := by simpa [e, zero, IntegerExpr.parts] using hn
      exact hsmall n (by omega)
    have hexponents : e.ExponentsNonneg := by
      intro l r hmem k hk
      exact absurd hmem (by simp [e, zero, IntegerExpr.parts])
    have hzero : e.DividesByZero :=
      ⟨.floorDiv, _, _, e.self_mem_parts, rfl, .binary (.literal 1) (.literal 1) rfl⟩
    exact ((runSource_integers hliterals hexponents (by decide)).2 "7 // (1 - 1)"
      .plain ⟨_, rfl, rfl, rfl⟩).1 hzero

end Sangria
