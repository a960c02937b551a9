import Sangria.Proofs.Interpreter.Deepening

/-!
# Names bound with an operator

To bind a name with an operator (`x += e`) is to bind it to what the operator makes of the name and
the expression (`x = x + e`), as long as the name has a value and neither is cut off
(`exec_assign_operator`). The two look at the name at different moments, one behind the expression
and one before it. That makes no difference, because an expression leaves all names alone, whatever
functions it calls (`Machine.found?_of_evaluate`).

The two need not have the same number of frames: the operator takes two of its own on the right, so
the expression is evaluated with fewer there, and comes to the same unless it is cut off
(`run_evaluate_eq`).
-/

namespace Sangria

open Evaluation

variable {n n' : Nat} {scope : Scope} {e : Expr} {m m' : Machine}

/-- An expression that is not cut off comes to the same with other frames with which it is not cut
off. -/
theorem run_evaluate_eq (h : ((evaluate n scope e).run m).1 ≠ .error .tooDeep)
    (h' : ((evaluate n' scope e).run m).1 ≠ .error .tooDeep) :
    (evaluate n scope e).run m = (evaluate n' scope e).run m := by
  rcases Nat.le_total n n' with hle | hle
  · exact (((extendsWithin n).evaluate hle scope e).cut m).resolve_right fun hcut ↦ h hcut.1
  · exact ((((extendsWithin n').evaluate hle scope e).cut m).resolve_right
      fun hcut ↦ h' hcut.1).symm

/-- What goes on from an evaluation is cut off where that is. -/
theorem Evaluation.ne_tooDeep_of_bind {α β : Type} {y : Evaluation α} {f : α → Evaluation β}
    (h : ((y >>= f).run m).1 ≠ .error .tooDeep) : (y.run m).1 ≠ .error .tooDeep := by
  intro hcut
  rcases hrun : y.run m with ⟨r, m'⟩
  obtain rfl : r = .error .tooDeep := by rwa [hrun] at hcut
  exact h (congrArg Prod.fst (run_bind_of_error hrun))

/-! ### Both bindings in one form -/

/-- Bind a name to what an operator makes of a value and an expression. -/
def bindOperated (frames : Nat) (scope : Scope) (x : String) (op : Written Operator) (a : Value)
    (e : Expr) : Evaluation (Value × Scope) := do
  let b ← evaluate frames scope e
  let v ← operate op a b
  return (v, ← bindName scope x v)

section Forms

variable {x : String} {op : Written Operator} {a : Value} (hx : m.found? scope x = some a)

include hx

/-- The value of the name behind the expression is the one it had before. -/
theorem run_assign_operator :
    (exec (n + 2) scope (.assign x (some op) e)).run m =
      (bindOperated n scope x op a e).run m := by
  rw [exec_assign, bindOperated, run_bind, run_bind]
  rcases hrun : (evaluate n scope e).run m with ⟨s | b, m'⟩
  · rfl
  · have hfound : (lookUp scope x).run m' = (.ok a, m') := by
      rw [run_lookUp, Machine.found?_of_evaluate hrun, hx]
    exact run_bind_of_ok hfound

theorem run_assign_binary :
    (exec (n + 6) scope (.assign x none (.binary op (.name x) e))).run m =
      (bindOperated (n + 2) scope x op a e).run m := by
  have hfound : (evaluate (n + 2) scope (.name x)).run m = (.ok a, m) := by
    show (lookUp scope x).run m = _
    rw [run_lookUp, hx]
  have hvalue : (evaluate (n + 4) scope (.binary op (.name x) e)).run m =
      (evaluate (n + 2) scope e >>= fun b ↦ operate op a b).run m := by
    rw [evaluate_binary]
    exact run_bind_of_ok hfound
  have hright : bindOperated (n + 2) scope x op a e =
      ((evaluate (n + 2) scope e >>= fun b ↦ operate op a b) >>= fun v ↦ do
        return (v, ← bindName scope x v)) :=
    (bind_assoc _ _ _).symm
  show (evaluate (n + 4) scope (.binary op (.name x) e) >>= fun v ↦ do
    return (v, ← bindName scope x v)).run m = _
  rw [hright, run_bind, run_bind, hvalue]

end Forms

/-- To bind a name that has a value, its own, that of the top level or a built-in function, with an
operator does all that is done by binding it to what the operator makes of the name and the
expression: it has the same value and scope or stops in the same way, with the same error at the
same position, and it leaves the same machine, so the same names at top level and the same output.
This holds with whatever frames neither is cut off. -/
theorem exec_assign_operator {x : String} {op : Written Operator}
    (hx : (m.found? scope x).isSome)
    (h : ((exec n scope (.assign x (some op) e)).run m).1 ≠ .error .tooDeep)
    (h' : ((exec n' scope (.assign x none (.binary op (.name x) e))).run m).1 ≠ .error .tooDeep) :
    (exec n scope (.assign x (some op) e)).run m =
      (exec n' scope (.assign x none (.binary op (.name x) e))).run m := by
  obtain ⟨a, hx⟩ := Option.isSome_iff_exists.1 hx
  -- with fewer frames than these, both are cut off before the expression is evaluated
  obtain ⟨k, rfl⟩ : ∃ k, n = k + 2 := by
    rcases n with - | - | k
    iterate 2 exact absurd rfl h
    exact ⟨k, rfl⟩
  obtain ⟨k', rfl⟩ : ∃ k', n' = k' + 6 := by
    rcases n' with - | - | - | - | - | - | k'
    iterate 6 exact absurd rfl h'
    exact ⟨k', rfl⟩
  rw [run_assign_operator hx] at h ⊢
  rw [run_assign_binary hx] at h' ⊢
  have hsame : (evaluate k scope e).run m = (evaluate (k' + 2) scope e).run m :=
    run_evaluate_eq (ne_tooDeep_of_bind h) (ne_tooDeep_of_bind h')
  rw [bindOperated, bindOperated, run_bind, run_bind, hsame]

/-- In a call that has an `x`, where the top level has one too, `x -= f(x)` with a function that
writes and binds `x` itself does the same as `x = x - f(x)` does with two frames more. -/
theorem exec_assign_operator_call :
    let body : Block :=
      [⟨⟨1, 1⟩, .eval (.call "print" [.literal (.text "f")])⟩,
        ⟨⟨2, 1⟩, .assign "x" none (.literal (.int 4))⟩]
    let m : Machine := { Machine.initial with
      globals := [("x", .int 1), ("f", .function 0 "f" ["a"] body)], position := some ⟨7, 1⟩ }
    let scope : Scope := .call [("x", .int 9)]
    let e : Expr := .call "f" [.name "x"]
    ((exec 15 scope (.assign "x" (some (.known .sub)) e)).run m).1.map Prod.fst = .ok (.int 5) ∧
      (exec 15 scope (.assign "x" (some (.known .sub)) e)).run m =
        (exec 17 scope (.assign "x" none (.binary (.known .sub) (.name "x") e))).run m := by
  intro body m scope e
  have hvalue : ((exec 15 scope (.assign "x" (some (.known .sub)) e)).run m).1.map Prod.fst =
      .ok (.int 5) := by rfl
  have hvalue' : ((exec 17 scope (.assign "x" none (.binary (.known .sub) (.name "x") e))).run
      m).1.map Prod.fst = .ok (.int 5) := by rfl
  exact ⟨hvalue, exec_assign_operator rfl
    (fun hcut ↦ nomatch (congrArg (Except.map Prod.fst) hcut).symm.trans hvalue)
    (fun hcut ↦ nomatch (congrArg (Except.map Prod.fst) hcut).symm.trans hvalue')⟩

end Sangria
