import Sangria.Parse
import Sangria.Proofs.Grammar.Automaton

/-!
# Reading without a bound

A reader puts phrases together at most a number of times before each token. That number is never
reached: every phrase lowers `Stack.measure`, which the bound exceeds. So `Stack.settled` satisfies
the equations of a reader without a bound, one for each entry of the table, and everything said
about reading rests on those.

The equations are then stated for `readProgram`, in terms of the token in sight (`ahead`): taking a
token and putting a phrase together do not change what a program is read as.
-/

namespace Sangria

namespace Stack

/-- What bounds the phrases that can be put together before the next token. -/
def measure (stack : Stack) : Nat :=
  8 * stack.length + stack.state.rank

theorem measure_lt_settleBound (stack : Stack) : stack.measure < stack.settleBound := by
  have := stack.state.rank_le
  unfold measure settleBound
  omega

/-- What a phrase that was put together leaves: a cell for it, in the state that the table gives, on
what lies below its parts. -/
theorem exists_of_reduce_eq_ok {text : List Char} {next : Nat} {p : Production}
    {stack stack' : Stack} (h : stack.reduce text next p = .ok stack') :
    p.rhs.length ≤ stack.length ∧
      ∃ s m start, goto (Stack.state (stack.drop p.rhs.length)) p.lhs = some s ∧
        stack' = ⟨s, m, start⟩ :: stack.drop p.rhs.length := by
  unfold reduce at h
  simp only [List.length_reverse, List.length_take] at h
  split at h
  · exact absurd h (by simp)
  · refine ⟨by omega, ?_⟩
    split at h
    · exact absurd h (by simp)
    · exact absurd h (by simp)
    · rename_i s m hs hm
      exact ⟨s, m, _, hs, (Except.ok.inj h).symm⟩

/-- Every phrase that is put together lowers the measure. -/
theorem measure_lt_of_reduce {text : List Char} {t : Lexeme} {p : Production}
    {stack stack' : Stack} (ha : action stack.state t.kind = some (.reduce p))
    (h : stack.reduce text t.offset p = .ok stack') : stack'.measure < stack.measure := by
  obtain ⟨hle, s, m, start, hs, rfl⟩ := exists_of_reduce_eq_ok h
  have hrank := State.rank_lt_of_reduce ha hs
  simp only [measure, List.length_cons, List.length_drop, state] at *
  omega

/-- Above the measure, the bound does not matter. -/
theorem settle_congr {text : List Char} {t : Lexeme} {n m : Nat} {stack : Stack}
    (hn : stack.measure < n) (hm : stack.measure < m) :
    settle text t n stack = settle text t m stack := by
  induction n generalizing m stack with
  | zero => omega
  | succ n ih =>
    obtain ⟨m, rfl⟩ : ∃ m', m = m' + 1 := ⟨m - 1, by omega⟩
    unfold settle
    cases ha : action stack.state t.kind with
    | none => rfl
    | some a =>
      cases a with
      | accept => rfl
      | shift s => rfl
      | reduce p =>
        dsimp only
        cases hr : stack.reduce text t.offset p with
        | error f => rfl
        | ok stack' =>
          have := measure_lt_of_reduce ha hr
          exact ih (by omega) (by omega)

/-- What a reader makes of its stack before a token. -/
def settled (text : List Char) (t : Lexeme) (stack : Stack) : Except ReadFault Settled :=
  settle text t stack.settleBound stack

variable {text : List Char} {t : Lexeme} {stack : Stack}

/-- One step of a reader, with the rest left to the reader itself. -/
theorem settled_eq :
    stack.settled text t =
      match action stack.state t.kind with
      | none => .error (.refused stack.state)
      | some .accept =>
        match stack with
        | ⟨_, .block b, _⟩ :: _ => .ok (.complete b)
        | _ => .error .stuck
      | some (.shift s) => .ok (.ready s stack)
      | some (.reduce p) =>
        match stack.reduce text t.offset p with
        | .error f => .error f
        | .ok stack => stack.settled text t := by
  have hbound : stack.settleBound = (8 * stack.length + 15) + 1 := rfl
  rw [settled, hbound]
  unfold settle
  cases ha : action stack.state t.kind with
  | none => rfl
  | some a =>
    cases a with
    | accept => rfl
    | shift s => rfl
    | reduce p =>
      dsimp only
      cases hr : stack.reduce text t.offset p with
      | error f => rfl
      | ok stack' =>
        have hlt := measure_lt_of_reduce ha hr
        have hle := stack.state.rank_le
        refine settle_congr ?_ stack'.measure_lt_settleBound
        unfold measure at hlt ⊢
        omega

theorem settled_of_shift {s : State} (h : action stack.state t.kind = some (.shift s)) :
    stack.settled text t = .ok (.ready s stack) := by
  rw [settled_eq, h]

theorem settled_of_reduce {p : Production} (h : action stack.state t.kind = some (.reduce p)) :
    stack.settled text t =
      match stack.reduce text t.offset p with
      | .error f => .error f
      | .ok stack => stack.settled text t := by
  rw [settled_eq, h]

theorem feed_eq :
    stack.feed text t =
      match stack.settled text t with
      | .ok (.ready s stack) => .ok (.taken (⟨s, .token t, t.offset⟩ :: stack))
      | .ok (.complete b) => .ok (.complete b)
      | .error f => .error f :=
  rfl

end Stack

/-! ### Where a reader comes to rest -/

namespace Stack

variable (text : List Char) (t : Lexeme)

/-- Phrases are put together before a token, one after the other. -/
inductive Reduces : Stack → Stack → Prop
  /-- None. -/
  | refl (stack : Stack) : Reduces stack stack
  /-- One, and then others. -/
  | step {stack stack' stack'' : Stack} {p : Production}
      (table : action stack.state t.kind = some (.reduce p))
      (made : stack.reduce text t.offset p = .ok stack') (rest : Reduces stack' stack'') :
      Reduces stack stack''

/-- What becomes of a token once no more phrases are put together before it. -/
inductive Rests (stack : Stack) : Except ReadFault Settled → Prop
  /-- The state refuses it. -/
  | refused (table : action stack.state t.kind = none) :
      Rests stack (.error (.refused stack.state))
  /-- It can be taken. -/
  | ready {s : State} (table : action stack.state t.kind = some (.shift s)) :
      Rests stack (.ok (.ready s stack))
  /-- It ends the source. -/
  | complete {c : Cell} {below : Stack} {b : Block}
      (table : action stack.state t.kind = some .accept) (eq : stack = c :: below)
      (whole : c.meaning = .block b) : Rests stack (.ok (.complete b))
  /-- It ends the source, but what was read is no program. -/
  | shapeless (table : action stack.state t.kind = some .accept)
      (shape : ∀ c below b, stack = c :: below → c.meaning ≠ .block b) :
      Rests stack (.error .stuck)
  /-- A phrase before it cannot be put together. -/
  | faulty {p : Production} {f : ReadFault} (table : action stack.state t.kind = some (.reduce p))
      (fault : stack.reduce text t.offset p = .error f) : Rests stack (.error f)

/-- A reader puts phrases together until it comes to rest. -/
theorem exists_rests (stack : Stack) :
    ∃ stack', stack.Reduces text t stack' ∧ stack'.Rests text t (stack.settled text t) := by
  induction hn : stack.measure using Nat.strongRecOn generalizing stack with
  | ind n ih =>
    subst hn
    rw [settled_eq]
    rcases ha : action stack.state t.kind with - | a
    · exact ⟨stack, .refl stack, .refused ha⟩
    cases a with
    | shift s => exact ⟨stack, .refl stack, .ready ha⟩
    | accept =>
      refine ⟨stack, .refl stack, ?_⟩
      dsimp only
      split
      · exact .complete ha rfl rfl
      · rename_i hshape
        refine .shapeless ha ?_
        rintro c below b rfl hb
        exact hshape _ b _ _ (by rw [← hb])
    | reduce p =>
      dsimp only
      rcases hr : stack.reduce text t.offset p with f | stack'
      · exact ⟨stack, .refl stack, .faulty ha hr⟩
      · obtain ⟨stack'', hrest, hend⟩ := ih _ (measure_lt_of_reduce ha hr) stack' rfl
        exact ⟨stack'', .step ha hr hrest, hend⟩

end Stack

/-! ### Reading what a stream delivers -/

/-- The token in sight: the first that a stream delivers, or the end of the source behind all. -/
def ahead (text : List Char) : List Delivery → Option Lexeme
  | [] => some (eofLexeme text)
  | .ok t :: _ => some t
  | .error _ :: _ => none

variable {text : List Char} {t : Lexeme} {stack : Stack} {deliveries : List Delivery}

/-- Taking a token. -/
theorem readProgram_of_shift {s : State} (h : action stack.state t.kind = some (.shift s)) :
    readProgram text (.ok t :: deliveries) stack =
      readProgram text deliveries (⟨s, .token t, t.offset⟩ :: stack) := by
  rw [readProgram, Stack.feed_eq, Stack.settled_of_shift h]

/-- Putting a phrase together. -/
theorem readProgram_of_reduce {p : Production} {stack' : Stack}
    (ht : ahead text deliveries = some t) (h : action stack.state t.kind = some (.reduce p))
    (hr : stack.reduce text t.offset p = .ok stack') :
    readProgram text deliveries stack = readProgram text deliveries stack' := by
  have hfeed : stack.feed text t = stack'.feed text t := by
    rw [Stack.feed_eq, Stack.feed_eq, Stack.settled_of_reduce h, hr]
  match deliveries, ht with
  | [], ht =>
    obtain rfl := Option.some.inj ht
    rw [readProgram, readProgram, hfeed]
  | .ok _ :: _, ht =>
    obtain rfl := Option.some.inj ht
    rw [readProgram, readProgram, hfeed]

end Sangria
