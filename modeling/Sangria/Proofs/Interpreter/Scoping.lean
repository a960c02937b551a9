import Sangria.Proofs.Interpreter.Framing
import Sangria.Proofs.Interpreter.Repeating

/-!
# Which names an expression and a call depend on

An expression comes to the same in all scopes that bind the names in it alike, whatever else they
bind: the same value or the same way of stopping, and the same machine behind it, with what was
written, the position and the names at top level (`no_dynamic_scoping`). A function is called with
the names of a new call only, so what a call comes to is decided by the function, the arguments and
the top level, and the names of other calls, those of the caller among them, have no part in it.

## What each part rests on

* Two runs of an expression on one machine are compared by induction on the frames
  (`evaluate_eq_of_found?`). They go on from the same machine behind each part, and there the names
  are still found alike, because an expression leaves alone what names stand for
  (`Machine.found?_of_evaluate`).
* That a call does not see the names of others is stated of the interpreter that keeps the names of
  all calls in a ledger, where it could, and rests on its being the same interpreter
  (`framedWithin`).
* That a call does not depend on what was written before it and on the position either is that runs
  are repeated on machines that differ in these (`repeatsWithin`).
-/

namespace Sangria

/-! ### Names in expressions -/

/-- The names that occur in an expression, those of the functions that are called among them. -/
def Expr.names : Expr → List String
  | .literal _ => []
  | .name x => [x]
  | .binary _ l r => l.names ++ r.names
  | .and l r => l.names ++ r.names
  | .or l r => l.names ++ r.names
  | .not e => e.names
  | .signed _ e => e.names
  | .call f args => f :: namesOf args
  | .foreign _ => []
where
  /-- The names in all arguments. -/
  namesOf : List Expr → List String
    | [] => []
    | e :: rest => e.names ++ namesOf rest

namespace Machine

variable {m m' : Machine} {scope scope' : Scope} {xs ys : List String}

/-- The names that a scope binds. At top level they are those of the machine. -/
def bound (m : Machine) : Scope → Bindings
  | .top => m.globals
  | .call names => names

/-- A name is looked up in what its scope binds first. At top level it is looked up there twice,
which makes no difference. -/
theorem found?_eq (m : Machine) (scope : Scope) (x : String) :
    m.found? scope x = ((m.bound scope).get? x).or
      ((m.globals.get? x).or (m.host.builtin? x)) := by
  cases scope with
  | top =>
    show none.or ((m.globals.get? x).or _) = (m.globals.get? x).or _
    rw [Option.none_or, ← Option.or_assoc, Option.or_self]
  | call names => rfl

/-- Two scopes find the same values for names. -/
def FindsAlike (m : Machine) (scope scope' : Scope) (xs : List String) : Prop :=
  ∀ x ∈ xs, m.found? scope x = m.found? scope' x

theorem FindsAlike.left (h : m.FindsAlike scope scope' (xs ++ ys)) :
    m.FindsAlike scope scope' xs :=
  fun x hx ↦ h x (List.mem_append_left ys hx)

theorem FindsAlike.right (h : m.FindsAlike scope scope' (xs ++ ys)) :
    m.FindsAlike scope scope' ys :=
  fun x hx ↦ h x (List.mem_append_right xs hx)

/-- Behind an expression they still do. -/
theorem FindsAlike.of_evaluate {n : Nat} {scope₁ : Scope} {e : Expr} {r : Except Stop Value}
    (h : m.FindsAlike scope scope' xs) (hrun : (evaluate n scope₁ e).run m = (r, m')) :
    m'.FindsAlike scope scope' xs := by
  intro x hx
  rw [found?_of_evaluate hrun, found?_of_evaluate hrun, h x hx]

end Machine

/-! ### Two runs -/

/-- Two evaluations in two parts do the same if the first parts do and the second parts do behind
them. -/
theorem Evaluation.run_bind_congr {α β : Type} {x y : Evaluation α} {f g : α → Evaluation β}
    {m : Machine} (h : x.run m = y.run m)
    (hf : ∀ a m', x.run m = (.ok a, m') → (f a).run m' = (g a).run m') :
    (x >>= f).run m = (y >>= g).run m := by
  rw [run_bind, run_bind, ← h]
  rcases hx : x.run m with ⟨s | a, m'⟩
  · rfl
  · exact hf a m' hx

section TwoRuns

open Evaluation

variable {n : Nat} {scope scope' : Scope} {m : Machine}

/-- Arguments come to the same if every expression does. -/
theorem evaluateAll_eq_of_found? {args : List Expr}
    (ih : ∀ k < n, ∀ {e m}, m.FindsAlike scope scope' e.names →
      (evaluate k scope e).run m = (evaluate k scope' e).run m)
    (h : m.FindsAlike scope scope' (Expr.names.namesOf args)) :
    (evaluateAll n scope args).run m = (evaluateAll n scope' args).run m := by
  rcases n with - | n
  · rfl
  · rw [evaluateAll_succ, evaluateAll_succ]
    induction args generalizing m with
    | nil => rfl
    | cons e rest ihr =>
      rw [List.mapM_cons, List.mapM_cons]
      refine run_bind_congr (ih n (Nat.lt_succ_self n) h.left) fun v m' hv ↦ ?_
      exact run_bind_congr (ihr (h.right.of_evaluate hv)) fun vs m'' _ ↦ rfl

/-- An expression comes to the same in scopes that find the same values for the names in it. -/
theorem evaluate_eq_of_found? {e : Expr} (h : m.FindsAlike scope scope' e.names) :
    (evaluate n scope e).run m = (evaluate n scope' e).run m := by
  induction n using Nat.strongRecOn generalizing e m with
  | ind n ih =>
    rcases n with - | - | n
    · rfl
    · cases e <;> rfl
    · have hn : n < n + 2 := Nat.lt_succ_of_lt (Nat.lt_succ_self n)
      cases e with
      | literal v => rfl
      | name x =>
        show (lookUp scope x).run m = (lookUp scope' x).run m
        rw [run_lookUp, run_lookUp, h x (List.mem_singleton_self x)]
      | binary op l r =>
        refine run_bind_congr (ih n hn h.left) fun a m' ha ↦ ?_
        have hr := h.right.of_evaluate ha
        exact run_bind_congr (ih n hn hr) fun b m'' _ ↦ rfl
      | and l r =>
        refine run_bind_congr (ih n hn h.left) fun a m' ha ↦ ?_
        have hr := h.right.of_evaluate ha
        split
        · exact ih n hn hr
        · rfl
      | or l r =>
        refine run_bind_congr (ih n hn h.left) fun a m' ha ↦ ?_
        have hr := h.right.of_evaluate ha
        split
        · rfl
        · exact ih n hn hr
      | not e => exact run_bind_congr (ih n hn h) fun a m' _ ↦ rfl
      | signed s e => exact run_bind_congr (ih n hn h) fun a m' _ ↦ rfl
      | call f args =>
        rw [evaluate_call, evaluate_call]
        have hcallee : (lookUp scope f).run m = (lookUp scope' f).run m := by
          rw [run_lookUp, run_lookUp, h f List.mem_cons_self]
        refine run_bind_congr hcallee fun callee m' hlookUp ↦ ?_
        obtain rfl := machine_eq_of_lookUp hlookUp
        have hargs : m'.FindsAlike scope scope' (Expr.names.namesOf args) := fun x hx ↦
          h x (List.mem_cons_of_mem f hx)
        -- behind the arguments, no scope is passed on
        exact run_bind_congr (evaluateAll_eq_of_found? (fun k hk ↦ ih k (by omega)) hargs)
          fun values m'' _ ↦ rfl
      | foreign tag => rfl

end TwoRuns

/-- Whoever has begun calls, with whatever names, a function that is called comes to what it comes to
with the names of the new call alone. -/
theorem callFunctionIn_eq (n : Nat) (name : String) (params : List String) (body : Block)
    (args : List Value) (m : Machine) (calls : List Bindings) :
    let (r, l) := (callFunctionIn n name params body args).run ⟨m, calls⟩
    (callFunction n name params body args).run m = (r, l.machine) := by
  rcases h : (callFunctionIn n name params body args).run ⟨m, calls⟩ with ⟨r, l⟩
  exact ((framedWithin n).callFunction .top .top name params body args ⟨m, calls⟩ trivial rfl r l h).1

/-- No names are seen but those of the scope that is passed along, the top level and the built-in
functions. On any machine, and with any frames left:

* an expression comes to the same in two scopes, with the same machine behind it, if these bind all
  names in it alike, to the same value or not at all;
* a call of a function comes to what the function does with the values of the arguments, whatever
  scope it stands in;
* what the function does with them, with all names of all calls in sight, is the same whatever these
  are;
* and on any machine of the same host where the names at top level are the same, as many functions
  were defined and the last check of a range found the same, it is the same answer and the same
  texts are written, whatever was written before and wherever the call stands. If it stops, only the
  position that this is told of may be another. -/
theorem no_dynamic_scoping (n : Nat) (m : Machine) :
    (∀ e scope scope', (∀ x ∈ e.names, (m.bound scope).get? x = (m.bound scope').get? x) →
      (evaluate n scope e).run m = (evaluate n scope' e).run m) ∧
    (∀ f args scope m' values number name params body,
      m.found? scope f = some (.function number name params body) →
      (evaluateAll n scope args).run m = (.ok values, m') →
      (evaluate (n + 2) scope (.call f args)).run m =
        (callFunction n name params body values).run m') ∧
    (∀ name params body values calls calls',
      let (r, l) := (callFunctionIn n name params body values).run ⟨m, calls⟩
      let (r', l') := (callFunctionIn n name params body values).run ⟨m, calls'⟩
      (callFunction n name params body values).run m = (r, l.machine) ∧
        r = r' ∧ l.machine = l'.machine) ∧
    ∀ name params body values calls m' calls', m.Akin m' →
      let (r, l) := (callFunctionIn n name params body values).run ⟨m, calls⟩
      let (r', l') := (callFunctionIn n name params body values).run ⟨m', calls'⟩
      m.SameEnds m' (r, l.machine) (r', l'.machine) := by
  refine ⟨fun e scope scope' h ↦ ?_, fun f args scope m' values number name params body hf hargs ↦ ?_,
    fun name params body values calls calls' ↦ ?_,
    fun name params body values calls m' calls' hm ↦ ?_⟩
  · refine evaluate_eq_of_found? fun x hx ↦ ?_
    rw [m.found?_eq, m.found?_eq, h x hx]
  · have hlookUp : (Evaluation.lookUp scope f).run m =
        (.ok (.function number name params body), m) := by
      rw [run_lookUp, hf]
    rw [evaluate_call, Evaluation.run_bind_of_ok hlookUp, Evaluation.run_bind_of_ok hargs]
  · have h := callFunctionIn_eq n name params body values m calls
    have h' := callFunctionIn_eq n name params body values m calls'
    obtain ⟨hr, hm⟩ := Prod.mk.inj (h.symm.trans h')
    exact ⟨h, hr, hm⟩
  · have h := (repeatsWithin n).callFunction name params body values m m' hm
    rw [callFunctionIn_eq n name params body values m calls,
      callFunctionIn_eq n name params body values m' calls'] at h
    exact h

/-- A function adds `z` to its argument. Where the caller has a `z` of its own, the function still
adds the one at top level, and so it does when something was written before. -/
theorem no_dynamic_scoping_call :
    let body : Block := [⟨⟨1, 1⟩, .eval (.binary (.known .add) (.name "a") (.name "z"))⟩]
    let m : Machine := { Machine.initial with
      globals := [("z", .int 1), ("f", .function 0 "f" ["a"] body)] }
    let m' : Machine := { m with written := [[]], position := some ⟨7, 1⟩ }
    let e : Expr := .call "f" [.name "y"]
    let shadowing : Scope := .call [("y", .int 2), ("z", .int 7)]
    let plain : Scope := .call [("y", .int 2)]
    let called (m : Machine) (calls : List Bindings) :=
      (callFunctionIn 18 "f" ["a"] body [.int 2]).run ⟨m, calls⟩
    (∀ x ∈ e.names, (m.bound shadowing).get? x = (m.bound plain).get? x) ∧
      (evaluate 20 shadowing e).run m = (evaluate 20 plain e).run m ∧
      (evaluate 20 shadowing e).run m = (callFunction 18 "f" ["a"] body [.int 2]).run m ∧
      ((evaluate 20 shadowing e).run m).1 = .ok (.int 3) ∧
      m.Akin m' ∧ m ≠ m' ∧
      m.SameEnds m' ((called m [[("z", .int 7)]]).1, (called m [[("z", .int 7)]]).2.machine)
        ((called m' []).1, (called m' []).2.machine) := by
  intro body m m' e shadowing plain called
  have halike : ∀ x ∈ e.names, (m.bound shadowing).get? x = (m.bound plain).get? x := by
    intro x hx
    obtain rfl | rfl : x = "f" ∨ x = "y" := by simpa [e, Expr.names, Expr.names.namesOf] using hx
    · rfl
    · rfl
  have hcall := (no_dynamic_scoping 18 m).2.1 "f" [.name "y"] shadowing m [.int 2] 0 "f" ["a"] body
    rfl rfl
  have hakin : m.Akin m' := ⟨rfl, rfl, rfl, rfl⟩
  have hne : m ≠ m' := fun h ↦ nomatch congrArg Machine.position h
  exact ⟨halike, (no_dynamic_scoping 20 m).1 e shadowing plain halike, hcall, by rfl, hakin, hne,
    (no_dynamic_scoping 18 m).2.2.2 "f" ["a"] body [.int 2] [[("z", .int 7)]] m' [] hakin⟩

end Sangria
