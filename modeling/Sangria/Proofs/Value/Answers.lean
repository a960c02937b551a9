import Sangria.Value.Call

/-!
# What operators and built-in functions answer

No operator, no sign and no built-in function makes a function: what they answer is a number, a
truth value, a text or nothing, or it is one of the arguments (`Value.isFunction_of_apply`,
`Value.isFunction_of_sign`, `Builtin.mem_or_isFunction_of_call`). So a function that is met in a run
was defined in that run.
-/

namespace Sangria

/-- Whether a value is a function, that of a program or a built-in one. -/
def Value.isFunction : Value → Bool
  | .function .. => true
  | .builtin _ => true
  | _ => false

/-- An answer, if there is one, is no function. -/
def Plain {ε : Type} (r : Except ε Value) : Prop :=
  ∀ v, r = .ok v → v.isFunction = false

namespace Plain

variable {ε ε' α : Type}

theorem ok {v : Value} (h : v.isFunction = false) : Plain (.ok v : Except ε Value) := by
  intro w hw
  rwa [← Except.ok.inj hw]

theorem error (f : ε) : Plain (.error f : Except ε Value) :=
  fun _ h ↦ absurd h (by simp)

theorem map {r : Except ε α} {f : α → Value} (h : ∀ a, (f a).isFunction = false) :
    Plain (r.map f) := by
  cases r with
  | error e => exact error e
  | ok a => exact ok (h a)

theorem mapError {r : Except ε Value} {f : ε → ε'} (h : Plain r) : Plain (r.mapError f) := by
  cases r with
  | error e => exact error _
  | ok v => exact ok (h v rfl)

theorem bind {r : Except ε α} {f : α → Except ε Value} (h : ∀ a, Plain (f a)) :
    Plain (r.bind f) := by
  cases r with
  | error e => exact error e
  | ok a => exact h a

end Plain

namespace Value

theorem plain_repeatText (t : Text) (n : Int) : Plain (repeatText t n) := by
  unfold repeatText
  split
  · exact .error _
  · split <;> exact .ok rfl

theorem plain_add (a b : Value) : Plain (add a b) := by
  unfold add
  split
  · exact .ok rfl
  · exact .map fun p ↦ by cases p <;> rfl

theorem plain_sub (a b : Value) : Plain (sub a b) :=
  .map fun p ↦ by cases p <;> rfl

theorem plain_mul (a b : Value) : Plain (mul a b) := by
  unfold mul
  split
  · exact plain_repeatText _ _
  · exact plain_repeatText _ _
  · exact .map fun p ↦ by cases p <;> rfl

theorem plain_div (a b : Value) : Plain (div a b) := by
  unfold div
  split
  · exact .error _
  · unfold divInt
    split
    · exact .error _
    · dsimp only
      split
      · exact .error _
      · exact .ok rfl
  · split
    · exact .error _
    · exact .ok rfl
  · exact .mapError (.map fun _ ↦ rfl)

theorem plain_floorDiv (a b : Value) : Plain (floorDiv a b) := by
  unfold floorDiv
  split
  · exact .error _
  · split
    · exact .error _
    · exact .ok rfl
  · split
    · exact .error _
    · exact .ok rfl
  · exact .error _

theorem plain_mod (a b : Value) : Plain (mod a b) := by
  unfold mod
  split
  · exact .map fun _ ↦ rfl
  · split
    · exact .error _
    · split
      · exact .error _
      · exact .ok rfl
    · split
      · exact .error _
      · exact .ok rfl
    · exact .error _

theorem plain_powReal (x y : Float) : Plain (powReal x y) := by
  unfold powReal
  split
  · exact .error _
  · exact .ok rfl
  · exact .mapError (.map fun _ ↦ rfl)

theorem plain_pow (a b : Value) : Plain (pow a b) := by
  unfold pow
  split
  · exact .error _
  · unfold powInt
    split
    · exact .ok rfl
    · split
      · exact plain_powReal _ _
      · exact .error _
      · exact .error _
  · exact plain_powReal _ _
  · exact .mapError (.map fun _ ↦ rfl)

theorem plain_order (r : Relation) (a b : Value) : Plain (order r a b) := by
  unfold order
  split
  · exact .ok rfl
  · exact .error _

/-- No operator answers a function. -/
theorem isFunction_of_apply {op : Operator} {a b v : Value} (h : apply op a b = .ok v) :
    v.isFunction = false := by
  have hplain : Plain (apply op a b) := by
    cases op with
    | add => exact plain_add a b
    | sub => exact plain_sub a b
    | mul => exact plain_mul a b
    | div => exact plain_div a b
    | floorDiv => exact plain_floorDiv a b
    | mod => exact plain_mod a b
    | pow => exact plain_pow a b
    | eq | ne => exact .ok rfl
    | lt | gt | le | ge => exact plain_order _ a b
  exact hplain v h

/-- No sign answers a function. -/
theorem isFunction_of_sign {s : Sign} {v w : Value} (h : sign? s v = some w) :
    w.isFunction = false := by
  unfold sign? at h
  split at h
  · exact Option.some.inj h ▸ rfl
  · exact Option.some.inj h ▸ rfl
  · exact Option.some.inj h ▸ rfl
  · exact Option.some.inj h ▸ rfl
  · obtain ⟨n, -, rfl⟩ := Option.map_eq_some_iff.1 h
    rfl
  · obtain ⟨n, -, rfl⟩ := Option.map_eq_some_iff.1 h
    rfl

end Value

namespace Builtin

theorem plain_length (args : List Value) : Plain (length args) := by
  unfold length
  split
  · exact .ok rfl
  · exact .error _
  · exact .error _

theorem plain_distance (outOfRange : Bool) (args : List Value) :
    Plain (distance outOfRange args) := by
  unfold distance
  split
  · exact .ok rfl
  · split
    · split
      · exact .error _
      · exact .ok rfl
    · exact .error _
  · split
    · exact .ok rfl
    · exact .error _
  · exact .error _

theorem plain_integerBy (round : Float → Int) (x : Float) : Plain (integerBy round x) := by
  unfold integerBy
  split
  · exact .error _
  · split
    · exact .error _
    · exact .ok rfl

theorem plain_roundReal (x : Float) (places : Int) : Plain (roundReal x places) := by
  unfold roundReal
  split
  · exact .ok rfl
  · dsimp only
    split
    · exact .ok rfl
    · split
      · exact .error _
      · exact .ok rfl

theorem plain_rounded (v places : Value) : Plain (rounded v places) := by
  unfold rounded
  split
  · refine .bind fun found ↦ ?_
    split
    · exact plain_integerBy _ _
    · exact plain_roundReal _ _
  · split
    · exact .error _
    · refine .bind fun found ↦ ?_
      split <;> exact .ok rfl

theorem plain_rounding (args : List Value) : Plain (rounding args) := by
  unfold rounding
  split
  · exact .error _
  · exact plain_rounded _ _
  · exact plain_rounded _ _
  · exact .error _

theorem plain_integerOfText (base : Int) (t : Text) : Plain (integerOfText base t) := by
  unfold integerOfText
  split
  · exact .ok rfl
  · exact .error _
  · exact .error _

theorem plain_toInteger (args : List Value) : Plain (toInteger args) := by
  unfold toInteger
  split
  · exact .ok rfl
  · exact plain_integerOfText _ _
  · exact plain_integerBy _ _
  · split
    · exact .ok rfl
    · exact .error _
  · split
    · exact .error _
    · split
      · exact .error _
      · split
        · exact plain_integerOfText _ _
        · exact .error _
  · exact .error _

theorem plain_toReal (args : List Value) : Plain (toReal args) := by
  unfold toReal
  split
  · exact .ok rfl
  · exact .ok rfl
  · split
    · exact .ok rfl
    · exact .error _
  · split
    · dsimp only
      split
      · exact .error _
      · exact .ok rfl
    · exact .error _
  · exact .error _

theorem plain_decode (v : Value) (encoding errors : Option Value) :
    Plain (decode v encoding errors) := by
  unfold decode
  cases encoding <;> cases errors <;> dsimp only
  -- behind the checks of the other arguments there are only faults
  all_goals repeat refine .bind fun _ ↦ ?_
  all_goals split <;> exact .error _

theorem plain_toText (args : List Value) : Plain (toText args) := by
  unfold toText
  split
  · exact .ok rfl
  · exact .map fun _ ↦ rfl
  · exact plain_decode _ _ _
  · exact plain_decode _ _ _
  · exact .error _

/-- What is chosen is one of the values to choose from. -/
theorem mem_of_choose {r : Relation} {best v : Value} {rest : List Value}
    (h : choose r best rest = .ok v) : v ∈ best :: rest := by
  induction rest generalizing best with
  | nil =>
    rw [← Except.ok.inj h]
    exact List.mem_cons_self
  | cons w rest ih =>
    rw [choose] at h
    split at h
    · exact List.mem_cons_of_mem _ (ih h)
    · rcases List.mem_cons.1 (ih h) with rfl | hv
      · exact List.mem_cons_self
      · exact List.mem_cons_of_mem _ (List.mem_cons_of_mem _ hv)
    · exact absurd h (by simp)

theorem mem_or_isFunction_of_extreme {f : Builtin} {r : Relation} {args : List Value} {v : Value}
    (h : extreme f r args = .ok v) : v ∈ args ∨ v.isFunction = false := by
  unfold extreme at h
  split at h
  · exact absurd h (by simp)
  · rename_i t
    split at h
    · exact absurd h (by simp)
    · -- the code points of a text are texts
      rename_i p rest heq
      have hmem := mem_of_choose h
      rw [← heq] at hmem
      obtain ⟨c, -, rfl⟩ := List.mem_map.1 hmem
      exact .inr rfl
  · exact absurd h (by simp)
  · exact .inl (mem_of_choose h)

/-- What a built-in function answers is one of its arguments, or no function. -/
theorem mem_or_isFunction_of_call {outOfRange : Bool} {f : Builtin} {args : List Value} {v : Value}
    {ts : List Text} (h : f.call outOfRange args = .ok (v, ts)) :
    v ∈ args ∨ v.isFunction = false := by
  have silent {r : Except CallFault Value}
      (h : (r.map fun v ↦ (v, ([] : List Text))) = .ok (v, ts)) : r = .ok v := by
    cases r with
    | error e => exact absurd h (by simp [Except.map])
    | ok w => rw [(Prod.mk.inj (Except.ok.inj h)).1]
  cases f with
  | print =>
    cases hp : printed args with
    | error e => exact absurd h (by simp [call, hp, Except.map])
    | ok u =>
      have hv : (Value.none, u) = (v, ts) := by simpa [call, hp, Except.map] using h
      rw [← (Prod.mk.inj hv).1]
      exact .inr rfl
  | len => exact .inr (plain_length args v (silent h))
  | round => exact .inr (plain_rounding args v (silent h))
  | abs => exact .inr (plain_distance outOfRange args v (silent h))
  | min => exact mem_or_isFunction_of_extreme (silent h)
  | max => exact mem_or_isFunction_of_extreme (silent h)
  | int => exact .inr (plain_toInteger args v (silent h))
  | float => exact .inr (plain_toReal args v (silent h))
  | str => exact .inr (plain_toText args v (silent h))

end Builtin

end Sangria
