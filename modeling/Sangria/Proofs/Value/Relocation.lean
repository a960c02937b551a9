import Mathlib.Logic.Equiv.Basic
import Sangria.Proofs.Program.Relocation
import Sangria.Proofs.Value.Answers

/-!
# Values from elsewhere

Two functions that differ only in where their statements stand are the same to every operator, every
sign and every built-in function: none of them looks into a block. And the function that writes is
the same to them wherever its interpreter is in memory, unless its text is asked for, by a template
that is filled with it (`Value.Fills`) or by a built-in function (`Builtin.AsksText`). So what they
make of values and of the same values from elsewhere (`Value.moved`) is the same from elsewhere.

Addresses are renamed by a permutation. That is all that equality needs: two functions that write
are equal only if they belong to one interpreter, and then they still do.

A built-in function may answer one of its arguments, so its answer is renamed too
(`Builtin.call_moved`).
-/

namespace Sangria

/-- A built-in function with the address in it renamed. -/
def Builtin.moved (ρ : Equiv.Perm Nat) : Builtin → Builtin
  | .print address => .print (ρ address)
  | f => f

theorem Builtin.moved_refl (f : Builtin) : f.moved (.refl Nat) = f := by
  cases f <;> rfl

theorem Builtin.name_moved (ρ : Equiv.Perm Nat) (f : Builtin) : (f.moved ρ).name = f.name := by
  cases f <;> rfl

/-- The built-in function of a name is the one there, with its address renamed. -/
theorem Builtin.ofName?_moved (ρ : Equiv.Perm Nat) (address : Nat) (x : String) :
    ofName? (ρ address) x = (ofName? address x).map (moved ρ) := by
  have hall : all (ρ address) = (all address).map (moved ρ) := rfl
  rw [ofName?, ofName?, hall, List.find?_map]
  congr 2
  funext f
  rw [Function.comp_apply, name_moved]

/-- A value with all positions in it at the start, and the address in it renamed. -/
def Value.moved (ρ : Equiv.Perm Nat) : Value → Value
  | .function number name params body => .function number name params (Block.unplaced body)
  | .builtin f => .builtin (f.moved ρ)
  | v => v

/-- A value is the function that writes. -/
def Value.IsPrint (v : Value) : Prop :=
  ∃ address, v = .builtin (.print address)

namespace Value

variable (ρ : Equiv.Perm Nat)

theorem moved_of_isFunction {v : Value} (h : v.isFunction = false) : v.moved ρ = v := by
  cases v with
  | function => exact absurd h (by simp [isFunction])
  | builtin => exact absurd h (by simp [isFunction])
  | _ => rfl

/-- What is the same for all blocks of a function and for all addresses does not depend on where a
value is from. -/
theorem eq_of_blind {α : Type} {g : Value → α}
    (hfunction : ∀ number name params body body',
      g (.function number name params body) = g (.function number name params body'))
    (hprint : ∀ a a', g (.builtin (.print a)) = g (.builtin (.print a'))) (v : Value) :
    g (v.moved ρ) = g v := by
  cases v with
  | function number name params body => exact hfunction number name params _ body
  | builtin f =>
    cases f with
    | print a => exact hprint (ρ a) a
    | _ => rfl
  | _ => rfl

/-- What is the same for all blocks of a function does not either, if no address is renamed in the
value. -/
theorem eq_of_blind_of {α : Type} {g : Value → α}
    (hfunction : ∀ number name params body body',
      g (.function number name params body) = g (.function number name params body'))
    {v : Value} (h : ρ = .refl Nat ∨ ¬ v.IsPrint) : g (v.moved ρ) = g v := by
  cases v with
  | function number name params body => exact hfunction number name params _ body
  | builtin f =>
    cases f with
    | print a =>
      obtain rfl := h.resolve_right fun hprint ↦ hprint ⟨a, rfl⟩
      rfl
    | _ => rfl
  | _ => rfl

@[simp]
theorem kindName_moved (v : Value) : (v.moved ρ).kindName = v.kindName :=
  eq_of_blind ρ (fun _ _ _ _ _ ↦ rfl) (fun _ _ ↦ rfl) v

@[simp]
theorem className_moved (v : Value) : (v.moved ρ).className = v.className :=
  eq_of_blind ρ (fun _ _ _ _ _ ↦ rfl) (fun _ _ ↦ rfl) v

@[simp]
theorem truthy_moved (v : Value) : (v.moved ρ).truthy = v.truthy :=
  eq_of_blind ρ (fun _ _ _ _ _ ↦ rfl) (fun _ _ ↦ rfl) v

theorem sign?_moved (s : Sign) (v : Value) : sign? s (v.moved ρ) = sign? s v :=
  eq_of_blind ρ (fun _ _ _ _ _ ↦ by cases s <;> rfl) (fun _ _ ↦ by cases s <;> rfl) v

theorem related?_moved (r : Relation) (a b : Value) :
    related? r (a.moved ρ) (b.moved ρ) = related? r a b :=
  (eq_of_blind ρ (g := (related? r · (b.moved ρ))) (fun _ _ _ _ _ ↦ by cases b <;> rfl)
    (fun _ _ ↦ by cases b <;> rfl) a).trans
    (eq_of_blind ρ (fun _ _ _ _ _ ↦ by cases a <;> rfl) (fun _ _ ↦ by cases a <;> rfl) b)

/-- Values are equal where they are from if they are equal here. -/
theorem equals_moved (a b : Value) : equals (a.moved ρ) (b.moved ρ) = equals a b := by
  have right {a : Value} (ha : ∀ f, a ≠ .builtin f) : equals a (b.moved ρ) = equals a b :=
    eq_of_blind ρ (g := (equals a ·)) (fun _ _ _ _ _ ↦ by cases a <;> rfl)
      (fun _ _ ↦ by cases a <;> first | rfl | exact absurd rfl (ha _)) b
  cases a with
  | function number name params body =>
    exact (right (a := .function number name params (Block.unplaced body)) nofun).trans
      (by cases b <;> rfl)
  | builtin f =>
    cases b with
    | builtin g => cases f <;> cases g <;> simp [moved, Builtin.moved, equals]
    | _ => rfl
  | _ =>
    rw [moved_of_isFunction ρ rfl]
    exact right nofun

/-! ### Templates -/

section Function

variable (number : Nat) (name : String) (params : List String) (body body' : Block)

theorem fillFrom_function (length n : Nat) (used : Bool) (t : Text) :
    fillFrom length (.function number name params body) n used t =
      fillFrom length (.function number name params body') n used t := by
  induction n generalizing used t with
  | zero => rfl
  | succ n ih =>
    unfold fillFrom
    simp only [ih]
    rfl

end Function

section Print

variable (a a' : Nat)

/-- Whether a conversion can write the function that writes does not depend on where that is. -/
theorem convert_print (d : Directive) (letter : CodePoint) (offset : Nat) :
    (d.convert letter offset (.builtin (.print a))).map (fun _ ↦ ()) =
      (d.convert letter offset (.builtin (.print a'))).map fun _ ↦ () := by
  cases letter with
  | surrogate n => rfl
  | char c =>
    obtain ⟨t, ht⟩ : ∃ t, (Value.builtin (.print a)).text? = some t := ⟨_, rfl⟩
    obtain ⟨t', ht'⟩ : ∃ t, (Value.builtin (.print a')).text? = some t := ⟨_, rfl⟩
    obtain ⟨s, hs⟩ : ∃ s, (Value.builtin (.print a)).shown? = some s := ⟨_, rfl⟩
    obtain ⟨s', hs'⟩ : ∃ s, (Value.builtin (.print a')).shown? = some s := ⟨_, rfl⟩
    unfold Directive.convert
    dsimp only
    rw [ht, ht', hs, hs']
    split_ifs <;> rfl

/-- Nor does it whether a template can be filled with it, or why it cannot. -/
theorem fillFrom_print (length n : Nat) (used : Bool) (t : Text) :
    (fillFrom length (.builtin (.print a)) n used t).map (fun _ ↦ ()) =
      (fillFrom length (.builtin (.print a')) n used t).map fun _ ↦ () := by
  have map_map {α β : Type} (r : Except OperatorFault α) (f : α → β) :
      (r.map f).map (fun _ ↦ ()) = r.map fun _ ↦ () := by
    cases r <;> rfl
  induction n generalizing used t with
  | zero => rfl
  | succ n ih =>
    unfold fillFrom
    dsimp only
    split
    · rfl
    · rw [map_map, map_map]
      exact ih used _
    · rename_i rest _ _
      rw [show Directive.read used (.builtin (.print a)) rest =
        Directive.read used (.builtin (.print a')) rest from rfl]
      split
      · rfl
      · split
        · rfl
        · rename_i d _ letter rest _ _
          have hconvert := convert_print a a' d letter (length - rest.length - 1)
          generalize d.convert letter _ (.builtin (.print a)) = r at hconvert ⊢
          generalize d.convert letter _ (.builtin (.print a')) = r' at hconvert ⊢
          cases r with
          | error f =>
            cases r' with
            | error f' => exact congrArg Except.error (Except.error.inj hconvert)
            | ok w => exact nomatch hconvert
          | ok w =>
            cases r' with
            | error f' => exact nomatch hconvert
            | ok w' =>
              dsimp only
              rw [map_map, map_map]
              exact ih true rest

end Print

/-- An operator fills a template with the text of the function that writes. -/
def Fills (op : Operator) (a b : Value) : Prop :=
  op = .mod ∧ b.IsPrint ∧ ∃ t u, a = .text t ∧ fillTemplate t b = .ok u

theorem fillTemplate_moved {t : Text} {v : Value} (h : ρ = .refl Nat ∨ ¬ Fills .mod (.text t) v) :
    fillTemplate t (v.moved ρ) = fillTemplate t v := by
  have blind (h : ρ = .refl Nat ∨ ¬ v.IsPrint) : fillTemplate t (v.moved ρ) = fillTemplate t v :=
    eq_of_blind_of ρ (g := (fillTemplate t ·))
      (fun _ _ _ body body' ↦ fillFrom_function _ _ _ body body' _ _ _ t) h
  rcases h with hρ | h
  · exact blind (.inl hρ)
  by_cases hv : v.IsPrint
  · obtain ⟨a, rfl⟩ := hv
    -- it fails here, so it fails there for the same reason
    have hfails := fillFrom_print (ρ a) a t.length (t.length + 1) false t
    show fillFrom t.length (.builtin (.print (ρ a))) _ _ _ = fillFrom _ _ _ _ _
    generalize hrun : fillFrom t.length (.builtin (.print a)) _ _ _ = r at hfails ⊢
    generalize fillFrom t.length (.builtin (.print (ρ a))) _ _ _ = r' at hfails ⊢
    cases r with
    | ok u => exact absurd ⟨rfl, ⟨a, rfl⟩, t, u, rfl, hrun⟩ h
    | error f =>
      cases r' with
      | ok u => exact nomatch hfails
      | error f' => exact congrArg Except.error (Except.error.inj hfails)
  · exact blind (.inr hv)

/-! ### Operators -/

theorem apply_moved_left {op : Operator} (hop : op ≠ .eq ∧ op ≠ .ne) (a b : Value) :
    apply op (a.moved ρ) b = apply op a b := by
  refine eq_of_blind ρ (g := (apply op · b)) (fun _ _ _ _ _ ↦ ?_) (fun _ _ ↦ ?_) a
  · cases op <;> cases b <;> rfl
  · cases op <;> cases b <;> first | rfl | exact absurd rfl hop.1 | exact absurd rfl hop.2

theorem apply_moved_right {op : Operator} (hop : op ≠ .eq ∧ op ≠ .ne) {a : Value}
    (ha : op = .mod → ∀ t, a ≠ .text t) (b : Value) : apply op a (b.moved ρ) = apply op a b := by
  refine eq_of_blind ρ (g := (apply op a ·)) (fun _ _ _ _ _ ↦ ?_) (fun _ _ ↦ ?_) b
  · cases op <;> cases a <;> first | rfl | exact absurd rfl (ha rfl _)
  · cases op <;> cases a <;> first
      | rfl
      | exact absurd rfl hop.1
      | exact absurd rfl hop.2
      | exact absurd rfl (ha rfl _)

/-- An operator does not look into functions, and does not ask where one is that writes, unless it
fills a template with that. -/
theorem apply_moved {op : Operator} {a b : Value} (h : ρ = .refl Nat ∨ ¬ Fills op a b) :
    apply op (a.moved ρ) (b.moved ρ) = apply op a b := by
  by_cases hop : op ≠ .eq ∧ op ≠ .ne
  · rw [apply_moved_left ρ hop]
    by_cases ha : op = .mod ∧ ∃ t, a = .text t
    · obtain ⟨rfl, t, rfl⟩ := ha
      exact congrArg (Except.map Value.text) (fillTemplate_moved ρ h)
    · exact apply_moved_right ρ hop (fun hop t ht ↦ ha ⟨hop, t, ht⟩) b
  · obtain rfl | rfl : op = .eq ∨ op = .ne := by
      by_contra hne
      exact hop (not_or.1 hne)
    · exact congrArg (fun e ↦ Except.ok (Value.bool e)) (equals_moved ρ a b)
    · exact congrArg (fun e ↦ Except.ok (Value.bool !e)) (equals_moved ρ a b)

end Value

namespace Builtin

variable (ρ : Equiv.Perm Nat) (args : List Value)

/-- A built-in function is asked for the text of the function that writes. -/
def AsksText (args : List Value) : Builtin → Prop
  | .print _ => ∃ v ∈ args, v.IsPrint
  | .str => ∃ v, args = [v] ∧ v.IsPrint
  | _ => False

theorem textOf_moved {v : Value} (h : ρ = .refl Nat ∨ ¬ v.IsPrint) :
    textOf (v.moved ρ) = textOf v :=
  Value.eq_of_blind_of ρ (fun _ _ _ _ _ ↦ rfl) h

theorem printed_moved (h : ρ = .refl Nat ∨ ∀ v ∈ args, ¬ v.IsPrint) :
    printed (args.map (Value.moved ρ)) = printed args := by
  have htexts : (args.map (Value.moved ρ)).mapM textOf = args.mapM textOf := by
    induction args with
    | nil => rfl
    | cons v rest ih =>
      have hv := h.imp_right fun h ↦ h v List.mem_cons_self
      have hrest := h.imp_right fun h w hw ↦ h w (List.mem_cons_of_mem v hw)
      rw [List.map_cons, List.mapM_cons, List.mapM_cons, textOf_moved ρ hv, ih hrest]
  rw [printed, printed, htexts]

theorem length_moved : length (args.map (Value.moved ρ)) = length args := by
  rcases args with - | ⟨v, - | ⟨w, rest⟩⟩
  · rfl
  · exact Value.eq_of_blind ρ (g := (length [·])) (fun _ _ _ _ _ ↦ rfl) (fun _ _ ↦ rfl) v
  · simp [length]

theorem distance_moved (outOfRange : Bool) :
    distance outOfRange (args.map (Value.moved ρ)) = distance outOfRange args := by
  rcases args with - | ⟨v, - | ⟨w, rest⟩⟩
  · rfl
  · exact Value.eq_of_blind ρ (g := (distance outOfRange [·])) (fun _ _ _ _ _ ↦ rfl)
      (fun _ _ ↦ rfl) v
  · simp [distance]

theorem rounded_moved (v places : Value) :
    rounded (v.moved ρ) (places.moved ρ) = rounded v places :=
  (Value.eq_of_blind ρ (g := (rounded · (places.moved ρ))) (fun _ _ _ _ _ ↦ rfl)
    (fun _ _ ↦ rfl) v).trans
    (Value.eq_of_blind ρ (fun _ _ _ _ _ ↦ by cases v <;> rfl) (fun _ _ ↦ by cases v <;> rfl)
      places)

theorem rounding_moved : rounding (args.map (Value.moved ρ)) = rounding args := by
  rcases args with - | ⟨v, - | ⟨w, - | ⟨u, rest⟩⟩⟩
  · rfl
  · exact rounded_moved ρ v .none
  · exact rounded_moved ρ v w
  · simp [rounding]

theorem toInteger_moved : toInteger (args.map (Value.moved ρ)) = toInteger args := by
  rcases args with - | ⟨v, - | ⟨w, - | ⟨u, rest⟩⟩⟩
  · rfl
  · exact Value.eq_of_blind ρ (g := (toInteger [·])) (fun _ _ _ _ _ ↦ rfl) (fun _ _ ↦ rfl) v
  · exact (Value.eq_of_blind ρ (g := (toInteger [·, w.moved ρ]))
      (fun _ _ _ _ _ ↦ by cases w <;> rfl) (fun _ _ ↦ rfl) v).trans
      (Value.eq_of_blind ρ (g := (toInteger [v, ·])) (fun _ _ _ _ _ ↦ by cases v <;> rfl)
        (fun _ _ ↦ by cases v <;> rfl) w)
  · simp [toInteger]

theorem toReal_moved : toReal (args.map (Value.moved ρ)) = toReal args := by
  rcases args with - | ⟨v, - | ⟨w, rest⟩⟩
  · rfl
  · exact Value.eq_of_blind ρ (g := (toReal [·])) (fun _ _ _ _ _ ↦ rfl) (fun _ _ ↦ rfl) v
  · simp [toReal]

theorem checkEncoding_moved (parameter : String) (v : Value) :
    checkEncoding parameter (v.moved ρ) = checkEncoding parameter v :=
  Value.eq_of_blind ρ (fun _ _ _ _ _ ↦ rfl) (fun _ _ ↦ rfl) v

theorem decode_moved (v encoding : Value) (errors : Option Value) :
    decode (v.moved ρ) (some (encoding.moved ρ)) (errors.map (Value.moved ρ)) =
      decode v (some encoding) errors := by
  have hchecks : decode (v.moved ρ) (some (encoding.moved ρ)) (errors.map (Value.moved ρ)) =
      decode (v.moved ρ) (some encoding) errors := by
    cases errors <;> simp only [decode, Option.map_none, Option.map_some, checkEncoding_moved]
  exact hchecks.trans (Value.eq_of_blind ρ (g := (decode · (some encoding) errors))
    (fun _ _ _ _ _ ↦ rfl) (fun _ _ ↦ rfl) v)

theorem toText_moved (h : ρ = .refl Nat ∨ ¬ AsksText args .str) :
    toText (args.map (Value.moved ρ)) = toText args := by
  rcases args with - | ⟨v, - | ⟨w, - | ⟨u, - | ⟨x, rest⟩⟩⟩⟩
  · rfl
  · have hv : ρ = .refl Nat ∨ ¬ v.IsPrint := h.imp_right fun h hv ↦ h ⟨v, rfl, hv⟩
    exact congrArg (Except.map Value.text) (textOf_moved ρ hv)
  · exact decode_moved ρ v w none
  · exact decode_moved ρ v w (some u)
  · simp [toText]

theorem choose_moved (r : Relation) (best : Value) (rest : List Value) :
    choose r (best.moved ρ) (rest.map (Value.moved ρ)) =
      (choose r best rest).map (Value.moved ρ) := by
  induction rest generalizing best with
  | nil => rfl
  | cons v rest ih =>
    rw [List.map_cons, choose, choose, Value.related?_moved]
    rcases Value.related? r v best with - | - | -
    · simp [Except.map]
    · exact ih best
    · exact ih v

/-- What is no function is from nowhere. -/
theorem map_moved_of_plain {ε : Type} {r : Except ε Value} (h : Plain r) :
    r.map (Value.moved ρ) = r := by
  cases r with
  | error e => rfl
  | ok v => exact congrArg Except.ok (Value.moved_of_isFunction ρ (h v rfl))

theorem extreme_moved (f : Builtin) (r : Relation) :
    extreme f r (args.map (Value.moved ρ)) = (extreme f r args).map (Value.moved ρ) := by
  have hchoose (v w : Value) (rest : List Value) :
      extreme f r (v :: w :: rest) = choose r v (w :: rest) := by
    cases v <;> rfl
  rcases args with - | ⟨v, - | ⟨w, rest⟩⟩
  · rfl
  · cases v with
    | text t =>
      refine (map_moved_of_plain ρ fun v hv ↦ ?_).symm
      rcases mem_or_isFunction_of_extreme hv with hmem | hv
      · rw [List.mem_singleton.1 hmem]
        rfl
      · exact hv
    | builtin g => cases g <;> rfl
    | _ => rfl
  · rw [List.map_cons, List.map_cons, hchoose, hchoose]
    exact choose_moved ρ r v (w :: rest)

/-- A built-in function does not look into functions, and does not ask where one is that writes,
unless it is asked for the text of that. It may answer a function. -/
theorem call_moved (outOfRange : Bool) {f : Builtin} (h : ρ = .refl Nat ∨ ¬ f.AsksText args) :
    (f.moved ρ).call outOfRange (args.map (Value.moved ρ)) =
      (f.call outOfRange args).map fun r ↦ (r.1.moved ρ, r.2) := by
  have silent {r r' : Except CallFault Value} (h : r' = r.map (Value.moved ρ)) :
      (r'.map fun v ↦ (v, ([] : List Text))) =
        (r.map fun v ↦ (v, ([] : List Text))).map fun r ↦ (r.1.moved ρ, r.2) := by
    rw [h]
    cases r <;> rfl
  have plain {r r' : Except CallFault Value} (hr : Plain r) (h : r' = r) :
      r' = r.map (Value.moved ρ) :=
    h.trans (map_moved_of_plain ρ hr).symm
  cases f with
  | print a =>
    have hargs : ρ = .refl Nat ∨ ∀ v ∈ args, ¬ v.IsPrint :=
      h.imp_right fun h v hv hprint ↦ h ⟨v, hv, hprint⟩
    rw [moved, call, call, printed_moved ρ args hargs]
    cases printed args <;> rfl
  | len => exact silent (plain (plain_length args) (length_moved ρ args))
  | round => exact silent (plain (plain_rounding args) (rounding_moved ρ args))
  | abs => exact silent (plain (plain_distance outOfRange args) (distance_moved ρ args outOfRange))
  | min => exact silent (extreme_moved ρ args .min .lt)
  | max => exact silent (extreme_moved ρ args .max .gt)
  | int => exact silent (plain (plain_toInteger args) (toInteger_moved ρ args))
  | float => exact silent (plain (plain_toReal args) (toReal_moved ρ args))
  | str => exact silent (plain (plain_toText args) (toText_moved ρ args h))

end Builtin

end Sangria
