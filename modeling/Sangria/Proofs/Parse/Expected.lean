import Mathlib.Data.List.Nodup
import Sangria.Proofs.Parse.Refusing

/-!
# What would have been taken instead

A refusal lists the kinds of token for which the state that refuses has an entry. A reader comes to
that state only after it has put phrases together before the token, as it may do before tokens that
no program goes on with there; and an entry may be to put together one more phrase, before a token
that is refused then. So the list is not that of the kinds that would have been taken: it lacks some
of those, and has others besides (`expected_ne_accepted`).

What it says is this (`expected_of_refused`). A token of another kind in the place of the refused
one would have been taken in one of two ways: after only some of the phrases that were put together,
or after all of them, and then its kind is listed.

A state puts together phrases of one production only (`State.eq_of_reduce`). So two tokens in the
same place lead to the same stacks, up to the first that does not put a phrase together for both.
-/

namespace Sangria

/-! ### Names of kinds -/

theorem Kind.expectedName_injective {k k' : Kind} (h : k.expectedName = k'.expectedName) :
    k = k' := by
  have hnodup : (Kind.all.map Kind.expectedName).Nodup :=
    Kind.pairwise_expectedName.imp fun hlt ↦ by
      rintro rfl
      exact String.lt_irrefl _ hlt
  exact List.inj_on_of_nodup_map hnodup (Kind.mem_all k) (Kind.mem_all k') h

/-- A state lists the kinds for which it has an entry. -/
theorem State.mem_expected_iff {s : State} {k : Kind} :
    k.expectedName ∈ s.expected ↔ (action s k).isSome = true := by
  rw [expected, List.mem_map]
  constructor
  · rintro ⟨k', hk', heq⟩
    obtain rfl := Kind.expectedName_injective heq
    exact (List.mem_filter.1 hk').2
  · exact fun h ↦ ⟨k, List.mem_filter.2 ⟨Kind.mem_all k, h⟩, rfl⟩

/-! ### States put together one production -/

/-- The productions that a state puts together, one for each kind of token in sight. -/
def State.reductions (s : State) : List Production :=
  Kind.all.filterMap fun k ↦
    match action s k with
    | some (.reduce p) => some p
    | _ => none

theorem State.reductions_spec :
    ∀ s : State, (s.reductions.all fun p ↦ s.reductions.head? = some p) = true := by
  decide +kernel

/-- What a state puts together does not depend on the token in sight. -/
theorem State.eq_of_reduce {s : State} {k k' : Kind} {p p' : Production}
    (h : action s k = some (.reduce p)) (h' : action s k' = some (.reduce p')) : p = p' := by
  have head_of_reduce {k : Kind} {p : Production} (h : action s k = some (.reduce p)) :
      s.reductions.head? = some p := by
    have hmem : p ∈ s.reductions := List.mem_filterMap.2 ⟨k, Kind.mem_all k, by rw [h]⟩
    exact of_decide_eq_true (List.all_eq_true.1 (reductions_spec s) p hmem)
  exact Option.some.inj ((head_of_reduce h).symm.trans (head_of_reduce h'))

/-! ### Tokens in the same place -/

namespace Stack

variable {text : List Char} {stack next noticed mid : Stack} {t u : Lexeme} {p : Production}

/-- A reader refuses a token. -/
def Refuses (text : List Char) (stack : Stack) (t : Lexeme) : Prop :=
  ∃ s, stack.feed text t = .error (.refused s)

/-- A token is taken after some of the phrases that are put together before another one, in a state
where for that one another phrase is. -/
def TakesEarlier (text : List Char) (stack : Stack) (t u : Lexeme) : Prop :=
  ∃ mid p s, stack.Reduces text t mid ∧ stack.Reduces text u mid ∧
    action mid.state t.kind = some (.reduce p) ∧ action mid.state u.kind = some (.shift s)

theorem not_refuses_of_shift {s : State} (h : action stack.state t.kind = some (.shift s)) :
    ¬ stack.Refuses text t := by
  rintro ⟨s', hs'⟩
  rw [feed_eq, settled_of_shift h] at hs'
  exact absurd hs' (by simp)

theorem refuses_of_eq_none (h : action stack.state t.kind = none) : stack.Refuses text t :=
  ⟨stack.state, by rw [feed_eq, settled_eq, h]⟩

/-- Putting a phrase together does not change whether the token is refused. -/
theorem refuses_iff_of_reduce (h : action stack.state t.kind = some (.reduce p))
    (hr : stack.reduce text t.offset p = .ok next) :
    stack.Refuses text t ↔ next.Refuses text t := by
  rw [Refuses, Refuses, feed_eq, feed_eq, settled_of_reduce h, hr]

/-- A reader that puts a phrase together stays, or goes on behind it. -/
theorem reduces_iff_of_reduce (h : action stack.state t.kind = some (.reduce p))
    (hr : stack.reduce text t.offset p = .ok next) :
    stack.Reduces text t mid ↔ mid = stack ∨ next.Reduces text t mid := by
  constructor
  · rintro (- | ⟨h', hr', hrest⟩)
    · exact .inl rfl
    · obtain rfl := Action.reduce.inj (Option.some.inj (h.symm.trans h'))
      obtain rfl := Except.ok.inj (hr.symm.trans hr')
      exact .inr hrest
  · rintro (rfl | hrest)
    · exact .refl _
    · exact .step h hr hrest

/-- A reader that puts no phrase together stays. -/
theorem eq_of_reduces (h : ∀ p, action stack.state t.kind ≠ some (.reduce p))
    (hr : stack.Reduces text t mid) : mid = stack := by
  cases hr with
  | refl => rfl
  | step h' => exact absurd h' (h _)

/-- Where one token is refused, another in its place is taken earlier, or comes to where the first
was refused, in a state that has an entry for it. -/
theorem Reduces.not_refuses_iff (h : stack.Reduces text t noticed)
    (hnone : action noticed.state t.kind = none) (hu : u.offset = t.offset) :
    ¬ stack.Refuses text u ↔ stack.TakesEarlier text t u ∨
      stack.Reduces text u noticed ∧ (action noticed.state u.kind).isSome = true ∧
        ¬ noticed.Refuses text u := by
  induction h with
  | refl stack =>
    have hstays {mid : Stack} : stack.Reduces text t mid → mid = stack :=
      eq_of_reduces fun p hp ↦ absurd (hnone.symm.trans hp) (by simp)
    constructor
    · intro haccepts
      refine .inr ⟨.refl stack, ?_, haccepts⟩
      rw [Option.isSome_iff_ne_none]
      exact fun hentry ↦ haccepts (refuses_of_eq_none hentry)
    · rintro (⟨mid, p, s, hmid, -, hp, -⟩ | ⟨-, -, haccepts⟩)
      · obtain rfl := hstays hmid
        exact absurd (hnone.symm.trans hp) (by simp)
      · exact haccepts
  | @step stack next noticed p ha hr hrest ih =>
    have hne : noticed ≠ stack := by
      rintro rfl
      exact absurd (hnone.symm.trans ha) (by simp)
    rcases hentry : action stack.state u.kind with - | a
    · -- refused at once, before any phrase
      have hstays {mid : Stack} : stack.Reduces text u mid → mid = stack :=
        eq_of_reduces fun p hp ↦ absurd (hentry.symm.trans hp) (by simp)
      refine iff_of_false (not_not_intro (refuses_of_eq_none hentry)) ?_
      rintro (⟨mid, q, s, -, hmid, -, hs⟩ | ⟨hnoticed, -⟩)
      · obtain rfl := hstays hmid
        exact absurd (hentry.symm.trans hs) (by simp)
      · exact hne (hstays hnoticed)
    cases a with
    | shift s =>
      exact iff_of_true (not_refuses_of_shift hentry)
        (.inl ⟨stack, p, s, .refl stack, .refl stack, ha, hentry⟩)
    | accept =>
      -- where a source is complete nothing is put together
      obtain ⟨hstate, -⟩ := State.eq_of_accept hentry
      rw [hstate, action] at ha
      split at ha <;> exact absurd ha (by simp)
    | reduce q =>
      obtain rfl := State.eq_of_reduce hentry ha
      have hr' : stack.reduce text u.offset q = .ok next := hu ▸ hr
      rw [refuses_iff_of_reduce hentry hr', ih hnone, reduces_iff_of_reduce hentry hr',
        or_iff_right hne]
      refine or_congr ?_ Iff.rfl
      constructor
      · rintro ⟨mid, p, s, hmid, hmid', hp, hs⟩
        exact ⟨mid, p, s, .step ha hr hmid, .step hentry hr' hmid', hp, hs⟩
      · rintro ⟨mid, p, s, hmid, hmid', hp, hs⟩
        rw [reduces_iff_of_reduce ha hr] at hmid
        rw [reduces_iff_of_reduce hentry hr'] at hmid'
        have hmoved : mid ≠ stack := by
          rintro rfl
          exact absurd (hentry.symm.trans hs) (by simp)
        exact ⟨mid, p, s, hmid.resolve_left hmoved, hmid'.resolve_left hmoved, hp, hs⟩

/-- A phrase that cannot be put together is no refusal. -/
theorem ne_refused_of_reduce {k : Nat} {f : ReadFault} (h : stack.reduce text k p = .error f)
    (s : State) : f ≠ .refused s := by
  rintro rfl
  unfold reduce at h
  dsimp only at h
  split at h
  · exact absurd h (by simp)
  · split at h
    · exact absurd h (by simp)
    · rename_i f _ _
      cases f <;> exact absurd h (by simp [BuildFault.toReadFault])
    · exact absurd h (by simp)

/-- A token is refused in the state behind the phrases that were put together before it. -/
theorem exists_of_refused {s : State} (h : stack.feed text t = .error (.refused s)) :
    ∃ noticed, stack.Reduces text t noticed ∧ action noticed.state t.kind = none ∧
      s = noticed.state := by
  obtain ⟨noticed, hreduces, hrests⟩ := stack.exists_rests text t
  rw [settled_of_feed h] at hrests
  cases hrests with
  | refused hnone => exact ⟨noticed, hreduces, hnone, rfl⟩
  | faulty _ hfault => exact absurd rfl (ne_refused_of_reduce hfault s)

end Stack

/-! ### Refusals of a parse -/

/-- A parse refuses a token of a source, or its end, behind the tokens before it, and reports
that. -/
structure ParseRefuses (source : String) (d : Diagnostic) (before : Stack) (t : Lexeme) :
    Prop where
  /-- It is reported. -/
  reported : parse source = .error (.reported d)
  /-- The reader has taken the tokens before it. -/
  taken : ∃ ts rest, deliveries source.toList (.ofText source.toList) .initial =
    ts.map .ok ++ rest ∧ ahead source.toList rest = some t ∧
    Stack.Takes source.toList [] ts before
  /-- The reader refuses it. -/
  refused : before.Refuses source.toList t

/-- What is reported is the refusal. -/
theorem ParseRefuses.eq_refusal {source : String} {d : Diagnostic} {before : Stack} {t : Lexeme}
    (h : ParseRefuses source d before t) {s : State}
    (hs : before.feed source.toList t = .error (.refused s)) : d = refusal source.toList s t := by
  obtain ⟨hreported, ⟨ts, rest, hds, hahead, htakes⟩, -⟩ := h
  rw [parse_eq_readProgram, hds, readProgram_of_takes htakes] at hreported
  rcases rest with - | ⟨d' | u, rest⟩
  · obtain rfl := Option.some.inj hahead
    rw [readProgram, hs] at hreported
    exact (ParseFault.reported.inj (Except.error.inj hreported)).symm
  · exact absurd hahead (by simp [ahead])
  · obtain rfl := Option.some.inj hahead
    rw [readProgram, hs] at hreported
    exact (ParseFault.reported.inj (Except.error.inj hreported)).symm

/-- A parse that reports a failure of its own refuses a token, in the state behind the phrases that
were put together before it, and lists the kinds for which that state has an entry. A token of
another kind in its place would have been taken exactly if that is after only some of those phrases,
or if it leads to the same state, is of a listed kind, and is not refused from there on. -/
theorem expected_of_refused :
    (∀ source d, parse source = .error (.reported d) → d.phase = .syntactic →
      ∃ before t, ParseRefuses source d before t) ∧
    ∀ source d before t, ParseRefuses source d before t →
      ∃ noticed, before.Reduces source.toList t noticed ∧ action noticed.state t.kind = none ∧
        d = refusal source.toList noticed.state t ∧
        (∀ k : Kind, k.expectedName ∈ d.expected ↔ (action noticed.state k).isSome = true) ∧
        ∀ u : Lexeme, u.offset = t.offset →
          (¬ before.Refuses source.toList u ↔
            before.TakesEarlier source.toList t u ∨
              before.Reduces source.toList u noticed ∧ u.kind.expectedName ∈ d.expected ∧
                ¬ noticed.Refuses source.toList u) := by
  refine ⟨fun source d h hd ↦ ?_, fun source d before t h ↦ ?_⟩
  · have hread := h
    rw [parse_eq_readProgram] at hread
    obtain ⟨ts, t, rest, before, s, hds, hahead, htakes, hrefused, -⟩ :=
      exists_refused phase_of_mem_deliveries hd hread
    exact ⟨before, t, h, ⟨ts, rest, hds, hahead, htakes⟩, s, hrefused⟩
  · obtain ⟨s, hs⟩ := h.refused
    obtain ⟨noticed, hreduces, hnone, rfl⟩ := Stack.exists_of_refused hs
    have hd := h.eq_refusal hs
    have hlisted (k : Kind) :
        k.expectedName ∈ d.expected ↔ (action noticed.state k).isSome = true := by
      rw [hd]
      exact State.mem_expected_iff
    refine ⟨noticed, hreduces, hnone, hd, hlisted, fun u hu ↦ ?_⟩
    rw [hreduces.not_refuses_iff hnone hu, hlisted]

/-- Behind a number, where a number is refused, a closing parenthesis is listed though it would be
refused as well. Behind a name, where a closing parenthesis is, an opening one is not listed though
it would be taken. -/
theorem expected_ne_accepted :
    (∃ d before t, ParseRefuses "1 2" d before t ∧ ∃ u : Lexeme, u.offset = t.offset ∧
      u.kind.expectedName ∈ d.expected ∧ before.Refuses "1 2".toList u) ∧
    ∃ d before t, ParseRefuses "x=y)" d before t ∧ ∃ u : Lexeme, u.offset = t.offset ∧
      u.kind.expectedName ∉ d.expected ∧ ¬ before.Refuses "x=y)".toList u := by
  constructor
  · refine ⟨refusal "1 2".toList (.literal .int) ⟨.literal .int, "2", 1, 2⟩,
      [⟨.literal .int, .token ⟨.literal .int, "1", 1, 0⟩, 0⟩], ⟨.literal .int, "2", 1, 2⟩,
      ⟨by rfl, ⟨[⟨.literal .int, "1", 1, 0⟩], _, by rfl, by rfl, .cons (by rfl) (.nil _)⟩,
        .literal .int, by rfl⟩, ⟨.closeParen, ")", 1, 2⟩, rfl, ?_, .bareExpr, by rfl⟩
    exact State.mem_expected_iff.2 (by decide)
  · refine ⟨refusal "x=y)".toList (.after .assigned) ⟨.closeParen, ")", 1, 3⟩,
      [⟨.name, .token ⟨.name, "y", 1, 2⟩, 2⟩, ⟨.before .assigned, .binding .plain, 1⟩,
        ⟨.leadingName, .token ⟨.name, "x", 1, 0⟩, 0⟩], ⟨.closeParen, ")", 1, 3⟩,
      ⟨by rfl, ⟨[⟨.name, "x", 1, 0⟩, ⟨.binding .plain, "=", 1, 1⟩, ⟨.name, "y", 1, 2⟩], _, by rfl,
        by rfl, .cons (by rfl) (.cons (by rfl) (.cons (by rfl) (.nil _)))⟩,
        .after .assigned, by rfl⟩,
      ⟨.openParen, "(", 1, 3⟩, rfl, ?_, Stack.not_refuses_of_shift (s := .before .firstArg) rfl⟩
    exact mt State.mem_expected_iff.1 (by decide)

/-- Behind a number, where another one is refused, the parse tells by its list what would have been
taken. -/
theorem expected_of_refused_number :
    ∃ d before t noticed, parse "1 2" = .error (.reported d) ∧ d.phase = .syntactic ∧
      ParseRefuses "1 2" d before t ∧ d = refusal "1 2".toList noticed.state t ∧
      ∀ u : Lexeme, u.offset = t.offset →
        (¬ before.Refuses "1 2".toList u ↔
          before.TakesEarlier "1 2".toList t u ∨
            before.Reduces "1 2".toList u noticed ∧ u.kind.expectedName ∈ d.expected ∧
              ¬ noticed.Refuses "1 2".toList u) := by
  obtain ⟨d, hd, hphase⟩ : ∃ d, parse "1 2" = .error (.reported d) ∧ d.phase = .syntactic :=
    ⟨_, by rfl, rfl⟩
  obtain ⟨before, t, ht⟩ := expected_of_refused.1 _ d hd hphase
  obtain ⟨noticed, -, -, hnoticed, -, htaken⟩ := expected_of_refused.2 _ d before t ht
  exact ⟨d, before, t, noticed, hd, hphase, ht, hnoticed, htaken⟩

end Sangria
