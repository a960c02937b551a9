import Sangria.Proofs.Interpreter.Upholding
import Sangria.Proofs.Parse.Lexical
import Sangria.Proofs.Program.Positions
import Sangria.Proofs.Run.Escapes
import Sangria.Proofs.Token.Indentation

/-!
# Where failures stand

Every failure of a source is told of an offset in it (`failure_points`): a fault in the tokens of
where cutting the source into tokens stops, or of the first line that fits no block; a refusal of
the token that is refused or of the end; and an error in a run of where a statement stands.

## What each part rests on

* `StopsAt` says what cutting a source into tokens is, without a scanner, and
  `Scanner.Reads.stopsAt` that a scanner does that.
* `exists_place_of_mem` and `exists_refused` say of which token a fault or a refusal is told.
* `Rule.standing` is the rule that only statements at given positions are carried out. A run upholds
  it, and so it is always at one of them when it stops (`Machine.exists_of_runWithin`).
-/

namespace Sangria

/-! ### Cutting a source into tokens -/

/-- Cutting a text that stands at an offset into tokens stops at another offset: blanks and comments
are passed over and tokens are taken, each as long as it can be, up to where none of these comes
next. -/
inductive StopsAt : List Char → Nat → Nat → Prop
  /-- What comes next is no blank, no comment and no token. -/
  | here {c : Char} {rest : List Char} {k : Nat} (blank : isBlank c = false) (comment : c ≠ '#')
      (munch : munch (c :: rest) = none) : StopsAt (c :: rest) k k
  /-- A blank is passed over. -/
  | blank {c : Char} {rest : List Char} {k stop : Nat} (blank : isBlank c = true)
      (later : StopsAt rest (k + 1) stop) : StopsAt (c :: rest) k stop
  /-- A comment is passed over, up to the end of its line. -/
  | comment {words rest : List Char} {k stop : Nat} (inside : '\n' ∉ words)
      (lineEnd : ∀ c ∈ rest.head?, c = '\n') (later : StopsAt rest (k + (words.length + 1)) stop) :
      StopsAt ('#' :: (words ++ rest)) k stop
  /-- A token is taken. -/
  | token {text : List Char} {kind : Kind} {n k stop : Nat} (munch : munch text = some (kind, n))
      (later : StopsAt (text.drop n) (k + n) stop) : StopsAt text k stop

namespace StopsAt

variable {text : List Char} {k stop : Nat}

/-- A gap is passed over. -/
theorem of_gap (h : StopsAt (text.drop (gap text)) (k + gap text) stop) : StopsAt text k stop :=
  gap_induction (motive := fun text k ↦ StopsAt text k stop) .blank .comment h

/-- Where it stops, something is left of the text. -/
theorem lt (h : StopsAt text k stop) : stop < k + text.length := by
  induction h with
  | here => exact Nat.lt_add_of_pos_right (Nat.succ_pos _)
  | blank _ _ ih =>
    rw [List.length_cons]
    omega
  | comment _ _ _ ih =>
    rw [List.length_cons, List.length_append]
    omega
  | @token text _ _ _ _ hmunch _ ih =>
    rw [List.length_drop] at ih
    rcases text with - | ⟨c, rest⟩
    · exact absurd hmunch (by simp [Sangria.munch])
    · have := (munch_length hmunch).2.1
      omega

end StopsAt

namespace Scanner

variable {text : List Char} {s s' next : Scanner} {c : Char} {ts : List Lexeme}

/-- A scanner that comes upon an illegal character stops there. -/
theorem Reads.stopsAt (h : s.Reads ts s') (hillegal : s'.scan = .illegal c next) :
    StopsAt s.rest s.offset next.offset := by
  induction h with
  | nil s =>
    obtain ⟨rest, hdrop, rfl⟩ := exists_of_illegal hillegal
    obtain ⟨hblank, hcomment⟩ := not_gap_of_drop_gap hdrop
    have hmunch := munch_of_illegal hillegal
    refine .of_gap ?_
    rw [hdrop] at hmunch ⊢
    exact .here hblank hcomment hmunch
  | cons hscan _ ih =>
    obtain ⟨c, rest, kind, n, hdrop, hmunch, -, rfl⟩ := exists_of_scan hscan
    refine .of_gap ?_
    rw [hdrop]
    exact .token hmunch (ih hillegal)

/-- What a scanner of a source reads stands in it. -/
theorem Reads.offset_lt (h : s.Reads ts s') (hs : s.rest = text.drop s.offset) :
    ∀ t ∈ ts, t.offset < text.length := by
  induction h with
  | nil => exact List.forall_mem_nil _
  | cons hscan _ ih =>
    refine List.forall_mem_cons.2 ⟨?_, ih (rest_of_scan hscan hs)⟩
    obtain ⟨c, rest, k, n, hdrop, -, rfl, -⟩ := exists_of_scan hscan
    rw [hs, List.drop_drop, ← hs] at hdrop
    exact List.length_lt_of_drop_ne_nil (ne_of_eq_of_ne hdrop (List.cons_ne_nil c rest))

end Scanner

/-- A fault that is delivered is told of an offset of the source, where cutting it into tokens stops
or the first line begins that fits no block. -/
theorem exists_place_of_mem {text : List Char} {d : Diagnostic}
    (h : .error d ∈ deliveries text (.ofText text) .initial) :
    d.phase = .lexical ∧ ∃ k < text.length, d.position = some (.ofOffset text k) ∧
      (StopsAt text 0 k ∨ ∃ ts t s, (Scanner.ofText text).Reads (ts ++ [t]) s ∧
        FirstMisfit text .initial ts t ∧ t.offset = k) := by
  rcases cases_of_mem_deliveries h .nil with
    ⟨ts, s, c, next, hreads, hscan, rfl⟩ | ⟨ts, t, s, hreads, hfirst, rfl⟩
  · have hstops : StopsAt text 0 next.offset := hreads.stopsAt hscan
    exact ⟨rfl, next.offset, Nat.zero_add text.length ▸ hstops.lt, rfl, .inl hstops⟩
  · have hlt := hreads.offset_lt rfl t (List.mem_append_right _ (List.mem_singleton_self t))
    exact ⟨rfl, t.offset, hlt, rfl, .inr ⟨ts, t, s, hreads, hfirst, rfl⟩⟩

/-- What is delivered stands in the source or at its end. -/
theorem offset_le_of_mem {text : List Char} {t : Lexeme}
    (h : .ok t ∈ deliveries text (.ofText text) .initial) : t.offset ≤ text.length := by
  obtain ⟨ts, ending, front, back, hdeliveries, hstops, htiles, hoffsets⟩ :=
    exists_tilesUpTo text (.ofText text) .initial rfl
  have hmem : t ∈ ts := by
    rw [hdeliveries] at h
    rcases hstops with ⟨rfl, -⟩ | ⟨-, f, rfl⟩ <;> simpa using h
  have htext : text = front ++ back := htiles.split
  have hle := hoffsets t hmem
  rw [htext, List.length_append]
  exact Nat.le_add_right_of_le (Nat.zero_add front.length ▸ hle)

/-! ### Parsing -/

/-- A token that is in sight was delivered, unless it is the end of the source. -/
theorem place_of_ahead {text : List Char} {ts : List Lexeme} {rest : List Delivery} {t : Lexeme}
    (hdeliveries : deliveries text (.ofText text) .initial = ts.map .ok ++ rest)
    (ht : ahead text rest = some t) :
    t.offset ≤ text.length ∧
      (.ok t ∈ deliveries text (.ofText text) .initial ∨ t.offset = text.length) := by
  rcases rest with - | ⟨d | u, rest⟩
  · obtain rfl := Option.some.inj ht
    exact ⟨Nat.le_refl _, .inr rfl⟩
  · exact absurd ht (by simp [ahead])
  · obtain rfl := Option.some.inj ht
    have hmem : .ok u ∈ deliveries text (.ofText text) .initial := by
      rw [hdeliveries]
      exact List.mem_append_right _ List.mem_cons_self
    exact ⟨offset_le_of_mem hmem, .inl hmem⟩

/-- The statements of a program that is parsed stand in its source. -/
theorem exists_place_of_parse {source : String} {program : Block}
    (h : parse source = .ok program) :
    ∀ p ∈ Block.positions program, ∃ k ≤ source.toList.length, p = .ofOffset source.toList k := by
  rw [parse_eq_readProgram] at h
  obtain ⟨ts, d, hts, htokens, -, -, hvalue⟩ :=
    exists_derivation_of_readProgram .nil (fun t _ ↦ closesAhead_nil t.kind) h
  obtain rfl : d.tokens = ts := by simpa [readTokens] using htokens
  rw [Block.positions_eq_map]
  refine Derivation.exists_of_mem_positions hvalue fun t ht ↦ offset_le_of_mem ?_
  rw [hts]
  exact List.mem_map_of_mem ht

/-! ### Runs -/

namespace Rule

/-- Only statements that stand at given positions are carried out. -/
def standing (P : List Position) : Rule where
  expr _ := True
  stmt s := s.positions ⊆ P
  place q := ∃ p ∈ P, q = some p
  function _ body := Block.positions body ⊆ P
  fault _ := True

variable {P : List Position}

theorem block_standing_iff {b : Block} : (standing P).block b ↔ Block.positions b ⊆ P := by
  simp [Block.positions_subset_iff, block, standing]

theorem lawful_standing (P : List Position) : (standing P).Lawful where
  binary _ := ⟨trivial, trivial, fun _ _ ↦ trivial⟩
  and _ := ⟨trivial, trivial⟩
  or _ := ⟨trivial, trivial⟩
  not _ := trivial
  signed _ := ⟨trivial, fun _ _ ↦ trivial⟩
  call _ _ _ := trivial
  foreign _ := trivial
  template _ := trivial
  eval _ := trivial
  assign _ := ⟨trivial, fun _ _ ↦ trivial⟩
  define h _ := h
  branch {c body otherwise} h := by
    have h : (Stmt.branch c body otherwise).positions ⊆ P := h
    rw [Stmt.positions_branch, List.append_subset] at h
    refine ⟨trivial, block_standing_iff.2 h.1, fun b hb ↦ block_standing_iff.2 ?_⟩
    obtain rfl := hb
    exact h.2
  body h := block_standing_iff.2 h

end Rule

/-- Where a machine was does not matter to a run of a program that has a statement. -/
theorem Machine.runWithin_cons (n : Nat) (m : Machine) (p : Option Position) (s : Located Stmt)
    (rest : Block) :
    { m with position := p }.runWithin (n + 1) (s :: rest) = m.runWithin (n + 1) (s :: rest) :=
  rfl

/-- What a run reports is told of where a statement of its program stands, if no functions were
bound before. -/
theorem Machine.exists_of_runWithin {n : Nat} {m : Machine} {program : Block} {d : Diagnostic}
    (hm : m.globals = []) (hprogram : program ≠ [])
    (h : (m.runWithin (n + 1) program).1 = .error (.reported d)) :
    d.phase = .runtime ∧ ∃ p ∈ Block.positions program, d.position = some p := by
  obtain ⟨s, rest, rfl⟩ := List.exists_cons_of_ne_nil hprogram
  -- the first statement is as good as under way
  have hstart : (Rule.standing (Block.positions (s :: rest))).Admits
      { m with position := some s.position } :=
    ⟨fun e he ↦ absurd he (hm ▸ List.not_mem_nil), s.position, List.mem_cons_self, rfl⟩
  obtain ⟨-, hends⟩ := (Rule.lawful_standing _).runWithin (n + 1) hstart
    (Rule.block_standing_iff.2 (List.Subset.refl _))
  rw [Machine.runWithin_cons, h] at hends
  exact hends

/-! ### Sources -/

/-- A failure of a source is told of the position of an offset in it. For a fault in the tokens that
is where the source cannot be cut into tokens any further, or where the first line begins that is
narrower than its block, but fits none. For a refusal by the parser it is where a token that was
delivered stands, or the end of the source. For an error in a run it is where a statement of the
parsed program stands, perhaps inside others. -/
theorem failure_points {source : String} {host : Host} {d : Diagnostic}
    (h : (runSource source host).1 = .ok (.failure d)) :
    ∃ k ≤ source.toList.length, d.position = some (.ofOffset source.toList k) ∧
      match d.phase with
      | .lexical => StopsAt source.toList 0 k ∨
        ∃ ts t s, (Scanner.ofText source.toList).Reads (ts ++ [t]) s ∧
          FirstMisfit source.toList .initial ts t ∧ t.offset = k
      | .syntactic => (∃ t, .ok t ∈ (TokenStream.ofText source.toList).drain.1 ∧ t.offset = k) ∨
        k = source.toList.length
      | .runtime => ∃ program, parse source = .ok program ∧
        .ofOffset source.toList k ∈ Block.positions program := by
  rw [runSource_fst] at h
  rcases hparse : parse source with (d' | digits | -) | program <;> rw [hparse] at h
  · obtain rfl := Outcome.failure.inj (Except.ok.inj h)
    rw [parse_eq_readProgram] at hparse
    rcases phase_or_mem_of_readProgram hparse with hphase | hmem
    · obtain ⟨ts, t, rest, -, s, hdeliveries, hahead, -, -, rfl⟩ :=
        exists_refused phase_of_mem_deliveries hphase hparse
      obtain ⟨hle, hplace⟩ := place_of_ahead hdeliveries hahead
      exact ⟨t.offset, hle, rfl, hplace.imp_left fun hmem ↦ ⟨t, hmem, rfl⟩⟩
    · obtain ⟨hphase, k, hk, hposition, hplace⟩ := exists_place_of_mem hmem
      refine ⟨k, Nat.le_of_lt hk, hposition, ?_⟩
      rw [hphase]
      exact hplace
  · exact absurd h (by simp)
  · exact absurd h (by simp)
  · dsimp only at h
    rcases hrun : ((Machine.forSource source host).run program).1 with (d' | f) | v <;>
      rw [hrun] at h
    · obtain rfl := Outcome.failure.inj (Except.ok.inj h)
      obtain ⟨hphase, p, hp, hposition⟩ :=
        Machine.exists_of_runWithin rfl (admits_of_parse hparse).1 hrun
      obtain ⟨k, hk, rfl⟩ := exists_place_of_parse hparse p hp
      refine ⟨k, hk, hposition, ?_⟩
      rw [hphase]
      exact ⟨program, rfl, hp⟩
    · exact absurd h (by simp)
    · exact absurd (Except.ok.inj h) (by simp)

/-- A sign that begins no token, a parenthesis that closes nothing, and a function with a name that
has no value. -/
theorem failure_points_each :
    let sign : Diagnostic := ⟨.lexical, "carácter ilegal '$'", some ⟨1, 7⟩, []⟩
    let name : Diagnostic := ⟨.runtime, "nombre 'y' no definido", some ⟨2, 5⟩, []⟩
    let call := "def f():\n    y\nf()\n"
    ((runSource "x = 1 $\n").1 = .ok (.failure sign) ∧
      ∃ k : Nat, some ⟨1, 7⟩ = some (Position.ofOffset "x = 1 $\n".toList k) ∧
        (StopsAt "x = 1 $\n".toList 0 k ∨
          ∃ ts t s, (Scanner.ofText "x = 1 $\n".toList).Reads (ts ++ [t]) s ∧
            FirstMisfit "x = 1 $\n".toList .initial ts t ∧ t.offset = k)) ∧
    (∃ d, (runSource "x = )\n").1 = .ok (.failure d) ∧ d.phase = .syntactic ∧
      ∃ k : Nat, some ⟨1, 5⟩ = some (Position.ofOffset "x = )\n".toList k) ∧
        ((∃ t, .ok t ∈ (TokenStream.ofText "x = )\n".toList).drain.1 ∧ t.offset = k) ∨ k = 6)) ∧
    (runSource call).1 = .ok (.failure name) ∧
      ∃ k : Nat, some ⟨2, 5⟩ = some (Position.ofOffset call.toList k) ∧
        ∃ program, parse call = .ok program ∧
          .ofOffset call.toList k ∈ Block.positions program := by
  intro sign name call
  have hsign : (runSource "x = 1 $\n").1 = .ok (.failure sign) := by rfl
  obtain ⟨d, hparen, hposition, hphase⟩ : ∃ d, (runSource "x = )\n").1 = .ok (.failure d) ∧
      d.position = some ⟨1, 5⟩ ∧ d.phase = .syntactic :=
    ⟨_, by rfl, rfl, rfl⟩
  have hparse : parse "def f():\n    y\nf()\n" =
      .ok [⟨⟨1, 1⟩, .define "f" [] [⟨⟨2, 5⟩, .eval (.name "y")⟩]⟩,
        ⟨⟨3, 1⟩, .eval (.call "f" [])⟩] := by
    rfl
  have hcall : (runSource call).1 = .ok (.failure name) := by
    rw [runSource_fst, hparse]
    rfl
  obtain ⟨k, -, hk, hstops⟩ := failure_points hsign
  obtain ⟨k', -, hk', hdelivered⟩ := failure_points hparen
  obtain ⟨k'', -, hk'', hstands⟩ := failure_points hcall
  rw [hposition] at hk'
  rw [hphase] at hdelivered
  exact ⟨⟨hsign, k, hk, hstops⟩, ⟨d, hparen, hphase, k', hk', hdelivered⟩, hcall, k'', hk'',
    hstands⟩

end Sangria
