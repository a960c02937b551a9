import Sangria.Proofs.Grammar.Soundness

/-!
# Everything that is meant is read

A reader that is given the tokens of a valid derivation, in a place that has room for it, comes to a
cell for the derivation (`Derivation.isRead_of_suits`). So the tokens of a derivation of a program
are read as that program (`readProgram_of_derivation`), and together with soundness the programs
that are read are exactly those that have a derivation that is meant.

What room there is depends on the state before the derivation and on the token behind it
(`Derivation.Suits`): the token may stand behind the phrase there, a connective that makes the
derivation opens inside what waits for it, and what the derivation leaves open closes before the
token. For the productions without precedence that each part finds room when the phrase does is a
check of the table (`reads_of_allows`); for the operators it is where precedence comes in.
-/

namespace Sangria

/-! ### Room for a phrase -/

/-- The kinds of token that can stand before symbols in a row, where one of a kind stands behind
them. -/
def firstKinds (k : Kind) : List GrammarSymbol → List Kind
  | [] => [k]
  | .token k' :: _ => [k']
  | .phrase n :: rest =>
    Kind.all.filter (n.begins ·) ++ if n.nullable then firstKinds k rest else []

theorem mem_firstKinds_of_beginsWith {k next : Kind} {xs : List GrammarSymbol}
    (h : beginsWith next xs = true) : next ∈ firstKinds k xs := by
  induction xs with
  | nil => exact absurd h Bool.false_ne_true
  | cons x rest ih =>
    cases x with
    | token k' =>
      have heq : k' = next := by
        simpa [beginsWith, GrammarSymbol.begins, GrammarSymbol.nullable] using h
      rw [firstKinds, heq]
      exact List.mem_singleton_self next
    | phrase n =>
      rw [firstKinds, List.mem_append, List.mem_filter]
      rw [beginsWith, Bool.or_eq_true, Bool.and_eq_true] at h
      rcases h with h | ⟨hnull, h⟩
      · exact .inl ⟨Kind.mem_all next, h⟩
      · rw [if_pos (show n.nullable = true from hnull)]
        exact .inr (ih h)

theorem mem_firstKinds_of_nullable {k : Kind} {xs : List GrammarSymbol}
    (h : xs.all (·.nullable) = true) : k ∈ firstKinds k xs := by
  induction xs with
  | nil => exact List.mem_singleton_self k
  | cons x rest ih =>
    rw [List.all_cons, Bool.and_eq_true] at h
    cases x with
    | token k' => exact absurd h.1 Bool.false_ne_true
    | phrase n =>
      rw [firstKinds, List.mem_append, if_pos (show n.nullable = true from h.1)]
      exact .inr (ih h.2)

/-- The kind of phrase that decides what may stand behind a phrase. What an expression can consist
of stands where the expression does. -/
def Nonterminal.whole : Nonterminal → Nonterminal
  | .atom | .literal | .call => .expr
  | n => n

/-- Whether a token may stand behind a phrase that is put together in a state. -/
def State.allows (q : State) (n : Nonterminal) (k : Kind) : Bool :=
  (goto q n.whole).any fun s ↦ (action s k).isSome

/-- Whether every expression in a state can be read up to a token: no operator waits for it, and the
token is no connective. -/
def State.isolates (q : State) (k : Kind) : Bool :=
  endsExpr k && (goto q .expr).all fun s ↦ Connective.all.all fun c ↦ s.admits c

/-- Whether there is room in a state, before a token, for any derivation of a symbol. -/
def State.hasRoom (q : State) (k : Kind) : GrammarSymbol → Bool
  | .token _ => true
  | .phrase n => q.allows n k && (n ≠ .expr || q.isolates k)

/-- Whether the symbols of a production can be read from a state on, each in a place that has room
for it, and are put together before a token. -/
def State.reads (k : Kind) (p : Production) : State → List GrammarSymbol → Bool
  | q, [] => action q k = some (.reduce p)
  | q, x :: rest =>
    ((q.step x).any fun s ↦ s.reads k p rest) &&
      (firstKinds k rest).all fun next ↦ q.hasRoom next x

theorem reads_of_allows : ∀ (q : State) (p : Production), (goto q p.lhs).isSome = true →
    p.precedence? = none → ∀ k : Kind, q.allows p.lhs k = true → q.reads k p p.rhs = true := by
  decide +kernel

/-- Where an expression is wanted, what begins one can be taken. -/
theorem step_of_goto_expr : ∀ q : State, (goto q .expr).isSome = true →
    q.step (.token .notWord) = some (.before .negated) ∧
      q.step (.token Sign.neg.kind) = some (.before (.signed .neg)) ∧
      q.step (.token Sign.pos.kind) = some (.before (.signed .pos)) := by
  decide +kernel

/-- What may stand behind an expression is a connective, or an end. -/
theorem followsExpr_of_allows : ∀ (q : State) (k : Kind),
    q.allows .expr k = true → followsExpr k = true := by
  decide +kernel

theorem State.allows_expr (q : State) (k : Kind) :
    q.allows .expr k = (goto q .expr).any fun s ↦ (action s k).isSome :=
  rfl

/-- A connective can be taken where it is admitted. -/
theorem State.step_of_admits {s : State} {c : Connective} (h : s.admits c = true) :
    s.step (.token (.connective c)) = some (.before (.right c)) := by
  rw [State.step_token_eq_some_iff]
  unfold State.admits at h
  split at h
  · rename_i slot
    show slot.continue c = _
    unfold Slot.continue
    rcases ho : slot.operation? with - | ⟨p, precedence⟩
    · rfl
    · have hshift : precedence.choose c = .shift := by
        rw [ho] at h
        exact of_decide_eq_true h
      dsimp only
      rw [hshift]
  · rfl
  · exact absurd h Bool.false_ne_true

/-- An operand is put together with its operator before what the operator closes before. -/
theorem Slot.action_of_closes {s : Slot} {p : Production} {precedence : Precedence} {k : Kind}
    (ho : s.operation? = some (p, precedence)) (hk : followsExpr k = true)
    (hclose : ∀ c, k = .connective c → precedence.ClosesBefore c.precedence) :
    action (.after s) k = some (.reduce p) := by
  cases k with
  | connective c =>
    show s.continue c = _
    rw [Slot.continue, ho]
    dsimp only
    rw [Precedence.choose_eq_reduce_iff.2 (hclose c rfl)]
  | newline | colon | closeParen | comma =>
    cases s <;>
      simp only [Slot.operation?, Option.some.injEq, Prod.mk.injEq, reduceCtorEq] at ho <;>
      exact ho.1 ▸ rfl
  | _ => exact absurd hk Bool.false_ne_true

namespace Derivation

/-- A place, behind a state and before a token, has room for a derivation. -/
structure Suits (d : Derivation) (q : State) (k : Kind) : Prop where
  /-- The token may stand behind the phrase. -/
  allows : ∀ n, d.symbol = .phrase n → q.allows n k = true
  /-- A connective that makes the derivation is admitted. -/
  admits : ∀ c ∈ d.connective?, ∀ s, goto q .expr = some s → s.admits c = true
  /-- What is left open closes before the token. -/
  closes : ∀ c, k = .connective c → ∀ p ∈ d.rightSpine, p.ClosesBefore c.precedence

variable {text : List Char}

/-- The tokens of a derivation, read between a state and a token in sight, leave a cell for it. -/
def IsRead (text : List Char) (d : Derivation) (q : State) (k : Kind) : Prop :=
  ∀ m s, d.value text = .ok m → q.step d.symbol = some s →
    ∀ (stack : Stack) (rest : List Delivery) (t : Lexeme), stack.state = q →
      ahead text rest = some t → t.kind = k →
        ∃ c : Cell, c.state = s ∧ c.Means text d ∧ c.meaning = m ∧
          readProgram text (d.tokens.map .ok ++ rest) stack = readProgram text rest (c :: stack)

/-- Derivations in a row, read from a state to a state. Each is read before the first token of those
behind it, or before that behind all. -/
inductive AreRead (text : List Char) (k : Kind) : State → List Derivation → State → Prop
  /-- None. -/
  | nil {q : State} : AreRead text k q [] q
  /-- One, and then others. -/
  | cons {q s s' : State} {d : Derivation} {ds : List Derivation}
      (edge : q.step d.symbol = some s)
      (first : ∀ next, (next = k ∧ ds.flatMap tokens = [] ∨
        ∃ t ∈ (ds.flatMap tokens).head?, next = t.kind) → d.IsRead text q next)
      (rest : AreRead text k s ds s') : AreRead text k q (d :: ds) s'

theorem isRead_token (u : Lexeme) (q : State) (k : Kind) : (token u).IsRead text q k := by
  intro m s hm hs stack rest t hq _ _
  obtain rfl : Meaning.token u = m := Except.ok.inj hm
  refine ⟨⟨s, .token u, u.offset⟩, rfl, ⟨valid_token u, rfl, ?_⟩, rfl, ?_⟩
  · intro v hv
    obtain rfl : u = v := Option.some.inj hv
    rfl
  · subst hq
    exact readProgram_of_shift (State.step_token_eq_some_iff.1 hs)

/-- The token in sight before derivations and what is behind them. -/
theorem exists_ahead {text : List Char} (ds : List Derivation) {rest : List Delivery} {t : Lexeme}
    (ht : ahead text rest = some t) :
    ∃ u, ahead text ((ds.flatMap tokens).map .ok ++ rest) = some u ∧
      (u.kind = t.kind ∧ ds.flatMap tokens = [] ∨
        ∃ v ∈ (ds.flatMap tokens).head?, u.kind = v.kind) := by
  rcases ds.flatMap tokens with - | ⟨v, vs⟩
  · exact ⟨t, ht, .inl ⟨rfl, rfl⟩⟩
  · exact ⟨v, rfl, .inr ⟨v, rfl, rfl⟩⟩

/-- Derivations that are read in a row leave cells for them. -/
theorem AreRead.exists_cells {k : Kind} {q s : State} {ds : List Derivation} {ms : List Meaning}
    (h : AreRead text k q ds s) (hms : List.Forall₂ (fun d m ↦ d.value text = .ok m) ds ms)
    {stack : Stack} {rest : List Delivery} {t : Lexeme} (hq : stack.state = q)
    (ht : ahead text rest = some t) (hk : t.kind = k) :
    ∃ cells : List Cell, List.Forall₂ (Cell.Means text) cells ds ∧
      Stack.state (cells.reverse ++ stack) = s ∧
      readProgram text ((ds.flatMap tokens).map .ok ++ rest) stack =
        readProgram text rest (cells.reverse ++ stack) := by
  induction h generalizing stack ms with
  | nil => exact ⟨[], .nil, hq, rfl⟩
  | @cons q s s' d ds hedge hfirst _ ih =>
    obtain ⟨m, ms', hm, hms', rfl⟩ := List.forall₂_cons_left_iff.1 hms
    obtain ⟨u, hu, hnext⟩ := exists_ahead ds ht
    rw [hk] at hnext
    obtain ⟨c, hstate, hmeans, -, hread⟩ :=
      hfirst u.kind hnext m s hm hedge stack _ u hq hu rfl
    obtain ⟨cells, hcells, hs', hrest⟩ := ih hms' (show Stack.state (c :: stack) = s from hstate)
    refine ⟨c :: cells, .cons hmeans hcells, ?_, ?_⟩
    · rw [List.reverse_cons, List.append_assoc]
      exact hs'
    · rw [List.flatMap_cons, List.map_append, List.append_assoc, hread, hrest, List.reverse_cons,
        List.append_assoc]
      rfl

/-- A phrase is read if its parts are and it is put together behind them. -/
theorem AreRead.isRead_phrase {k : Kind} {q s' : State} {p : Production} {parts : List Derivation}
    (h : AreRead text k q parts s') (hvalid : (phrase p parts).Valid)
    (ha : action s' k = some (.reduce p)) : (phrase p parts).IsRead text q k := by
  intro m s hm hs stack rest t hq ht hk
  obtain ⟨ms, hms, -⟩ := value_phrase_eq_ok_iff.1 hm
  obtain ⟨cells, hcells, hstate, hread⟩ := h.exists_cells hms hq ht hk
  have hgrammar : parts.map symbol = p.rhs := (valid_phrase_iff.1 hvalid).1.grammar
  have hgoto : goto stack.state p.lhs = some s := by
    rw [hq]
    exact hs
  have hreduce := Stack.reduce_append hcells hgrammar hgoto t.offset
  rw [hm] at hreduce
  refine ⟨⟨s, m, startOf t.offset cells⟩, rfl, ⟨hvalid, hm, ?_⟩, rfl, ?_⟩
  · rw [tokens_phrase]
    exact startOf_eq_offset hcells hgrammar t.offset
  · rw [tokens_phrase, hread]
    refine readProgram_of_reduce ht ?_ hreduce
    rw [hstate, hk]
    exact ha

/-! ### Each production finds room for its parts -/

/-- Only an expression is made by a connective or leaves operators open. -/
theorem eq_of_symbol_ne_expr {d : Derivation} (h : d.symbol ≠ .phrase .expr) :
    d.connective? = none ∧ d.rightSpine = [] := by
  cases d with
  | token t => exact ⟨rfl, rfl⟩
  | phrase p parts =>
    cases p <;> first | exact ⟨rfl, rfl⟩ | exact absurd rfl h

/-- Where there is room for any derivation of a symbol, there is room for this one. -/
theorem suits_of_hasRoom {d : Derivation} {q : State} {k : Kind}
    (h : q.hasRoom k d.symbol = true) : d.Suits q k := by
  rcases eq_or_ne d.symbol (.phrase .expr) with hexpr | hne
  · rw [hexpr, State.hasRoom, Bool.and_eq_true] at h
    have hisolates : endsExpr k = true ∧
        ∀ s, goto q .expr = some s → ∀ c ∈ Connective.all, s.admits c = true := by
      simpa [State.isolates, Option.all_eq_true] using h.2
    refine ⟨?_, ?_, ?_⟩
    · intro n hn
      obtain rfl := GrammarSymbol.phrase.inj (hexpr.symm.trans hn)
      exact h.1
    · intro c _ s hs
      exact hisolates.2 s hs c (Connective.mem_all c)
    · rintro c rfl
      exact absurd hisolates.1 Bool.false_ne_true
  · obtain ⟨hconnective, hspine⟩ := eq_of_symbol_ne_expr hne
    refine ⟨?_, ?_, ?_⟩
    · intro n hn
      rw [hn, State.hasRoom, Bool.and_eq_true] at h
      exact h.1
    · intro c hc
      rw [hconnective] at hc
      exact absurd hc (by simp)
    · intro c _ p hp
      rw [hspine] at hp
      exact absurd hp List.not_mem_nil

/-- The parts of a production without precedence are read. -/
theorem exists_areRead_of_reads {k : Kind} {p : Production} {parts : List Derivation} {q : State}
    (hvalid : ∀ d ∈ parts, d.Valid) (h : q.reads k p (parts.map symbol) = true)
    (ih : ∀ d ∈ parts, ∀ q k, d.Suits q k → d.IsRead text q k) :
    ∃ s, AreRead text k q parts s ∧ action s k = some (.reduce p) := by
  induction parts generalizing q with
  | nil => exact ⟨q, .nil, of_decide_eq_true h⟩
  | cons d ds ihds =>
    rw [List.forall_mem_cons] at hvalid ih
    rw [List.map_cons, State.reads, Bool.and_eq_true, Option.any_eq_true] at h
    obtain ⟨⟨s, hedge, hrest⟩, hfirst⟩ := h
    obtain ⟨s', hread, ha⟩ := ihds hvalid.2 hrest ih.2
    refine ⟨s', .cons hedge (fun next hnext ↦ ?_) hread, ha⟩
    have hnext : next ∈ firstKinds k (ds.map symbol) := by
      rcases hnext with ⟨rfl, hnil⟩ | ⟨t, ht, rfl⟩
      · exact mem_firstKinds_of_nullable (all_nullable_of_flatMap_eq_nil hvalid.2 hnil)
      · exact mem_firstKinds_of_beginsWith
          (beginsWith_of_head? hvalid.2 (fun e he ↦ begins_of_head? (hvalid.2 e he)) ht)
    have hroom := List.all_eq_true.1 hfirst next hnext
    exact ih.1 q next (suits_of_hasRoom hroom)

/-! ### Operators find room for their operands -/

/-- Behind what an operator waits for, everything is put together that closes before the next
token. -/
theorem allows_of_operation {s : Slot} {p : Production} {precedence : Precedence} {k : Kind}
    (ho : s.operation? = some (p, precedence)) (hk : followsExpr k = true)
    (hclose : ∀ c, k = .connective c → precedence.ClosesBefore c.precedence) :
    State.allows (.before s) .expr k = true := by
  have hgoto : goto (.before s) .expr = some (.after s) := by
    cases s <;> rfl
  rw [State.allows_expr, hgoto, Option.any_some, Slot.action_of_closes ho hk hclose]
  rfl

/-- The last operand of an operator has room behind it. -/
theorem suits_operand {s : Slot} {p : Production} {precedence : Precedence} {k : Kind}
    (init : List Derivation) {operand : Derivation} (ho : s.operation? = some (p, precedence))
    (hp : p.precedence? = some precedence) (hsymbol : operand.symbol = .phrase .expr)
    (hsound : (phrase p (init ++ [operand])).Sound) (hk : followsExpr k = true)
    (hclose : ∀ c, k = .connective c → ∀ q ∈ (phrase p (init ++ [operand])).rightSpine,
      q.ClosesBefore c.precedence) : operand.Suits (.before s) k := by
  rw [rightSpine_phrase_append hp] at hclose
  refine ⟨?_, ?_, ?_⟩
  · intro n hn
    obtain rfl := GrammarSymbol.phrase.inj (hsymbol.symm.trans hn)
    exact allows_of_operation ho hk fun c hc ↦ hclose c hc _ List.mem_cons_self
  · intro c hc s' hs'
    obtain rfl : State.after s = s' := by
      cases s <;> exact Option.some.inj hs'
    have hopens : c.precedence.OpensInside precedence :=
      hsound.right precedence hp operand (by simp) c hc
    rw [State.admits, ho, Option.all_some]
    exact decide_eq_true (Precedence.choose_eq_shift_iff.2 hopens)
  · exact fun c hc q hq ↦ hclose c hc q (List.mem_cons_of_mem _ hq)

/-- The left operand of a connective has the room that the whole has. -/
theorem suits_left {c : Connective} {left : Derivation} {parts : List Derivation} {q : State}
    {k : Kind} (h : (phrase (.join c) (left :: parts)).Suits q k)
    (hsound : (phrase (.join c) (left :: parts)).Sound) (hsymbol : left.symbol = .phrase .expr)
    {s : State} (hs : goto q .expr = some s) : left.Suits q (.connective c) := by
  have hadmits : s.admits c = true := h.admits c rfl s hs
  refine ⟨?_, ?_, ?_⟩
  · intro n hn
    obtain rfl := GrammarSymbol.phrase.inj (hsymbol.symm.trans hn)
    have hstep := State.step_token_eq_some_iff.1 (State.step_of_admits hadmits)
    rw [State.allows_expr, hs, Option.any_some, hstep]
    rfl
  · intro c' hc' s' hs'
    obtain rfl : s = s' := Option.some.inj (hs.symm.trans hs')
    -- what closes before a connective opens inside whatever the connective opens inside
    have hcloses : c'.precedence.ClosesBefore c.precedence :=
      hsound.left _ (precedence_mem_rightSpine hc')
    unfold State.admits at hadmits ⊢
    split
    · rename_i slot
      rw [Option.all_eq_true] at hadmits ⊢
      intro o ho
      have hopens := Precedence.choose_eq_shift_iff.1 (of_decide_eq_true (hadmits o ho))
      exact decide_eq_true (Precedence.choose_eq_shift_iff.2 (hopens.of_closesBefore hcloses))
    · rfl
    · rename_i h₁ h₂
      exact absurd hadmits (by simp)
  · rintro c' hc' p hp
    obtain rfl := Kind.connective.inj hc'
    exact hsound.left p hp

/-- An operator with a word before its only operand is read. -/
theorem isRead_single {s : Slot} {p : Production} {precedence : Precedence} {word : Kind}
    {parts : List Derivation} {q : State} {k : Kind} (ho : s.operation? = some (p, precedence))
    (hp : p.precedence? = some precedence) (hrhs : p.rhs = [.token word, .phrase .expr])
    (hstep : q.step (.token word) = some (.before s)) (hvalid : (phrase p parts).Valid)
    (hsuits : (phrase p parts).Suits q k) (hk : followsExpr k = true)
    (ih : ∀ d ∈ parts, ∀ q k, d.Suits q k → d.IsRead text q k) :
    (phrase p parts).IsRead text q k := by
  obtain ⟨hsound, -⟩ := valid_phrase_iff.1 hvalid
  have hgrammar : parts.map symbol = p.rhs := hsound.grammar
  rw [hrhs] at hgrammar
  obtain ⟨sign, operand, rfl⟩ : ∃ sign operand, parts = [sign, operand] := by
    rw [← List.length_eq_two, ← List.length_map, hgrammar]
    rfl
  obtain ⟨hsign, hoperand⟩ : sign.symbol = .token word ∧ operand.symbol = .phrase .expr := by
    simpa using hgrammar
  obtain ⟨u, rfl, hkind⟩ := exists_token hsign
  have hcloses : ∀ c, k = .connective c → precedence.ClosesBefore c.precedence := by
    intro c hc
    refine hsuits.closes c hc _ ?_
    rw [show [token u, operand] = [token u] ++ [operand] from rfl, rightSpine_phrase_append hp]
    exact List.mem_cons_self
  have hread := ih operand (by simp) _ _
    (suits_operand [token u] ho hp hoperand hsound hk hsuits.closes)
  have hedge : State.step (.before s) operand.symbol = some (.after s) := by
    rw [hoperand]
    cases s <;> rfl
  refine AreRead.isRead_phrase (.cons (by rw [hsign]; exact hstep) ?_ (.cons hedge ?_ .nil))
    hvalid (Slot.action_of_closes ho hk hcloses)
  · exact fun next _ ↦ isRead_token u q next
  · rintro next (⟨rfl, -⟩ | ⟨t, ht, -⟩)
    · exact hread
    · exact absurd ht (by simp)

/-- A connective between its operands is read. -/
theorem isRead_join {c : Connective} {parts : List Derivation} {q : State} {k : Kind}
    (hvalid : (phrase (.join c) parts).Valid) (hsuits : (phrase (.join c) parts).Suits q k)
    (hk : followsExpr k = true) {s : State} (hs : goto q .expr = some s)
    (ih : ∀ d ∈ parts, ∀ q k, d.Suits q k → d.IsRead text q k) :
    (phrase (.join c) parts).IsRead text q k := by
  obtain ⟨hsound, -⟩ := valid_phrase_iff.1 hvalid
  obtain ⟨left, u, right, rfl, hkind, hleft, hright⟩ := exists_join_parts hsound.grammar
  have hcloses : ∀ c', k = .connective c' → c.precedence.ClosesBefore c'.precedence :=
    fun c' hc' ↦ hsuits.closes c' hc' _ (precedence_mem_rightSpine rfl)
  have hreadLeft := ih left (by simp) _ _ (suits_left hsuits hsound hleft hs)
  have hreadRight := ih right (by simp) _ _
    (suits_operand (s := .right c) [left, token u] rfl rfl hright hsound hk hsuits.closes)
  have hedge : State.step (.before (.right c)) right.symbol = some (.after (.right c)) := by
    rw [hright]
    rfl
  refine AreRead.isRead_phrase
    (.cons (by rw [hleft]; exact hs) ?_ (.cons ?_ (fun next _ ↦ isRead_token u s next)
      (.cons hedge ?_ .nil))) hvalid (Slot.action_of_closes rfl hk hcloses)
  · rintro next (⟨-, hnil⟩ | ⟨t, ht, rfl⟩)
    · exact absurd hnil (by simp [tokens])
    · obtain rfl : u = t := Option.some.inj ht
      rw [hkind]
      exact hreadLeft
  · rw [symbol, hkind]
    exact State.step_of_admits (hsuits.admits c rfl s hs)
  · rintro next (⟨rfl, -⟩ | ⟨t, ht, -⟩)
    · exact hreadRight
    · exact absurd ht (by simp)

/-- A valid derivation is read wherever there is room for it. -/
theorem isRead_of_suits {d : Derivation} (hd : d.Valid) :
    ∀ q k, d.Suits q k → d.IsRead text q k := by
  induction d with
  | token t => exact fun q k _ ↦ isRead_token t q k
  | phrase p parts ih =>
    intro q k hsuits
    obtain ⟨hsound, hparts⟩ := valid_phrase_iff.1 hd
    have hallows : q.allows p.lhs k = true := hsuits.allows _ rfl
    -- without a place for the phrase there is nothing to show
    rcases hgoto : goto q p.lhs with - | s
    · intro m s hm hs
      exact absurd (hgoto.symm.trans hs) (by simp)
    have ih' : ∀ d ∈ parts, ∀ q k, d.Suits q k → d.IsRead text q k :=
      fun d hd ↦ ih d hd (hparts d hd)
    have hword (hexpr : p.lhs = .expr) := step_of_goto_expr q (by rw [← hexpr, hgoto]; rfl)
    have hfollows (hexpr : p.lhs = .expr) := followsExpr_of_allows q k (hexpr ▸ hallows)
    cases hp : p.precedence? with
    | none =>
      have hreads := reads_of_allows q p (by rw [hgoto]; rfl) hp k hallows
      rw [← show parts.map symbol = p.rhs from hsound.grammar] at hreads
      obtain ⟨s', hread, ha⟩ := exists_areRead_of_reads hparts hreads ih'
      exact hread.isRead_phrase hd ha
    | some precedence =>
      cases p with
      | join c => exact isRead_join hd hsuits (hfollows rfl) hgoto ih'
      | negation =>
        exact isRead_single (s := .negated) rfl rfl rfl (hword rfl).1 hd hsuits (hfollows rfl) ih'
      | signed sign =>
        refine isRead_single (s := .signed sign) rfl rfl rfl ?_ hd hsuits (hfollows rfl) ih'
        cases sign with
        | neg => exact (hword rfl).2.1
        | pos => exact (hword rfl).2.2
      | _ => exact absurd hp (by simp [Production.precedence?])

end Derivation

/-- The tokens of a valid derivation of a program are read as its value. -/
theorem readProgram_of_derivation {text : List Char} {d : Derivation} {b : Block} (hd : d.Valid)
    (hsymbol : d.symbol = .phrase .program) (hvalue : d.value text = .ok (.block b)) :
    readProgram text (d.tokens.map .ok) [] = .ok b := by
  have hsuits : d.Suits .start .eof := by
    refine ⟨?_, ?_, ?_⟩
    · intro n hn
      obtain rfl := GrammarSymbol.phrase.inj (hsymbol.symm.trans hn)
      rfl
    · intro c hc
      rw [(Derivation.eq_of_symbol_ne_expr (by rw [hsymbol]; simp)).1] at hc
      exact absurd hc (by simp)
    · exact fun c hc ↦ absurd hc (by simp)
  have hstep : State.step .start d.symbol = some .complete := by
    rw [hsymbol]
    rfl
  obtain ⟨c, hstate, hmeans, hmeaning, hread⟩ :=
    Derivation.isRead_of_suits hd _ _ hsuits _ .complete hvalue hstep [] [] (eofLexeme text)
      rfl rfl rfl
  rw [List.append_nil] at hread
  have haccept : action c.state .eof = some .accept := by
    rw [hstate]
    rfl
  obtain ⟨state, meaning, start⟩ := c
  obtain rfl : meaning = .block b := hmeaning
  rw [hread, readProgram, Stack.feed_eq, Stack.settled_eq]
  rw [show action (Stack.state [⟨state, .block b, start⟩]) (eofLexeme text).kind = _ from haccept]

end Sangria
