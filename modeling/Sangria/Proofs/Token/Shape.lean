import Sangria.Proofs.Token.Deliveries

/-!
# The shape of a token stream

The tokens of a source are its logical lines, then what closes the blocks still open, then the end
of the source (`tokenize_shape`). A line announces a deeper block or the end of some blocks, has at
least one token of its own, and ends.

## What each part rests on

All parts are read off the same run of the layout (`Delivers`), by induction on it, with one case
for each thing that a lexeme can do (`Layout.Takes`).

* `Delivers.linesFrom` rests on the mark that says whether a line is under way.
* `Delivers.nests` rests on the open blocks: what is still to come closes exactly those, and no
  block before it is open. A line that opens or closes a block keeps that.
* `Delivers.openParens_eq_zero` rests on the count of open parentheses, which is the one that any
  reader of the tokens could keep.
* `Delivers.last_lineEnd` rests on the texts: a line end without one stands only where the source
  ends.
-/

namespace Sangria

/-! ### What a lexeme does to the layout -/

/-- What a lexeme adds to the stream, and the layout behind it, when it shows no fault. -/
inductive Layout.Takes (l : Layout) (t : Lexeme) : List Lexeme → Layout → Prop
  /-- A line end inside parentheses or behind no token adds nothing. -/
  | skipped (kind : t.kind = .newline) : Takes l t [] l
  /-- Any other line end ends the line. -/
  | ended (kind : t.kind = .newline) (outside : l.depth = 0) (under : l.fresh = false) :
      Takes l t [t] { l with fresh := true }
  /-- A token inside a line adds itself. -/
  | inside (kind : t.kind ≠ .newline) (under : l.fresh = false) :
      Takes l t [t] ⟨l.levels, depthAfter l.depth t.kind, false⟩
  /-- A token that begins a wider line opens a block. -/
  | opened (kind : t.kind ≠ .newline) (fresh : l.fresh = true) (width : Nat) :
      Takes l t [unwritten .indent t, t] ⟨width :: l.levels, depthAfter l.depth t.kind, false⟩
  /-- A token that begins any other line closes blocks, perhaps none. -/
  | closed (kind : t.kind ≠ .newline) (fresh : l.fresh = true) {inner outer : List Nat}
      (levels : l.levels = inner ++ outer) :
      Takes l t ((inner.map fun _ ↦ unwritten .dedent t) ++ [t])
        ⟨outer, depthAfter l.depth t.kind, false⟩

theorem Layout.takes_of_take {text : List Char} {l l' : Layout} {t : Lexeme}
    {tokens : List Lexeme} (h : l.take text t = (tokens, .ok l')) : l.Takes t tokens l' := by
  unfold take at h
  split at h
  · rename_i hkind
    split at h
    · obtain ⟨rfl, hl⟩ := Prod.mk.inj h
      obtain rfl := Except.ok.inj hl
      exact .skipped hkind
    · rename_i hnot
      obtain ⟨rfl, hl⟩ := Prod.mk.inj h
      obtain rfl := Except.ok.inj hl
      rw [not_or, Bool.not_eq_true] at hnot
      exact .ended hkind (by omega) hnot.2
  · rename_i hkind
    dsimp only at h
    split at h
    · rename_i hfresh
      unfold startLine at h
      dsimp only at h
      split at h
      · rename_i announced levels heq
        obtain ⟨rfl, hl⟩ := Prod.mk.inj h
        obtain rfl := Except.ok.inj hl
        split at heq
        · obtain ⟨rfl, hlevels⟩ := Prod.mk.inj heq
          obtain rfl := Option.some.inj hlevels
          exact .opened hkind hfresh _
        · obtain ⟨rfl, hlevels⟩ := Prod.mk.inj heq
          split at hlevels
          · obtain rfl := Option.some.inj hlevels
            exact .closed hkind hfresh List.takeWhile_append_dropWhile.symm
          · exact absurd hlevels (by simp)
      · exact absurd (Prod.mk.inj h).2 (by simp)
    · rename_i hfresh
      obtain ⟨rfl, hl⟩ := Prod.mk.inj h
      obtain rfl := Except.ok.inj hl
      exact .inside hkind (Bool.eq_false_iff.2 hfresh)

/-- What a lexeme adds is the lexeme itself, or announced before it. -/
theorem Layout.Takes.eq_or_unwritten {l l' : Layout} {t : Lexeme} {tokens : List Lexeme}
    (h : l.Takes t tokens l') :
    ∀ u ∈ tokens, u = t ∨ u = unwritten .indent t ∨ u = unwritten .dedent t := by
  intro u hu
  cases h with
  | skipped => exact absurd hu List.not_mem_nil
  | ended => exact .inl (List.mem_singleton.1 hu)
  | inside => exact .inl (List.mem_singleton.1 hu)
  | opened =>
    rcases List.mem_cons.1 hu with rfl | hu
    · exact .inr (.inl rfl)
    · exact .inl (List.mem_singleton.1 hu)
  | closed =>
    rcases List.mem_append.1 hu with hu | hu
    · obtain ⟨w, -, rfl⟩ := List.mem_map.1 hu
      exact .inr (.inr rfl)
    · exact .inl (List.mem_singleton.1 hu)

/-- What is announced before a fault are ends of blocks. -/
theorem Layout.eq_unwritten_of_fault {text : List Char} {l : Layout} {t : Lexeme}
    {tokens : List Lexeme} {f : LexicalFault} (h : l.take text t = (tokens, .error f)) :
    ∀ u ∈ tokens, u = unwritten .dedent t := by
  unfold take startLine at h
  dsimp only at h
  split at h
  · split at h <;> exact absurd (Prod.mk.inj h).2 (by simp)
  · split at h
    · split at h
      · exact absurd (Prod.mk.inj h).2 (by simp)
      · rename_i heq
        obtain ⟨rfl, -⟩ := Prod.mk.inj h
        split at heq
        · exact absurd (Prod.mk.inj heq).2 (by simp)
        · obtain ⟨rfl, -⟩ := Prod.mk.inj heq
          intro u hu
          obtain ⟨w, -, rfl⟩ := List.mem_map.1 hu
          rfl
    · exact absurd (Prod.mk.inj h).2 (by simp)

/-- What a lexeme adds, with a fault or without, is the lexeme itself or announced before it. -/
theorem Layout.eq_or_unwritten_of_mem_take {text : List Char} {l : Layout} {t u : Lexeme}
    (h : u ∈ (l.take text t).1) : u = t ∨ u = unwritten .indent t ∨ u = unwritten .dedent t := by
  rcases ht : l.take text t with ⟨tokens, f | l'⟩
  · rw [ht] at h
    exact .inr (.inr (eq_unwritten_of_fault ht u h))
  · rw [ht] at h
    exact (takes_of_take ht).eq_or_unwritten u h

/-- What the end of a source adds is the end of a line or of a block. -/
theorem Layout.eq_of_mem_close {l : Layout} {line offset : Nat} {u : Lexeme}
    (h : u ∈ l.close line offset) :
    u = ⟨.newline, "", line, offset⟩ ∨ u = ⟨.dedent, "", line, offset⟩ := by
  rcases List.mem_append.1 h with h | h
  · split at h
    · exact absurd h List.not_mem_nil
    · exact .inl (List.mem_singleton.1 h)
  · obtain ⟨w, -, rfl⟩ := List.mem_map.1 h
    exact .inr rfl

/-! ### Logical lines -/

/-- A logical line. -/
structure LogicalLine where
  /-- What it announces. -/
  announced : List Token
  /-- The tokens that stand in it. -/
  words : List Token
  /-- Its end. -/
  lineEnd : Token

namespace LogicalLine

/-- The tokens of a line. -/
def tokens (l : LogicalLine) : List Token :=
  l.announced ++ l.words ++ [l.lineEnd]

/-- Whether a line announces the end of blocks, perhaps of none. -/
def Closes (l : LogicalLine) : Prop :=
  ∀ t ∈ l.announced, t.kind = .dedent

/-- A line opens one block or closes some, has tokens, and ends once. -/
structure WellFormed (l : LogicalLine) : Prop where
  /-- It announces a deeper block, or the end of blocks. -/
  announced : (∃ t, l.announced = [t] ∧ t.kind = .indent) ∨ l.Closes
  /-- It is not empty. -/
  words_ne_nil : l.words ≠ []
  /-- Nothing in it is a line end or announces anything. -/
  words : ∀ t ∈ l.words, t.kind.isWord = true
  /-- It ends with a line end. -/
  lineEnd : l.lineEnd.kind = .newline

end LogicalLine

/-- Tokens that complete a line, where one is under way, and then are lines and the ends of
blocks. -/
def LinesFrom (underWay : Bool) (tokens : List Token) : Prop :=
  ∃ (lines : List LogicalLine) (closing : List Token),
    (∀ line ∈ lines, line.WellFormed) ∧ (∀ t ∈ closing, t.kind = .dedent) ∧
      if underWay then
        ∃ words lineEnd, (∀ t ∈ words, t.kind.isWord = true) ∧ lineEnd.kind = .newline ∧
          tokens = words ++ lineEnd :: (lines.flatMap LogicalLine.tokens ++ closing)
      else tokens = lines.flatMap LogicalLine.tokens ++ closing

/-- What is announced and a first token make a line of the one under way behind them. -/
theorem LinesFrom.begin {announced tokens : List Token} {t : Token}
    (ha : (∃ t, announced = [t] ∧ t.kind = .indent) ∨ ∀ t ∈ announced, t.kind = .dedent)
    (ht : t.kind.isWord = true) (h : LinesFrom true tokens) :
    LinesFrom false (announced ++ [t] ++ tokens) := by
  obtain ⟨lines, closing, hlines, hclosing, words, lineEnd, hwords, hend, rfl⟩ := h
  refine ⟨⟨announced, t :: words, lineEnd⟩ :: lines, closing, ?_, hclosing, ?_⟩
  · refine List.forall_mem_cons.2 ⟨⟨ha, List.cons_ne_nil _ _, ?_, hend⟩, hlines⟩
    exact List.forall_mem_cons.2 ⟨ht, hwords⟩
  · simp [LogicalLine.tokens]

/-- What a stream delivers are lines. -/
theorem Delivers.linesFrom {text : List Char} {s : Scanner} {l : Layout} {ts : List Lexeme}
    (h : Delivers text s l ts) : LinesFrom (!l.fresh) (ts.map (TokenStream.token text)) := by
  induction h with
  | @finished s next l hs =>
    refine ⟨[], l.levels.map fun _ ↦ TokenStream.token text ⟨.dedent, "", next.line, text.length⟩,
      List.forall_mem_nil _, ?_, ?_⟩
    · intro t ht
      obtain ⟨w, -, rfl⟩ := List.mem_map.1 ht
      rfl
    · rcases hfresh : l.fresh with - | -
      · refine ⟨[], TokenStream.token text ⟨.newline, "", next.line, text.length⟩,
          List.forall_mem_nil _, rfl, ?_⟩
        simp [Layout.close, hfresh]
      · simp [Layout.close, hfresh]
  | @lexeme s next l l' t tokens rest hs ht _ ih =>
    have hword : t.kind ≠ .newline → t.kind.isWord = true := Scanner.isWord_of_scan hs
    rw [List.map_append]
    cases Layout.takes_of_take ht with
    | skipped hkind => exact ih
    | ended hkind hdepth hunder =>
      obtain ⟨lines, closing, hlines, hclosing, heq⟩ := ih
      rw [hunder]
      exact ⟨lines, closing, hlines, hclosing, [], TokenStream.token text t,
        List.forall_mem_nil _, hkind, congrArg (TokenStream.token text t :: ·) heq⟩
    | inside hkind hunder =>
      obtain ⟨lines, closing, hlines, hclosing, words, lineEnd, hwords, hend, heq⟩ := ih
      rw [hunder]
      exact ⟨lines, closing, hlines, hclosing, TokenStream.token text t :: words, lineEnd,
        List.forall_mem_cons.2 ⟨hword hkind, hwords⟩, hend,
        congrArg (TokenStream.token text t :: ·) heq⟩
    | opened hkind hfresh width =>
      rw [hfresh]
      show LinesFrom false ([TokenStream.token text (Layout.unwritten .indent t)] ++
        [TokenStream.token text t] ++ _)
      exact .begin (.inl ⟨_, rfl, rfl⟩) (hword hkind) ih
    | closed hkind hfresh hlevels =>
      rw [hfresh, List.map_append]
      refine .begin (.inr ?_) (hword hkind) ih
      intro u hu
      simp only [List.map_map, List.mem_map] at hu
      obtain ⟨w, -, rfl⟩ := hu
      rfl

/-! ### Blocks -/

/-- Kinds of token lead from a number of open blocks to another, and never close a block that is not
open. -/
structure Nests (before after : Nat) (ks : List Kind) : Prop where
  /-- No more blocks are closed than are open. -/
  within : ∀ n, (ks.take n).count .dedent ≤ (ks.take n).count .indent + before
  /-- In the end as many are open as are said. -/
  whole : ks.count .dedent + after = ks.count .indent + before

namespace Nests

theorem append {a b c : Nat} {ks ks' : List Kind} (h : Nests a b ks) (h' : Nests b c ks') :
    Nests a c (ks ++ ks') := by
  have hwhole := h.whole
  refine ⟨fun n ↦ ?_, ?_⟩
  · rw [List.take_append, List.count_append, List.count_append]
    rcases Nat.lt_or_ge n ks.length with hn | hn
    · -- the prefix ends in the first part
      rw [Nat.sub_eq_zero_of_le (Nat.le_of_lt hn), List.take_zero, List.count_nil, List.count_nil]
      exact h.within n
    · have hwithin := h'.within (n - ks.length)
      rw [List.take_of_length_le hn]
      omega
  · have hwhole' := h'.whole
    rw [List.count_append, List.count_append]
    omega

theorem singleton {a b : Nat} {k : Kind}
    (h : [k].count .dedent + b = [k].count .indent + a) : Nests a b [k] := by
  refine ⟨fun n ↦ ?_, h⟩
  cases n with
  | zero => exact Nat.zero_le _
  | succ n =>
    rw [List.take_succ_cons, List.take_nil]
    omega

theorem word {a : Nat} {k : Kind} (h : k.isWord = true ∨ k = .newline ∨ k = .eof) :
    Nests a a [k] := by
  refine singleton ?_
  rw [List.count_singleton, List.count_singleton]
  rcases h with h | rfl | rfl
  · have hindent : k ≠ .indent := by rintro rfl; exact absurd h (by decide)
    have hdedent : k ≠ .dedent := by rintro rfl; exact absurd h (by decide)
    simp [hindent, hdedent]
  · rfl
  · rfl

/-- Blocks are closed from the innermost one. -/
theorem dedents {a : Nat} (inner : List Nat) {f : Nat → Lexeme} (hf : ∀ w, (f w).kind = .dedent) :
    Nests (inner.length + a) a ((inner.map f).map (·.kind)) := by
  induction inner with
  | nil => exact ⟨fun n ↦ by simp, by simp⟩
  | cons w rest ih =>
    rw [List.map_cons, List.map_cons, hf w]
    show Nests _ _ ([.dedent] ++ _)
    refine append (singleton ?_) ih
    rw [List.length_cons]
    show 1 + (rest.length + a) = 0 + (rest.length + 1 + a)
    omega

end Nests

theorem Layout.Takes.nests {l l' : Layout} {t : Lexeme} {tokens : List Lexeme}
    (h : l.Takes t tokens l') (ht : t.kind ≠ .newline → t.kind.isWord = true) :
    Nests l.levels.length l'.levels.length (tokens.map (·.kind)) := by
  cases h with
  | skipped => exact ⟨fun n ↦ by simp, by simp⟩
  | ended hkind => exact .word (.inr (.inl hkind))
  | inside hkind => exact .word (.inl (ht hkind))
  | opened hkind =>
    show Nests _ _ ([.indent] ++ [t.kind])
    refine Nests.append (.singleton ?_) (.word (.inl (ht hkind)))
    rw [List.length_cons]
    show 0 + (l.levels.length + 1) = 1 + l.levels.length
    omega
  | closed hkind _ hlevels =>
    rw [List.map_append, hlevels, List.length_append]
    exact (Nests.dedents _ fun _ ↦ rfl).append (.word (.inl (ht hkind)))

/-- What a stream still delivers closes the blocks that are open. -/
theorem Delivers.nests {text : List Char} {s : Scanner} {l : Layout} {ts : List Lexeme}
    (h : Delivers text s l ts) : Nests l.levels.length 0 (ts.map (·.kind)) := by
  induction h with
  | @finished s next l hs =>
    rw [Layout.close, List.map_append]
    refine Nests.append (b := l.levels.length) ?_ (Nests.dedents (a := 0) _ fun _ ↦ rfl)
    split
    · exact ⟨fun n ↦ by simp, by simp⟩
    · exact .word (.inr (.inl rfl))
  | lexeme hs ht _ ih =>
    rw [List.map_append]
    exact (Layout.Takes.nests (Layout.takes_of_take ht) (Scanner.isWord_of_scan hs)).append ih

/-! ### Line ends -/

/-- How many parentheses are open behind tokens of given kinds. -/
def openParens (depth : Nat) (ks : List Kind) : Nat :=
  ks.foldl Layout.depthAfter depth

/-- A token in one of two lists stands in the first or in the second. -/
theorem exists_of_append_eq_append_cons {α : Type} {as bs front behind : List α} {t : α}
    (h : as ++ bs = front ++ t :: behind) :
    (∃ cs, as = front ++ t :: cs ∧ behind = cs ++ bs) ∨
      ∃ cs, front = as ++ cs ∧ bs = cs ++ t :: behind := by
  rcases List.append_eq_append_iff.1 h with ⟨cs, hfront, hbs⟩ | ⟨cs, has, hcs⟩
  · exact .inr ⟨cs, hfront, hbs⟩
  · rcases List.cons_eq_append_iff.1 hcs with ⟨rfl, hbs⟩ | ⟨cs', rfl, hbehind⟩
    · exact .inr ⟨[], by rw [has, List.append_nil, List.append_nil], hbs⟩
    · exact .inl ⟨cs', has, hbehind⟩

theorem eq_of_singleton_eq_append_cons {α : Type} {a t : α} {front behind : List α}
    (h : [a] = front ++ t :: behind) : front = [] ∧ t = a ∧ behind = [] := by
  cases front with
  | nil =>
    obtain ⟨rfl, rfl⟩ := List.cons.inj h
    exact ⟨rfl, rfl, rfl⟩
  | cons b front => exact absurd (List.cons.inj h).2 (by simp)

section LineEnds

variable {text : List Char} {s : Scanner} {l l' : Layout} {t : Lexeme} {tokens ts : List Lexeme}

theorem openParens_append (depth : Nat) (ks ks' : List Kind) :
    openParens depth (ks ++ ks') = openParens (openParens depth ks) ks' :=
  List.foldl_append

theorem openParens_dedents (depth : Nat) (inner : List Nat) (t : Lexeme) :
    openParens depth ((inner.map fun _ ↦ Layout.unwritten .dedent t).map (·.kind)) = depth := by
  induction inner with
  | nil => rfl
  | cons w rest ih => exact ih

/-- The layout counts the open parentheses of the tokens that it adds. -/
theorem Layout.Takes.openParens_eq (h : l.Takes t tokens l') :
    openParens l.depth (tokens.map (·.kind)) = l'.depth := by
  cases h with
  | skipped => rfl
  | ended hkind =>
    rw [List.map_singleton, hkind]
    rfl
  | inside => rfl
  | opened => rfl
  | @closed _ _ inner =>
    rw [List.map_append, openParens_append, openParens_dedents]
    rfl

/-- A line end among the tokens that a lexeme adds is the lexeme itself, outside parentheses. -/
theorem Layout.Takes.eq_of_newline (h : l.Takes t tokens l') {front behind : List Lexeme}
    {u : Lexeme} (htokens : tokens = front ++ u :: behind) (hu : u.kind = .newline) :
    u = t ∧ front = [] ∧ l.depth = 0 := by
  have hmem : u ∈ tokens := htokens ▸ List.mem_append_right _ List.mem_cons_self
  obtain rfl : u = t := by
    rcases h.eq_or_unwritten u hmem with rfl | rfl | rfl
    · rfl
    · exact absurd hu (by simp [unwritten])
    · exact absurd hu (by simp [unwritten])
  cases h with
  | skipped => exact absurd hmem List.not_mem_nil
  | ended _ hdepth => exact ⟨rfl, (eq_of_singleton_eq_append_cons htokens).1, hdepth⟩
  | inside hkind => exact absurd hu hkind
  | opened hkind => exact absurd hu hkind
  | closed hkind => exact absurd hu hkind

/-- No parenthesis is open at a line end that is written. -/
theorem Delivers.openParens_eq_zero (h : Delivers text s l ts) :
    ∀ front t behind, ts = front ++ t :: behind → t.kind = .newline → t.text ≠ "" →
      openParens l.depth (front.map (·.kind)) = 0 := by
  induction h with
  | finished hs =>
    intro front t behind heq _ htext
    have hmem : t ∈ Layout.close _ _ _ := heq ▸ List.mem_append_right _ List.mem_cons_self
    rcases List.mem_append.1 hmem with hmem | hmem
    · split at hmem
      · exact absurd hmem List.not_mem_nil
      · obtain rfl := List.mem_singleton.1 hmem
        exact absurd rfl htext
    · obtain ⟨w, -, rfl⟩ := List.mem_map.1 hmem
      exact absurd rfl htext
  | lexeme hs ht _ ih =>
    intro front t behind heq hkind htext
    have htakes := Layout.takes_of_take ht
    rcases exists_of_append_eq_append_cons heq with ⟨cs, htokens, -⟩ | ⟨cs, rfl, hrest⟩
    · obtain ⟨-, rfl, hdepth⟩ := htakes.eq_of_newline htokens hkind
      exact hdepth
    · rw [List.map_append, openParens_append, htakes.openParens_eq]
      exact ih cs t behind hrest hkind htext

/-- A line end that is not written is the last one. -/
theorem Delivers.last_lineEnd (h : Delivers text s l ts) :
    ∀ front t behind, ts = front ++ t :: behind → t.kind = .newline → t.text = "" →
      ∀ u ∈ behind, u.kind ≠ .newline := by
  induction h with
  | @finished s next l hs =>
    intro front t behind heq hkind _ u hu
    rcases exists_of_append_eq_append_cons (heq : Layout.close _ _ _ = _) with
      ⟨cs, hend, rfl⟩ | ⟨cs, -, hclosing⟩
    · rcases List.mem_append.1 hu with hu | hu
      · -- there is only one line end to announce
        have hlength := congrArg List.length hend
        split at hlength
        · simp at hlength
        · obtain rfl : cs = [] := by
            rw [← List.length_eq_zero_iff]
            simp at hlength
            omega
          exact absurd hu List.not_mem_nil
      · obtain ⟨w, -, rfl⟩ := List.mem_map.1 hu
        simp
    · have hmem : u ∈ l.levels.map _ :=
        hclosing ▸ List.mem_append_right _ (List.mem_cons_of_mem _ hu)
      obtain ⟨w, -, rfl⟩ := List.mem_map.1 hmem
      simp
  | lexeme hs ht _ ih =>
    intro front t behind heq hkind htext
    rcases exists_of_append_eq_append_cons heq with ⟨cs, htokens, -⟩ | ⟨cs, -, hrest⟩
    · obtain ⟨rfl, -, -⟩ := (Layout.takes_of_take ht).eq_of_newline htokens hkind
      rcases Scanner.kind_of_scan hs with ⟨-, hne⟩ | hword
      · exact absurd htext hne
      · exact absurd hword (by simp [hkind, Kind.isWord])
    · exact ih cs t behind hrest hkind htext

end LineEnds

/-! ### All tokens of a source -/

theorem LogicalLine.WellFormed.ne_eof {line : LogicalLine} (h : line.WellFormed) :
    ∀ t ∈ line.tokens, t.kind ≠ .eof := by
  intro t ht hkind
  rw [tokens, List.mem_append, List.mem_append, List.mem_singleton] at ht
  rcases ht with (ht | ht) | rfl
  · rcases h.announced with ⟨u, hu, hindent⟩ | hclosed
    · rw [hu, List.mem_singleton] at ht
      rw [ht, hindent] at hkind
      exact absurd hkind (by decide)
    · exact absurd (hkind.symm.trans (hclosed t ht)) (by decide)
  · have hword := h.words t ht
    rw [hkind] at hword
    exact absurd hword (by decide)
  · exact absurd (hkind.symm.trans h.lineEnd) (by decide)

/-- A first line that ends a block would end one that was not begun. -/
theorem LogicalLine.WellFormed.ne_dedent_of_nests {line : LogicalLine} (h : line.WellFormed)
    {ks : List Kind} (hnests : Nests 0 0 (line.tokens.map (·.kind) ++ ks)) :
    ∀ t ∈ line.announced, t.kind ≠ .dedent := by
  intro t ht hkind
  rcases h.announced with ⟨u, hu, hindent⟩ | hcloses
  · rw [hu, List.mem_singleton] at ht
    rw [ht, hindent] at hkind
    exact absurd hkind (by decide)
  · obtain ⟨u, us, hu⟩ := List.exists_cons_of_ne_nil (List.ne_nil_of_mem ht)
    have hdedent : u.kind = .dedent := hcloses u (hu ▸ List.mem_cons_self)
    -- the first token alone ends more blocks than it begins
    have hwithin := hnests.within 1
    simp [tokens, hu, hdedent] at hwithin

/-- Neither lines nor the ends of blocks have the end of the source among them. -/
theorem countP_eof_eq_zero {lines : List LogicalLine} {closing : List Token}
    (hlines : ∀ line ∈ lines, line.WellFormed) (hclosing : ∀ t ∈ closing, t.kind = .dedent) :
    (lines.flatMap LogicalLine.tokens ++ closing).countP (·.kind == .eof) = 0 := by
  refine List.countP_eq_zero.2 fun t ht ↦ ?_
  rw [beq_iff_eq]
  rcases List.mem_append.1 ht with ht | ht
  · obtain ⟨line, hline, ht⟩ := List.mem_flatMap.1 ht
    exact (hlines line hline).ne_eof t ht
  · rw [hclosing t ht]
    decide

/-- A line end that is written stands outside all parentheses, and one that is not is the last. -/
theorem Delivers.lineEnds {text : List Char} {ts : List Lexeme}
    (hts : Delivers text (.ofText text) .initial ts) {front behind : List Token} {t : Token}
    (heq : ts.map (TokenStream.token text) ++ [TokenStream.eofToken text] = front ++ t :: behind)
    (hkind : t.kind = .newline) :
    (t.lexeme ≠ "" → openParens 0 (front.map (·.kind)) = 0) ∧
      (t.lexeme = "" → ∀ u ∈ behind, u.kind ≠ .newline) := by
  rcases exists_of_append_eq_append_cons heq with ⟨cs, hfront, rfl⟩ | ⟨cs, -, heof⟩
  · obtain ⟨front', behind', rfl, rfl, hbehind⟩ := List.map_eq_append_iff.1 hfront
    obtain ⟨t', cs', rfl, rfl, rfl⟩ := List.map_eq_cons_iff.1 hbehind
    refine ⟨fun htext ↦ ?_, fun htext u hu ↦ ?_⟩
    · rw [List.map_map]
      exact hts.openParens_eq_zero front' t' cs' rfl hkind htext
    · rcases List.mem_append.1 hu with hu | hu
      · obtain ⟨u', hu', rfl⟩ := List.mem_map.1 hu
        exact hts.last_lineEnd front' t' cs' rfl hkind htext u' hu'
      · rw [List.mem_singleton.1 hu]
        show Kind.eof ≠ .newline
        decide
  · have hmem : t ∈ [TokenStream.eofToken text] :=
      heof ▸ List.mem_append_right _ List.mem_cons_self
    rw [List.mem_singleton.1 hmem] at hkind
    exact absurd (show Kind.eof = .newline from hkind) (by decide)

/-- The tokens of a source are logical lines, the ends of the blocks that are open behind them, and
the end of the source. The first line ends no block; in every prefix no more blocks are ended than
were begun, and in all as many; a line end that is written stands outside all parentheses, and one
that is not is the last; there is one end of the source. -/
theorem tokenize_shape {source : String} {tokens : List Token} (h : tokenize source = .ok tokens) :
    (∃ (lines : List LogicalLine) (closing : List Token),
      tokens = lines.flatMap LogicalLine.tokens ++ closing ++
        [TokenStream.eofToken source.toList] ∧
      (∀ line ∈ lines, line.WellFormed) ∧
      (∀ line ∈ lines.head?, ∀ t ∈ line.announced, t.kind ≠ .dedent) ∧
      ∀ t ∈ closing, t.kind = .dedent) ∧
    (∀ n, ((tokens.take n).map (·.kind)).count .dedent ≤
      ((tokens.take n).map (·.kind)).count .indent) ∧
    (tokens.map (·.kind)).count .dedent = (tokens.map (·.kind)).count .indent ∧
    (∀ front t behind, tokens = front ++ t :: behind → t.kind = .newline →
      (t.lexeme ≠ "" → openParens 0 (front.map (·.kind)) = 0) ∧
      (t.lexeme = "" → ∀ u ∈ behind, u.kind ≠ .newline)) ∧
    (tokens.map (·.kind)).count .eof = 1 := by
  obtain ⟨ts, hts, rfl⟩ := tokenize_eq_ok_iff.1 h
  have hkinds : (ts.map (TokenStream.token source.toList)).map (·.kind) = ts.map (·.kind) := by
    rw [List.map_map]
    rfl
  have hnests : Nests 0 0 ((ts.map (TokenStream.token source.toList) ++
      [TokenStream.eofToken source.toList]).map (·.kind)) := by
    rw [List.map_append, hkinds]
    exact hts.nests.append (.word (.inr (.inr rfl)))
  obtain ⟨lines, closing, hlines, hclosing, hall⟩ := hts.linesFrom
  have hall : ts.map (TokenStream.token source.toList) =
      lines.flatMap LogicalLine.tokens ++ closing := hall
  refine ⟨⟨lines, closing, by rw [hall], hlines, ?_, hclosing⟩, fun n ↦ ?_, hnests.whole,
    fun front t behind ↦ hts.lineEnds, ?_⟩
  · intro line hline
    obtain ⟨rest, rfl⟩ : ∃ rest, lines = line :: rest := List.head?_eq_some_iff.1 hline
    rw [hall, List.flatMap_cons, List.append_assoc, List.append_assoc, List.map_append] at hnests
    exact (hlines line List.mem_cons_self).ne_dedent_of_nests hnests
  · rw [List.map_take]
    exact hnests.within n
  · rw [List.count, List.countP_map, hall, List.countP_append]
    exact congrArg (· + 1) (countP_eof_eq_zero hlines hclosing)

/-- A block with a line that is continued in parentheses, in a source that ends within it. -/
theorem tokenize_shape_block :
    ∃ tokens, tokenize "if a:\n  f(\n)" = .ok tokens ∧
      tokens.map (·.kind) = [.ifWord, .name, .colon, .newline, .indent, .name, .openParen,
        .closeParen, .newline, .dedent, .eof] ∧
      ∃ (lines : List LogicalLine) (closing : List Token),
        tokens = lines.flatMap LogicalLine.tokens ++ closing ++
          [TokenStream.eofToken "if a:\n  f(\n)".toList] ∧
        (∀ line ∈ lines, line.WellFormed) ∧
        (∀ line ∈ lines.head?, ∀ t ∈ line.announced, t.kind ≠ .dedent) ∧
        ∀ t ∈ closing, t.kind = .dedent :=
  ⟨_, rfl, rfl, (tokenize_shape rfl).1⟩

end Sangria
