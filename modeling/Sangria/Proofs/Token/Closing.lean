import Mathlib.Data.List.Chain
import Sangria.Proofs.Token.Tiling

/-!
# Where nothing written is left

Behind the last token that is written, a source still has the end of its last line, if that is not
written, and the ends of the blocks that are open (`Delivers.of_unwritten`). What stands before
these follows from the order that kinds of token come in (`Delivers.isChain`): a line ends behind a
word, and a block behind the end of a line or of another block.

## What each part rests on

* `Delivers.eq_of_unwritten` rests on the lexemes, which are written: what is announced before one
  is followed by it.
* `Delivers.isChain` rests on the mark that says whether a line is under way. Before the first token
  it is as if a line had ended.
-/

namespace Sangria

/-! ### Which kinds follow each other -/

/-- A kind of token may stand behind another: the end of a line only behind a word, and the end of a
block only behind the end of a line or of a block. -/
def Kind.Precedes (k next : Kind) : Prop :=
  (next = .newline → k.isWord = true) ∧ (next = .dedent → k = .newline ∨ k = .dedent)

theorem Kind.precedes_of_isWord {k next : Kind} (h : next.isWord = true) : k.Precedes next :=
  ⟨by rintro rfl; exact absurd h (by decide), by rintro rfl; exact absurd h (by decide)⟩

/-- Ends of blocks stand one behind the other. -/
theorem isChain_dedents (inner : List Nat) (ks : List Kind) {f : Nat → Lexeme}
    (hf : ∀ w, (f w).kind = .dedent)
    (hks : ∀ k, k = .newline ∨ k = .dedent → List.IsChain Kind.Precedes (k :: ks)) :
    ∀ k, k = .newline ∨ k = .dedent →
      List.IsChain Kind.Precedes (k :: ((inner.map f).map (·.kind) ++ ks)) := by
  induction inner with
  | nil => exact hks
  | cons w rest ih =>
    intro k hk
    rw [List.map_cons, List.map_cons, List.cons_append, hf w, List.isChain_cons_cons]
    exact ⟨⟨fun h ↦ absurd h (by decide), fun _ ↦ hk⟩, ih _ (.inr rfl)⟩

section Delivers

variable {text : List Char} {s : Scanner} {l : Layout} {ts us : List Lexeme}

/-- The kinds of the tokens that are still delivered follow each other, behind a line end where no
line is under way, and behind a word where one is. -/
theorem Delivers.isChain (h : Delivers text s l ts) :
    ∀ k : Kind, (if l.fresh then k = .newline else k.isWord = true) →
      List.IsChain Kind.Precedes (k :: ts.map (·.kind)) := by
  have word {l' : Layout} {t : Lexeme} {rest : List Lexeme} (ht : t.kind.isWord = true)
      (hl' : l'.fresh = false)
      (ih : ∀ k : Kind, (if l'.fresh then k = .newline else k.isWord = true) →
        List.IsChain Kind.Precedes (k :: rest.map (·.kind))) (k : Kind) :
      List.IsChain Kind.Precedes (k :: (t :: rest).map (·.kind)) := by
    rw [List.map_cons, List.isChain_cons_cons]
    exact ⟨Kind.precedes_of_isWord ht, ih _ (by rw [hl']; exact ht)⟩
  induction h with
  | @finished s next l hs =>
    have hclosing := isChain_dedents l.levels []
      (f := fun _ ↦ ⟨.dedent, "", next.line, text.length⟩) (fun _ ↦ rfl)
      fun k _ ↦ List.isChain_singleton k
    rw [List.append_nil] at hclosing
    intro k hk
    rw [Layout.close, List.map_append]
    split at hk
    · rename_i hfresh
      rw [if_pos hfresh]
      exact hclosing k (.inl hk)
    · rename_i hfresh
      rw [if_neg hfresh, List.map_singleton, List.singleton_append, List.isChain_cons_cons]
      exact ⟨⟨fun _ ↦ hk, fun h ↦ absurd h (by simp)⟩, hclosing _ (.inl rfl)⟩
  | @lexeme s next l l' t tokens rest hs ht _ ih =>
    have hword : t.kind ≠ .newline → t.kind.isWord = true := Scanner.isWord_of_scan hs
    intro k hk
    cases Layout.takes_of_take ht with
    | skipped => exact ih k hk
    | ended hkind _ hunder =>
      rw [hunder] at hk
      rw [List.singleton_append, List.map_cons, hkind, List.isChain_cons_cons]
      exact ⟨⟨fun _ ↦ hk, fun h ↦ absurd h (by decide)⟩, ih _ rfl⟩
    | inside hkind => exact word (hword hkind) rfl ih k
    | opened hkind =>
      rw [List.cons_append, List.map_cons, List.isChain_cons_cons]
      exact ⟨⟨fun h ↦ absurd h (by simp [Layout.unwritten]),
        fun h ↦ absurd h (by simp [Layout.unwritten])⟩, word (hword hkind) rfl ih _⟩
    | closed hkind hfresh =>
      rw [hfresh] at hk
      rw [List.append_assoc, List.map_append]
      exact isChain_dedents _ _ (fun _ ↦ rfl) (fun k _ ↦ word (hword hkind) rfl ih k) k (.inl hk)

/-- Of two tokens in a row, the first may stand before the second. -/
theorem Delivers.precedes (h : Delivers text s l ts) {front behind : List Lexeme} {t u : Lexeme}
    (heq : ts = front ++ t :: u :: behind) : t.kind.Precedes u.kind := by
  have hchain := h.isChain (if l.fresh then .newline else .name) (by split <;> rfl)
  rw [heq, List.map_append, List.map_cons, List.map_cons, ← List.cons_append,
    List.isChain_append_cons_cons] at hchain
  exact hchain.2.1

/-! ### What is not written -/

theorem Scanner.isWritten_of_scan {s next : Scanner} {t : Lexeme} (h : s.scan = .lexeme t next) :
    t.isWritten = true := by
  rcases kind_of_scan h with ⟨hkind, htext⟩ | hword
  · simp [Lexeme.isWritten, hkind, htext]
  · simp [Lexeme.isWritten, hword]

/-- A lexeme that adds anything adds itself last. -/
theorem Layout.Takes.eq_nil_or_append {l' : Layout} {t : Lexeme} {tokens : List Lexeme}
    (h : l.Takes t tokens l') : tokens = [] ∨ ∃ announced, tokens = announced ++ [t] := by
  cases h with
  | skipped => exact .inl rfl
  | ended => exact .inr ⟨[], rfl⟩
  | inside => exact .inr ⟨[], rfl⟩
  | opened => exact .inr ⟨[_], rfl⟩
  | closed => exact .inr ⟨_, rfl⟩

/-- Tokens that are not written, with none behind them that is, come with the end of the source. -/
theorem Delivers.eq_of_unwritten {all : List Lexeme} (h : Delivers text s l all)
    (hall : all = ts ++ us) (hus : ∀ u ∈ us, u.isWritten = false) :
    ∀ u ∈ us, u.offset = text.length ∧ u.text = "" ∧ (u.kind = .newline ∨ u.kind = .dedent) := by
  induction h generalizing ts with
  | @finished s next l hs =>
    intro u hu
    have hmem : u ∈ l.close next.line text.length := hall ▸ List.mem_append_right _ hu
    rcases Layout.eq_of_mem_close hmem with rfl | rfl
    · exact ⟨rfl, rfl, .inl rfl⟩
    · exact ⟨rfl, rfl, .inr rfl⟩
  | @lexeme s next l l' t tokens rest hs ht _ ih =>
    rcases List.append_eq_append_iff.1 hall with ⟨cs, -, hrest⟩ | ⟨cs, htokens, rfl⟩
    · exact ih hrest
    -- what is left of the tokens of a lexeme has the lexeme in it, unless it is nothing
    rcases List.eq_nil_or_concat cs with rfl | ⟨cs, v, rfl⟩
    · exact ih (show rest = [] ++ rest from rfl)
    obtain rfl : v = t := by
      rcases (Layout.takes_of_take ht).eq_nil_or_append with rfl | ⟨announced, rfl⟩
      · exact absurd htokens (by simp)
      · rw [List.concat_eq_append, ← List.append_assoc] at htokens
        exact (List.singleton_inj.1 (List.append_inj' htokens rfl).2).symm
    have hmem : v ∈ List.concat cs v ++ rest := by simp
    exact absurd ((hus v hmem).symm.trans (Scanner.isWritten_of_scan hs)) (by decide)

/-- Behind the last token of a source that is written, the next is the end of a line behind a word,
or the end of a block that is open, behind the end of a line or of another block. -/
theorem Delivers.of_unwritten {u : Lexeme}
    (h : Delivers text (.ofText text) .initial (ts ++ u :: us))
    (hus : ∀ v ∈ u :: us, v.isWritten = false) :
    (u.kind = .newline ∧ ∀ front t, ts = front ++ [t] → t.kind.isWord = true) ∨
      (u.kind = .dedent ∧
        (ts.map (·.kind)).count .dedent < (ts.map (·.kind)).count .indent ∧
        ∃ front t, ts = front ++ [t] ∧ (t.kind = .newline ∨ t.kind = .dedent)) := by
  have hkinds := h.eq_of_unwritten rfl hus
  have hprecedes {front : List Lexeme} {t : Lexeme} (hts : ts = front ++ [t]) :
      t.kind.Precedes u.kind :=
    h.precedes (by rw [hts, List.append_assoc, List.singleton_append])
  rcases (hkinds u List.mem_cons_self).2.2 with hu | hu
  · exact .inl ⟨hu, fun front t hts ↦ (hprecedes hts).1 hu⟩
  · have hopen : (ts.map (·.kind)).count .dedent < (ts.map (·.kind)).count .indent := by
      have hwhole := h.nests.whole
      have hnone : ((u :: us).map (·.kind)).count .indent = 0 := by
        refine List.count_eq_zero.2 fun hmem ↦ ?_
        obtain ⟨v, hv, hkind⟩ := List.mem_map.1 hmem
        rcases (hkinds v hv).2.2 with hv | hv <;> exact absurd (hkind.symm.trans hv) (by decide)
      have hsome : 0 < ((u :: us).map (·.kind)).count .dedent :=
        List.count_pos_iff.2 (List.mem_map.2 ⟨u, List.mem_cons_self, hu⟩)
      rw [List.map_append, List.count_append, List.count_append, hnone] at hwhole
      simp only [Layout.initial, List.length_nil] at hwhole
      omega
    refine .inr ⟨hu, hopen, ?_⟩
    rcases List.eq_nil_or_concat ts with rfl | ⟨front, t, rfl⟩
    · exact absurd hopen (by simp)
    · exact ⟨front, t, List.concat_eq_append, (hprecedes List.concat_eq_append).2 hu⟩

end Delivers

end Sangria
