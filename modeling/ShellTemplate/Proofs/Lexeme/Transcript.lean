import ShellTemplate.Proofs.Lexeme.Ends
import ShellTemplate.Proofs.Lexeme.Pending

/-!
# Spellings of tokens

What a token is written as. An operator has its text, a descriptor may have zeros before it, and
`>|` is the same as `>`; a blank is any run of spaces, tabs and carriage returns. `Transcript` says
that a text is its tokens written one after another, as far as the scanner has read it.
-/

namespace ShellTemplate

/-- The ways to write an operator: zeros may stand before a descriptor. -/
inductive Operator.Spells : Operator → List Char → Prop
  | plain (op : Operator) : Spells op op.text
  | padded (zeros fd : Nat) (kind : RedirectKind) :
      Spells (.redirect ⟨some fd, kind⟩)
        (List.replicate zeros '0' ++ Redirect.text ⟨some fd, kind⟩)

/-- The ways to write a token: a piece is written as it is, a blank as a run of spaces, tabs and
carriage returns, and a bar may stand behind `>`. -/
inductive Token.Spells : Token → List Char → Prop
  | piece (p : Piece) (hne : p.raw ≠ []) : Spells (.piece p) p.raw
  | blank (run : List Char) (hne : run ≠ []) (hrun : ∀ c ∈ run, c = ' ' ∨ c = '\t' ∨ c = '\r') :
      Spells .blank run
  | operator (op : Operator) (text : List Char) (h : op.Spells text) : Spells (.operator op) text
  | forced (fd : Option Nat) (text : List Char) (h : Operator.Spells (.redirect ⟨fd, .out⟩) text) :
      Spells (.operator (.redirect ⟨fd, .out⟩)) (text ++ ['|'])

/-- The text is the tokens, written one after another. -/
def Spelled (tokens : List Token) (text : List Char) : Prop :=
  ∃ spellings, List.Forall₂ Token.Spells tokens spellings ∧ spellings.flatten = text

/-- Two pieces do not stand side by side, and two blanks neither. -/
def Token.Separate : Token → Token → Prop
  | .piece _, .piece _ | .blank, .blank => False
  | _, _ => True

section Spelled

variable {tokens : List Token} {text more : List Char} {c : Char} {y : Token}

theorem spelled_nil : Spelled [] [] := ⟨[], .nil, rfl⟩

theorem Spelled.concat (h : Spelled tokens text) (hy : y.Spells more) :
    Spelled (tokens ++ [y]) (text ++ more) := by
  obtain ⟨spellings, hall, rfl⟩ := h
  refine ⟨spellings ++ [more], List.rel_append hall (.cons hy .nil), ?_⟩
  rw [List.flatten_append, List.flatten_singleton]

theorem Token.Spells.raw_ne_nil {p : Piece} (h : (Token.piece p).Spells text) : p.raw ≠ [] := by
  cases h with
  | piece _ hne => exact hne

theorem Spelled.raw_ne_nil (h : Spelled tokens text) {p : Piece} (hp : .piece p ∈ tokens) :
    p.raw ≠ [] := by
  obtain ⟨spellings, hall, -⟩ := h
  have hfilled : ∀ y ∈ tokens, ∀ p, y = .piece p → p.raw ≠ [] := by
    refine ((List.forall₂_and_left _ _).1 (hall.imp fun y spelling hspells ↦ ⟨?_, hspells⟩)).1
    rintro p rfl
    exact hspells.raw_ne_nil
  exact hfilled _ hp p rfl

theorem Token.Spells.extend (h : Token.blank.Spells text) (hc : c = ' ' ∨ c = '\t' ∨ c = '\r') :
    Token.blank.Spells (text ++ [c]) := by
  cases h with
  | blank _ hne hrun =>
      refine .blank _ (by simp) fun d hd ↦ ?_
      rcases List.mem_append.1 hd with hd | hd
      · exact hrun d hd
      · rwa [List.mem_singleton.1 hd]

/-- A run of blanks goes on. -/
theorem Spelled.extend (h : Spelled (tokens ++ [.blank]) text)
    (hc : c = ' ' ∨ c = '\t' ∨ c = '\r') : Spelled (tokens ++ [.blank]) (text ++ [c]) := by
  obtain ⟨spellings, hall, rfl⟩ := h
  have hreverse := List.forall₂_reverse_iff.2 hall
  rw [List.reverse_concat] at hreverse
  obtain ⟨last, front, hlast, hfront, hspellings⟩ := List.forall₂_cons_left_iff.1 hreverse
  obtain rfl : spellings = front.reverse ++ [last] := by
    rw [← List.reverse_reverse spellings, hspellings, List.reverse_cons]
  refine ⟨front.reverse ++ [last ++ [c]], ?_, by simp⟩
  have htokens : List.Forall₂ Token.Spells tokens front.reverse := by
    rwa [← List.forall₂_reverse_iff, List.reverse_reverse]
  exact List.rel_append htokens (.cons (hlast.extend hc) .nil)

end Spelled

/-- The text read so far is its tokens, and the scanner remembers which of them came last. -/
structure Transcript (previous : Previous) (lexemes : List Lexeme) (text : List Char) : Prop where
  spelled : Spelled (lexemes.map Lexeme.token) text
  separate : (lexemes.map Lexeme.token).IsChain Token.Separate
  last : previous = Previous.boundary.after lexemes

/-- The ways to write what is not decided yet. -/
inductive Mode.Undecided : Mode → List Char → Prop
  | plain : Undecided .plain []
  | escape : Undecided .escape []
  | dollar (place : Nat) : Undecided (.dollar place) ['$']
  | operator (mode : Mode) (op : Operator) (text : List Char) (hmode : mode.pending? = some op)
      (h : op.Spells text) : Undecided mode text

theorem Mode.Undecided.eq_nil {mode : Mode} {text : List Char} (h : mode.Undecided text)
    (hmode : mode = .plain) : text = [] := by
  subst hmode
  cases h with
  | plain => rfl
  | operator _ op _ hpending => cases hpending

theorem Mode.Undecided.spells {mode : Mode} {text : List Char} {op : Operator}
    (h : mode.Undecided text) (hpending : mode.pending? = some op) : op.Spells text := by
  cases h with
  | plain | escape | dollar => cases hpending
  | operator _ op' _ hmode hspells => rwa [Option.some.inj (hpending.symm.trans hmode)]

/-- A redirection is made longer by a character. -/
theorem Operator.Spells.longer {fd : Option Nat} {kind kind' : RedirectKind} {text : List Char}
    {c : Char} (h : Operator.Spells (.redirect ⟨fd, kind⟩) text)
    (hkind : kind'.text = kind.text ++ [c]) :
    Operator.Spells (.redirect ⟨fd, kind'⟩) (text ++ [c]) := by
  have htext : ∀ fd, Redirect.text ⟨fd, kind⟩ ++ [c] = Redirect.text ⟨fd, kind'⟩ := by
    intro fd
    rw [Redirect.text, Redirect.text, hkind, List.append_assoc]
  cases h with
  | plain =>
      rw [Operator.text, htext]
      exact .plain (.redirect ⟨fd, kind'⟩)
  | padded zeros fd =>
      rw [List.append_assoc, htext]
      exact .padded zeros fd kind'

/-- What a character completes is written with that character behind what was written so far. -/
theorem Mode.spells_completed? {mode : Mode} {pending op : Operator} {text : List Char} {c : Char}
    (hpending : mode.pending? = some pending) (hspells : pending.Spells text)
    (h : mode.completed? c = some op) : (Token.operator op).Spells (text ++ [c]) := by
  cases mode with
  | plain | comment | escape | dollar place => cases hpending
  | pipe | ampersand =>
      cases hpending
      simp only [completed?] at h
      split_ifs at h with hc
      cases h
      cases hspells
      subst hc
      exact .operator _ _ (.plain _)
  | less fd =>
      cases hpending
      simp only [completed?] at h
      split_ifs at h with hc
      cases h
      subst hc
      exact .operator _ _ (hspells.longer rfl)
  | greater fd =>
      cases hpending
      simp only [completed?] at h
      split_ifs at h with happend hdup hforced <;> cases h
      · subst happend
        exact .operator _ _ (hspells.longer rfl)
      · subst hdup
        exact .operator _ _ (hspells.longer rfl)
      · subst hforced
        exact .forced fd text hspells

namespace Transcript

variable {previous : Previous} {lexemes : List Lexeme} {text more : List Char} {y : Token}
  {quoting : Quoting} {enclosing : Enclosing} {s : Scanner}

theorem concat (h : Transcript previous lexemes text) (hy : y.Spells more)
    (hne : previous = y.previous → previous = .boundary) :
    Transcript y.previous (lexemes ++ [⟨y, quoting, enclosing⟩]) (text ++ more) where
  spelled := by
    rw [List.map_append]
    exact h.spelled.concat hy
  separate := by
    rw [List.map_append, List.isChain_append]
    refine ⟨h.separate, .singleton y, fun x hx z hz ↦ ?_⟩
    obtain rfl : y = z := Option.some.inj hz
    have hlast : previous = x.previous := by
      rw [List.getLast?_map, Option.mem_def, Option.map_eq_some_iff] at hx
      obtain ⟨lexeme, hlexeme, rfl⟩ := hx
      rw [h.last, Previous.after, hlexeme]
      rfl
    subst hlast
    cases x <;> cases y <;> first | trivial | cases hne rfl
  last := by rw [Previous.after_concat]

theorem flush (h : Transcript s.previous lexemes text) (own : s.previous ≠ .word) :
    Transcript s.flush.1.previous (lexemes ++ s.flush.2) (text ++ s.piece.raw) := by
  unfold Scanner.flush
  split_ifs with hraw
  · rw [hraw]
    simpa using h
  · exact h.concat (.piece s.piece hraw) fun hword ↦ absurd hword own

theorem emitOperator (h : Transcript s.previous lexemes text) (own : s.previous ≠ .word)
    {op : Operator} (hop : (Token.operator op).Spells more) :
    Transcript .boundary (lexemes ++ (s.emitOperator op).2) (text ++ s.piece.raw ++ more) := by
  have hflush := h.flush own
  unfold Scanner.emitOperator
  rw [Step.andThen_snd, ← List.append_assoc]
  exact hflush.concat hop id

theorem emitBlank (h : Transcript s.previous lexemes text) (own : s.previous ≠ .word) {c : Char}
    (hc : c = ' ' ∨ c = '\t' ∨ c = '\r') :
    Transcript .blank (lexemes ++ s.emitBlank.2) (text ++ s.piece.raw ++ [c]) := by
  have hflush := h.flush own
  unfold Scanner.emitBlank
  rw [Step.andThen_snd, ← List.append_assoc]
  split_ifs with hblank
  · -- The blank belongs to the run that the last token is.
    rw [List.append_nil]
    rw [hblank] at hflush
    obtain ⟨front, hfront⟩ := Previous.after_eq_blank hflush.last.symm (by decide)
    refine ⟨?_, hflush.separate, hflush.last⟩
    have hspelled := hflush.spelled
    rw [hfront] at hspelled ⊢
    exact hspelled.extend hc
  · refine hflush.concat (.blank [c] (by simp) fun d hd ↦ ?_) fun heq ↦ absurd heq hblank
    rwa [List.mem_singleton.1 hd]

end Transcript

end ShellTemplate
