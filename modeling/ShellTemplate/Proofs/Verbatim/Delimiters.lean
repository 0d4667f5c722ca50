import ShellTemplate.Proofs.Verbatim.Words

/-!
# Tokens that a scanner leaves behind

Between two characters the tokens that are complete can be read back from their text, and so can the
word or the operator that the scanner still holds. Here a delimiter ends the word.
-/

namespace ShellTemplate

/-- Tokens that are read back from their text. -/
structure Sealed (loose : Prop) (scope : Scope) (tokens : List Token) : Prop where
  legible : ∀ token ∈ tokens, token.Legible scope
  apart : tokens.IsChain (Token.Apart loose scope)

section Sealed

variable {loose : Prop} {scope : Scope} {tokens : List Token} {y : Token}

theorem sealed_nil : Sealed loose scope [] :=
  ⟨fun _ h ↦ absurd h List.not_mem_nil, .nil⟩

theorem Sealed.concat (h : Sealed loose scope tokens) (hy : y.Legible scope)
    (hpair : ∀ x ∈ tokens.getLast?, x.Apart loose scope y) :
    Sealed loose scope (tokens ++ [y]) where
  legible := fun token htoken ↦ by
    rcases List.mem_append.1 htoken with htoken | htoken
    · exact h.legible token htoken
    · rwa [List.mem_singleton.1 htoken]
  apart := List.isChain_append.2 ⟨h.apart, .singleton y, fun x hx z hz ↦ by
    obtain rfl : y = z := Option.some.inj hz
    exact hpair x hx⟩

theorem Sealed.replace {front : List Token} {y' : Token} (h : Sealed loose scope (front ++ [y]))
    (hlegible : y.Legible scope → y'.Legible scope)
    (hapart : ∀ x : Token, x.Apart loose scope y → x.Apart loose scope y') :
    Sealed loose scope (front ++ [y']) := by
  obtain ⟨hfront, -, hpair⟩ := List.isChain_append.1 h.apart
  have hfront' : Sealed loose scope front :=
    ⟨fun token htoken ↦ h.legible token (List.mem_append_left _ htoken), hfront⟩
  exact hfront'.concat (hlegible (h.legible y (by simp))) fun x hx ↦ hapart x (hpair x hx y rfl)

end Sealed

namespace Scanner

variable {loose : Prop} {scope : Scope} {s u : Scanner} {tokens : List Token}
  {rest : List Symbol} {c : Char} {op : Operator}

/-- What the scanner remembers of the last token. Behind a hole it does not know it. -/
def Trails (previous : Previous) (last : Option Token) : Prop :=
  match previous with
  | .boundary => ∀ token ∈ last, ∃ op, token = .operator op
  | .blank => last = some .blank
  | .word => True

theorem Trails.ne_piece {previous : Previous} {last : Option Token} (h : Trails previous last)
    (hown : previous ≠ .word) (p : Piece) : last ≠ some (.piece p) := by
  rintro rfl
  cases previous with
  | boundary =>
      obtain ⟨op, hop⟩ := h _ rfl
      cases hop
  | blank => cases h
  | word => exact hown rfl

/-- A delimiter can follow: nothing is undecided, and what is held is a complete word. -/
structure AtEnd (scope : Scope) (u : Scanner) : Prop where
  mode : u.mode = .plain
  frames : u.frames = []
  own : u.previous ≠ .word
  empty : u.piece.raw = [] → u.piece = {}
  legible : u.piece.raw ≠ [] → u.piece.Legible scope

/-- The characters before which a hole is a whole word, whatever stands in it. A redirection could
take the word for its descriptor. -/
def wordEnds : List Char := [' ', '\t', '\r', '\n', '|', '&', ';', ')']

/-- What a scanner holds behind tokens that are complete, with the text that follows. -/
inductive Holds (loose : Prop) (scope : Scope) (s : Scanner) (tokens : List Token)
    (rest : List Symbol) : Prop
  | word (mode : s.mode.inWord) (own : s.previous ≠ .word) (synced : s.Synced scope)
      (starts : ∀ c ∈ s.spelled.head?, c ∉ delimiters)
  | hole (mode : s.mode = .plain) (frames : s.frames = []) (piece : s.piece = {})
      (previous : s.previous = .word) (blanks : loose)
      (next : ∀ symbol ∈ rest.head?, ∃ c ∈ wordEnds, symbol = .char c)
  | comment (mode : s.mode = .comment) (rest : (s.inMode .plain).Resting)
  | pending (op : Operator) (mode : s.mode.pending? = some op) (frames : s.frames = [])
      (empty : s.piece.raw = [] → s.piece = {})
      (whole : Sealed loose scope (tokens ++ s.piece.tokens ++ [.operator op]))

/-- All that is read so far can be read back. -/
structure Verbatim (loose : Prop) (scope : Scope) (s : Scanner) (tokens : List Token)
    (rest : List Symbol) : Prop where
  complete : Sealed loose scope tokens
  trails : Trails s.previous tokens.getLast?
  holds : s.Holds loose scope tokens rest

theorem Resting.verbatim (h : s.Resting) (hcomplete : Sealed loose scope tokens)
    (htrails : Trails s.previous tokens.getLast?) :
    Verbatim loose scope s tokens rest := by
  refine ⟨hcomplete, htrails, .word (.inl h.mode) h.previous h.synced ?_⟩
  rw [spelled_of_plain h.mode, h.piece]
  intro c hc
  cases hc

theorem getLast?_append_tokens (p : Piece) (tokens : List Token) :
    (tokens ++ p.tokens).getLast? = if p.raw = [] then tokens.getLast? else some (.piece p) := by
  unfold Piece.tokens
  split_ifs
  · rw [List.append_nil]
  · exact List.getLast?_concat

section Delimiter

variable (hcomplete : Sealed loose scope tokens) (htrails : Trails u.previous tokens.getLast?)
  (hu : u.AtEnd scope)
include hcomplete htrails hu

theorem sealed_word : Sealed loose scope (tokens ++ u.piece.tokens) := by
  unfold Piece.tokens
  split_ifs with hraw
  · rwa [List.append_nil]
  · refine hcomplete.concat (hu.legible hraw) fun x hx ↦ ?_
    cases x with
    | piece p => exact absurd hx (htrails.ne_piece hu.own p)
    | hole | operator | blank => trivial

theorem sealed_operator (hop : (Token.operator op).Legible scope)
    (hword : u.piece.raw ≠ [] → (Token.piece u.piece).Apart loose scope (.operator op)) :
    Sealed loose scope (tokens ++ u.piece.tokens ++ [.operator op]) := by
  refine (sealed_word hcomplete htrails hu).concat hop fun x hx ↦ ?_
  rw [getLast?_append_tokens] at hx
  split_ifs at hx with hraw
  · cases x with
    | piece p => exact absurd hx (htrails.ne_piece hu.own p)
    | hole | operator | blank => trivial
  · cases hx
    exact hword hraw

end Delimiter

/-- The moves of the scanner on a character that ends a word. -/
inductive DelimiterMove (c : Char) (u : Scanner) : Step → Prop
  | blank : DelimiterMove c u u.emitBlank
  | operator (op : Operator) (hop : op.text = [c])
      (hsingle : op ∈ [.newline, .semicolon, .openParen, .closeParen]) :
      DelimiterMove c u (u.emitOperator op)
  | comment (start : u.atWordStart = true) : DelimiterMove c u (u.inMode .comment, [])
  | begin (mode : Mode) (hmode : (c = '|' ∧ mode = .pipe) ∨ (c = '&' ∧ mode = .ampersand)) :
      DelimiterMove c u (u.inMode mode, [])
  | angle (mode : Option Nat → Mode)
      (hmode : (c = '>' ∧ mode = .greater) ∨ (c = '<' ∧ mode = .less)) :
      DelimiterMove c u (u.readAngle mode, [])

theorem readChar_delimiterMove (hframes : u.frames = [])
    (hc : c ∈ delimiters ∨ (c = '#' ∧ u.atWordStart = true)) :
    DelimiterMove c u (u.readChar scope c 0) := by
  have hnotOrdinary : ¬ u.Ordinary c := by
    unfold Ordinary
    rw [hframes]
    rintro ⟨hplain, hhash⟩
    rcases hc with hc | ⟨rfl, hstart⟩
    · refine hplain ?_
      simp only [delimiters, List.mem_cons, List.not_mem_nil, or_false] at hc
      rcases hc with rfl | rfl | rfl | rfl | rfl | rfl | rfl | rfl | rfl | rfl | rfl <;> decide
    · simp [hhash rfl] at hstart
  have hne : ∀ d, d ∉ delimiters → d ≠ '#' → c ≠ d := by
    rintro d hd hhash rfl
    exact hc.elim hd fun h ↦ hhash h.1
  have hframed : ∀ frame rest', u.frames = frame :: rest' → False := fun frame rest' hcons ↦ by
    rw [hframes] at hcons
    cases hcons
  have hmove : Move scope 0 c u (u.readChar scope c 0) := readChar_move
  generalize u.readChar scope c 0 = step at hmove ⊢
  cases hmove with
  | blank => exact .blank
  | operator _ op hop hsingle => exact .operator op hop hsingle
  | comment _ _ hstart => exact .comment hstart
  | begin _ mode hmode => exact .begin mode hmode
  | angle _ mode hmode => exact .angle mode hmode
  | keep hordinary => exact absurd hordinary hnotOrdinary
  | glob _ hordinary => exact absurd hordinary hnotOrdinary
  | openQuote _ frame hframe =>
      rcases hframe with ⟨rfl, -⟩ | ⟨rfl, -⟩ <;> exact absurd rfl (hne _ (by decide) (by decide))
  | closeQuote frame rest' hcons => exact (hframed _ _ hcons).elim
  | openInner outer rest' hcons => exact (hframed _ _ hcons).elim
  | closeExpansion frame rest' hcons => exact (hframed _ _ hcons).elim
  | nest opened parens parens' rest' hcons => exact (hframed _ _ hcons).elim
  | backslash _ hbackslash => exact absurd hbackslash (hne _ (by decide) (by decide))
  | dollar _ hdollar => exact absurd hdollar (hne _ (by decide) (by decide))

/-- A blank is the only token that may fall away. -/
theorem verbatim_emitBlank (hmode : u.mode = .plain) (hframes : u.frames = [])
    (hempty : u.piece.raw = [] → u.piece = {})
    (hcomplete : Sealed loose scope tokens) (htrails : Trails u.previous tokens.getLast?)
    (hflushed : Sealed loose scope (tokens ++ u.piece.tokens))
    (hblanks : u.previous = .word → loose) :
    Verbatim loose scope u.emitBlank.1 (tokens ++ u.emitBlank.2.map Lexeme.token) rest := by
  have hresting : u.emitBlank.1.Resting := by
    rw [emitBlank_eq hempty]
    exact ⟨hframes, hmode, rfl, by simp⟩
  have hprevious : u.emitBlank.1.previous = .blank := by rw [emitBlank_eq hempty]
  by_cases hagain : u.previous = .blank ∧ u.piece.raw = []
  · have hnone : u.emitBlank.2 = [] := by simp [emitBlank, flush, hagain]
    rw [hagain.1] at htrails
    rw [hnone, List.map_nil, List.append_nil]
    exact hresting.verbatim hcomplete (by rw [hprevious]; exact htrails)
  · have hlast : (tokens ++ u.piece.tokens ++ [Token.blank]).getLast? = some .blank :=
      List.getLast?_concat
    rw [map_token_emitBlank fun hblank hraw ↦ hagain ⟨hblank, hraw⟩, map_token_flush,
      ← List.append_assoc]
    have hcomplete' : Sealed loose scope (tokens ++ u.piece.tokens ++ [Token.blank]) := by
      refine hflushed.concat trivial fun x hx ↦ ?_
      rw [getLast?_append_tokens] at hx
      split_ifs at hx with hraw
      · cases x with
        | piece | hole | operator => trivial
        | blank =>
            cases hprev : u.previous with
            | word => exact hblanks hprev
            | blank => exact absurd ⟨hprev, hraw⟩ hagain
            | boundary =>
                rw [hprev] at htrails
                obtain ⟨op, hop⟩ := htrails _ hx
                cases hop
      · cases hx
        trivial
    exact hresting.verbatim hcomplete' (by rw [hprevious]; exact hlast)

theorem verbatim_emitOperator (hmode : u.mode = .plain) (hframes : u.frames = [])
    (hempty : u.piece.raw = [] → u.piece = {})
    (hwhole : Sealed loose scope (tokens ++ u.piece.tokens ++ [.operator op])) :
    Verbatim loose scope (u.emitOperator op).1
      (tokens ++ (u.emitOperator op).2.map Lexeme.token) rest := by
  obtain ⟨hresting, hboundary, htokens⟩ := resting_emitOperator hempty hframes hmode op
  rw [htokens, map_token_flush, ← List.append_assoc]
  refine hresting.verbatim hwhole ?_
  rw [hboundary, List.getLast?_concat]
  rintro token ⟨⟩
  exact ⟨op, rfl⟩

section Delimiter

variable (hcomplete : Sealed loose scope tokens) (htrails : Trails u.previous tokens.getLast?)
  (hu : u.AtEnd scope)
include hcomplete htrails hu

theorem verbatim_begin {mode : Mode} (hop : mode.pending? = some op)
    (hlegible : (Token.operator op).Legible scope)
    (hword : u.piece.raw ≠ [] → (Token.piece u.piece).Apart loose scope (.operator op)) :
    Verbatim loose scope (u.inMode mode) tokens rest := by
  have hwhole := sealed_operator hcomplete htrails hu hlegible hword
  exact ⟨hcomplete, htrails, .pending op hop hu.frames hu.empty hwhole⟩

/-- A number before a redirection leaves the word. -/
theorem verbatim_readAngle {mode : Option Nat → Mode} {kind : RedirectKind}
    (hpending : ∀ fd, (mode fd).pending? = some (.redirect ⟨fd, kind⟩)) :
    Verbatim loose scope (u.readAngle mode) tokens rest := by
  cases hwritten : u.writtenDescriptor? with
  | some fd =>
      rw [readAngle, hwritten]
      obtain ⟨-, -, hread⟩ := writtenDescriptor?_eq_some_iff.1 hwritten
      obtain ⟨-, -, hsize⟩ := digits_of_readDescriptor? hread
      have hu' : ({ u with piece := {} } : Scanner).AtEnd scope :=
        ⟨hu.mode, hu.frames, hu.own, fun _ ↦ rfl, fun hraw ↦ absurd rfl hraw⟩
      have hwhole := @sealed_operator loose scope { u with piece := {} } tokens
        (.redirect ⟨some fd, kind⟩) hcomplete htrails hu' hsize fun hraw ↦ absurd rfl hraw
      exact ⟨hcomplete, htrails, .pending _ (hpending _) hu.frames (fun _ ↦ rfl) hwhole⟩
  | none =>
      rw [readAngle, hwritten]
      have hwhole := @sealed_operator loose scope u tokens (.redirect ⟨none, kind⟩) hcomplete htrails
        hu trivial fun _ ↦ ⟨rfl, fun hexpands ↦ ?_⟩
      · exact ⟨hcomplete, htrails, .pending _ (hpending _) hu.frames hu.empty hwhole⟩
      · have hexpands' : u.piece.expands = false := hexpands
        simpa [writtenDescriptor?, hexpands', hu.own] using hwritten

/-- A delimiter completes the word, and what it starts can be read back too. -/
theorem verbatim_readDelimiter (hc : c ∈ delimiters ∨ (c = '#' ∧ u.atWordStart = true))
    (hopen : c = '(' → u.piece.raw ≠ [] → u.piece.ReadsAs scope (· = .plain)) :
    Verbatim loose scope (u.readChar scope c 0).1
      (tokens ++ (u.readChar scope c 0).2.map Lexeme.token) rest := by
  have hmove : DelimiterMove c u (u.readChar scope c 0) := readChar_delimiterMove hu.frames hc
  generalize u.readChar scope c 0 = step at hmove ⊢
  cases hmove with
  | blank =>
      exact verbatim_emitBlank hu.mode hu.frames hu.empty hcomplete htrails
        (sealed_word hcomplete htrails hu) fun hword ↦ absurd hword hu.own
  | operator op hop hsingle =>
      refine verbatim_emitOperator hu.mode hu.frames hu.empty
        (sealed_operator hcomplete htrails hu ?_ fun hraw ↦ ?_)
      all_goals simp only [List.mem_cons, List.not_mem_nil, or_false] at hsingle
      · rcases hsingle with rfl | rfl | rfl | rfl <;> trivial
      · rcases hsingle with rfl | rfl | rfl | rfl
        · trivial
        · trivial
        · exact hopen (List.cons.inj hop).1.symm hraw
        · trivial
  | comment hstart =>
      have hraw : u.piece.raw = [] := by
        unfold atWordStart at hstart
        exact List.isEmpty_iff.1 (Bool.and_eq_true_iff.1 hstart).1
      rw [List.map_nil, List.append_nil]
      exact ⟨hcomplete, htrails, .comment rfl ⟨hu.frames, rfl, hu.empty hraw, hu.own⟩⟩
  | begin mode hmode =>
      rw [List.map_nil, List.append_nil]
      rcases hmode with ⟨-, rfl⟩ | ⟨-, rfl⟩
      · exact verbatim_begin hcomplete htrails hu rfl trivial fun _ ↦ trivial
      · exact verbatim_begin hcomplete htrails hu rfl trivial fun _ ↦ trivial
  | angle mode hmode =>
      rw [List.map_nil, List.append_nil]
      rcases hmode with ⟨-, rfl⟩ | ⟨-, rfl⟩
      · exact verbatim_readAngle hcomplete htrails hu fun _ ↦ rfl
      · exact verbatim_readAngle hcomplete htrails hu fun _ ↦ rfl

end Delimiter

end Scanner

end ShellTemplate
