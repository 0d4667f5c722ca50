import ShellTemplate.Proofs.Lexeme.History
import ShellTemplate.Proofs.Lexeme.Level
import ShellTemplate.Proofs.Lexeme.Pending

/-!
# Tokens that are read back from their text

Written one after another, tokens are read back as they are when each piece is one by itself and no
token runs into the next one. The reader holds the last tokens back until it sees what follows.
-/

namespace ShellTemplate

/-- The token that a piece makes, if it is one. -/
def Piece.tokens (p : Piece) : List Token := if p.raw = [] then [] else [.piece p]

namespace Scanner

/-- Between words, where a word of its own can start. -/
structure Resting (s : Scanner) : Prop where
  frames : s.frames = []
  mode : s.mode = .plain
  piece : s.piece = {}
  previous : s.previous ≠ .word

/-- The tokens that the end of the text would complete. -/
def held (scope : Scope) (s : Scanner) : List Token :=
  ((s.settle scope).andThen Scanner.flush).2.map Lexeme.token

theorem held_of_plain {scope : Scope} {s : Scanner} (h : s.mode = .plain) :
    s.held scope = s.flush.2.map Lexeme.token := by
  rw [held, settle_of_plain h]
  rfl

theorem Resting.held {scope : Scope} {s : Scanner} (h : s.Resting) : s.held scope = [] := by
  rw [held_of_plain h.mode]
  simp [flush, h.piece]

theorem Resting.writtenDescriptor? {s : Scanner} (h : s.Resting) : s.writtenDescriptor? = none := by
  simp [Scanner.writtenDescriptor?, h.piece, readDescriptor?, readDigits?]

theorem map_token_flush {s : Scanner} : s.flush.2.map Lexeme.token = s.piece.tokens := by
  unfold flush Piece.tokens
  split_ifs <;> rfl

theorem flush_congr {s t : Scanner} (h : s.piece = t.piece) :
    s.flush.2.map Lexeme.token = t.flush.2.map Lexeme.token := by
  rw [map_token_flush, map_token_flush, h]

end Scanner

open Scanner

/-- From between words on, the text of the piece is read as the piece, possibly up to a dollar sign
that is undecided. -/
def Piece.ReadsAs (scope : Scope) (ends : Mode → Prop) (p : Piece) : Prop :=
  ∀ u : Scanner, u.Resting → ∃ t, Reads scope u p.raw (.ok (t, [])) ∧ t.frames = [] ∧
    t.previous = u.previous ∧ ends t.mode ∧ (t.settle scope).1.piece = p

/-- Nothing of an operator is undecided, and no construct is open. -/
def Mode.endsWord (mode : Mode) : Prop := mode = .plain ∨ ∃ place, mode = .dollar place

/-- The characters that end a word outside all constructs. -/
def delimiters : List Char := [' ', '\t', '\r', '\n', '|', '&', ';', '(', ')', '>', '<']

theorem continuations_subset {op : Operator} {c : Char} (h : c ∈ op.continuations) :
    c ∈ delimiters := by
  unfold Operator.continuations at h
  split at h <;> simp at h
  all_goals rcases h with rfl | rfl | rfl <;> decide

theorem mem_delimiters_of_text {op : Operator} {c : Char} (hop : op.text = [c])
    (hsingle : op ∈ [.newline, .semicolon, .openParen, .closeParen]) : c ∈ delimiters := by
  simp only [List.mem_cons, List.not_mem_nil, or_false] at hsingle
  rcases hsingle with rfl | rfl | rfl | rfl <;>
    · cases hop
      decide

structure Piece.Legible (scope : Scope) (p : Piece) : Prop where
  nonempty : p.raw ≠ []
  starts : ∀ c ∈ p.raw.head?, c ∉ delimiters
  reads : p.ReadsAs scope Mode.endsWord

/-- A token that is read back when it stands alone. -/
def Token.Legible (scope : Scope) : Token → Prop
  | .piece p => p.Legible scope
  | .operator (.redirect ⟨some fd, _⟩) => fd < UInt32.size
  | .operator _ => True
  | .blank => True
  | .hole _ => False

/-- Written one after the other, two operators are not read as one. -/
def Token.OperatorsApart (x y : Token) : Prop :=
  ∀ op op', x = .operator op → y = .operator op' → ∀ c ∈ op'.text.head?, c ∉ op.continuations

instance : DecidableRel Token.OperatorsApart := fun
  | .operator op, .operator op' =>
    decidable_of_iff ((op'.text.head?.all fun c ↦ !op.continuations.contains c) = true)
      (by cases h : op'.text.head? <;> simp [Token.OperatorsApart, h])
  | .operator _, .piece _ | .operator _, .hole _ | .operator _, .blank =>
    isTrue fun _ _ _ hy ↦ by cases hy
  | .piece _, _ | .hole _, _ | .blank, _ => isTrue fun _ _ hx ↦ by cases hx

/-- Written one after the other, the tokens do not run together, unless both are operators. Taken
loosely, this says nothing about two blanks. -/
def Token.Apart (loose : Prop) (scope : Scope) : Token → Token → Prop
  | .piece _, .piece _ => False
  | .piece p, .operator (.redirect r) =>
    r.fd = none ∧ (p.expands = false → readDescriptor? p.raw = none)
  | .piece p, .operator .openParen => p.ReadsAs scope (· = .plain)
  | .blank, .blank => loose
  | _, _ => True

/-- The state of the reader behind a token. -/
inductive Scanner.After (scope : Scope) (s : Scanner) : Option Token → Prop
  | start (rest : s.Resting) (hprevious : s.previous = .boundary) : After scope s none
  | blank (rest : s.Resting) : After scope s (some .blank)
  | operator {op : Operator} (rest : s.Resting) (hprevious : s.previous = .boundary)
      (hop : op.continuations = []) : After scope s (some (.operator op))
  | pending {op : Operator} (hmode : s.mode.pending? = some op) (hframes : s.frames = [])
      (hprevious : s.previous ≠ .word) (hempty : s.piece.raw = [] → s.piece = {}) :
      After scope s (some (.operator op))
  | piece {p : Piece} (hraw : p.raw ≠ []) (hframes : s.frames = []) (hprevious : s.previous ≠ .word)
      (hmode : s.mode.endsWord) (hpiece : (s.settle scope).1.piece = p)
      (hclosed : p.ReadsAs scope (· = .plain) → s.mode = .plain) : After scope s (some (.piece p))

namespace Scanner

variable {scope : Scope} {s : Scanner} {x y : Token} {c : Char}

theorem resting_emitOperator (hempty : s.piece.raw = [] → s.piece = {}) (hframes : s.frames = [])
    (hmode : s.mode = .plain) (op : Operator) :
    (s.emitOperator op).1.Resting ∧ (s.emitOperator op).1.previous = .boundary ∧
      (s.emitOperator op).2.map Lexeme.token = s.flush.2.map Lexeme.token ++ [.operator op] := by
  rw [emitOperator_eq hempty]
  refine ⟨⟨hframes, hmode, rfl, by simp⟩, rfl, ?_⟩
  simp [emitOperator]

theorem held_of_pending {op : Operator} (h : s.mode.pending? = some op) :
    s.held scope = s.flush.2.map Lexeme.token ++ [.operator op] := by
  have hsettle : s.settle scope = (s.inMode .plain).emitOperator op := by
    unfold settle
    cases hmode : s.mode with
    | plain | comment | escape | dollar p => simp [hmode, Mode.pending?] at h
    | pipe | ampersand | greater fd | less fd =>
        rw [hmode] at h
        cases h
        rfl
  have hraw : ((s.inMode .plain).emitOperator op).1.piece.raw = [] := by
    unfold emitOperator flush
    split_ifs with hraw
    · exact hraw
    · rfl
  have hrest : ((s.inMode .plain).emitOperator op).1.flush.2 = [] := by
    unfold flush
    rw [if_pos hraw]
  rw [held, hsettle, Step.andThen_snd, hrest, List.append_nil]
  unfold emitOperator
  rw [Step.andThen_snd, List.map_append, @flush_congr (s.inMode .plain) s rfl]
  rfl

/-- What an operator asks of the state that it is read in: a number before a redirection is its
descriptor. -/
def Takes (s : Scanner) : Operator → Prop
  | .redirect ⟨none, _⟩ => s.writtenDescriptor? = none
  | .redirect ⟨some fd, _⟩ => s.Resting ∧ fd < UInt32.size
  | _ => True

section Operators

variable {op : Operator} (hmode : s.mode = .plain) (hframes : s.frames = [])
  (hprevious : s.previous ≠ .word) (hempty : s.piece.raw = [] → s.piece = {})
include hmode hframes

theorem reads_undecided {mode : Mode} {pending : Operator} (hpending : mode.pending? = some pending)
    (htakes : s.Takes pending) :
    ∃ t, Reads scope s pending.text (.ok (t, [])) ∧ t.mode = mode ∧ t.frames = [] ∧
      t.piece = s.piece ∧ t.previous = s.previous := by
  refine reads_pending hpending hmode hframes (fun hangle ↦ ?_) fun fd hfd ↦ ?_
  · rcases hangle with rfl | rfl <;> cases hpending <;> exact htakes
  · cases mode with
    | plain | comment | escape | dollar | pipe | ampersand => cases hfd
    | greater | less =>
        cases hfd
        cases hpending
        exact ⟨htakes.1.piece, htakes.1.previous, htakes.2⟩

include hempty

theorem reads_of_completed {mode : Mode} {pending : Operator} (hc : c ≠ '\x60')
    (hpending : mode.pending? = some pending) (hcompleted : mode.completed? c = some op)
    (htext : op.text = pending.text ++ [c]) (hop : op.continuations = [])
    (htakes : s.Takes pending) :
    ∃ t lexemes, Reads scope s op.text (.ok (t, lexemes)) ∧ t.After scope (some (.operator op)) ∧
      lexemes.map Lexeme.token ++ t.held scope = s.flush.2.map Lexeme.token ++ [.operator op] := by
  obtain ⟨t, hreads, htmode, htframes, htpiece, -⟩ :=
    reads_undecided hmode hframes hpending htakes
  have hpending' : t.mode.pending? = some pending := by rw [htmode]; exact hpending
  have hstep : t.stepChar scope c 0 = (t.inMode .plain).emitOperator op := by
    unfold stepChar
    rw [complete?_of_pending hpending', htmode, hcompleted]
    rfl
  have hlast : Reads scope t [c] _ := Reads.char (not_opensBodyAt_of_ne hc)
  rw [hstep] at hlast
  obtain ⟨hrest, hboundary, htokens⟩ := resting_emitOperator (s := t.inMode .plain)
    (by change t.piece.raw = [] → t.piece = {}; rw [htpiece]; exact hempty) htframes rfl op
  refine ⟨_, _, htext ▸ hreads.append hlast, .operator hrest hboundary hop, ?_⟩
  rw [hrest.held, List.append_nil]
  change ([] ++ ((t.inMode .plain).emitOperator op).2).map Lexeme.token = _
  rw [List.nil_append, htokens, @flush_congr (t.inMode .plain) s htpiece]

include hprevious

theorem reads_of_pending {mode : Mode} (hpending : mode.pending? = some op)
    (htakes : s.Takes op) :
    ∃ t lexemes, Reads scope s op.text (.ok (t, lexemes)) ∧ t.After scope (some (.operator op)) ∧
      lexemes.map Lexeme.token ++ t.held scope = s.flush.2.map Lexeme.token ++ [.operator op] := by
  obtain ⟨t, hreads, htmode, htframes, htpiece, htprevious⟩ :=
    reads_undecided hmode hframes hpending htakes
  refine ⟨t, [], hreads, .pending (by rw [htmode]; exact hpending) htframes
    (by rw [htprevious]; exact hprevious) (by rw [htpiece]; exact hempty), ?_⟩
  rw [held_of_pending (by rw [htmode]; exact hpending), flush_congr htpiece]
  rfl

theorem reads_operator (htakes : s.Takes op) :
    ∃ t lexemes, Reads scope s op.text (.ok (t, lexemes)) ∧ t.After scope (some (.operator op)) ∧
      lexemes.map Lexeme.token ++ t.held scope = s.flush.2.map Lexeme.token ++ [.operator op] := by
  have hsingle : ∀ c, op.text = [c] → c ≠ '\x60' →
      op ∈ [.newline, .semicolon, .openParen, .closeParen] → op.continuations = [] →
      ∃ t lexemes, Reads scope s op.text (.ok (t, lexemes)) ∧ t.After scope (some (.operator op)) ∧
        lexemes.map Lexeme.token ++ t.held scope = s.flush.2.map Lexeme.token ++ [.operator op] := by
    intro c htext hc hop hnone
    obtain ⟨hrest, hboundary, htokens⟩ := resting_emitOperator hempty hframes hmode op
    refine ⟨(s.emitOperator op).1, (s.emitOperator op).2,
      htext ▸ reads_of_readChar hmode hc (readChar_operator hframes htext hop 0),
      .operator hrest hboundary hnone, ?_⟩
    rw [hrest.held, List.append_nil, htokens]
  have hundecided := @reads_of_pending scope s op hmode hframes hprevious hempty
  have hlonger := @reads_of_completed scope s
  cases op with
  | newline => exact hsingle '\n' rfl (by decide) (by simp) rfl
  | semicolon => exact hsingle ';' rfl (by decide) (by simp) rfl
  | openParen => exact hsingle '(' rfl (by decide) (by simp) rfl
  | closeParen => exact hsingle ')' rfl (by decide) (by simp) rfl
  | pipe => exact @hundecided .pipe rfl trivial
  | background => exact @hundecided .ampersand rfl trivial
  | or =>
      exact @hlonger '|' _ hmode hframes hempty .pipe _ (by decide) rfl rfl rfl rfl trivial
  | and =>
      exact @hlonger '&' _ hmode hframes hempty .ampersand _ (by decide) rfl rfl rfl rfl
        trivial
  | redirect r =>
      obtain ⟨fd, kind⟩ := r
      have htext : ∀ (kind kind' : RedirectKind) (c : Char), kind.text = kind'.text ++ [c] →
          (Operator.redirect ⟨fd, kind⟩).text = (Operator.redirect ⟨fd, kind'⟩).text ++ [c] := by
        intro kind kind' c hkind
        simp [Operator.text, Redirect.text, hkind]
      have htakes' : ∀ kind', s.Takes (.redirect ⟨fd, kind'⟩) := fun _ ↦ by
        cases fd <;> exact htakes
      cases kind with
      | out => exact @hundecided (.greater fd) rfl htakes
      | input => exact @hundecided (.less fd) rfl htakes
      | append =>
          exact @hlonger '>' _ hmode hframes hempty (.greater fd) _ (by decide) rfl rfl
            (htext _ _ _ rfl) rfl (htakes' _)
      | dupOut =>
          exact @hlonger '&' _ hmode hframes hempty (.greater fd) _ (by decide) rfl rfl
            (htext _ _ _ rfl) rfl (htakes' _)
      | dupIn =>
          exact @hlonger '&' _ hmode hframes hempty (.less fd) _ (by decide) rfl rfl
            (htext _ _ _ rfl) rfl (htakes' _)

end Operators

theorem completed?_eq_none {mode : Mode} {op : Operator} (h : mode.pending? = some op)
    (hc : c ∉ op.continuations) : mode.completed? c = none := by
  cases mode with
  | plain | comment | escape | dollar => rfl
  | pipe | ampersand | greater | less =>
      cases h
      simp only [Operator.continuations, List.mem_cons, List.not_mem_nil, or_false, not_or] at hc
      simp [Mode.completed?, hc]

theorem exists_text_eq_cons (h : y.Legible scope) : ∃ c rest, y.text = c :: rest := by
  cases y with
  | blank => exact ⟨' ', [], rfl⟩
  | hole index => exact absurd h id
  | piece p => exact List.exists_cons_of_ne_nil h.nonempty
  | operator op =>
      refine List.exists_cons_of_ne_nil fun hnil ↦ ?_
      cases op with
      | redirect r =>
          have hkind : r.kind.text = [] := (List.append_eq_nil_iff.1 hnil).2
          cases hcase : r.kind <;> simp [hcase, RedirectKind.text] at hkind
      | _ => cases hnil

/-- What starts behind a word that is complete does not make a dollar sign before it an
expansion. -/
theorem head_behind_piece {op : Operator} (hop : ∀ r, op = .redirect r → r.fd = none)
    (hc : op.text.head? = some c) :
    startsExpansion c = false ∧ c ≠ '\x7b' ∧ (c = '(' → op = .openParen) := by
  cases op with
  | redirect r =>
      obtain ⟨fd, kind⟩ := r
      obtain rfl : fd = none := hop _ rfl
      cases kind <;>
        · obtain rfl : _ = c := Option.some.inj hc
          decide
  | _ =>
      obtain rfl : _ = c := Option.some.inj hc
      decide

/-- What a scanner behind a piece does with the character behind it. -/
theorem settled_of_endsWord (scope : Scope) (hmode : s.mode.endsWord)
    (hexpansion : startsExpansion c = false)
    (hbrace : c ≠ '\x7b') (hparen : c = '(' → s.mode = .plain) :
    s.complete? scope c = none ∧ s.settleBefore scope c = s.settle scope ∧
      (s.settle scope).2 = [] ∧ (s.settle scope).1.mode = .plain ∧
        (s.settle scope).1.frames = s.frames ∧ (s.settle scope).1.previous = s.previous := by
  rcases hmode with hplain | ⟨place, hdollar⟩
  · rw [settleBefore_of_plain hplain, settle_of_plain hplain]
    exact ⟨complete?_of_plain hplain c, rfl, rfl, hplain, rfl, rfl⟩
  · have hsettle : s.settle scope = ((s.inMode .plain).pushChar scope '$', []) := by
      unfold settle
      rw [hdollar]
    have hbefore : s.settleBefore scope c = ((s.inMode .plain).pushChar scope '$', []) := by
      unfold settleBefore
      rw [hdollar]
      simp [hexpansion]
    have hnone : s.complete? scope c = none := by
      have hne : c ≠ '(' := fun hc ↦ by simp [hparen hc] at hdollar
      simp [complete?, hdollar, hbrace, hne]
    rw [hbefore, hsettle]
    exact ⟨hnone, rfl, rfl, rfl, rfl, rfl⟩

theorem settle_silent (hmode : s.mode.endsWord) : (s.settle scope).2 = [] :=
  (settled_of_endsWord scope (c := ' ') hmode (by decide) (by decide) fun h ↦ by simp at h).2.2.1

theorem held_of_endsWord (hmode : s.mode.endsWord) {p : Piece}
    (hpiece : (s.settle scope).1.piece = p) (hraw : p.raw ≠ []) : s.held scope = [.piece p] := by
  rw [held, Step.andThen_snd, settle_silent hmode, List.nil_append, map_token_flush, hpiece,
    Piece.tokens, if_neg hraw]

theorem map_token_emitBlank (h : s.previous = .blank → s.piece.raw ≠ []) :
    s.emitBlank.2.map Lexeme.token = s.flush.2.map Lexeme.token ++ [.blank] := by
  have hprevious : s.flush.1.previous ≠ .blank := by
    unfold flush
    split_ifs with hraw
    · exact fun hblank ↦ h hblank hraw
    · simp
  unfold emitBlank
  rw [Step.andThen_snd, if_neg hprevious, List.map_append]
  rfl

/-- At the first character of the next token, the reader decides what is undecided. It rests then,
or it still holds the piece that was read. -/
structure Decides (scope : Scope) (before : Option Token) (y : Token) (c : Char) (s u : Scanner)
    (lexemes : List Lexeme) : Prop where
  complete : s.complete? scope c = none
  step : s.settleBefore scope c = (u, lexemes)
  mode : u.mode = .plain
  frames : u.frames = []
  previous : u.previous ≠ .word
  empty : u.piece.raw = [] → u.piece = {}
  held : lexemes.map Lexeme.token ++ u.flush.2.map Lexeme.token = s.held scope
  ready : (u.Resting ∧ (u.previous = .blank → y ≠ .blank)) ∨
    ∃ p, before = some (.piece p) ∧ u.piece = p ∧ p.raw ≠ []

theorem Resting.decides {before : Option Token} (h : s.Resting)
    (hblank : s.previous = .blank → y ≠ .blank) (c : Char) :
    Decides scope before y c s s [] where
  complete := complete?_of_plain h.mode c
  step := settleBefore_of_plain h.mode c
  mode := h.mode
  frames := h.frames
  previous := h.previous
  empty := fun _ ↦ h.piece
  held := by simp [h.held, flush, h.piece]
  ready := .inl ⟨h, hblank⟩

theorem After.exists_decides {before : Option Token} (h : s.After scope before)
    (hy : y.Legible scope) (happart : ∀ x ∈ before, x.Apart False scope y)
    (hoperators : ∀ x ∈ before, x.OperatorsApart y) (hc : y.text.head? = some c) :
    ∃ u lexemes, Decides scope before y c s u lexemes := by
  cases h with
  | start rest hprevious =>
      exact ⟨s, [], rest.decides (fun hblank ↦ by simp [hprevious] at hblank) c⟩
  | operator rest hprevious =>
      exact ⟨s, [], rest.decides (fun hblank ↦ by simp [hprevious] at hblank) c⟩
  | blank rest =>
      refine ⟨s, [], rest.decides (fun _ hy' ↦ ?_) c⟩
      subst hy'
      exact happart .blank rfl
  | @pending op hmode hframes hprevious hempty =>
      have hcontinues : c ∉ op.continuations := by
        cases y with
        | hole index => exact absurd hy id
        | piece p => exact fun hcontinues ↦ hy.starts c hc (continuations_subset hcontinues)
        | operator op' => exact hoperators _ rfl op op' rfl rfl c hc
        | blank =>
            obtain rfl : ' ' = c := Option.some.inj hc
            unfold Operator.continuations
            split <;> simp
      have hnone : s.complete? scope c = none := by
        rw [complete?_of_pending hmode, completed?_eq_none hmode hcontinues]
        rfl
      obtain ⟨hresting, hboundary, htokens⟩ :=
        resting_emitOperator (s := s.inMode .plain) hempty hframes rfl op
      refine ⟨((s.inMode .plain).emitOperator op).1, ((s.inMode .plain).emitOperator op).2, hnone,
        settleBefore_of_pending hmode c, hresting.mode, hresting.frames, hresting.previous,
        fun _ ↦ hresting.piece, ?_, .inl ⟨hresting, fun hblank ↦ by simp [hboundary] at hblank⟩⟩
      have hnothing : ((s.inMode .plain).emitOperator op).1.flush.2 = [] := by
        simp [flush, hresting.piece]
      rw [held_of_pending hmode, htokens, hnothing, @flush_congr (s.inMode .plain) s rfl]
      exact List.append_nil _
  | @piece p hraw hframes hprevious hmode hpiece hclosed =>
      have hhead : startsExpansion c = false ∧ c ≠ '\x7b' ∧ (c = '(' → s.mode = .plain) := by
        have hpair := happart _ rfl
        cases y with
        | hole index => exact absurd hy id
        | piece p => exact absurd hpair id
        | blank =>
            obtain rfl : ' ' = c := Option.some.inj hc
            exact ⟨by decide, by decide, fun hparen ↦ by simp at hparen⟩
        | operator op =>
            have hop : ∀ r, op = .redirect r → r.fd = none := by
              rintro r rfl
              exact hpair.1
            obtain ⟨hexpansion, hbrace, hparen⟩ := head_behind_piece hop hc
            refine ⟨hexpansion, hbrace, fun hc' ↦ ?_⟩
            obtain rfl := hparen hc'
            exact hclosed hpair
      obtain ⟨hnone, hbefore, hsilent, hplain, hframes', hprevious'⟩ :=
        settled_of_endsWord scope hmode hhead.1 hhead.2.1 hhead.2.2
      refine ⟨(s.settle scope).1, [], hnone, ?_, hplain, hframes'.trans hframes,
        by rw [hprevious']; exact hprevious, fun hnil ↦ absurd (hpiece ▸ hnil) hraw, ?_,
        .inr ⟨p, rfl, hpiece, hraw⟩⟩
      · rw [hbefore, ← hsilent]
      · rw [Scanner.held, Step.andThen_snd, hsilent]
        rfl

theorem Decides.takes {before : Option Token} {op : Operator} {u : Scanner} {lexemes : List Lexeme}
    (h : Decides scope before (.operator op) c s u lexemes)
    (hop : (Token.operator op).Legible scope)
    (happart : ∀ x ∈ before, x.Apart False scope (.operator op)) : u.Takes op := by
  cases op with
  | redirect r =>
      obtain ⟨fd, kind⟩ := r
      rcases h.ready with ⟨hresting, -⟩ | ⟨p, rfl, hpiece, -⟩
      · cases fd with
        | none => exact hresting.writtenDescriptor?
        | some fd => exact ⟨hresting, hop⟩
      · obtain ⟨hfd, hnumber⟩ := happart _ rfl
        obtain rfl : fd = none := hfd
        change u.writtenDescriptor? = none
        unfold Scanner.writtenDescriptor?
        rw [hpiece]
        split_ifs with hplain
        · exact hnumber (by simpa using (Bool.and_eq_true_iff.1 hplain).1)
        · rfl
  | _ => trivial

theorem After.reads {before : Option Token} (h : s.After scope before) (hy : y.Legible scope)
    (happart : ∀ x ∈ before, x.Apart False scope y)
    (hoperators : ∀ x ∈ before, x.OperatorsApart y) :
    ∃ t lexemes, Reads scope s y.text (.ok (t, lexemes)) ∧ t.After scope (some y) ∧
      lexemes.map Lexeme.token ++ t.held scope = s.held scope ++ [y] := by
  obtain ⟨c, rest, htext⟩ := exists_text_eq_cons hy
  obtain ⟨u, decided, hdecides⟩ := h.exists_decides hy happart hoperators (c := c)
    (by rw [htext]; rfl)
  obtain ⟨t, lexemes, hreads, hafter, htokens⟩ : ∃ t lexemes,
      Reads scope u y.text (.ok (t, lexemes)) ∧ t.After scope (some y) ∧
        lexemes.map Lexeme.token ++ t.held scope = u.flush.2.map Lexeme.token ++ [y] := by
    cases y with
    | hole index => exact absurd hy id
    | operator op =>
        exact reads_operator hdecides.mode hdecides.frames hdecides.previous hdecides.empty
          (hdecides.takes hy happart)
    | blank =>
        have hstep := @readChar_blank scope u hdecides.frames 0
        have hemit := emitBlank_eq hdecides.empty
        refine ⟨u.emitBlank.1, u.emitBlank.2, reads_of_readChar hdecides.mode (by decide) hstep,
          .blank ?_, ?_⟩
        · rw [hemit]
          exact ⟨hdecides.frames, hdecides.mode, rfl, by simp⟩
        · have hheld : u.emitBlank.1.held scope = [] := by
            rw [hemit]
            exact Resting.held ⟨hdecides.frames, hdecides.mode, rfl, by simp⟩
          rw [hheld, List.append_nil]
          refine map_token_emitBlank fun hblank ↦ ?_
          rcases hdecides.ready with ⟨-, hy'⟩ | ⟨p, -, hpiece, hraw⟩
          · exact absurd rfl (hy' hblank)
          · rwa [hpiece]
    | piece p =>
        rcases hdecides.ready with ⟨hresting, -⟩ | ⟨q, rfl, -, -⟩
        · obtain ⟨t, hreads, hframes, hprevious, hmode, hpiece⟩ := hy.reads u hresting
          refine ⟨t, [], hreads, .piece hy.nonempty hframes ?_ hmode hpiece fun hclosed ↦ ?_, ?_⟩
          · rw [hprevious]
            exact hresting.previous
          · obtain ⟨t', hreads', -, -, hplain, -⟩ := hclosed u hresting
            have hsame := (hreads.scan_eq).symm.trans hreads'.scan_eq
            cases hsame
            exact hplain
          · rw [held_of_endsWord hmode hpiece hy.nonempty]
            simp [flush, hresting.piece]
        · exact absurd (happart _ rfl) id
  rw [htext] at hreads ⊢
  have hstep := hdecides.step
  refine ⟨t, decided ++ lexemes, ?_, hafter, ?_⟩
  · have hsettled := Reads.of_settled (s := s) hdecides.complete (by rw [hstep]; exact hdecides.mode)
      (by rw [hstep]; exact hreads)
    rwa [hstep] at hsettled
  · rw [List.map_append, List.append_assoc, htokens, ← List.append_assoc, hdecides.held]

theorem exists_after {tokens : List Token} (hlegible : ∀ token ∈ tokens, token.Legible scope)
    (happart : tokens.IsChain (Token.Apart False scope))
    (hoperators : tokens.IsChain Token.OperatorsApart) :
    ∃ t lexemes, Reads scope {} (plainText tokens) (.ok (t, lexemes)) ∧
      t.After scope tokens.getLast? ∧ lexemes.map Lexeme.token ++ t.held scope = tokens := by
  induction tokens using List.reverseRecOn with
  | nil =>
      have hrest : ({} : Scanner).Resting := ⟨rfl, rfl, rfl, by simp⟩
      exact ⟨{}, [], .nil, .start hrest rfl, by rw [hrest.held]; rfl⟩
  | append_singleton front y ih =>
      obtain ⟨hfront, -, hpair⟩ := List.isChain_append.1 happart
      obtain ⟨hfront', -, hoperator⟩ := List.isChain_append.1 hoperators
      obtain ⟨s, lexemes, hreads, hafter, htokens⟩ :=
        ih (fun token ht ↦ hlegible token (by simp [ht])) hfront hfront'
      obtain ⟨t, more, hmore, hafter', htokens'⟩ := hafter.reads (hlegible y (by simp))
        (fun x hx ↦ hpair x hx y rfl) fun x hx ↦ hoperator x hx y rfl
      refine ⟨t, lexemes ++ more, ?_, ?_, ?_⟩
      · rw [plainText_append, plainText_cons, plainText_nil, List.append_nil]
        exact hreads.append hmore
      · rw [List.getLast?_concat]
        exact hafter'
      · rw [List.map_append, List.append_assoc, htokens', ← List.append_assoc, htokens]

theorem After.frames {before : Option Token} (h : s.After scope before) : s.frames = [] := by
  cases h with
  | start rest | operator rest | blank rest => exact rest.frames
  | pending _ hframes | piece _ hframes => exact hframes

theorem After.mode_ne_escape {before : Option Token} (h : s.After scope before) :
    s.mode ≠ .escape := by
  cases h with
  | start rest | operator rest | blank rest => simp [rest.mode]
  | pending hmode => rintro hescape; simp [hescape, Mode.pending?] at hmode
  | piece _ _ _ hmode => rcases hmode with hmode | ⟨place, hmode⟩ <;> simp [hmode]

end Scanner

/-- Legible tokens that do not run together are read back from their text. -/
theorem scanAll_plainText {scope : Scope} {tokens : List Token}
    (hlegible : ∀ token ∈ tokens, token.Legible scope)
    (happart : tokens.IsChain (Token.Apart False scope))
    (hoperators : tokens.IsChain Token.OperatorsApart) :
    ∃ lexemes, scanAll scope (charItems (plainText tokens)) = .ok lexemes ∧
      lexemes.map Lexeme.token = tokens := by
  obtain ⟨t, lexemes, hreads, hafter, htokens⟩ := exists_after hlegible happart hoperators
  refine ⟨lexemes ++ ((t.settle scope).andThen Scanner.flush).2,
    scanAll_eq_ok_iff.2 ⟨(t, lexemes), _, hreads.scan_eq, ?_, rfl⟩, ?_⟩
  · unfold Scanner.finish
    rw [hafter.frames]
    exact if_neg hafter.mode_ne_escape
  · rw [List.map_append]
    exact htokens

end ShellTemplate
