import Mathlib.Tactic.SplitIfs
import ShellTemplate.Proofs.Lexeme.Run
import ShellTemplate.Proofs.Numeral

/-!
# What one character does

With nothing undecided, a character makes one of thirteen moves. Whatever holds
of every move holds of reading a character, so that invariants of the scanner
need not look at the characters one by one.
-/

namespace ShellTemplate

/-- The operator that is written so far, where one is undecided. -/
def Mode.pending? : Mode → Option Operator
  | .pipe => some .pipe
  | .ampersand => some .background
  | .greater fd => some (.redirect ⟨fd, .out⟩)
  | .less fd => some (.redirect ⟨fd, .input⟩)
  | .plain | .comment | .escape | .dollar _ => none

/-- The characters that a reader takes as a part of an operator when they follow it. -/
def Operator.continuations : Operator → List Char
  | .pipe => ['|']
  | .background => ['&']
  | .redirect ⟨_, .out⟩ => ['>', '&', '|']
  | .redirect ⟨_, .input⟩ => ['&']
  | _ => []

namespace Scanner

/-- The piece without a backslash that has not escaped anything yet. -/
def core (s : Scanner) : Piece :=
  if s.mode = .escape then { s.piece with raw := s.piece.raw.dropLast } else s.piece

theorem core_of_ne {s : Scanner} (h : s.mode ≠ .escape) : s.core = s.piece := if_neg h

theorem core_of_plain {s : Scanner} (h : s.mode = .plain) : s.core = s.piece :=
  core_of_ne (by simp [h])

theorem writtenDescriptor?_eq_some_iff {s : Scanner} {fd : Nat} :
    s.writtenDescriptor? = some fd ↔
      s.piece.expands = false ∧ s.previous ≠ .word ∧ readDescriptor? s.piece.raw = some fd := by
  unfold writtenDescriptor?
  split_ifs with h <;> simp_all

/-- The innermost open construct is a single-quoted string. -/
def inSingle (s : Scanner) : Bool :=
  match s.frames with
  | .single _ :: _ => true
  | _ => false

/-- The characters that never stand for themselves outside quotes. -/
def bareSyntax : List Char :=
  [' ', '\t', '\r', '\n', '\'', '"', '\\', '$', '|', '&', ';', '(', ')', '>', '<']

/-- A character that stands for itself here. -/
def Ordinary (c : Char) (s : Scanner) : Prop :=
  match s.frames with
  | [] => c ∉ bareSyntax ∧ (c = '#' → s.atWordStart = false)
  | .single _ :: _ => c ≠ '\''
  | .double _ :: _ => c ≠ '"' ∧ c ≠ '\\' ∧ c ≠ '$'
  | .substitution _ _ :: _ => c ∉ [')', '(', '\'', '"', '\\', '$']
  | .parameter _ :: _ =>
    c ∉ ['\x7d', '"', '\\', '$'] ∧
      (c = '\'' → (commandFrames s.frames).any Frame.isDouble = true)

/-- A frame that a quote character opens. -/
def QuoteFrame (c : Char) (frame : Frame) : Prop :=
  (c = '\'' ∧ ∃ place, frame = .single place) ∨ (c = '"' ∧ ∃ place, frame = .double place)

/-- The moves of the scanner on a character with nothing undecided before it. -/
inductive Move (scope : Scope) (place : Nat) (c : Char) (s : Scanner) : Step → Prop
  | blank (bare : s.frames = []) (hc : c = ' ' ∨ c = '\t' ∨ c = '\r') :
      Move scope place c s s.emitBlank
  | operator (bare : s.frames = []) (op : Operator) (hop : op.text = [c])
      (hsingle : op ∈ [.newline, .semicolon, .openParen, .closeParen]) :
      Move scope place c s (s.emitOperator op)
  | comment (bare : s.frames = []) (hc : c = '#') (start : s.atWordStart = true) :
      Move scope place c s (s.inMode .comment, [])
  | begin (bare : s.frames = []) (mode : Mode)
      (hmode : (c = '|' ∧ mode = .pipe) ∨ (c = '&' ∧ mode = .ampersand)) :
      Move scope place c s (s.inMode mode, [])
  | angle (bare : s.frames = []) (mode : Option Nat → Mode)
      (hmode : (c = '>' ∧ mode = .greater) ∨ (c = '<' ∧ mode = .less)) :
      Move scope place c s (s.readAngle mode, [])
  | keep (ordinary : s.Ordinary c) : Move scope place c s (s.pushChar scope c, [])
  | glob (bare : s.frames = []) (ordinary : s.Ordinary c)
      (hc : c ∈ ['*', '?', '[', '\x7b'] ∨ (c = '~' ∧ s.atWordStart = true)) :
      Move scope place c s ((s.pushChar scope c).markExpands, [])
  | openQuote (bare : s.frames = []) (frame : Frame) (hframe : QuoteFrame c frame)
      (hplace : frame.opened = place) :
      Move scope place c s ((s.pushSyntax scope c).enter frame, [])
  | closeQuote (frame : Frame) (rest : List Frame) (hframes : s.frames = frame :: rest)
      (hframe : QuoteFrame c frame) : Move scope place c s (s.leave.pushSyntax scope c, [])
  | openInner (outer : Frame) (rest : List Frame) (hframes : s.frames = outer :: rest)
      (houter : outer.isSubstitution = true ∨ outer.isParameter = true) (frame : Frame)
      (hframe : QuoteFrame c frame) (hplace : frame.opened = place) :
      Move scope place c s ((s.pushChar scope c).enter frame, [])
  | closeExpansion (frame : Frame) (rest : List Frame) (hframes : s.frames = frame :: rest)
      (hframe : (c = ')' ∧ ∃ opened, frame = .substitution opened 0) ∨
        (c = '\x7d' ∧ frame.isParameter = true)) :
      Move scope place c s (s.leave.pushChar scope c, [])
  | nest (opened parens parens' : Nat) (rest : List Frame)
      (hframes : s.frames = .substitution opened parens :: rest)
      (hparens : (c = ')' ∧ parens = parens' + 1) ∨ (c = '(' ∧ parens' = parens + 1)) :
      Move scope place c s ((s.leave.enter (.substitution opened parens')).pushChar scope c, [])
  | backslash (quotable : s.inSingle = false) (hc : c = '\\') :
      Move scope place c s (s.readBackslash scope, [])
  | dollar (quotable : s.inSingle = false) (hc : c = '$') :
      Move scope place c s (s.inMode (.dollar place), [])

variable {scope : Scope} {place : Nat} {c : Char} {s : Scanner}

/-- What a character does outside all constructs, for every scanner that is there. Only a `#` and a
tilde ask for the start of a word. -/
inductive BareReading (c : Char) (place : Nat) : Prop
  | blank (hc : c = ' ' ∨ c = '\t' ∨ c = '\r')
      (reads : ∀ scope s, readBare scope c place s = s.emitBlank)
  | operator (op : Operator) (hop : op.text = [c])
      (hsingle : op ∈ [.newline, .semicolon, .openParen, .closeParen])
      (reads : ∀ scope s, readBare scope c place s = s.emitOperator op)
  | hash (hc : c = '#') (reads : ∀ scope s, readBare scope c place s =
      if s.atWordStart = true then (s.inMode .comment, []) else (s.pushChar scope c, []))
  | quote (frame : Frame) (hframe : QuoteFrame c frame) (hplace : frame.opened = place)
      (reads : ∀ scope s, readBare scope c place s = ((s.pushSyntax scope c).enter frame, []))
  | backslash (hc : c = '\\')
      (reads : ∀ scope s, readBare scope c place s = (s.readBackslash scope, []))
  | dollar (hc : c = '$')
      (reads : ∀ scope s, readBare scope c place s = (s.inMode (.dollar place), []))
  | begin (mode : Mode) (hmode : (c = '|' ∧ mode = .pipe) ∨ (c = '&' ∧ mode = .ampersand))
      (reads : ∀ scope s, readBare scope c place s = (s.inMode mode, []))
  | angle (mode : Option Nat → Mode)
      (hmode : (c = '>' ∧ mode = .greater) ∨ (c = '<' ∧ mode = .less))
      (reads : ∀ scope s, readBare scope c place s = (s.readAngle mode, []))
  | glob (hc : c ∈ ['*', '?', '[', '\x7b'])
      (reads : ∀ scope s, readBare scope c place s = ((s.pushChar scope c).markExpands, []))
  | tilde (hc : c = '~') (reads : ∀ scope s, readBare scope c place s =
      (if s.atWordStart = true then (s.pushChar scope c).markExpands else s.pushChar scope c, []))
  | ordinary (hc : c ∉ bareSyntax) (hhash : c ≠ '#')
      (reads : ∀ scope s, readBare scope c place s = (s.pushChar scope c, []))

theorem bareReading (c : Char) (place : Nat) : BareReading c place := by
  by_cases hc : c ∈ bareSyntax ++ ['#', '*', '?', '[', '\x7b', '~']
  · simp only [bareSyntax, List.cons_append, List.nil_append, List.mem_cons, List.not_mem_nil,
      or_false] at hc
    rcases hc with rfl | rfl | rfl | rfl | rfl | rfl | rfl | rfl | rfl | rfl | rfl | rfl | rfl |
      rfl | rfl | rfl | rfl | rfl | rfl | rfl | rfl
    · exact .blank (by simp) fun _ _ ↦ rfl
    · exact .blank (by simp) fun _ _ ↦ rfl
    · exact .blank (by simp) fun _ _ ↦ rfl
    · exact .operator .newline rfl (by simp) fun _ _ ↦ rfl
    · exact .quote (.single place) (.inl ⟨rfl, place, rfl⟩) rfl fun _ _ ↦ rfl
    · exact .quote (.double place) (.inr ⟨rfl, place, rfl⟩) rfl fun _ _ ↦ rfl
    · exact .backslash rfl fun _ _ ↦ rfl
    · exact .dollar rfl fun _ _ ↦ rfl
    · exact .begin .pipe (.inl ⟨rfl, rfl⟩) fun _ _ ↦ rfl
    · exact .begin .ampersand (.inr ⟨rfl, rfl⟩) fun _ _ ↦ rfl
    · exact .operator .semicolon rfl (by simp) fun _ _ ↦ rfl
    · exact .operator .openParen rfl (by simp) fun _ _ ↦ rfl
    · exact .operator .closeParen rfl (by simp) fun _ _ ↦ rfl
    · exact .angle .greater (.inl ⟨rfl, rfl⟩) fun _ _ ↦ rfl
    · exact .angle .less (.inr ⟨rfl, rfl⟩) fun _ _ ↦ rfl
    · exact .hash rfl fun _ _ ↦ by simp [readBare]
    · exact .glob (by simp) fun _ _ ↦ by simp [readBare]
    · exact .glob (by simp) fun _ _ ↦ by simp [readBare]
    · exact .glob (by simp) fun _ _ ↦ by simp [readBare]
    · exact .glob (by simp) fun _ _ ↦ by simp [readBare]
    · exact .tilde rfl fun _ s ↦ by cases hstart : s.atWordStart <;> simp [readBare, hstart]
  · rw [List.mem_append, not_or] at hc
    obtain ⟨hbare, hmarked⟩ := hc
    refine .ordinary hbare (by rintro rfl; simp at hmarked) fun _ _ ↦ ?_
    simp only [bareSyntax, List.mem_cons, List.not_mem_nil, or_false, not_or] at hbare hmarked
    simp [readBare, hbare, hmarked]

theorem ordinary_of_glob (hc : c ∈ ['*', '?', '[', '\x7b']) :
    c ∉ bareSyntax ∧ c ≠ '#' ∧ isDigit c = false := by
  simp only [List.mem_cons, List.not_mem_nil, or_false] at hc
  rcases hc with rfl | rfl | rfl | rfl <;> exact ⟨by decide, by decide, rfl⟩

theorem readBare_move (bare : s.frames = []) : Move scope place c s (s.readBare scope c place) := by
  have hsingle : s.inSingle = false := by simp [inSingle, bare]
  have hkeep : c ∉ bareSyntax → (c = '#' → s.atWordStart = false) → s.Ordinary c := by
    intro hbare hhash
    simpa only [Ordinary, bare] using And.intro hbare hhash
  cases bareReading c place with
  | blank hc reads =>
      rw [reads]
      exact .blank bare hc
  | operator op hop hop' reads =>
      rw [reads]
      exact .operator bare op hop hop'
  | hash hc reads =>
      rw [reads]
      split_ifs with hstart
      · exact .comment bare hc hstart
      · exact .keep (hkeep (by subst hc; decide) fun _ ↦ Bool.eq_false_iff.2 hstart)
  | quote frame hframe hplace reads =>
      rw [reads]
      exact .openQuote bare frame hframe hplace
  | backslash hc reads =>
      rw [reads]
      exact .backslash hsingle hc
  | dollar hc reads =>
      rw [reads]
      exact .dollar hsingle hc
  | begin mode hmode reads =>
      rw [reads]
      exact .begin bare mode hmode
  | angle mode hmode reads =>
      rw [reads]
      exact .angle bare mode hmode
  | glob hc reads =>
      rw [reads]
      obtain ⟨hbare, hhash, -⟩ := ordinary_of_glob hc
      exact .glob bare (hkeep hbare fun heq ↦ absurd heq hhash) (.inl hc)
  | tilde hc reads =>
      rw [reads]
      have hordinary := hkeep (by subst hc; decide) fun hhash ↦ by subst hc; cases hhash
      split_ifs with hstart
      · exact .glob bare hordinary (.inr ⟨hc, hstart⟩)
      · exact .keep hordinary
  | ordinary hc hhash reads =>
      rw [reads]
      exact .keep (hkeep hc fun heq ↦ absurd heq hhash)

theorem readSubstitution_move {opened parens : Nat} {rest : List Frame}
    (hframes : s.frames = .substitution opened parens :: rest) :
    Move scope place c s (s.readSubstitution scope c place opened parens, []) := by
  have hsingle : s.inSingle = false := by simp [inSingle, hframes]
  unfold readSubstitution
  split_ifs with h1 h2 h3 h4 h5 h6
  · cases parens with
    | zero => exact .closeExpansion _ _ hframes (.inl ⟨h1, opened, rfl⟩)
    | succ n => exact .nest _ _ _ _ hframes (.inl ⟨h1, rfl⟩)
  · exact .nest _ _ _ _ hframes (.inr ⟨h2, rfl⟩)
  · exact .openInner _ _ hframes (.inl rfl) _ (.inl ⟨h3, place, rfl⟩) rfl
  · exact .openInner _ _ hframes (.inl rfl) _ (.inr ⟨h4, place, rfl⟩) rfl
  · exact .backslash hsingle h5
  · exact .dollar hsingle h6
  · exact .keep (by simp only [Ordinary, hframes]; simp_all)

theorem readParameter_move {opened : Nat} {rest : List Frame}
    (hframes : s.frames = .parameter opened :: rest) :
    Move scope place c s (s.readParameter scope c place, []) := by
  have hsingle : s.inSingle = false := by simp [inSingle, hframes]
  unfold readParameter
  split_ifs with h1 h2 h3 h4 h5
  · exact .closeExpansion _ _ hframes (.inr ⟨h1, rfl⟩)
  · exact .openInner _ _ hframes (.inr rfl) _ (.inr ⟨h2, place, rfl⟩) rfl
  · exact .openInner _ _ hframes (.inr rfl) _ (.inl ⟨h3.1, place, rfl⟩) rfl
  · exact .backslash hsingle h4
  · exact .dollar hsingle h5
  · exact .keep (by simp only [Ordinary, hframes]; simp_all)

theorem readChar_move : Move scope place c s (s.readChar scope c place) := by
  unfold readChar
  cases hframes : s.frames with
  | nil => exact readBare_move hframes
  | cons frame rest =>
      cases frame with
      | single p =>
          dsimp only
          split_ifs with h
          · exact .closeQuote _ _ hframes (.inl ⟨h, p, rfl⟩)
          · exact .keep (by simpa only [Ordinary, hframes] using h)
      | double p =>
          have hsingle : s.inSingle = false := by simp [inSingle, hframes]
          dsimp only
          split_ifs with h1 h2 h3
          · exact .closeQuote _ _ hframes (.inr ⟨h1, p, rfl⟩)
          · exact .backslash hsingle h2
          · exact .dollar hsingle h3
          · exact .keep (by simpa only [Ordinary, hframes] using ⟨h1, h2, h3⟩)
      | substitution opened parens => exact readSubstitution_move hframes
      | parameter p => exact readParameter_move hframes

/-- What an escaped character leaves behind. -/
structure Escaped (s : Scanner) (c : Char) (t : Scanner) : Prop where
  frames : t.frames = s.frames
  mode : t.mode = .plain
  previous : t.previous = s.previous
  raw : t.piece.raw = s.piece.raw ++ [c]
  expands : t.piece.expands = s.piece.expands

theorem readEscaped_fields (s : Scanner) (c : Char) : Escaped s c (s.readEscaped scope c) := by
  unfold readEscaped
  dsimp only
  split_ifs <;> exact ⟨rfl, rfl, rfl, rfl, rfl⟩

/-- Outside double quotes, and before a special character in them, an escaped character stands
for itself. -/
theorem readEscaped_text {c : Char} (hne : c ≠ '\n')
    (hc : isSpecialInDouble c = true ∨ ∀ frame ∈ s.frames.head?, frame.isDouble = false) :
    (s.readEscaped scope c).piece.text = s.piece.text ++ [c] := by
  unfold readEscaped
  rcases hc with hc | hc
  · simp [hne, hc, push, inMode]
  · cases hframes : s.frames with
    | nil => simp [hne, hframes, push, inMode]
    | cons frame rest =>
        cases frame <;> simp [hframes, Frame.isDouble] at hc
        all_goals simp [hne, hframes, push, inMode]

/-- What a character completes. -/
inductive Completion (scope : Scope) (c : Char) (s : Scanner) : Step → Prop
  | commentOn (hmode : s.mode = .comment) (hc : c ≠ '\n') : Completion scope c s (s, [])
  | commentEnd (hmode : s.mode = .comment) (hc : c = '\n') :
      Completion scope c s ((s.inMode .plain).emitOperator .newline)
  | escaped (hmode : s.mode = .escape) : Completion scope c s (s.readEscaped scope c, [])
  | openParameter (opened : Nat) (hmode : s.mode = .dollar opened) (hc : c = '\x7b') :
      Completion scope c s ((((s.inMode .plain).push scope ['$', '\x7b']
        ['$', '\x7b']).markExpands).enter (.parameter opened), [])
  | openSubstitution (opened : Nat) (hmode : s.mode = .dollar opened) (hc : c = '(') :
      Completion scope c s ((((s.inMode .plain).push scope ['$', '('] ['$', '(']).markExpands).enter
        (.substitution opened 0), [])
  | operator (pending op : Operator) (hmode : s.mode.pending? = some pending)
      (hc : c ∈ pending.continuations)
      (hop : op.text = pending.text ++ [c] ∨ (op = pending ∧ c = '|')) :
      Completion scope c s ((s.inMode .plain).emitOperator op)

/-- What is decided before a character that completes nothing. -/
inductive Settlement (scope : Scope) (c : Char) (s : Scanner) : Step → Prop
  | plain (hmode : s.mode = .plain) : Settlement scope c s (s, [])
  | dollar (opened : Nat) (hmode : s.mode = .dollar opened) (hparameter : c ≠ '\x7b')
      (hsubstitution : c ≠ '(') (expands : startsExpansion c = true) :
      Settlement scope c s (((s.inMode .plain).pushChar scope '$').markExpands, [])
  | lone (opened : Nat) (hmode : s.mode = .dollar opened) (hparameter : c ≠ '\x7b')
      (hsubstitution : c ≠ '(') (expands : startsExpansion c = false) :
      Settlement scope c s ((s.inMode .plain).pushChar scope '$', [])
  | operator (pending : Operator) (hmode : s.mode.pending? = some pending)
      (hc : c ∉ pending.continuations) :
      Settlement scope c s ((s.inMode .plain).emitOperator pending)

theorem complete_completion {step : Step} (h : s.complete? scope c = some step) :
    Completion scope c s step := by
  unfold complete? at h
  cases hmode : s.mode with
  | plain => simp [hmode] at h
  | comment =>
      simp only [hmode] at h
      split_ifs at h with hc <;> cases h
      · exact .commentEnd hmode hc
      · exact .commentOn hmode hc
  | escape =>
      simp only [hmode, Option.some.injEq] at h
      subst h
      exact .escaped hmode
  | dollar opened =>
      simp only [hmode] at h
      split_ifs at h with h1 h2
      · cases h
        exact .openParameter opened hmode h1
      · cases h
        exact .openSubstitution opened hmode h2
  | pipe =>
      simp only [hmode] at h
      split_ifs at h with hc
      cases h
      exact .operator .pipe .or (by rw [hmode]; rfl) (by simp [hc, Operator.continuations])
        (.inl (by simp [hc, Operator.text]))
  | ampersand =>
      simp only [hmode] at h
      split_ifs at h with hc
      cases h
      exact .operator .background .and (by rw [hmode]; rfl) (by simp [hc, Operator.continuations])
        (.inl (by simp [hc, Operator.text]))
  | greater fd =>
      have hpending : s.mode.pending? = some (.redirect ⟨fd, .out⟩) := by rw [hmode]; rfl
      simp only [hmode] at h
      split_ifs at h with h1 h2 h3 <;> cases h
      · exact .operator _ _ hpending (by simp [h1, Operator.continuations])
          (.inl (by simp [h1, Operator.text, Redirect.text, RedirectKind.text]))
      · exact .operator _ _ hpending (by simp [h2, Operator.continuations])
          (.inl (by simp [h2, Operator.text, Redirect.text, RedirectKind.text]))
      · exact .operator _ _ hpending (by simp [h3, Operator.continuations]) (.inr ⟨rfl, h3⟩)
  | less fd =>
      have hpending : s.mode.pending? = some (.redirect ⟨fd, .input⟩) := by rw [hmode]; rfl
      simp only [hmode] at h
      split_ifs at h with hc
      cases h
      exact .operator _ _ hpending (by simp [hc, Operator.continuations])
        (.inl (by simp [hc, Operator.text, Redirect.text, RedirectKind.text]))

/-- The quoting context of a hole after a backslash. -/
def escapedQuoting (s : Scanner) : Quoting :=
  match s.frames with
  | .double _ :: _ => .double
  | _ => .escaped

/-- What is done before a hole is read. -/
inductive HoleMove (scope : Scope) (index : Nat) (s : Scanner) : Step → Prop
  | comment (hmode : s.mode = .comment) : HoleMove scope index s (s, [])
  | escaped (hmode : s.mode = .escape) :
      HoleMove scope index s (emitHole index s.escapedQuoting (scope.enclosing s.frames)
        { s with mode := .plain, piece := s.core })
  | dollar (opened : Nat) (hmode : s.mode = .dollar opened) :
      HoleMove scope index s
        (((s.inMode .plain).push scope ['\\', '$'] ['$']).readHole scope index)
  | plain (hmode : s.mode = .plain) : HoleMove scope index s (s.readHole scope index)
  | operator (pending : Operator) (hmode : s.mode.pending? = some pending) :
      HoleMove scope index s
        (((s.inMode .plain).emitOperator pending).andThen (·.readHole scope index))

theorem stepHole_holeMove {index : Nat} : HoleMove scope index s (s.stepHole scope index) := by
  unfold stepHole
  cases hmode : s.mode with
  | comment => exact .comment hmode
  | escape =>
      have hcore : s.core = { s.piece with raw := s.piece.raw.dropLast } := if_pos hmode
      have hmove : HoleMove scope index s _ := .escaped hmode
      rwa [hcore] at hmove
  | dollar opened => exact .dollar opened hmode
  | plain =>
      simp only [settle, hmode]
      exact .plain hmode
  | pipe | ampersand | greater fd | less fd =>
      simp only [settle, hmode]
      exact .operator _ (by rw [hmode]; rfl)

theorem settleBefore_settlement (h : s.complete? scope c = none) :
    Settlement scope c s (s.settleBefore scope c) := by
  unfold complete? at h
  unfold settleBefore
  cases hmode : s.mode with
  | plain =>
      simp only [settle, hmode]
      exact .plain hmode
  | comment =>
      simp only [hmode] at h
      split_ifs at h
  | escape => simp [hmode] at h
  | dollar opened =>
      simp only [hmode] at h
      split_ifs at h with h1 h2
      dsimp only
      split_ifs with hexpands
      · exact .dollar opened hmode h1 h2 hexpands
      · exact .lone opened hmode h1 h2 (Bool.eq_false_iff.2 hexpands)
  | pipe =>
      simp only [hmode] at h
      split_ifs at h with hc
      simp only [settle, hmode]
      exact .operator .pipe (by rw [hmode]; rfl) (by simp [hc, Operator.continuations])
  | ampersand =>
      simp only [hmode] at h
      split_ifs at h with hc
      simp only [settle, hmode]
      exact .operator .background (by rw [hmode]; rfl) (by simp [hc, Operator.continuations])
  | greater fd =>
      simp only [hmode] at h
      split_ifs at h with h1 h2 h3
      simp only [settle, hmode]
      exact .operator (.redirect ⟨fd, .out⟩) (by rw [hmode]; rfl)
        (by simp [h1, h2, h3, Operator.continuations])
  | less fd =>
      simp only [hmode] at h
      split_ifs at h with hc
      simp only [settle, hmode]
      exact .operator (.redirect ⟨fd, .input⟩) (by rw [hmode]; rfl)
        (by simp [hc, Operator.continuations])

/-- A character that makes no expansion decides what the end of the text decides. -/
theorem settleBefore_eq_settle (h : startsExpansion c = false) (s : Scanner) :
    s.settleBefore scope c = s.settle scope := by
  unfold settleBefore settle
  split <;> simp_all

theorem settleBefore_blank (s : Scanner) : s.settleBefore scope ' ' = s.settle scope :=
  settleBefore_eq_settle rfl s

/-- At the end of a text everything is decided as it is before a blank. -/
theorem settle_settlement (hcomment : s.mode ≠ .comment) (hescape : s.mode ≠ .escape) :
    Settlement scope ' ' s (s.settle scope) := by
  have hnone : s.complete? scope ' ' = none := by
    unfold complete?
    split <;> simp_all
  rw [← settleBefore_blank]
  exact settleBefore_settlement hnone

end Scanner

end ShellTemplate
