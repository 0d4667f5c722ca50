import ShellTemplate.Proofs.Lexeme.Move

/-!
# The same text, told differently

Only errors mention places, and the scanner never looks at the number of a hole. A text with other
places and other numbers, scanned in a scope that shows the same contexts in another way, gives the
same lexemes told in that way, and the same error.
-/

namespace ShellTemplate

/-- Other places, other numbers for the holes and other contexts. -/
structure Retelling where
  place : Nat → Nat
  index : Nat → Nat
  scope : Scope → Scope
  quoting : Quoting → Quoting
  enclosing : Enclosing → Enclosing
  quoting_scope : ∀ outer frames, (scope outer).quoting frames = quoting (outer.quoting frames)
  enclosing_scope : ∀ outer frames,
    (scope outer).enclosing frames = enclosing (outer.enclosing frames)
  body_scope : ∀ outer frames, (scope outer).body frames = scope (outer.body frames)
  quoting_double : quoting .double = .double
  quoting_escaped : quoting .escaped = .escaped
  /-- The context of a piece of which nothing is read yet is told as well. -/
  eager : Prop
  quoting_bare : eager → quoting .bare = .bare

namespace Frame

def moved (place : Nat → Nat) : Frame → Frame
  | .single p => .single (place p)
  | .double p => .double (place p)
  | .substitution p parens => .substitution (place p) parens
  | .parameter p => .parameter (place p)

variable (place : Nat → Nat) (frame : Frame)

@[simp] theorem opened_moved : (frame.moved place).opened = place frame.opened := by
  cases frame <;> rfl

@[simp] theorem isDouble_moved : (frame.moved place).isDouble = frame.isDouble := by
  cases frame <;> rfl

@[simp] theorem isSubstitution_moved :
    (frame.moved place).isSubstitution = frame.isSubstitution := by
  cases frame <;> rfl

@[simp] theorem isParameter_moved : (frame.moved place).isParameter = frame.isParameter := by
  cases frame <;> rfl

end Frame

def Mode.moved (place : Nat → Nat) : Mode → Mode
  | .dollar opened => .dollar (place opened)
  | mode => mode

theorem Mode.moved_eq_comment_iff {place : Nat → Nat} {mode : Mode} :
    mode.moved place = .comment ↔ mode = .comment := by
  cases mode <;> simp [moved]

section Frames

variable (place : Nat → Nat) (frames : List Frame)

theorem commandFrames_moved : commandFrames (frames.map (Frame.moved place)) =
    (commandFrames frames).map (Frame.moved place) := by
  have hpred : (fun f : Frame ↦ !f.isSubstitution) ∘ Frame.moved place =
      fun f ↦ !f.isSubstitution := by
    funext f
    simp
  rw [commandFrames, List.takeWhile_map, hpred, commandFrames]

@[simp] theorem any_isDouble_moved :
    (commandFrames (frames.map (Frame.moved place))).any Frame.isDouble =
      (commandFrames frames).any Frame.isDouble := by
  rw [commandFrames_moved, List.any_map]
  congr 1
  funext f
  simp

@[simp] theorem any_isParameter_moved :
    (commandFrames (frames.map (Frame.moved place))).any Frame.isParameter =
      (commandFrames frames).any Frame.isParameter := by
  rw [commandFrames_moved, List.any_map]
  congr 1
  funext f
  simp

namespace Scope

variable (scope : Scope)

@[simp] theorem substitutions_moved :
    scope.substitutions (frames.map (Frame.moved place)) = scope.substitutions frames := by
  have hpred : Frame.isSubstitution ∘ Frame.moved place = Frame.isSubstitution := by
    funext f
    simp
  rw [substitutions, List.countP_map, hpred, substitutions]

@[simp] theorem quoting_moved :
    scope.quoting (frames.map (Frame.moved place)) = scope.quoting frames := by
  cases frames with
  | nil => rfl
  | cons frame rest =>
      have h := substitutions_moved place (frame :: rest) scope
      cases frame <;> first | rfl | simpa [quoting, Frame.moved] using h

@[simp] theorem enclosing_moved :
    scope.enclosing (frames.map (Frame.moved place)) = scope.enclosing frames := by
  simp [enclosing]

@[simp] theorem body_moved :
    scope.body (frames.map (Frame.moved place)) = scope.body frames := by
  simp [body]

end Scope

end Frames

namespace Retelling

/-- Other places and numbers, in the same contexts. -/
def renumbered (place index : Nat → Nat) (eager : Prop) : Retelling where
  place := place
  index := index
  scope := id
  quoting := id
  enclosing := id
  quoting_scope _ _ := rfl
  enclosing_scope _ _ := rfl
  body_scope _ _ := rfl
  quoting_double := rfl
  quoting_escaped := rfl
  eager := eager
  quoting_bare _ := rfl

variable (r : Retelling)

def symbol : Symbol → Symbol
  | .char c => .char c
  | .hole index => .hole (r.index index)

theorem symbol_eq_char_iff {symbol : Symbol} {c : Char} :
    r.symbol symbol = .char c ↔ symbol = .char c := by
  cases symbol <;> simp [Retelling.symbol]

def item (item : Item) : Item := ⟨r.symbol item.symbol, r.place item.place⟩

def error : LexError → LexError
  | .unterminated quoting place => .unterminated (r.quoting quoting) (r.place place)
  | .trailingEscape => .trailingEscape

/-- Operators and blanks have no context of their own. -/
def lexeme : Lexeme → Lexeme
  | ⟨.piece p, quoting, enclosing⟩ => ⟨.piece p, r.quoting quoting, enclosing⟩
  | ⟨.hole index, quoting, enclosing⟩ =>
    ⟨.hole (r.index index), r.quoting quoting, r.enclosing enclosing⟩
  | ⟨.operator op, quoting, enclosing⟩ => ⟨.operator op, quoting, enclosing⟩
  | ⟨.blank, quoting, enclosing⟩ => ⟨.blank, quoting, enclosing⟩

/-- The scope of a body shows its depth as the context of its opener. -/
theorem quoting_body (scope : Scope) (frames : List Frame) :
    r.quoting (.substitution (scope.body frames).depth) =
      .substitution (r.scope (scope.body frames)).depth := by
  have hdepth : (r.scope (scope.body frames)).depth ≠ 0 := by
    rw [← r.body_scope]
    exact Nat.succ_ne_zero _
  have hquoting := r.quoting_scope (scope.body frames) []
  rw [Scope.quoting, Scope.quoting, if_neg hdepth, if_neg (by exact Nat.succ_ne_zero _)] at hquoting
  exact hquoting.symm

end Retelling

namespace Scanner

/-- The second scanner has read the same, told differently. Where nothing of a piece is read, its
context need not be known yet. -/
structure Retold (r : Retelling) (s t : Scanner) : Prop where
  frames : t.frames = s.frames.map (Frame.moved r.place)
  mode : t.mode = s.mode.moved r.place
  piece : t.piece = s.piece
  previous : t.previous = s.previous
  start : r.eager ∨ s.piece.raw ≠ [] → t.start = r.quoting s.start

/-- Both steps completed the same, the second one told differently. -/
structure Step.Retold (r : Retelling) (step step' : Step) : Prop where
  scanner : step.1.Retold r step'.1
  lexemes : step'.2 = step.2.map r.lexeme

variable {r : Retelling}

theorem retold_empty : ({} : Scanner).Retold r {} :=
  ⟨rfl, rfl, rfl, rfl, fun h ↦ (r.quoting_bare (h.resolve_right fun hne ↦ hne rfl)).symm⟩

theorem Step.Retold.andThen {step step' : Step} {next next' : Scanner → Step}
    (h : Step.Retold r step step')
    (hnext : ∀ s t, s.Retold r t → Step.Retold r (next s) (next' t)) :
    Step.Retold r (step.andThen next) (step'.andThen next') where
  scanner := (hnext _ _ h.scanner).scanner
  lexemes := by
    rw [Step.andThen_snd, Step.andThen_snd, List.map_append, h.lexemes,
      (hnext _ _ h.scanner).lexemes]

theorem Step.Retold.before {step step' after after' : Step} (h : Step.Retold r step step')
    (h' : Step.Retold r after after') :
    Step.Retold r (step.before after) (step'.before after') where
  scanner := h'.scanner
  lexemes := by simp [Step.before, h.lexemes, h'.lexemes]

namespace Retold

variable {scope : Scope} {s t : Scanner} {c : Char}

theorem silent (h : s.Retold r t) : Step.Retold r (s, []) (t, []) := ⟨h, rfl⟩

theorem quoting (h : s.Retold r t) (scope : Scope) :
    (r.scope scope).quoting t.frames = r.quoting (scope.quoting s.frames) := by
  rw [h.frames, Scope.quoting_moved, r.quoting_scope]

theorem enclosing (h : s.Retold r t) (scope : Scope) :
    (r.scope scope).enclosing t.frames = r.enclosing (scope.enclosing s.frames) := by
  rw [h.frames, Scope.enclosing_moved, r.enclosing_scope]

theorem push (h : s.Retold r t) (raw text : List Char) :
    (s.push scope raw text).Retold r (t.push (r.scope scope) raw text) where
  frames := h.frames
  mode := h.mode
  piece := by simp only [Scanner.push, h.piece]
  previous := h.previous
  start := fun _ ↦ by
    simp only [Scanner.push, h.piece]
    split_ifs with hraw
    · exact h.quoting scope
    · exact h.start (.inr hraw)

theorem pushChar (h : s.Retold r t) (c : Char) :
    (s.pushChar scope c).Retold r (t.pushChar (r.scope scope) c) := h.push _ _

theorem pushSyntax (h : s.Retold r t) (c : Char) :
    (s.pushSyntax scope c).Retold r (t.pushSyntax (r.scope scope) c) := h.push _ _

theorem markExpands (h : s.Retold r t) : s.markExpands.Retold r t.markExpands :=
  ⟨h.frames, h.mode, by simp only [Scanner.markExpands, h.piece], h.previous, h.start⟩

theorem enter (h : s.Retold r t) (frame : Frame) :
    (s.enter frame).Retold r (t.enter (frame.moved r.place)) :=
  ⟨by simp only [Scanner.enter, h.frames, List.map_cons], h.mode, h.piece, h.previous, h.start⟩

theorem leave (h : s.Retold r t) : s.leave.Retold r t.leave :=
  ⟨by simp only [Scanner.leave, h.frames, List.map_tail], h.mode, h.piece, h.previous, h.start⟩

theorem inMode (h : s.Retold r t) (mode : Mode) :
    (s.inMode mode).Retold r (t.inMode (mode.moved r.place)) :=
  ⟨h.frames, rfl, h.piece, h.previous, h.start⟩

theorem readBackslash (h : s.Retold r t) :
    (s.readBackslash scope).Retold r (t.readBackslash (r.scope scope)) :=
  (h.pushSyntax _).inMode .escape

theorem atWordStart (h : s.Retold r t) : t.atWordStart = s.atWordStart := by
  simp only [Scanner.atWordStart, h.piece, h.previous]

theorem flush (h : s.Retold r t) : Step.Retold r s.flush t.flush := by
  unfold Scanner.flush
  rw [h.piece]
  split_ifs with hraw
  · exact h.silent
  · have hstart := h.start (.inr hraw)
    exact ⟨⟨h.frames, h.mode, rfl, rfl, fun _ ↦ hstart⟩, by simp [Retelling.lexeme, hstart]⟩

theorem withPrevious (h : s.Retold r t) (previous : Previous) :
    ({ s with previous := previous } : Scanner).Retold r { t with previous := previous } :=
  ⟨h.frames, h.mode, h.piece, rfl, h.start⟩

theorem emitOperator (h : s.Retold r t) (op : Operator) :
    Step.Retold r (s.emitOperator op) (t.emitOperator op) :=
  h.flush.andThen fun _ _ h ↦ ⟨h.withPrevious _, rfl⟩

theorem emitBlank (h : s.Retold r t) : Step.Retold r s.emitBlank t.emitBlank :=
  h.flush.andThen fun u v h ↦ by
    simp only [h.previous]
    split_ifs
    · exact h.silent
    · exact ⟨h.withPrevious _, rfl⟩

theorem emitHole (h : s.Retold r t) (index : Nat) (quoting : Quoting) (enclosing : Enclosing) :
    Step.Retold r (s.emitHole index quoting enclosing)
      (t.emitHole (r.index index) (r.quoting quoting) (r.enclosing enclosing)) :=
  h.flush.andThen fun _ _ h ↦ ⟨h.withPrevious _, rfl⟩

theorem readAngle (h : s.Retold r t) (mode : Option Nat → Mode)
    (hmode : ∀ fd, (mode fd).moved r.place = mode fd) :
    (s.readAngle mode).Retold r (t.readAngle mode) := by
  have hwritten : t.writtenDescriptor? = s.writtenDescriptor? := by
    simp only [writtenDescriptor?, h.piece, h.previous]
  unfold Scanner.readAngle
  rw [hwritten]
  split
  · exact ⟨h.frames, (hmode _).symm, rfl, h.previous,
      fun hknown ↦ h.start (hknown.imp_right fun hne ↦ absurd rfl hne)⟩
  · exact ⟨h.frames, (hmode _).symm, h.piece, h.previous, h.start⟩

theorem ite {yes yes' no no' : Step} (p : Prop) [Decidable p] (hyes : Step.Retold r yes yes')
    (hno : Step.Retold r no no') :
    Step.Retold r (if p then yes else no) (if p then yes' else no') := by
  split_ifs
  · exact hyes
  · exact hno

theorem readBare (h : s.Retold r t) (c : Char) (place : Nat) :
    Step.Retold r (s.readBare scope c place) (t.readBare (r.scope scope) c (r.place place)) := by
  unfold Scanner.readBare
  rw [h.atWordStart]
  refine ite (c = ' ' ∨ c = '\t' ∨ c = '\r') h.emitBlank ?_
  refine ite (c = '\n') (h.emitOperator _) ?_
  refine ite (c = '#' ∧ s.atWordStart = true) (h.inMode .comment).silent ?_
  refine ite (c = '\'') ((h.pushSyntax _).enter (.single place)).silent ?_
  refine ite (c = '"') ((h.pushSyntax _).enter (.double place)).silent ?_
  refine ite (c = '\\') h.readBackslash.silent ?_
  refine ite (c = '$') (h.inMode (.dollar place)).silent ?_
  refine ite (c = '|') (h.inMode .pipe).silent ?_
  refine ite (c = '&') (h.inMode .ampersand).silent ?_
  refine ite (c = ';') (h.emitOperator _) ?_
  refine ite (c = '(') (h.emitOperator _) ?_
  refine ite (c = ')') (h.emitOperator _) ?_
  refine ite (c = '>') (h.readAngle .greater fun _ ↦ rfl).silent ?_
  refine ite (c = '<') (h.readAngle .less fun _ ↦ rfl).silent ?_
  refine ite (c = '*' ∨ c = '?' ∨ c = '[' ∨ c = '\x7b') (h.pushChar _).markExpands.silent ?_
  refine ite (c = '~' ∧ s.atWordStart = true) (h.pushChar _).markExpands.silent ?_
  exact (h.pushChar _).silent

theorem readSubstitution (h : s.Retold r t) (c : Char) (place opened parens : Nat) :
    (s.readSubstitution scope c place opened parens).Retold r
      (t.readSubstitution (r.scope scope) c (r.place place) (r.place opened) parens) := by
  unfold Scanner.readSubstitution
  split_ifs
  · cases parens with
    | zero => exact h.leave.pushChar _
    | succ n => exact (h.leave.enter (.substitution opened n)).pushChar _
  · exact (h.leave.enter (.substitution opened (parens + 1))).pushChar _
  · exact (h.pushChar _).enter (.single place)
  · exact (h.pushChar _).enter (.double place)
  · exact h.readBackslash
  · exact h.inMode (.dollar place)
  · exact h.pushChar _

theorem readParameter (h : s.Retold r t) (c : Char) (place : Nat) :
    (s.readParameter scope c place).Retold r
      (t.readParameter (r.scope scope) c (r.place place)) := by
  have hdouble : (commandFrames t.frames).any Frame.isDouble =
      (commandFrames s.frames).any Frame.isDouble := by
    rw [h.frames, any_isDouble_moved]
  unfold Scanner.readParameter
  rw [hdouble]
  split_ifs
  · exact h.leave.pushChar _
  · exact (h.pushChar _).enter (.double place)
  · exact (h.pushChar _).enter (.single place)
  · exact h.readBackslash
  · exact h.inMode (.dollar place)
  · exact h.pushChar _

theorem readChar (h : s.Retold r t) (c : Char) (place : Nat) :
    Step.Retold r (s.readChar scope c place) (t.readChar (r.scope scope) c (r.place place)) := by
  have hframes := h.frames
  unfold Scanner.readChar
  rw [hframes]
  cases s.frames with
  | nil => exact h.readBare c place
  | cons frame rest =>
      cases frame with
      | single opened =>
          exact ite (c = '\'') (h.leave.pushSyntax _).silent (h.pushChar _).silent
      | double opened =>
          refine ite (c = '"') (h.leave.pushSyntax _).silent ?_
          refine ite (c = '\\') h.readBackslash.silent ?_
          exact ite (c = '$') (h.inMode (.dollar place)).silent (h.pushChar _).silent
      | substitution opened parens => exact (h.readSubstitution _ _ _ _).silent
      | parameter opened => exact (h.readParameter _ _).silent

theorem readEscaped (h : s.Retold r t) (c : Char) :
    (s.readEscaped scope c).Retold r (t.readEscaped (r.scope scope) c) := by
  have hplain : (s.inMode .plain).Retold r (t.inMode .plain) := h.inMode .plain
  have hframes := h.frames
  unfold Scanner.readEscaped
  cases hs : s.frames with
  | nil =>
      rw [hs] at hframes
      simp only [Scanner.inMode, hframes, hs, List.map_nil] at hplain ⊢
      split_ifs <;> exact hplain.push _ _
  | cons frame rest =>
      rw [hs] at hframes
      cases frame <;>
        simp only [Scanner.inMode, hframes, hs, List.map_cons, Frame.moved] at hplain ⊢ <;>
        split_ifs <;> exact hplain.push _ _

theorem settle (h : s.Retold r t) :
    Step.Retold r (s.settle scope) (t.settle (r.scope scope)) := by
  have hplain : (s.inMode .plain).Retold r (t.inMode .plain) := h.inMode .plain
  unfold Scanner.settle
  rw [h.mode]
  cases s.mode with
  | plain | comment | escape => exact h.silent
  | dollar => exact (hplain.pushChar _).silent
  | pipe | ampersand | greater | less => exact hplain.emitOperator _

theorem settleBefore (h : s.Retold r t) (c : Char) :
    Step.Retold r (s.settleBefore scope c) (t.settleBefore (r.scope scope) c) := by
  have hplain : (s.inMode .plain).Retold r (t.inMode .plain) := h.inMode .plain
  unfold Scanner.settleBefore
  rw [h.mode]
  cases s.mode with
  | dollar =>
      dsimp only [Mode.moved]
      split_ifs
      · exact (hplain.pushChar _).markExpands.silent
      · exact (hplain.pushChar _).silent
  | _ => exact h.settle

/-- A character completes something for both or for none. -/
theorem complete? (h : s.Retold r t) (c : Char) :
    Option.Rel (Step.Retold r) (s.complete? scope c) (t.complete? (r.scope scope) c) := by
  have hplain : (s.inMode .plain).Retold r (t.inMode .plain) := h.inMode .plain
  unfold Scanner.complete?
  rw [h.mode]
  cases s.mode with
  | plain => exact .none
  | escape => exact .some (h.readEscaped c).silent
  | comment =>
      dsimp only [Mode.moved]
      split_ifs
      · exact .some (hplain.emitOperator _)
      · exact .some h.silent
  | dollar opened =>
      dsimp only [Mode.moved]
      split_ifs
      · exact .some (((hplain.push _ _).markExpands).enter (.parameter opened)).silent
      · exact .some (((hplain.push _ _).markExpands).enter (.substitution opened 0)).silent
      · exact .none
  | pipe | ampersand | greater | less =>
      dsimp only [Mode.moved]
      split_ifs <;> first | exact .some (hplain.emitOperator _) | exact .none

theorem stepChar (h : s.Retold r t) (c : Char) (place : Nat) :
    Step.Retold r (s.stepChar scope c place) (t.stepChar (r.scope scope) c (r.place place)) := by
  have hcomplete := @Retold.complete? r scope s t h c
  unfold Scanner.stepChar
  generalize s.complete? scope c = step at hcomplete
  generalize t.complete? (r.scope scope) c = step' at hcomplete
  cases hcomplete with
  | some hstep => exact hstep
  | none => exact (h.settleBefore c).andThen fun _ _ h ↦ h.readChar c place

theorem complete?_eq_none_iff (h : s.Retold r t) (c : Char) :
    t.complete? (r.scope scope) c = none ↔ s.complete? scope c = none := by
  have hcomplete := @Retold.complete? r scope s t h c
  generalize s.complete? scope c = step at hcomplete ⊢
  generalize t.complete? (r.scope scope) c = step' at hcomplete ⊢
  cases hcomplete <;> simp

theorem opensBodyAt_iff (h : s.Retold r t) (c : Char) :
    t.OpensBodyAt (r.scope scope) c ↔ s.OpensBodyAt scope c := by
  have hsettled := (@Retold.settleBefore r scope s t h c).scanner.frames
  have hopens : (t.settleBefore (r.scope scope) c).1.opensBody =
      (s.settleBefore scope c).1.opensBody := by
    unfold opensBody
    rw [hsettled]
    cases (s.settleBefore scope c).1.frames with
    | nil => rfl
    | cons frame rest => cases frame <;> rfl
  unfold OpensBodyAt
  rw [h.complete?_eq_none_iff, hopens]

theorem bodyScope (h : s.Retold r t) :
    t.bodyScope (r.scope scope) = r.scope (s.bodyScope scope) := by
  have hsettled := (@Retold.settleBefore r scope s t h '\x60').scanner
  unfold Scanner.bodyScope
  rw [hsettled.frames, Scope.body_moved, r.body_scope]

theorem readHole (h : s.Retold r t) (index : Nat) :
    Step.Retold r (s.readHole scope index) (t.readHole (r.scope scope) (r.index index)) := by
  unfold Scanner.readHole
  rw [h.quoting, h.enclosing]
  exact h.emitHole _ _ _

theorem escapedQuoting (h : s.Retold r t) : t.escapedQuoting = r.quoting s.escapedQuoting := by
  unfold Scanner.escapedQuoting
  rw [h.frames]
  cases s.frames with
  | nil => exact r.quoting_escaped.symm
  | cons frame rest =>
      cases frame with
      | double => exact r.quoting_double.symm
      | single | substitution | parameter => exact r.quoting_escaped.symm

theorem readEscapedHole (h : s.Retold r t) (index : Nat) :
    Step.Retold r (s.readEscapedHole scope index)
      (t.readEscapedHole (r.scope scope) (r.index index)) := by
  have htaken : ({ s with mode := .plain, piece := { s.piece with raw := s.piece.raw.dropLast } } :
      Scanner).Retold r
        { t with mode := .plain, piece := { t.piece with raw := t.piece.raw.dropLast } } :=
    ⟨h.frames, rfl, by simp only [h.piece], h.previous,
      fun hknown ↦ h.start (hknown.imp_right fun hne hnil ↦ hne (by simp [hnil]))⟩
  have hemit := htaken.emitHole index s.escapedQuoting (scope.enclosing s.frames)
  rw [← h.escapedQuoting, ← h.enclosing] at hemit
  exact hemit

theorem stepHole (h : s.Retold r t) (index : Nat) :
    Step.Retold r (s.stepHole scope index) (t.stepHole (r.scope scope) (r.index index)) := by
  have hplain : (s.inMode .plain).Retold r (t.inMode .plain) := h.inMode .plain
  unfold Scanner.stepHole
  rw [h.mode]
  cases s.mode with
  | comment => exact h.silent
  | escape => exact h.readEscapedHole index
  | dollar => exact (hplain.push _ _).readHole index
  | plain | pipe | ampersand | greater | less =>
      exact h.settle.andThen fun _ _ h ↦ h.readHole index

theorem spliceLexemes (lexemes : List Lexeme) (h : s.Retold r t) :
    Step.Retold r (Scanner.spliceLexemes scope lexemes s)
      (Scanner.spliceLexemes (r.scope scope) (lexemes.map r.lexeme) t) := by
  induction lexemes generalizing s t with
  | nil => exact h.silent
  | cons lexeme rest ih =>
      obtain ⟨token, quoting, enclosing⟩ := lexeme
      cases token with
      | piece p => exact ih (h.push _ _)
      | operator op => exact ih (h.push _ _)
      | blank => exact ih (h.push _ _)
      | hole index => exact (h.emitHole _ _ _).andThen fun _ _ h ↦ ih h

theorem stepBody (h : s.Retold r t) (lexemes : List Lexeme) :
    Step.Retold r (s.stepBody scope lexemes)
      (t.stepBody (r.scope scope) (lexemes.map r.lexeme)) :=
  (h.settleBefore _).andThen fun _ _ h ↦
    ((h.pushSyntax _).markExpands.spliceLexemes lexemes).andThen fun _ _ h ↦
      (h.pushSyntax _).silent

/-- What is left open is reported in its own context and at its own place. -/
theorem finish (h : s.Retold r t) :
    t.finish (r.scope scope) =
      ((s.finish scope).map (List.map r.lexeme)).mapError r.error := by
  have hmode : t.mode = .escape ↔ s.mode = .escape := by
    rw [h.mode]
    cases s.mode <;> simp [Mode.moved]
  have hquoting := h.quoting scope
  have hframes := h.frames
  unfold Scanner.finish
  cases hs : s.frames with
  | cons frame rest =>
      rw [hs] at hframes hquoting
      rw [hframes] at hquoting ⊢
      have hopened := frame.opened_moved r.place
      change Except.error (LexError.unterminated _ (frame.moved r.place).opened) = Except.error _
      rw [hquoting, hopened]
      rfl
  | nil =>
      rw [hs] at hframes
      rw [hframes]
      dsimp only [List.map_nil]
      by_cases hescape : s.mode = .escape
      · rw [if_pos hescape, if_pos (hmode.2 hescape)]
        rfl
      · rw [if_neg hescape, if_neg fun heq ↦ hescape (hmode.1 heq)]
        have hflushed := (@Retold.settle r scope s t h).andThen fun _ _ h ↦ h.flush
        rw [hflushed.lexemes]
        rfl

end Retold

end Scanner

open Scanner

theorem cutBody_retold (r : Retelling) (items : List Item) : cutBody (items.map r.item) =
    (cutBody items).map fun cut ↦ (cut.1.map r.item, cut.2.map r.item) := by
  fun_induction cutBody items with
  | case1 => simp [cutBody]
  | case2 p c q tail hc ih =>
      simp only [List.map_cons, Retelling.item, Retelling.symbol]
      rw [cutBody, if_pos hc, ih]
      cases cutBody tail <;> simp [Retelling.item, Retelling.symbol]
  | case3 p c q tail hc ih =>
      simp only [List.map_cons, Retelling.item, Retelling.symbol] at ih ⊢
      rw [cutBody, if_neg hc, ih]
      cases cutBody (⟨.char c, q⟩ :: tail) <;> simp [Retelling.item, Retelling.symbol]
  | case4 first tail hnot hs =>
      obtain ⟨symbol, place⟩ := first
      simp only at hs
      subst hs
      simp [cutBody, Retelling.item, Retelling.symbol]
  | case5 first tail hnot hs ih =>
      have hsymbol : (r.item first).symbol = .char '\x60' ↔ first.symbol = .char '\x60' :=
        r.symbol_eq_char_iff
      rw [List.map_cons, cutBody, if_neg (mt hsymbol.1 hs), ih]
      · cases cutBody tail <;> rfl
      · intro p c q rest hfirst htail
        obtain ⟨second, rest', rfl, hsecond, -⟩ := List.map_eq_cons_iff.1 htail
        have hfirst' : first = ⟨.char '\\', first.place⟩ := by
          rw [← r.symbol_eq_char_iff.1 (congrArg Item.symbol hfirst)]
        have hsecond' : second = ⟨.char c, second.place⟩ := by
          rw [← r.symbol_eq_char_iff.1 (congrArg Item.symbol hsecond)]
        exact hnot _ _ _ rest' hfirst' (congrArg (· :: rest') hsecond')

variable {r : Retelling}

theorem scanAll_retold_of_scan {scope : Scope} {items : List Item}
    (h : SameOutcome (Step.Retold r) ((scan scope {} items).mapError r.error)
      (scan (r.scope scope) {} (items.map r.item))) :
    scanAll (r.scope scope) (items.map r.item) =
      ((scanAll scope items).map (List.map r.lexeme)).mapError r.error := by
  unfold scanAll
  generalize scan scope {} items = first at h
  generalize scan (r.scope scope) {} (items.map r.item) = second at h
  cases first with
  | error e => cases h; rfl
  | ok out =>
      cases h with
      | @ok _ out' hout =>
          change (out'.1.finish (r.scope scope) >>= _) =
            ((out.1.finish scope >>= _).map _).mapError _
          rw [hout.scanner.finish, hout.lexemes]
          cases out.1.finish scope with
          | error e => rfl
          | ok final =>
              change Except.ok _ = Except.ok _
              rw [List.map_append]

theorem scan_retold {scope : Scope} {s t : Scanner} (items : List Item) (h : s.Retold r t) :
    SameOutcome (Step.Retold r) ((scan scope s items).mapError r.error)
      (scan (r.scope scope) t (items.map r.item)) := by
  induction hn : items.length using Nat.strongRecOn generalizing scope s t items with
  | ind n ih =>
    subst hn
    match items with
    | [] =>
        rw [List.map_nil, scan_nil, scan_nil]
        exact .ok h.silent
    | ⟨.hole index, place⟩ :: rest =>
        have hstep := @Retold.stepHole r scope s t h index
        simp only [List.map_cons, Retelling.item, Retelling.symbol]
        rw [scan_hole, scan_hole, mapError_map]
        exact (ih rest.length (by simp) rest hstep.scanner rfl).map fun _ _ ↦ hstep.before
    | ⟨.char c, place⟩ :: rest =>
        simp only [List.map_cons, Retelling.item, Retelling.symbol]
        by_cases hopen : s.OpensBodyAt scope c
        · have hopen' := (h.opensBodyAt_iff c).2 hopen
          have hmapped := cutBody_retold r rest
          cases hcut : cutBody rest with
          | none =>
              rw [hcut] at hmapped
              rw [scan_open _ _ hopen hcut, scan_open _ _ hopen' hmapped, h.bodyScope]
              have hdepth := r.quoting_body scope (s.settleBefore scope '\x60').1.frames
              change SameOutcome _ (.error (LexError.unterminated (r.quoting _) _)) _
              rw [bodyScope, hdepth]
              exact .error _
          | some cut =>
              obtain ⟨body, behind⟩ := cut
              have hlen := cutBody_length hcut
              rw [hcut] at hmapped
              rw [scan_body _ _ hopen hcut, scan_body _ _ hopen' hmapped, h.bodyScope]
              have hinner : SameOutcome (Step.Retold r)
                  ((scan (s.bodyScope scope) {} body).mapError r.error)
                  (scan (r.scope (s.bodyScope scope)) {} (body.map r.item)) :=
                ih body.length (by simp only [List.length_cons]; omega) body retold_empty rfl
              rw [scanAll_retold_of_scan hinner]
              cases scanAll (s.bodyScope scope) body with
              | error e => exact .error _
              | ok lexemes =>
                  have hstep := @Retold.stepBody r scope s t h lexemes
                  change SameOutcome _ (((scan scope _ behind).map _).mapError _) _
                  rw [mapError_map]
                  exact (ih behind.length (by simp only [List.length_cons]; omega) behind
                    hstep.scanner rfl).map fun _ _ ↦ hstep.before
        · have hstep := @Retold.stepChar r scope s t h c place
          have hopen' := fun hopen' ↦ hopen ((h.opensBodyAt_iff c).1 hopen')
          rw [scan_char _ _ hopen, scan_char _ _ hopen', mapError_map]
          exact (ih rest.length (by simp) rest hstep.scanner rfl).map fun _ _ ↦ hstep.before

theorem scanAll_retold (r : Retelling) (scope : Scope) (items : List Item) :
    scanAll (r.scope scope) (items.map r.item) =
      ((scanAll scope items).map (List.map r.lexeme)).mapError r.error :=
  scanAll_retold_of_scan (scan_retold items retold_empty)

end ShellTemplate
