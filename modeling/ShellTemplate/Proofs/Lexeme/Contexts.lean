import ShellTemplate.Proofs.Lexeme.Holes

/-!
# Contexts of what is no hole

What the scanner completes besides holes is reported with the context in which it began and with
nothing around it. That context is one of the scope, and never the one behind a backslash, where
only a hole may stand.
-/

namespace ShellTemplate

/-- A condition that the contexts of the scope meet, in whichever of them a piece begins. -/
structure Scope.Meets (scope : Scope) (P : Quoting → Prop) : Prop where
  bare : P .bare
  quoting : ∀ frames, P (scope.quoting frames)

namespace Scanner

variable {scope : Scope} {P : Quoting → Prop} {s : Scanner} {c : Char}

/-- The context of the current piece and of all that is completed besides holes. -/
structure Begun (P : Quoting → Prop) (step : Step) : Prop where
  start : P step.1.start
  lexemes : ∀ lexeme ∈ step.2, lexeme.token.isHole = false →
    P lexeme.quoting ∧ lexeme.enclosing = {}

theorem start_push (hP : scope.Meets P) (h : P s.start) {t : Scanner} (raw text : List Char)
    (ht : t.start = (s.push scope raw text).start) : P t.start := by
  rw [ht]
  change P (if s.piece.raw = [] then scope.quoting s.frames else s.start)
  split_ifs
  · exact hP.quoting s.frames
  · exact h

namespace Begun

theorem silent {t : Scanner} (h : P t.start) : Begun P (t, []) := ⟨h, by simp⟩

theorem pushed (hP : scope.Meets P) (h : P s.start) {t : Scanner} (raw text : List Char)
    (ht : t.start = (s.push scope raw text).start) : Begun P (t, []) :=
  silent (start_push hP h raw text ht)

theorem before {step after : Step} (h : Begun P step) (hafter : P step.1.start → Begun P after) :
    Begun P (step.before after) where
  start := (hafter h.start).start
  lexemes := fun lexeme hlexeme ↦
    (List.mem_append.1 hlexeme).elim (h.lexemes lexeme) ((hafter h.start).lexemes lexeme)

theorem flush (h : P s.start) : Begun P s.flush := by
  unfold Scanner.flush
  split_ifs
  · exact silent h
  · exact ⟨h, by simpa using h⟩

theorem emitOperator (hP : scope.Meets P) (h : P s.start) (op : Operator) :
    Begun P (s.emitOperator op) :=
  (flush h).before fun hstart ↦ ⟨hstart, by simpa using hP.bare⟩

theorem emitBlank (hP : scope.Meets P) (h : P s.start) : Begun P s.emitBlank := by
  refine (flush h).before fun hstart ↦ ?_
  dsimp only
  split_ifs
  · exact silent hstart
  · exact ⟨hstart, by simpa using hP.bare⟩

theorem emitHole (h : P s.start) (index : Nat) (quoting : Quoting) (enclosing : Enclosing) :
    Begun P (s.emitHole index quoting enclosing) :=
  (flush h).before fun hstart ↦ ⟨hstart, by simp⟩

theorem move (hP : scope.Meets P) {place : Nat} {step : Step} (h : P s.start)
    (hmove : Move scope place c s step) : Begun P step := by
  cases hmove with
  | blank => exact emitBlank hP h
  | operator => exact emitOperator hP h _
  | comment | begin | dollar => exact silent h
  | angle _ mode =>
      refine silent ?_
      unfold readAngle
      split <;> exact h
  | keep | glob | openQuote | openInner | backslash => exact pushed hP h [c] [] rfl
  | closeQuote | closeExpansion => exact pushed (s := s.leave) hP h [c] [] rfl
  | nest opened parens parens' =>
      exact pushed (s := s.leave.enter (.substitution opened parens')) hP h [c] [] rfl

theorem completion (hP : scope.Meets P) {step : Step} (h : P s.start)
    (hstep : Completion scope c s step) : Begun P step := by
  cases hstep with
  | commentOn => exact silent h
  | commentEnd => exact emitOperator (s := s.inMode .plain) hP h _
  | operator pending op => exact emitOperator (s := s.inMode .plain) hP h op
  | escaped =>
      have hpushed := pushed (t := s.readEscaped scope c) hP h [c] []
      refine hpushed ?_
      unfold readEscaped
      dsimp only
      split_ifs <;> rfl
  | openParameter | openSubstitution => exact pushed hP h [] [] rfl

theorem settlement (hP : scope.Meets P) {step : Step} (h : P s.start)
    (hstep : Settlement scope c s step) : Begun P step := by
  cases hstep with
  | plain => exact silent h
  | dollar | lone => exact pushed hP h [] [] rfl
  | operator pending => exact emitOperator (s := s.inMode .plain) hP h pending

theorem stepChar (hP : scope.Meets P) (h : P s.start) (c : Char) (place : Nat) :
    Begun P (s.stepChar scope c place) := by
  unfold Scanner.stepChar
  cases hcomplete : s.complete? scope c with
  | some step => exact completion hP h (complete_completion hcomplete)
  | none =>
      exact (settlement hP h (settleBefore_settlement hcomplete)).before fun hstart ↦
        move hP hstart readChar_move

theorem stepHole (hP : scope.Meets P) (h : P s.start) (index : Nat) :
    Begun P (s.stepHole scope index) := by
  have hmove : HoleMove scope index s (s.stepHole scope index) := stepHole_holeMove
  generalize s.stepHole scope index = step at hmove
  cases hmove with
  | comment => exact silent h
  | escaped => exact emitHole (s := { s with mode := .plain, piece := s.core }) h _ _ _
  | plain => exact emitHole h _ _ _
  | dollar =>
      refine emitHole (s := (s.inMode .plain).push scope ['\\', '$'] ['$']) ?_ _ _ _
      exact start_push hP h [] [] rfl
  | operator pending =>
      exact (emitOperator (s := s.inMode .plain) hP h pending).before fun hstart ↦
        emitHole hstart _ _ _

theorem spliceLexemes (hP : scope.Meets P) (h : P s.start) (lexemes : List Lexeme) :
    Begun P (Scanner.spliceLexemes scope lexemes s) := by
  induction lexemes generalizing s with
  | nil => exact silent h
  | cons lexeme rest ih =>
      obtain ⟨token, quoting, enclosing⟩ := lexeme
      cases token with
      | piece | blank | operator => exact ih (start_push hP h [] [] rfl)
      | hole index => exact (emitHole h index quoting enclosing).before ih

theorem stepBody (hP : scope.Meets P) (h : P s.start) (hopen : s.OpensBodyAt scope c)
    (lexemes : List Lexeme) : Begun P (s.stepBody scope lexemes) := by
  obtain ⟨hnone, rfl, -⟩ := hopen
  refine (settlement hP h (settleBefore_settlement hnone)).before fun hstart ↦ ?_
  refine (spliceLexemes hP ?_ lexemes).before fun hend ↦ pushed hP hend [] [] rfl
  exact start_push hP hstart [] [] rfl

theorem settle (hP : scope.Meets P) (h : P s.start) : Begun P (s.settle scope) := by
  unfold Scanner.settle
  split
  · exact silent h
  · exact silent h
  · exact silent h
  · exact pushed hP h [] [] rfl
  all_goals exact emitOperator (s := s.inMode .plain) hP h _

theorem finish (hP : scope.Meets P) (h : P s.start) {final : List Lexeme}
    (hfinish : s.finish scope = .ok final) : Begun P (s, final) := by
  unfold Scanner.finish at hfinish
  split at hfinish
  · cases hfinish
  · split_ifs at hfinish
    cases hfinish
    exact ⟨h, ((settle hP h).before flush).lexemes⟩

end Begun

end Scanner

theorem Scans.begun {P : Quoting → Prop} {cond : HoleCondition} {scope : Scope} {s : Scanner}
    {items : List Item} {out : Step} (hP : scope.Meets P) (h : Scans cond scope s items out)
    (hs : P s.start) : Scanner.Begun P out := by
  induction h with
  | nil => exact .silent hs
  | hole _ _ ih => exact (Scanner.Begun.stepHole hP hs _).before (ih hP)
  | char _ _ ih => exact (Scanner.Begun.stepChar hP hs _ _).before (ih hP)
  | body opened _ _ _ _ _ ih => exact (Scanner.Begun.stepBody hP hs opened _).before (ih hP)

theorem Scans.begun_finish {P : Quoting → Prop} {cond : HoleCondition} {scope : Scope}
    {s : Scanner} {items : List Item} {out : Step} (hP : scope.Meets P)
    (h : Scans cond scope s items out) (hs : P s.start) {final : List Lexeme}
    (ended : out.1.finish scope = .ok final) : Scanner.Begun P (out.1, out.2 ++ final) :=
  (h.begun hP hs).before fun hstart ↦ .finish hP hstart ended

namespace Scanner

/-- Nothing but holes is completed with the context behind a backslash. -/
structure Unescaped (step : Step) : Prop where
  start : step.1.start ≠ .escaped
  lexemes : ∀ lexeme ∈ step.2, lexeme.token.isHole = false → lexeme.quoting ≠ .escaped

theorem meets_ne_escaped (scope : Scope) : scope.Meets (· ≠ .escaped) where
  bare := by decide
  quoting frames := by
    unfold Scope.quoting
    split
    · split_ifs <;> simp
    all_goals simp

theorem Unescaped.finish {scope : Scope} {s : Scanner} (h : s.start ≠ .escaped)
    {final : List Lexeme} (hfinish : s.finish scope = .ok final) :
    ∀ lexeme ∈ final, lexeme.token.isHole = false → lexeme.quoting ≠ .escaped :=
  fun lexeme hlexeme hother ↦
    ((Begun.finish (meets_ne_escaped scope) h hfinish).lexemes lexeme hlexeme hother).1

end Scanner

theorem Scans.unescaped {cond : HoleCondition} {scope : Scope} {s : Scanner} {items : List Item}
    {out : Step} (h : Scans cond scope s items out) (hs : s.start ≠ .escaped) :
    Scanner.Unescaped out :=
  have hbegun := h.begun (Scanner.meets_ne_escaped scope) hs
  ⟨hbegun.start, fun lexeme hlexeme hother ↦ (hbegun.lexemes lexeme hlexeme hother).1⟩

end ShellTemplate
