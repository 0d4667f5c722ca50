import Mathlib.Algebra.Group.Even
import Mathlib.Algebra.Group.Nat.Even
import Mathlib.Data.List.DropRight
import ShellTemplate.Proofs.Lexeme.Sound

/-!
# Pairs of backslashes

Outside single quotes a backslash escapes the character behind it. So between two characters what
is read of a word ends in pairs of backslashes, apart from one that has escaped nothing yet; and a
dollar sign is escaped where an odd number of them stands before it.
-/

namespace ShellTemplate

/-- The number of backslashes that a text ends in. -/
def backslashes (text : List Char) : Nat := (text.rtakeWhile (· = '\\')).length

theorem backslashes_concat (text : List Char) (c : Char) :
    backslashes (text ++ [c]) = if c = '\\' then backslashes text + 1 else 0 := by
  unfold backslashes
  rw [List.rtakeWhile_concat]
  split_ifs <;> simp_all

/-- The text ends in a dollar sign that is not escaped. -/
def EndsInUnescapedDollar (text : List Char) : Prop :=
  text.getLast? = some '$' ∧ Even (backslashes text.dropLast)

instance : DecidablePred EndsInUnescapedDollar := fun _ ↦ instDecidableAnd

theorem endsInUnescapedDollar_concat {text : List Char} (h : Even (backslashes text)) :
    EndsInUnescapedDollar (text ++ ['$']) :=
  ⟨List.getLast?_concat, by rwa [List.dropLast_concat]⟩

namespace Scanner

/-- Outside single quotes the backslashes that the word ends in are pairs. -/
def Paired (s : Scanner) : Prop := s.inSingle = false → Even (backslashes s.core.raw)

variable {scope : Scope} {s s' : Scanner} {c : Char}

theorem paired_of_nil (h : s.core.raw = []) : s.Paired := fun _ ↦ by
  rw [h]
  exact Even.zero

theorem paired_of_concat {text : List Char} (h : s.core.raw = text ++ [c]) (hc : c ≠ '\\') :
    s.Paired := fun _ ↦ by
  rw [h, backslashes_concat, if_neg hc]
  exact Even.zero

theorem Paired.of_same (h : s.Paired) (hframes : s'.frames = s.frames)
    (hraw : s'.core.raw = s.core.raw) : s'.Paired := by
  intro hsingle
  rw [hraw]
  refine h ?_
  rwa [inSingle, ← hframes]

theorem paired_empty : ({} : Scanner).Paired := paired_of_nil rfl

theorem paired_flushed (hmode : s.mode = .plain) (hraw : s.piece.raw = []) : s.Paired :=
  paired_of_nil (by rw [core_of_plain hmode, hraw])

theorem paired_pushed (hmode : s'.mode = .plain) (hraw : s'.piece.raw = s.piece.raw ++ [c])
    (hc : c ≠ '\\') : s'.Paired :=
  paired_of_concat (by rw [core_of_plain hmode, hraw]) hc

/-- A character that stands for itself is no backslash, except in single quotes. -/
theorem Ordinary.ne_backslash (h : s.Ordinary c) (hsingle : s.inSingle = false) : c ≠ '\\' := by
  rintro rfl
  unfold Ordinary at h
  unfold inSingle at hsingle
  split at h
  · exact h.1 (by decide)
  · simp_all
  · exact h.2.1 rfl
  · exact h (by simp)
  · exact h.1 (by simp)

theorem QuoteFrame.ne_backslash {frame : Frame} (h : QuoteFrame c frame) : c ≠ '\\' := by
  rcases h with ⟨rfl, -⟩ | ⟨rfl, -⟩ <;> decide

theorem Paired.inMode (h : s.Paired) (hmode : s.mode = .plain) {mode : Mode}
    (hescape : mode ≠ .escape) : (s.inMode mode).Paired := by
  refine h.of_same rfl ?_
  rw [core_of_ne hescape, core_of_plain hmode]
  rfl

theorem Paired.move (h : s.Paired) (hmode : s.mode = .plain) {place : Nat} {step : Step}
    (hmove : Move scope place c s step) : step.1.Paired := by
  cases hmove with
  | blank => exact paired_flushed ((emitBlank_frames s).2.trans hmode) (raw_emitBlank s)
  | operator _ op =>
      exact paired_flushed ((emitOperator_frames op s).2.trans hmode) (raw_emitOperator s op)
  | comment | dollar => exact h.inMode hmode (by simp)
  | begin _ mode hbegin =>
      rcases hbegin with ⟨-, rfl⟩ | ⟨-, rfl⟩ <;> exact h.inMode hmode (by simp)
  | angle _ mode hangle =>
      have hescape : ∀ fd, mode fd ≠ .escape := fun fd ↦ by
        rcases hangle with ⟨-, rfl⟩ | ⟨-, rfl⟩ <;> simp
      unfold Scanner.readAngle
      cases s.writtenDescriptor? with
      | none => exact h.inMode hmode (hescape none)
      | some fd => exact paired_of_nil (by rw [core_of_ne (hescape _)])
  | keep hordinary =>
      intro hsingle
      exact paired_pushed hmode rfl (hordinary.ne_backslash hsingle) hsingle
  | glob hbare hordinary =>
      exact paired_pushed hmode rfl (hordinary.ne_backslash (by simp [inSingle, hbare]))
  | openQuote _ _ hframe | closeQuote _ _ _ hframe | openInner _ _ _ _ _ hframe =>
      exact paired_pushed hmode rfl hframe.ne_backslash
  | closeExpansion _ _ _ hframe =>
      refine paired_pushed hmode rfl ?_
      rcases hframe with ⟨rfl, -⟩ | ⟨rfl, -⟩ <;> decide
  | nest _ _ _ _ _ hparens =>
      refine paired_pushed hmode rfl ?_
      rcases hparens with ⟨rfl, -⟩ | ⟨rfl, -⟩ <;> decide
  | backslash =>
      refine h.of_same rfl ?_
      rw [core_readBackslash, core_of_plain hmode]

theorem Paired.completion (h : s.Paired) (hs : s.Sound) {step : Step}
    (hstep : Completion scope c s step) : step.1.Paired := by
  have hoperator : ∀ op, ((s.inMode .plain).emitOperator op).1.Paired := fun op ↦
    paired_flushed (emitOperator_frames op _).2 (raw_emitOperator _ op)
  cases hstep with
  | commentOn => exact h
  | commentEnd => exact hoperator _
  | operator _ op => exact hoperator op
  | openParameter =>
      exact paired_of_concat (List.append_assoc s.piece.raw ['$'] ['\x7b']).symm (by decide)
  | openSubstitution =>
      exact paired_of_concat (List.append_assoc s.piece.raw ['$'] ['(']).symm (by decide)
  | escaped hmode =>
      intro _
      obtain ⟨hbackslash, hsingle⟩ := hs.escape hmode
      have hfields := @readEscaped_fields scope s c
      rw [core_of_plain hfields.mode, hfields.raw, hbackslash, backslashes_concat,
        backslashes_concat, if_pos rfl]
      split_ifs
      · simpa [Nat.even_add_one] using h hsingle
      · exact Even.zero

theorem Paired.settlement (h : s.Paired) {step : Step} (hstep : Settlement scope c s step) :
    step.1.Paired := by
  cases hstep with
  | plain => exact h
  | dollar | lone => exact paired_pushed rfl rfl (by decide)
  | operator pending =>
      exact paired_flushed (emitOperator_frames pending _).2 (raw_emitOperator _ _)

theorem Paired.stepChar (h : s.Paired) (hs : s.Sound) (c : Char) (place : Nat) :
    (s.stepChar scope c place).1.Paired := by
  unfold Scanner.stepChar
  cases hcomplete : s.complete? scope c with
  | some step => exact h.completion hs (complete_completion hcomplete)
  | none =>
      have hsettlement := settleBefore_settlement hcomplete
      rw [Step.andThen_fst]
      exact (h.settlement hsettlement).move hsettlement.mode readChar_move

theorem paired_emitHole (hmode : s.mode = .plain) {index : Nat} {quoting : Quoting}
    {enclosing : Enclosing} : (s.emitHole index quoting enclosing).1.Paired :=
  paired_flushed ((emitHole_frames index quoting enclosing s).2.trans hmode) (raw_flush s)

theorem Paired.stepHole (h : s.Paired) (index : Nat) : (s.stepHole scope index).1.Paired := by
  have hmove : HoleMove scope index s (s.stepHole scope index) := stepHole_holeMove
  generalize s.stepHole scope index = step at hmove
  cases hmove with
  | comment => exact h
  | escaped => exact @paired_emitHole { s with mode := .plain, piece := s.core } rfl _ _ _
  | dollar => exact @paired_emitHole ((s.inMode .plain).push scope ['\\', '$'] ['$']) rfl _ _ _
  | plain hmode => exact paired_emitHole hmode
  | operator pending =>
      rw [Step.andThen_fst, readHole]
      exact paired_emitHole (emitOperator_frames pending _).2

theorem paired_stepBody (hs : s.Sound) (hopen : s.OpensBodyAt scope c) (lexemes : List Lexeme) :
    (s.stepBody scope lexemes).1.Paired :=
  @paired_pushed (spliceLexemes scope lexemes _).1 _ '\x60' (stepBody_mode hs hopen lexemes) rfl
    (by decide)

end Scanner

open Scanner

theorem Scans.paired {cond : HoleCondition} {scope : Scope} {s : Scanner} {items : List Item}
    {out : Step} (h : Scans cond scope s items out) (hs : s.Sound) (hpaired : s.Paired) :
    out.1.Paired := by
  induction h with
  | nil => exact hpaired
  | hole _ _ ih => exact ih (hs.stepHole _) (hpaired.stepHole _)
  | char _ _ ih => exact ih (hs.stepChar _ _) (hpaired.stepChar hs _ _)
  | body opened _ _ _ _ _ ih => exact ih (hs.stepBody opened _) (paired_stepBody hs opened _)

end ShellTemplate
