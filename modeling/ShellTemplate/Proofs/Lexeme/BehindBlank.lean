import Mathlib.Data.Option.Basic
import ShellTemplate.Proofs.Lexeme.Move
import ShellTemplate.Proofs.Lexeme.Run

/-!
# Reading behind a blank

A blank that is read directly behind another one is not reported. Otherwise a scanner does the same
behind a blank as at the start of a text.
-/

namespace ShellTemplate

namespace Scanner

/-- The scanner as if a blank stood before what it has read. -/
def behindBlank (s : Scanner) : Scanner := { s with previous := .blank }

/-- The second step is the first one taken behind a blank: a blank at its start is not reported. -/
inductive Trims : Step → Step → Prop
  | unmoved {s : Scanner} (h : s.previous = .boundary) : Trims (s, []) (s.behindBlank, [])
  | same (step : Step) : Trims step step
  | trimmed (s : Scanner) (lexemes : List Lexeme) :
      Trims (s, ⟨.blank, .bare, {}⟩ :: lexemes) (s, lexemes)

variable {scope : Scope} {s : Scanner}

theorem Trims.andThen {step step' : Step} {next : Scanner → Step} (h : Trims step step')
    (hnext : ∀ s, s.previous = .boundary → Trims (next s) (next s.behindBlank)) :
    Trims (step.andThen next) (step'.andThen next) := by
  cases h with
  | unmoved h => exact hnext _ h
  | same => exact .same _
  | trimmed s lexemes => exact .trimmed _ _

theorem Trims.ite {p : Prop} [Decidable p] {step step' other other' : Step}
    (h : Trims step step') (h' : Trims other other') :
    Trims (if p then step else other) (if p then step' else other') := by
  split_ifs <;> assumption

theorem trims_emitOperator (op : Operator) :
    Trims (s.emitOperator op) (s.behindBlank.emitOperator op) := by
  have hsame : s.behindBlank.emitOperator op = s.emitOperator op := by
    unfold emitOperator flush behindBlank
    split_ifs <;> rfl
  rw [hsame]
  exact .same _

theorem trims_emitHole (index : Nat) (quoting : Quoting) (enclosing : Enclosing) :
    Trims (s.emitHole index quoting enclosing)
      (s.behindBlank.emitHole index quoting enclosing) := by
  have hsame : s.behindBlank.emitHole index quoting enclosing =
      s.emitHole index quoting enclosing := by
    unfold emitHole flush behindBlank
    split_ifs <;> rfl
  rw [hsame]
  exact .same _

theorem trims_emitBlank (h : s.previous = .boundary) :
    Trims s.emitBlank s.behindBlank.emitBlank := by
  unfold emitBlank flush behindBlank
  split_ifs with hraw
  · simp only [Step.andThen, h]
    exact .trimmed _ _
  · exact .same _

theorem trims_readAngle (h : s.previous = .boundary) (mode : Option Nat → Mode) :
    Trims (s.readAngle mode, []) (s.behindBlank.readAngle mode, []) := by
  have hwritten : s.behindBlank.writtenDescriptor? = s.writtenDescriptor? := by
    simp [writtenDescriptor?, behindBlank, h]
  unfold readAngle
  rw [hwritten]
  cases s.writtenDescriptor? <;> exact .unmoved h

theorem trims_readBare (h : s.previous = .boundary) (c : Char) (place : Nat) :
    Trims (s.readBare scope c place) (s.behindBlank.readBare scope c place) := by
  have hstart : s.behindBlank.atWordStart = s.atWordStart := by
    simp only [atWordStart, behindBlank, h]
    rfl
  unfold readBare
  rw [hstart]
  repeat' refine .ite ?_ ?_
  all_goals first
    | exact trims_emitBlank h
    | exact trims_emitOperator _
    | exact trims_readAngle h _
    | exact .unmoved h

theorem trims_readChar (h : s.previous = .boundary) (c : Char) (place : Nat) :
    Trims (s.readChar scope c place) (s.behindBlank.readChar scope c place) := by
  have hframes : s.behindBlank.frames = s.frames := rfl
  unfold readChar
  rw [hframes]
  cases s.frames with
  | nil => exact trims_readBare h c place
  | cons frame rest =>
      cases frame with
      | single | double =>
          dsimp only
          repeat' refine .ite ?_ ?_
          all_goals exact .unmoved h
      | substitution opened parens =>
          dsimp only
          unfold readSubstitution
          split_ifs
          · cases parens <;> exact .unmoved h
          all_goals exact .unmoved h
      | parameter =>
          dsimp only
          unfold readParameter
          rw [hframes]
          split_ifs <;> exact .unmoved h

theorem trims_settle (h : s.previous = .boundary) :
    Trims (s.settle scope) (s.behindBlank.settle scope) := by
  have hmode : s.behindBlank.mode = s.mode := rfl
  unfold settle
  rw [hmode]
  cases s.mode with
  | plain | comment | escape | dollar => exact .unmoved h
  | pipe | ampersand | greater | less => exact @trims_emitOperator (s.inMode .plain) _

theorem trims_settleBefore (h : s.previous = .boundary) (c : Char) :
    Trims (s.settleBefore scope c) (s.behindBlank.settleBefore scope c) := by
  have hmode : s.behindBlank.mode = s.mode := rfl
  unfold settleBefore
  rw [hmode]
  cases s.mode with
  | dollar =>
      dsimp only
      split_ifs <;> exact .unmoved h
  | plain | comment | escape | pipe | ampersand | greater | less => exact trims_settle h

theorem trims_complete? (h : s.previous = .boundary) (c : Char) :
    Option.Rel Trims (s.complete? scope c) (s.behindBlank.complete? scope c) := by
  have hmode : s.behindBlank.mode = s.mode := rfl
  have hescaped : s.behindBlank.readEscaped scope c = (s.readEscaped scope c).behindBlank := by
    have hframes : (s.behindBlank.inMode .plain).frames = (s.inMode .plain).frames := rfl
    unfold readEscaped
    dsimp only
    rw [hframes]
    split_ifs <;> rfl
  unfold complete?
  rw [hmode]
  cases s.mode with
  | plain => exact .none
  | escape =>
      rw [hescaped]
      exact .some (.unmoved ((readEscaped_fields s c).previous.trans h))
  | comment =>
      dsimp only
      split_ifs
      · exact .some (@trims_emitOperator (s.inMode .plain) _)
      · exact .some (.unmoved h)
  | dollar =>
      dsimp only
      split_ifs
      · exact .some (.unmoved h)
      · exact .some (.unmoved h)
      · exact .none
  | pipe | ampersand | greater | less =>
      dsimp only
      split_ifs <;> first | exact .some (@trims_emitOperator (s.inMode .plain) _) | exact .none

theorem complete?_behindBlank_eq_none_iff (h : s.previous = .boundary) (c : Char) :
    s.behindBlank.complete? scope c = none ↔ s.complete? scope c = none := by
  have hcomplete := @trims_complete? scope s h c
  generalize s.complete? scope c = step at hcomplete ⊢
  generalize s.behindBlank.complete? scope c = step' at hcomplete ⊢
  cases hcomplete <;> simp

theorem Trims.frames {step step' : Step} (h : Trims step step') :
    step'.1.frames = step.1.frames := by
  cases h <;> rfl

theorem Trims.mode {step step' : Step} (h : Trims step step') : step'.1.mode = step.1.mode := by
  cases h <;> rfl

theorem opensBodyAt_behindBlank_iff (h : s.previous = .boundary) (c : Char) :
    s.behindBlank.OpensBodyAt scope c ↔ s.OpensBodyAt scope c := by
  have hopens : (s.behindBlank.settleBefore scope c).1.opensBody =
      (s.settleBefore scope c).1.opensBody := by
    unfold opensBody
    rw [(trims_settleBefore h c).frames]
  unfold OpensBodyAt
  rw [complete?_behindBlank_eq_none_iff h, hopens]

theorem trims_stepChar (h : s.previous = .boundary) (c : Char) (place : Nat) :
    Trims (s.stepChar scope c place) (s.behindBlank.stepChar scope c place) := by
  have hcomplete := @trims_complete? scope s h c
  unfold stepChar
  cases hnone : s.complete? scope c with
  | some step =>
      rw [hnone] at hcomplete
      generalize s.behindBlank.complete? scope c = step' at hcomplete
      cases hcomplete with
      | some hstep => exact hstep
  | none =>
      rw [(complete?_behindBlank_eq_none_iff h c).2 hnone]
      exact (trims_settleBefore h c).andThen fun _ h ↦ trims_readChar h c place

theorem trims_stepHole (h : s.previous = .boundary) (index : Nat) :
    Trims (s.stepHole scope index) (s.behindBlank.stepHole scope index) := by
  have hmode : s.behindBlank.mode = s.mode := rfl
  have hread : ∀ t : Scanner, Trims (t.readHole scope index) (t.behindBlank.readHole scope index) :=
    fun t ↦ trims_emitHole index (scope.quoting t.frames) (scope.enclosing t.frames)
  unfold stepHole
  rw [hmode]
  cases s.mode with
  | comment => exact .unmoved h
  | escape => exact @trims_emitHole { s with mode := .plain, piece := _ } index _ _
  | dollar => exact hread ((s.inMode .plain).push scope ['\\', '$'] ['$'])
  | plain | pipe | ampersand | greater | less => exact (trims_settle h).andThen fun t _ ↦ hread t

theorem trims_spliceLexemes (h : s.previous = .boundary) (lexemes : List Lexeme) :
    Trims (spliceLexemes scope lexemes s) (spliceLexemes scope lexemes s.behindBlank) := by
  induction lexemes generalizing s with
  | nil => exact .unmoved h
  | cons lexeme rest ih =>
      obtain ⟨token, quoting, enclosing⟩ := lexeme
      cases token with
      | piece p => exact @ih (s.push scope (escapeBackticks p.raw) []) h
      | blank => exact @ih (s.push scope [' '] []) h
      | operator op => exact @ih (s.push scope (escapeBackticks op.text) []) h
      | hole index => exact (trims_emitHole index quoting enclosing).andThen fun _ h ↦ ih h

theorem trims_stepBody (h : s.previous = .boundary) (lexemes : List Lexeme) :
    Trims (s.stepBody scope lexemes) (s.behindBlank.stepBody scope lexemes) :=
  (trims_settleBefore h '\x60').andThen fun s h ↦
    Trims.andThen (@trims_spliceLexemes scope (s.pushSyntax scope '\x60').markExpands h lexemes)
      fun _ h ↦ .unmoved h

end Scanner

open Scanner

section Run

variable {scope : Scope} {s : Scanner}

theorem SameOutcome.trims_refl (x : Except LexError Step) : SameOutcome Trims x x := by
  cases x with
  | ok step => exact .ok (.same step)
  | error e => exact .error e

/-- Behind the first lexeme nothing differs any more. -/
theorem SameOutcome.trims_before {step step' : Step} {items : List Item} (h : Trims step step')
    (ih : ∀ s, s.previous = .boundary →
      SameOutcome Trims (scan scope s items) (scan scope s.behindBlank items)) :
    SameOutcome Trims ((scan scope step.1 items).map step.before)
      ((scan scope step'.1 items).map step'.before) := by
  cases h with
  | unmoved h =>
      exact (ih _ h).map fun _ _ hafter ↦ hafter
  | same => exact .trims_refl _
  | trimmed s lexemes =>
      cases scan scope s items with
      | ok after => exact .ok (.trimmed after.1 (lexemes ++ after.2))
      | error e => exact .error e

/-- Behind a blank a text is read as it is on its own, but for a blank at its start. -/
theorem scan_behindBlank (h : s.previous = .boundary) (items : List Item) :
    SameOutcome Trims (scan scope s items) (scan scope s.behindBlank items) := by
  induction hn : items.length using Nat.strongRecOn generalizing scope s items with
  | ind n ih =>
    subst hn
    match items with
    | [] =>
        rw [scan_nil, scan_nil]
        exact .ok (.unmoved h)
    | ⟨.hole index, place⟩ :: rest =>
        rw [scan_hole, scan_hole]
        exact .trims_before (trims_stepHole h index) fun _ h ↦ ih rest.length (by simp) h rest rfl
    | ⟨.char c, place⟩ :: rest =>
        have hiff := @opensBodyAt_behindBlank_iff scope s h c
        by_cases hopen : s.OpensBodyAt scope c
        · have hscope : s.behindBlank.bodyScope scope = s.bodyScope scope := by
            unfold bodyScope
            rw [(trims_settleBefore h '\x60').frames]
          cases hcut : cutBody rest with
          | none =>
              rw [scan_open _ _ hopen hcut, scan_open _ _ (hiff.2 hopen) hcut, hscope]
              exact .error _
          | some cut =>
              obtain ⟨body, behind⟩ := cut
              have hlen := cutBody_length hcut
              rw [scan_body _ _ hopen hcut, scan_body _ _ (hiff.2 hopen) hcut, hscope]
              cases scanAll (s.bodyScope scope) body with
              | error e => exact .error _
              | ok lexemes =>
                  exact .trims_before (trims_stepBody h lexemes) fun _ h ↦
                    ih behind.length (by simp only [List.length_cons]; omega) h behind rfl
        · rw [scan_char _ _ hopen, scan_char _ _ fun hopen' ↦ hopen (hiff.1 hopen')]
          exact .trims_before (trims_stepChar h c place) fun _ h ↦
            ih rest.length (by simp) h rest rfl

end Run

end ShellTemplate
