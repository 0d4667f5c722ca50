import ShellTemplate.Lexeme.Scanner

/-!
# Lexemes of a template

Scanning a template into lexemes, each with the quoting context it stands in.
The texts of the holes play no part. An unterminated construct is reported
with the place of its opener, also from within nested backtick bodies.
-/

namespace ShellTemplate

/-- Why shell text is not well formed. -/
inductive LexError where
  /-- The text ends inside the construct of context `quoting` that was opened at `place`. -/
  | unterminated (quoting : Quoting) (place : Nat)
  /-- The text ends in a backslash with nothing to escape. -/
  | trailingEscape
deriving DecidableEq, Repr, Inhabited

def LexError.message : LexError → String
  | .unterminated quoting place =>
    s!"unterminated {quoting.describe} (opened at position {place})"
  | .trailingEscape => "trailing backslash at end of input"

/-- End the text: nothing may be left open. -/
def Scanner.finish (scope : Scope) (s : Scanner) : Except LexError (List Lexeme) :=
  match s.frames with
  | frame :: _ => .error (.unterminated (scope.quoting s.frames) frame.opened)
  | [] =>
    if s.mode = .escape then .error .trailingEscape
    else .ok ((s.settle scope).andThen Scanner.flush).2

/-- Scan items from a state on: the state afterwards and the lexemes completed. -/
def scan (scope : Scope) (s : Scanner) : List Item → Except LexError Step
  | [] => .ok (s, [])
  | ⟨.hole index, _⟩ :: rest => do
    let step := s.stepHole scope index
    let after ← scan scope step.1 rest
    return (after.1, step.2 ++ after.2)
  | ⟨.char c, place⟩ :: rest =>
    match s.complete? scope c with
    | some step => do
      let after ← scan scope step.1 rest
      return (after.1, step.2 ++ after.2)
    | none =>
      let settled := s.settleBefore scope c
      if c = '\x60' ∧ settled.1.opensBody then
        match h : cutBody rest with
        | none =>
          .error (.unterminated (.substitution (scope.body settled.1.frames).depth) place)
        | some (body, behind) => do
          have := cutBody_length h
          let inner ← scan (scope.body settled.1.frames) {} body
          let final ← inner.1.finish (scope.body settled.1.frames)
          let step := settled.1.spliceBody scope (inner.2 ++ final)
          let after ← scan scope step.1 behind
          return (after.1, settled.2 ++ step.2 ++ after.2)
      else do
        let step := settled.1.readChar scope c place
        let after ← scan scope step.1 rest
        return (after.1, settled.2 ++ step.2 ++ after.2)
termination_by items => items.length
decreasing_by all_goals (simp only [List.length_cons]; omega)

/-- The lexemes of a whole text in a scope. -/
def scanAll (scope : Scope) (items : List Item) : Except LexError (List Lexeme) := do
  let step ← scan scope {} items
  let final ← step.1.finish scope
  return step.2 ++ final

/-- The lexemes of a template. -/
def Template.lexemes (t : Template) : Except LexError (List Lexeme) := scanAll {} t.items

/-- The lexemes of a plain text. -/
def lexemesOfText (text : List Char) : Except LexError (List Lexeme) :=
  (Template.ofText text).lexemes

end ShellTemplate
