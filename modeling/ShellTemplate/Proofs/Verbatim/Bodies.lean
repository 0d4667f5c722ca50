import ShellTemplate.Proofs.Verbatim.Tokens

/-!
# Backtick bodies of a text

A body is written into its word token by token, and its blanks and comments are not kept as they
were. So an operator in it can come to stand before one that makes it longer, which the operators of
a pipeline never do. Here the bodies of a text are listed, also those within other bodies.
-/

namespace ShellTemplate

open Scanner

/-- The lexemes of the backtick bodies of a text; those within a body come before its own. -/
def bodies (scope : Scope) (s : Scanner) : List Item → List (List Lexeme)
  | [] => []
  | ⟨.hole index, _⟩ :: rest => bodies scope (s.stepHole scope index).1 rest
  | ⟨.char c, place⟩ :: rest =>
    if s.OpensBodyAt scope c then
      match h : cutBody rest with
      | none => []
      | some (body, behind) =>
        have := cutBody_length h
        match scanAll (s.bodyScope scope) body with
        | .error _ => []
        | .ok lexemes =>
          bodies (s.bodyScope scope) {} body ++
            lexemes :: bodies scope (s.stepBody scope lexemes).1 behind
    else bodies scope (s.stepChar scope c place).1 rest
termination_by items => items.length
decreasing_by all_goals (simp only [List.length_cons]; omega)

section Equations

variable {scope : Scope} {s : Scanner} {rest body behind : List Item} {lexemes : List Lexeme}
  {index place : Nat} {c : Char}

theorem bodies_nil : bodies scope s [] = [] := by
  rw [bodies]

theorem bodies_hole :
    bodies scope s (⟨.hole index, place⟩ :: rest) =
      bodies scope (s.stepHole scope index).1 rest := by
  rw [bodies]

theorem bodies_char (h : ¬ s.OpensBodyAt scope c) :
    bodies scope s (⟨.char c, place⟩ :: rest) =
      bodies scope (s.stepChar scope c place).1 rest := by
  rw [bodies, if_neg h]

theorem bodies_body (h : s.OpensBodyAt scope c) (hcut : cutBody rest = some (body, behind))
    (hscan : scanAll (s.bodyScope scope) body = .ok lexemes) :
    bodies scope s (⟨.char c, place⟩ :: rest) = bodies (s.bodyScope scope) {} body ++
      lexemes :: bodies scope (s.stepBody scope lexemes).1 behind := by
  rw [bodies, if_pos h]
  split
  · rename_i hnone
    cases hnone.symm.trans hcut
  · rename_i hsome
    cases hsome.symm.trans hcut
    rw [hscan]

end Equations

/-- What is read first has its own bodies. -/
theorem bodies_append {scope : Scope} {s : Scanner} {front : List Item} {first : Step}
    (h : scan scope s front = .ok first) (behind : List Item) :
    bodies scope s (front ++ behind) = bodies scope s front ++ bodies scope first.1 behind := by
  induction scans_of_scan h with
  | nil => rw [bodies_nil]; rfl
  | hole _ tail ih =>
      rw [List.cons_append, bodies_hole, bodies_hole]
      exact ih tail.scan_eq
  | char closed tail ih =>
      rw [List.cons_append, bodies_char closed, bodies_char closed]
      exact ih tail.scan_eq
  | body opened cut within ended tail _ ih =>
      have hscan := scanAll_eq_ok_iff.2 ⟨_, _, within.scan_eq, ended, rfl⟩
      rw [List.cons_append, bodies_body opened (cutBody_append cut behind) hscan,
        bodies_body opened cut hscan, List.append_assoc, List.cons_append]
      exact congrArg (fun later ↦ bodies _ _ _ ++ _ :: later) (ih tail.scan_eq)

/-- In none of the backtick bodies does an operator stand directly before one that makes it
longer. -/
def BodiesApart (scope : Scope) (s : Scanner) (items : List Item) : Prop :=
  ∀ lexemes ∈ bodies scope s items, (lexemes.map Lexeme.token).IsChain Token.OperatorsApart

instance (scope : Scope) (s : Scanner) (items : List Item) :
    Decidable (BodiesApart scope s items) :=
  inferInstanceAs (Decidable (∀ lexemes ∈ _, _))

namespace BodiesApart

variable {scope : Scope} {s : Scanner} {rest inner behind front : List Item} {lexemes : List Lexeme}
  {index place : Nat} {c : Char}

theorem hole (h : BodiesApart scope s (⟨.hole index, place⟩ :: rest)) :
    BodiesApart scope (s.stepHole scope index).1 rest := by
  rwa [BodiesApart, bodies_hole] at h

theorem char (hclosed : ¬ s.OpensBodyAt scope c)
    (h : BodiesApart scope s (⟨.char c, place⟩ :: rest)) :
    BodiesApart scope (s.stepChar scope c place).1 rest := by
  rwa [BodiesApart, bodies_char hclosed] at h

theorem body (hopen : s.OpensBodyAt scope c) (hcut : cutBody rest = some (inner, behind))
    (hscan : scanAll (s.bodyScope scope) inner = .ok lexemes)
    (h : BodiesApart scope s (⟨.char c, place⟩ :: rest)) :
    BodiesApart (s.bodyScope scope) {} inner ∧
      (lexemes.map Lexeme.token).IsChain Token.OperatorsApart ∧
        BodiesApart scope (s.stepBody scope lexemes).1 behind := by
  rw [BodiesApart, bodies_body hopen hcut hscan, List.forall_mem_append,
    List.forall_mem_cons] at h
  exact h

theorem append {first : Step} (hfront : scan scope s front = .ok first)
    (h : BodiesApart scope s (front ++ behind)) :
    BodiesApart scope s front ∧ BodiesApart scope first.1 behind := by
  rwa [BodiesApart, bodies_append hfront, List.forall_mem_append] at h

end BodiesApart

/-- In none of the backtick bodies of the template does an operator stand directly before one that
makes it longer. -/
def Template.BodiesApart (t : Template) : Prop :=
  ShellTemplate.BodiesApart {} {} (unplaced t.symbols)

instance : DecidablePred Template.BodiesApart := fun t ↦
  inferInstanceAs (Decidable (ShellTemplate.BodiesApart {} {} (unplaced t.symbols)))

end ShellTemplate
