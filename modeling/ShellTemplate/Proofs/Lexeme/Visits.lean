import ShellTemplate.Proofs.Lexeme.Run

/-!
# Holes as they are met

Every hole of a text is met by a scanner in some state, in the text itself or in a backtick body.
These meetings are listed, so what is asked of all holes of a run can be decided.
-/

namespace ShellTemplate

open Scanner

/-- A hole, the scanner before it and the items behind it. -/
structure Visit where
  scope : Scope
  scanner : Scanner
  index : Nat
  rest : List Item

/-- The holes that are met while a text is read, those in its backtick bodies among them. -/
def visits (scope : Scope) (s : Scanner) : List Item → List Visit
  | [] => []
  | ⟨.hole index, _⟩ :: rest =>
    ⟨scope, s, index, rest⟩ :: visits scope (s.stepHole scope index).1 rest
  | ⟨.char c, place⟩ :: rest =>
    if s.OpensBodyAt scope c then
      match h : cutBody rest with
      | none => []
      | some (body, behind) =>
        have := cutBody_length h
        match scanAll (s.bodyScope scope) body with
        | .error _ => []
        | .ok lexemes =>
          visits (s.bodyScope scope) {} body ++ visits scope (s.stepBody scope lexemes).1 behind
    else visits scope (s.stepChar scope c place).1 rest
termination_by items => items.length
decreasing_by all_goals (simp only [List.length_cons]; omega)

section Equations

variable {scope : Scope} {s : Scanner} {rest body behind : List Item} {lexemes : List Lexeme}
  {index place : Nat} {c : Char}

theorem visits_nil : visits scope s [] = [] := by
  rw [visits]

theorem visits_hole : visits scope s (⟨.hole index, place⟩ :: rest) =
    ⟨scope, s, index, rest⟩ :: visits scope (s.stepHole scope index).1 rest := by
  rw [visits]

theorem visits_char (h : ¬ s.OpensBodyAt scope c) :
    visits scope s (⟨.char c, place⟩ :: rest) =
      visits scope (s.stepChar scope c place).1 rest := by
  rw [visits, if_neg h]

theorem visits_body (h : s.OpensBodyAt scope c) (hcut : cutBody rest = some (body, behind))
    (hscan : scanAll (s.bodyScope scope) body = .ok lexemes) :
    visits scope s (⟨.char c, place⟩ :: rest) =
      visits (s.bodyScope scope) {} body ++ visits scope (s.stepBody scope lexemes).1 behind := by
  rw [visits, if_pos h]
  split
  · rename_i hnone
    cases hnone.symm.trans hcut
  · rename_i hsome
    cases hsome.symm.trans hcut
    rw [hscan]

end Equations

/-- A hole is met as the condition asks. -/
def Visit.Meets (cond : HoleCondition) (visit : Visit) : Prop :=
  cond visit.scope visit.scanner visit.index visit.rest

section Conditions

variable {cond cond' : HoleCondition} {scope : Scope} {s : Scanner} {items : List Item} {out : Step}

theorem Scans.meets (h : Scans cond scope s items out) :
    ∀ visit ∈ visits scope s items, visit.Meets cond := by
  induction h with
  | nil => simp [visits_nil]
  | hole met _ ih =>
      rw [visits_hole, List.forall_mem_cons]
      exact ⟨met, ih⟩
  | char closed _ ih => rwa [visits_char closed]
  | body opened cut within ended _ ihin ih =>
      rw [visits_body opened cut (scanAll_eq_ok_iff.2 ⟨_, _, within.scan_eq, ended, rfl⟩),
        List.forall_mem_append]
      exact ⟨ihin, ih⟩

theorem Scans.of_meets (h : Scans cond scope s items out)
    (hmeets : ∀ visit ∈ visits scope s items, visit.Meets cond') :
    Scans cond' scope s items out := by
  induction h with
  | nil => exact .nil
  | hole _ _ ih =>
      rw [visits_hole, List.forall_mem_cons] at hmeets
      exact .hole hmeets.1 (ih hmeets.2)
  | char closed _ ih =>
      rw [visits_char closed] at hmeets
      exact .char closed (ih hmeets)
  | body opened cut within ended _ ihin ih =>
      rw [visits_body opened cut (scanAll_eq_ok_iff.2 ⟨_, _, within.scan_eq, ended, rfl⟩),
        List.forall_mem_append] at hmeets
      exact .body opened cut (ihin hmeets.1) ended (ih hmeets.2)

/-- The runs that meet each hole as the condition asks are the scans that succeed and do so. -/
theorem scans_iff : Scans cond scope s items out ↔
    scan scope s items = .ok out ∧ ∀ visit ∈ visits scope s items, visit.Meets cond :=
  ⟨fun h ↦ ⟨h.scan_eq, h.meets⟩, fun h ↦ (scans_of_scan h.1).of_meets h.2⟩

/-- What each of two conditions asks is asked by both together. -/
theorem Scans.and (h : Scans cond scope s items out) (h' : Scans cond' scope s items out) :
    Scans (fun scope s index rest ↦ cond scope s index rest ∧ cond' scope s index rest) scope s
      items out :=
  h.of_meets fun visit hvisit ↦ ⟨h.meets visit hvisit, h'.meets visit hvisit⟩

theorem scans_of_exists (h : ∃ out, Scans cond scope s items out)
    (hscan : scan scope s items = .ok out) : Scans cond scope s items out := by
  obtain ⟨out', hrun⟩ := h
  obtain rfl := Except.ok.inj (hrun.scan_eq.symm.trans hscan)
  exact hrun

theorem exists_scans_iff : (∃ out, Scans cond scope s items out) ↔
    (scan scope s items).isOk = true ∧ ∀ visit ∈ visits scope s items, visit.Meets cond := by
  simp only [scans_iff]
  cases scan scope s items <;> simp [Except.isOk, Except.toBool]

instance [∀ scope s index rest, Decidable (cond scope s index rest)] :
    DecidablePred (Visit.Meets cond) := fun visit ↦
  inferInstanceAs (Decidable (cond visit.scope visit.scanner visit.index visit.rest))

instance [∀ scope s index rest, Decidable (cond scope s index rest)] :
    Decidable (∃ out, Scans cond scope s items out) :=
  decidable_of_iff _ exists_scans_iff.symm

end Conditions

end ShellTemplate
