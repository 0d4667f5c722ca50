import ShellTemplate.Lexeme
import ShellTemplate.Proofs.Success

/-!
# Runs of the scanner

A successful scan is a run: one step for each symbol, with a run of its own for
each backtick body. A condition can be asked of every place where a hole is
read. Invariants of the scanner are proved by induction on runs.
-/

namespace ShellTemplate

namespace Step

@[simp] theorem andThen_fst (step : Step) (next : Scanner → Step) :
    (step.andThen next).1 = (next step.1).1 := rfl

@[simp] theorem andThen_snd (step : Step) (next : Scanner → Step) :
    (step.andThen next).2 = step.2 ++ (next step.1).2 := rfl

end Step

namespace Scanner

variable (scope : Scope)

/-- A character read next opens a backtick body. -/
def OpensBodyAt (c : Char) (s : Scanner) : Prop :=
  s.complete? scope c = none ∧ c = '\x60' ∧ (s.settleBefore scope c).1.opensBody = true

instance (c : Char) (s : Scanner) : Decidable (s.OpensBodyAt scope c) :=
  inferInstanceAs (Decidable (_ ∧ _ ∧ _))

/-- A character that opens no backtick body. -/
def stepChar (c : Char) (place : Nat) (s : Scanner) : Step :=
  match s.complete? scope c with
  | some step => step
  | none => (s.settleBefore scope c).andThen (·.readChar scope c place)

/-- The scope of a backtick body that opens here. -/
def bodyScope (s : Scanner) : Scope := scope.body (s.settleBefore scope '\x60').1.frames

/-- A whole backtick substitution with these lexemes in its body. -/
def stepBody (lexemes : List Lexeme) (s : Scanner) : Step :=
  (s.settleBefore scope '\x60').andThen (·.spliceBody scope lexemes)

theorem spliceLexemes_append (lexemes more : List Lexeme) (s : Scanner) :
    spliceLexemes scope (lexemes ++ more) s =
      (spliceLexemes scope lexemes s).andThen (spliceLexemes scope more) := by
  induction lexemes generalizing s with
  | nil => rfl
  | cons lexeme rest ih =>
      obtain ⟨token, quoting, enclosing⟩ := lexeme
      cases token with
      | piece p => exact ih (s.push scope (escapeBackticks p.raw) [])
      | blank => exact ih (s.push scope [' '] [])
      | operator op => exact ih (s.push scope (escapeBackticks op.text) [])
      | hole index =>
          rw [List.cons_append, spliceLexemes, spliceLexemes, Step.andThen, ih]
          simp only [Step.andThen, List.append_assoc]

end Scanner

/-- Add the lexemes of a step in front of those of the steps after it. -/
def Step.before (step after : Step) : Step := (after.1, step.2 ++ after.2)

section Equations

variable (scope : Scope) (s : Scanner)

theorem scan_nil : scan scope s [] = .ok (s, []) := by
  rw [scan]

theorem scan_hole (index place : Nat) (rest : List Item) :
    scan scope s (⟨.hole index, place⟩ :: rest) =
      (scan scope (s.stepHole scope index).1 rest).map (s.stepHole scope index).before := by
  rw [scan]
  cases scan scope (s.stepHole scope index).1 rest <;> rfl

theorem scan_char {c : Char} {place : Nat} {rest : List Item} (h : ¬ s.OpensBodyAt scope c) :
    scan scope s (⟨.char c, place⟩ :: rest) =
      (scan scope (s.stepChar scope c place).1 rest).map (s.stepChar scope c place).before := by
  rw [scan, Scanner.stepChar]
  cases hc : s.complete? scope c with
  | some step =>
      dsimp only
      cases scan scope step.1 rest <;> rfl
  | none =>
      have hbody : ¬ (c = '\x60' ∧ (s.settleBefore scope c).1.opensBody = true) :=
        fun hb ↦ h ⟨hc, hb⟩
      simp only [hbody, if_false, Step.andThen_fst]
      cases scan scope ((s.settleBefore scope c).1.readChar scope c place).1 rest <;> rfl

theorem scan_open {c : Char} {place : Nat} {rest : List Item} (h : s.OpensBodyAt scope c)
    (hcut : cutBody rest = none) :
    scan scope s (⟨.char c, place⟩ :: rest) =
      .error (.unterminated (.substitution (s.bodyScope scope).depth) place) := by
  obtain ⟨hc, rfl, hopen⟩ := h
  rw [scan]
  simp only [hc, hopen, and_self, if_true]
  split
  · rfl
  · rename_i hsome
    simp [hcut] at hsome

theorem scan_body {c : Char} {place : Nat} {rest body behind : List Item}
    (h : s.OpensBodyAt scope c) (hcut : cutBody rest = some (body, behind)) :
    scan scope s (⟨.char c, place⟩ :: rest) =
      scanAll (s.bodyScope scope) body >>= fun lexemes ↦
        (scan scope (s.stepBody scope lexemes).1 behind).map
          (s.stepBody scope lexemes).before := by
  obtain ⟨hc, rfl, hopen⟩ := h
  rw [scan]
  simp only [hc, hopen, and_self, if_true, scanAll]
  split
  · rename_i hnone
    simp [hcut] at hnone
  · rename_i b a hsome
    obtain ⟨rfl, rfl⟩ : b = body ∧ a = behind := by simpa [hcut, eq_comm] using hsome
    change (scan (s.bodyScope scope) {} b).bind _ = ((scan (s.bodyScope scope) {} b).bind _).bind _
    cases scan (s.bodyScope scope) {} b with
    | error e => rfl
    | ok inner =>
        change (inner.1.finish (s.bodyScope scope)).bind _ =
          ((inner.1.finish (s.bodyScope scope)).bind _).bind _
        cases inner.1.finish (s.bodyScope scope) with
        | error e => rfl
        | ok final =>
            change (scan scope (s.stepBody scope (inner.2 ++ final)).1 a).bind _ =
              (scan scope (s.stepBody scope (inner.2 ++ final)).1 a).map _
            cases scan scope (s.stepBody scope (inner.2 ++ final)).1 a <;> rfl

theorem scanAll_eq_ok_iff {scope : Scope} {items : List Item} {lexemes : List Lexeme} :
    scanAll scope items = .ok lexemes ↔
      ∃ out final, scan scope {} items = .ok out ∧ out.1.finish scope = .ok final ∧
        out.2 ++ final = lexemes := by
  simp only [scanAll, bind_eq_ok_iff, pure, Except.pure, Except.ok.injEq]
  constructor
  · rintro ⟨out, hout, final, hfinal, rfl⟩
    exact ⟨out, final, hout, hfinal, rfl⟩
  · rintro ⟨out, final, hout, hfinal, rfl⟩
    exact ⟨out, hout, final, hfinal, rfl⟩

end Equations

/-- What is asked of a hole where it is read: the scope, the scanner before it, its number
and the items behind it. -/
abbrev HoleCondition := Scope → Scanner → Nat → List Item → Prop

/-- The runs of the scanner that succeed and meet each hole as the condition asks. -/
inductive Scans (cond : HoleCondition) : Scope → Scanner → List Item → Step → Prop
  | nil {scope : Scope} {s : Scanner} : Scans cond scope s [] (s, [])
  | hole {scope : Scope} {s : Scanner} {index place : Nat} {rest : List Item} {after : Step}
      (met : cond scope s index rest)
      (tail : Scans cond scope (s.stepHole scope index).1 rest after) :
      Scans cond scope s (⟨.hole index, place⟩ :: rest) ((s.stepHole scope index).before after)
  | char {scope : Scope} {s : Scanner} {c : Char} {place : Nat} {rest : List Item} {after : Step}
      (closed : ¬ s.OpensBodyAt scope c)
      (tail : Scans cond scope (s.stepChar scope c place).1 rest after) :
      Scans cond scope s (⟨.char c, place⟩ :: rest) ((s.stepChar scope c place).before after)
  | body {scope : Scope} {s : Scanner} {c : Char} {place : Nat}
      {rest body behind : List Item} {inner after : Step} {final : List Lexeme}
      (opened : s.OpensBodyAt scope c) (cut : cutBody rest = some (body, behind))
      (within : Scans cond (s.bodyScope scope) {} body inner)
      (ended : inner.1.finish (s.bodyScope scope) = .ok final)
      (tail : Scans cond scope (s.stepBody scope (inner.2 ++ final)).1 behind after) :
      Scans cond scope s (⟨.char c, place⟩ :: rest)
        ((s.stepBody scope (inner.2 ++ final)).before after)

/-- Nothing is asked of a hole. -/
abbrev anyHole : HoleCondition := fun _ _ _ _ ↦ True

theorem Scans.weaken {cond cond' : HoleCondition}
    (hcond : ∀ scope s index rest, cond scope s index rest → cond' scope s index rest)
    {scope : Scope} {s : Scanner} {items : List Item} {out : Step}
    (h : Scans cond scope s items out) : Scans cond' scope s items out := by
  induction h with
  | nil => exact .nil
  | hole met _ ih => exact .hole (hcond _ _ _ _ met) ih
  | char closed _ ih => exact .char closed ih
  | body opened cut _ ended _ ihin ih => exact .body opened cut ihin ended ih

theorem Scans.scan_eq {cond : HoleCondition} {scope : Scope} {s : Scanner} {items : List Item}
    {out : Step} (h : Scans cond scope s items out) : scan scope s items = .ok out := by
  induction h with
  | nil => exact scan_nil _ _
  | hole _ _ ih => rw [scan_hole, ih]; rfl
  | char closed _ ih => rw [scan_char _ _ closed, ih]; rfl
  | body opened cut _ ended _ ihin ih =>
      have hall := scanAll_eq_ok_iff.2 ⟨_, _, ihin, ended, rfl⟩
      rw [scan_body _ _ opened cut, hall]
      exact map_eq_ok_iff.2 ⟨_, ih, rfl⟩

theorem scans_of_scan {scope : Scope} {s : Scanner} {items : List Item} {out : Step}
    (h : scan scope s items = .ok out) : Scans anyHole scope s items out := by
  induction hn : items.length using Nat.strongRecOn generalizing scope s items out with
  | ind n ih =>
    subst hn
    match items with
    | [] =>
        rw [scan_nil] at h
        cases h
        exact .nil
    | ⟨.hole index, place⟩ :: rest =>
        rw [scan_hole] at h
        obtain ⟨after, hafter, rfl⟩ := map_eq_ok_iff.1 h
        exact .hole trivial (ih _ (by simp) hafter rfl)
    | ⟨.char c, place⟩ :: rest =>
        by_cases hopen : s.OpensBodyAt scope c
        · cases hcut : cutBody rest with
          | none => simp [scan_open _ _ hopen hcut] at h
          | some cut =>
              obtain ⟨body, behind⟩ := cut
              have hlen := cutBody_length hcut
              rw [scan_body _ _ hopen hcut] at h
              obtain ⟨lexemes, hall, h⟩ := bind_eq_ok_iff.1 h
              obtain ⟨after, hafter, rfl⟩ := map_eq_ok_iff.1 h
              obtain ⟨inner, final, hinner, hfinal, rfl⟩ := scanAll_eq_ok_iff.1 hall
              have hwithin := ih body.length (by simp only [List.length_cons]; omega) hinner rfl
              have htail := ih behind.length (by simp only [List.length_cons]; omega) hafter rfl
              exact .body hopen hcut hwithin hfinal htail
        · rw [scan_char _ _ hopen] at h
          obtain ⟨after, hafter, rfl⟩ := map_eq_ok_iff.1 h
          exact .char hopen (ih _ (by simp) hafter rfl)

end ShellTemplate
