import ShellTemplate.Proofs.Lexeme.Holes

/-!
# Texts inside backticks

The text of a hole inside backticks is escaped once for each of them. Seen from
within some of them, it is escaped for the others only. Splicing the lexemes of
a body escapes their whole text once.
-/

namespace ShellTemplate

def Token.text : Token → List Char
  | .piece p => p.raw
  | .operator op => op.text
  | .blank => [' ']
  | .hole _ => []

/-- The tokens written one after another. -/
def plainText (tokens : List Token) : List Char := tokens.flatMap Token.text

@[simp] theorem plainText_nil : plainText [] = [] := rfl

@[simp] theorem plainText_cons (token : Token) (tokens : List Token) :
    plainText (token :: tokens) = token.text ++ plainText tokens := rfl

@[simp] theorem plainText_append (tokens more : List Token) :
    plainText (tokens ++ more) = plainText tokens ++ plainText more := List.flatMap_append

@[simp] theorem escapeBackticks_append (text more : List Char) :
    escapeBackticks (text ++ more) = escapeBackticks text ++ escapeBackticks more :=
  List.flatMap_append

theorem escapeLevels_succ (n : Nat) (text : List Char) :
    escapeLevels (n + 1) text = escapeBackticks (escapeLevels n text) := by
  induction n generalizing text with
  | zero => rfl
  | succ n ih => exact ih (escapeBackticks text)

/-- The constructs around a hole, seen from within `b` backtick substitutions. -/
def Enclosing.lower (b : Nat) (enclosing : Enclosing) : Enclosing :=
  { enclosing with backticks := enclosing.backticks - b }

def Lexeme.lower (b : Nat) (lexeme : Lexeme) : Lexeme :=
  { lexeme with enclosing := lexeme.enclosing.lower b }

@[simp] theorem Lexeme.lower_zero (lexeme : Lexeme) : lexeme.lower 0 = lexeme := rfl

theorem Filled.lower {lexemes : List Lexeme} (h : Filled lexemes) (b : Nat) :
    Filled (lexemes.map (Lexeme.lower b)) := by
  intro lexeme hl
  obtain ⟨first, hfirst, rfl⟩ := List.mem_map.1 hl
  exact h first hfirst

/-- Lexemes without holes are filled already, seen from everywhere. -/
theorem Filled.fill_lower {lexemes : List Lexeme} (h : Filled lexemes) (options : FillOptions)
    (values : List Value) (b : Nat) :
    fill options values (lexemes.map (Lexeme.lower b)) = .ok (lexemes.map Lexeme.token) := by
  rw [fill_of_not_hole (h.lower b), List.map_map]
  rfl

theorem Filled.fill_front_lower_iff {first more : List Lexeme} (h : Filled first)
    {options : FillOptions} {values : List Value} {b : Nat} {tokens : List Token} :
    fill options values ((first ++ more).map (Lexeme.lower b)) = .ok tokens ↔
      ∃ rest, fill options values (more.map (Lexeme.lower b)) = .ok rest ∧
        tokens = first.map Lexeme.token ++ rest := by
  rw [List.map_append, (h.lower b).fill_front_iff, List.map_map]
  rfl

theorem Filled.fill_end_lower_iff {first more : List Lexeme} (h : Filled more)
    {options : FillOptions} {values : List Value} {b : Nat} {tokens : List Token} :
    fill options values ((first ++ more).map (Lexeme.lower b)) = .ok tokens ↔
      ∃ front, fill options values (first.map (Lexeme.lower b)) = .ok front ∧
        tokens = front ++ more.map Lexeme.token := by
  rw [List.map_append, (h.lower b).fill_end_iff, List.map_map]
  rfl

theorem unsafeContext?_lower (b : Nat) (quoting : Quoting) (enclosing : Enclosing) :
    Value.unsafeContext? quoting (enclosing.lower b) =
      Value.unsafeContext? quoting enclosing := rfl

/-- The holes stand inside at least `b` backtick substitutions. -/
def Deep (b : Nat) (lexemes : List Lexeme) : Prop :=
  ∀ lexeme ∈ lexemes, lexeme.token.isHole = true → b ≤ lexeme.enclosing.backticks

theorem reports_deep (b : Nat) :
    Reports (fun scope ↦ b ≤ scope.backticks) fun _ enclosing ↦ b ≤ enclosing.backticks where
  body h _ := Nat.le_succ_of_le h
  read h _ := h
  escaped h _ := h

/-- The lexemes of a backtick body in a run stand inside one backtick substitution more. -/
theorem Scans.deep_body {cond : HoleCondition} {scope : Scope} {s : Scanner}
    {body : List Item} {inner : Step} {final : List Lexeme}
    (within : Scans cond (s.bodyScope scope) {} body inner)
    (ended : inner.1.finish (s.bodyScope scope) = .ok final) :
    Deep (scope.backticks + 1) (inner.2 ++ final) :=
  within.onHoles_finish (reports_deep (scope.backticks + 1)) le_rfl ended

section Lower

variable {options : FillOptions} {values : List Value} {b : Nat}

theorem literalPiece_lower {enclosing : Enclosing} (h : b < enclosing.backticks)
    (quoting : Quoting) (text : List Char) :
    (literalPiece quoting (enclosing.lower b) text).raw =
      escapeBackticks (literalPiece quoting (enclosing.lower (b + 1)) text).raw := by
  have hlevels : enclosing.backticks - b = enclosing.backticks - (b + 1) + 1 := by omega
  simp only [literalPiece, Enclosing.lower]
  rw [hlevels, escapeLevels_succ]

theorem plainText_intersperse {f g : List Char → Piece} {texts : List (List Char)}
    (h : ∀ text, (f text).raw = escapeBackticks (g text).raw) :
    plainText (((texts.map f).map Token.piece).intersperse .blank) =
      escapeBackticks (plainText (((texts.map g).map Token.piece).intersperse .blank)) := by
  induction texts with
  | nil => rfl
  | cons text rest ih =>
      cases rest with
      | nil => simp [Token.text, h]
      | cons next rest =>
          have hblank : escapeBackticks [' '] = [' '] := by decide
          simp only [List.map_cons, List.intersperse_cons_cons, plainText_cons,
            escapeBackticks_append] at ih ⊢
          rw [ih]
          simp [Token.text, h, hblank]

/-- A value inside one backtick substitution more is escaped once less. -/
theorem fillHole_lower {quoting : Quoting} {enclosing : Enclosing} {value : Value}
    {tokens : List Token} (hquoting : quoting ≠ .bare) (h : b < enclosing.backticks)
    (hfill : fillHole options quoting (enclosing.lower b) value = .ok tokens) :
    ∃ inner, fillHole options quoting (enclosing.lower (b + 1)) value = .ok inner ∧
      plainText tokens = escapeBackticks (plainText inner) := by
  have hraw := @plainText_intersperse _ _ (value.texts options) (literalPiece_lower h quoting)
  unfold fillHole at hfill ⊢
  cases value with
  | raw text => simp [hquoting] at hfill
  | str _ | scalar _ | joined _ _ | list _ =>
      dsimp only at hfill ⊢
      obtain ⟨pieces, hpieces, rfl⟩ := map_eq_ok_iff.1 (mapError_eq_ok_iff.1 hfill)
      unfold Value.pieces at hpieces ⊢
      rw [unsafeContext?_lower] at hpieces ⊢
      cases hcontext : Value.unsafeContext? quoting enclosing with
      | some context => simp [hcontext] at hpieces
      | none =>
          simp only [hcontext] at hpieces ⊢
          first
            | (split_ifs at hpieces with hquoted
               simp only [hquoted]
               cases hpieces
               exact ⟨_, rfl, hraw⟩)
            | (cases hpieces
               exact ⟨_, rfl, hraw⟩)

/-- Splicing the lexemes of a body escapes their text. -/
theorem plainText_splice {scope : Scope} {lexemes : List Lexeme} (hdeep : Deep (b + 1) lexemes)
    (hunbare : Unbare lexemes) {s : Scanner} {tokens : List Token}
    (hfill : fill options values
      ((Scanner.spliceLexemes scope lexemes s).2.map (Lexeme.lower b)) = .ok tokens) :
    ∃ inner, fill options values (lexemes.map (Lexeme.lower (b + 1))) = .ok inner ∧
      plainText tokens ++ (Scanner.spliceLexemes scope lexemes s).1.piece.raw =
        s.piece.raw ++ escapeBackticks (plainText inner) := by
  induction lexemes generalizing s tokens with
  | nil =>
      obtain rfl : [] = tokens := by simpa [Scanner.spliceLexemes, fill] using hfill
      exact ⟨[], rfl, by simp [Scanner.spliceLexemes, escapeBackticks, escapeBefore]⟩
  | cons lexeme rest ih =>
      obtain ⟨token, quoting, enclosing⟩ := lexeme
      have hdeep' : Deep (b + 1) rest := fun l hl ↦ hdeep l (by simp [hl])
      have hunbare' : Unbare rest := fun l hl ↦ hunbare l (by simp [hl])
      have hpush : ∀ {token : Token}, token.isHole = false →
          fill options values ((Scanner.spliceLexemes scope rest
            (s.push scope (escapeBackticks token.text) [])).2.map (Lexeme.lower b)) = .ok tokens →
          ∃ inner, fill options values
              ((⟨token, quoting, enclosing⟩ :: rest).map (Lexeme.lower (b + 1))) = .ok inner ∧
            plainText tokens ++ (Scanner.spliceLexemes scope rest
                (s.push scope (escapeBackticks token.text) [])).1.piece.raw =
              s.piece.raw ++ escapeBackticks (plainText inner) := by
        intro token htoken hfill
        obtain ⟨inner, hinner, htext⟩ := ih hdeep' hunbare' hfill
        refine ⟨token :: inner, ?_, ?_⟩
        · rw [List.map_cons, fill_cons_of_not_hole htoken, hinner]
          rfl
        · simpa [Scanner.push] using htext
      cases token with
      | piece p => exact hpush rfl hfill
      | operator op => exact hpush rfl hfill
      | blank => exact @hpush .blank rfl hfill
      | hole index =>
          simp only [Scanner.spliceLexemes, Scanner.emitHole, Step.andThen_snd, Step.andThen_fst,
            List.map_append] at hfill ⊢
          obtain ⟨first, more, hfirst, hmore, rfl⟩ := fill_append_eq_ok_iff.1 hfill
          rw [← List.map_append] at hfirst
          obtain ⟨own, hown, rfl⟩ := Filled.flush.fill_front_lower_iff.1 hfirst
          obtain ⟨value, hole, none, hvalue, hhole, hnone, rfl⟩ := fill_hole_eq_ok_iff.1 hown
          obtain rfl : [] = none := by simpa [fill] using hnone
          have hbare := hunbare _ List.mem_cons_self rfl
          have hlevel := hdeep _ List.mem_cons_self rfl
          obtain ⟨inner, hinner, htext⟩ := fillHole_lower hbare hlevel hhole
          obtain ⟨rest', hrest, hraw⟩ := ih hdeep' hunbare' hmore
          refine ⟨inner ++ rest', fill_hole_eq_ok_iff.2 ⟨value, inner, rest', hvalue, hinner, hrest,
            rfl⟩, ?_⟩
          have hflush : plainText (s.flush.2.map Lexeme.token) = s.piece.raw ∧
              s.flush.1.piece.raw = [] := by
            unfold Scanner.flush
            split_ifs with hempty <;> simp [Token.text, hempty]
          have hpiece : ({ s.flush.1 with previous := .word } : Scanner).piece.raw = [] := hflush.2
          rw [hpiece, List.nil_append] at hraw
          simp only [plainText_append, List.append_nil, List.append_assoc,
            escapeBackticks_append, hflush.1, htext, hraw]

end Lower

end ShellTemplate
