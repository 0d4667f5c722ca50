import Mathlib.Data.List.DropRight
import ShellTemplate.Pipeline.Line
import ShellTemplate.Proofs.Lexeme.Level

/-!
# Writing tokens

The text of a token list grows at its end with every token. Inside backticks the
tokens are written one after another; on the command line a blank makes at most
one space, and a descriptor number is kept apart from what stands before it.
-/

namespace ShellTemplate

/-- The space that ends the word before, unless nothing or a blank stands there. -/
def gapAfter (text : List Char) : List Char :=
  if text.getLast?.all fun c ↦ c = ' ' ∨ c = '\n' then [] else [' ']

theorem gapAfter_eq_nil_iff {text : List Char} :
    gapAfter text = [] ↔ ∀ c ∈ text.getLast?, c = ' ' ∨ c = '\n' := by
  unfold gapAfter
  cases text.getLast? <;> simp [or_iff_not_imp_left]

theorem separate_reverse (text : List Char) :
    separate text.reverse = (text ++ gapAfter text).reverse := by
  rcases List.eq_nil_or_concat text with rfl | ⟨init, c, rfl⟩
  · rfl
  · by_cases h : c = ' ' ∨ c = '\n' <;> simp [separate, gapAfter, h]

/-- The text of the tokens inside `b` backtick substitutions. -/
def written (b : Nat) (tokens : List Token) : List Char :=
  if b = 0 then (tokens.foldl writeToken []).reverse else plainText tokens

/-- What a blank adds to a text. -/
def blankAfter (b : Nat) (text : List Char) : List Char := if b = 0 then gapAfter text else [' ']

/-- What stands between a text and an operator added to it. -/
def operatorGap (b : Nat) (text : List Char) : Operator → List Char
  | .redirect ⟨some _, _⟩ => if b = 0 then gapAfter text else []
  | _ => []

theorem gapAfter_eq (text : List Char) : gapAfter text = [] ∨ gapAfter text = [' '] := by
  unfold gapAfter
  split_ifs <;> simp

/-- A space only stands before a descriptor number, outside backticks. -/
theorem operatorGap_eq (b : Nat) (text : List Char) (op : Operator) : operatorGap b text op = [] ∨
    (operatorGap b text op = [' '] ∧ b = 0 ∧ ∃ fd kind, op = .redirect ⟨some fd, kind⟩) := by
  unfold operatorGap
  split
  · rename_i fd kind
    split_ifs with hb
    · exact (gapAfter_eq text).imp_right fun hgap ↦ ⟨hgap, hb, fd, kind, rfl⟩
    · exact .inl rfl
  · exact .inl rfl

section Written

variable (b : Nat) (tokens : List Token)

@[simp] theorem written_nil : written b [] = [] := by
  simp [written]

@[simp] theorem written_piece (p : Piece) :
    written b (tokens ++ [.piece p]) = written b tokens ++ p.raw := by
  unfold written
  split_ifs <;> simp [writeToken, Token.text]

theorem written_blank :
    written b (tokens ++ [.blank]) = written b tokens ++ blankAfter b (written b tokens) := by
  unfold written blankAfter
  split_ifs
  · rw [List.foldl_append]
    have h := separate_reverse (tokens.foldl writeToken []).reverse
    rw [List.reverse_reverse] at h
    simp [writeToken, h]
  · simp [Token.text]

theorem written_operator (op : Operator) : written b (tokens ++ [.operator op]) =
    written b tokens ++ operatorGap b (written b tokens) op ++ op.text := by
  unfold written
  split_ifs with hb
  · have h := separate_reverse (tokens.foldl writeToken []).reverse
    rw [List.reverse_reverse] at h
    rw [List.foldl_append]
    cases op with
    | redirect r =>
        obtain ⟨fd, kind⟩ := r
        cases fd <;> simp [writeToken, operatorGap, Operator.text, hb, h]
    | _ => simp [writeToken, operatorGap]
  · have hgap : operatorGap b (plainText tokens) op = [] := by
      unfold operatorGap
      split <;> simp [hb]
    simp [Token.text, hgap]

theorem commandLine_eq : commandLine tokens = (written 0 tokens).rdropWhile isBlank := by
  simp [commandLine, written, List.rdropWhile]

end Written

end ShellTemplate
