import ShellTemplate.Proofs.Lexeme.Sound
import ShellTemplate.Proofs.Words

/-!
# The history of a run

What a scanner has completed so far, merged into words. The word that is going
on is the last word of the history together with the piece that is being read.
-/

namespace ShellTemplate

namespace Assembly

/-- The word that is going on together with a piece. -/
def wordWith (a : Assembly) (p : Piece) : Word := (a.word.getD {}).push p

/-- The word that is going on once a piece is complete. -/
def current (a : Assembly) (p : Piece) : Option Word :=
  if p.raw = [] then a.word else some (a.wordWith p)

theorem getD_current {a : Assembly} {p : Piece} (empty : p.raw = [] → p = {}) :
    (a.current p).getD {} = a.wordWith p := by
  unfold current wordWith
  split_ifs with h
  · simp [empty h]
  · rfl

@[simp] theorem wordWith_empty (a : Assembly) : a.wordWith {} = a.word.getD {} := by
  simp [wordWith]

theorem getD_add_piece (a : Assembly) (p : Piece) :
    ((a.add (.piece p)).word.getD {}) = a.wordWith p := rfl

/-- Complete the word that is going on. -/
def endWord (a : Assembly) (p : Piece) : Assembly := ⟨a.parts ++ partOfWord (a.current p), none⟩

theorem endWord_of_none {a : Assembly} (h : a.word = none) : (a.endWord {}).parts = a.parts := by
  simp [endWord, current, partOfWord, h]

theorem mem_endWord {a : Assembly} {p : Piece} {w : Word} (empty : p.raw = [] → p = {})
    (h : .word w ∈ (a.endWord p).parts) : .word w ∈ a.parts ∨ w = a.wordWith p := by
  rcases List.mem_append.1 h with h | h
  · exact .inl h
  · right
    cases hw : a.current p with
    | none => simp [hw, partOfWord] at h
    | some w' =>
        have hget := getD_current (a := a) empty
        simp_all [partOfWord]

end Assembly

namespace Scanner

variable {scope : Scope} {s : Scanner} (a : Assembly)

theorem addAll_flush : a.addAll (s.flush.2.map Lexeme.token) = ⟨a.parts, a.current s.piece⟩ := by
  unfold flush Assembly.current
  split_ifs with h <;> rfl

theorem emitOperator_eq (empty : s.piece.raw = [] → s.piece = {}) (op : Operator) :
    (s.emitOperator op).1 = { s with piece := {}, previous := .boundary } := by
  unfold emitOperator
  rw [flush_eq empty]
  rfl

theorem addAll_emitOperator (op : Operator) :
    a.addAll ((s.emitOperator op).2.map Lexeme.token) =
      ⟨(a.endWord s.piece).parts ++ [.operator op], none⟩ := by
  unfold emitOperator
  rw [Step.andThen_snd, List.map_append, Assembly.addAll_append, addAll_flush]
  rfl

theorem emitBlank_eq (empty : s.piece.raw = [] → s.piece = {}) :
    s.emitBlank.1 = { s with piece := {}, previous := .blank } := by
  unfold emitBlank
  rw [flush_eq empty]
  simp only [Step.andThen]
  split_ifs <;> simp_all

/-- A blank ends the word; a blank behind a blank does nothing. -/
theorem addAll_emitBlank :
    a.addAll (s.emitBlank.2.map Lexeme.token) = a.endWord s.piece ∨
      (s.emitBlank.2 = [] ∧ s.piece.raw = [] ∧ s.previous = .blank) := by
  unfold emitBlank
  rw [Step.andThen_snd]
  split_ifs with h
  · right
    unfold flush at h ⊢
    split_ifs at h ⊢ with hraw
    · exact ⟨rfl, hraw, h⟩
  · left
    rw [List.map_append, Assembly.addAll_append, addAll_flush]
    rfl

theorem emitHole_eq (empty : s.piece.raw = [] → s.piece = {}) {index : Nat} {quoting : Quoting}
    {enclosing : Enclosing} : s.emitHole index quoting enclosing =
      ({ s with piece := {}, previous := .word },
        s.flush.2 ++ [⟨.hole index, quoting, enclosing⟩]) := by
  unfold emitHole Step.andThen
  rw [flush_eq empty]

end Scanner

end ShellTemplate
