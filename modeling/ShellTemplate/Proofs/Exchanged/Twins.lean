import ShellTemplate.Proofs.Lexeme.Kindred
import ShellTemplate.Proofs.Reread.Bodies

/-!
# Scanners that differ in a text

Two scanners that are in the same place of words with different texts, neither of which is a
number, do the same on everything that follows. The lexemes that they complete are of one kind.
-/

namespace ShellTemplate

/-- Two pieces that both expand or both do not, the same operator, or two blanks. -/
inductive Token.SameKind : Token → Token → Prop
  | piece {p p' : Piece} (expands : p'.expands = p.expands) : Token.SameKind (.piece p) (.piece p')
  | operator (op : Operator) : Token.SameKind (.operator op) (.operator op)
  | blank : Token.SameKind .blank .blank

def Lexeme.SameKind (lexeme lexeme' : Lexeme) : Prop := lexeme.token.SameKind lexeme'.token

/-- Pieces that both expand or both do not, and whose texts may differ where they are no numbers. -/
def Kinship.twin : Kinship where
  Kin p p' := p'.expands = p.expands ∧ (p'.raw = p.raw ∨ NotDigits p.raw ∧ NotDigits p'.raw)
  empty := ⟨rfl, .inl rfl⟩
  append h q := ⟨congrArg (· || q.expands) h.1, h.2.imp (congrArg (· ++ q.raw)) fun hne ↦
    ⟨hne.1.append_left q.raw, hne.2.append_left q.raw⟩⟩
  nil_iff := by
    rintro p p' ⟨-, heq | ⟨hne, hne'⟩⟩
    · rw [heq]
    · exact iff_of_false hne'.ne_nil hne.ne_nil
  descriptor := by
    rintro p p' ⟨hexpands, heq | ⟨hne, hne'⟩⟩
    · rw [Piece.descriptor?, Piece.descriptor?, hexpands, heq]
    · rw [Piece.descriptor?_of_notDigits hne, Piece.descriptor?_of_notDigits hne']
  holes := False
  dropLast := False.elim

theorem sameKind_of_kindred {lexemes lexemes' : List Lexeme}
    (h : List.Forall₂ (Lexeme.Kindred .twin) lexemes lexemes') :
    List.Forall₂ Lexeme.SameKind lexemes lexemes' := by
  refine h.imp fun _ _ hkin ↦ ?_
  cases hkin with
  | piece kin => exact .piece kin.1
  | operator op => exact .operator op
  | blank => exact .blank
  | hole holes => exact holes.elim

namespace Scanner

/-- The texts of the pieces may differ where they are no numbers. -/
structure Twin (t t' : Scanner) : Prop where
  frames : t'.frames = t.frames
  mode : t'.mode = t.mode
  previous : t'.previous = t.previous
  expands : t'.piece.expands = t.piece.expands
  raw : t'.piece.raw = t.piece.raw ∨ NotDigits t.piece.raw ∧ NotDigits t'.piece.raw

structure Step.Twin (step step' : Step) : Prop where
  scanner : step.1.Twin step'.1
  lexemes : List.Forall₂ Lexeme.SameKind step.2 step'.2

theorem Twin.refl (t : Scanner) : t.Twin t := ⟨rfl, rfl, rfl, rfl, .inl rfl⟩

theorem Twin.kindred {t t' : Scanner} (h : t.Twin t') : t.Kindred .twin t' :=
  ⟨h.frames, h.mode, h.previous, h.expands, h.raw⟩

theorem Kindred.twin {t t' : Scanner} (h : t.Kindred .twin t') : t.Twin t' :=
  ⟨h.frames, h.mode, h.previous, h.kin.1, h.kin.2⟩

theorem Step.Kindred.twin {step step' : Step} (h : Step.Kindred .twin step step') :
    Step.Twin step step' :=
  ⟨h.scanner.twin, sameKind_of_kindred h.lexemes⟩

namespace Twin

variable {scope : Scope} {t t' : Scanner}

/-- Both words go on by a body, whose text may differ. -/
theorem grownBody (h : t.Twin t') {u u' : Scanner} {body body' : List Char}
    (hu : GrownBody t u ('\x60' :: body)) (hu' : GrownBody t' u' ('\x60' :: body')) :
    u.Twin u' where
  frames := by rw [hu.frames, hu'.frames, h.frames]
  mode := hu'.mode.trans hu.mode.symm
  previous := by rw [hu.previous, hu'.previous, h.previous]
  expands := by rw [hu.expands, hu'.expands, h.expands]
  raw := by
    rw [hu.raw, hu'.raw]
    exact .inr ⟨⟨'\x60', by simp, rfl⟩, ⟨'\x60', by simp, rfl⟩⟩

theorem stepBody (h : t.Twin t') (ht : t.Sound) (hopen : t.OpensBodyAt scope '\x60')
    {read read' : List Lexeme} (hread : Filled read) (hread' : Filled read') :
    Step.Twin (t.stepBody scope read) (t'.stepBody scope read') := by
  have hsettled := (@Kindred.settleBefore _ scope t t' h.kindred '\x60').twin
  have hplain := (ht.settlement (settleBefore_settlement hopen.1)).2
  obtain ⟨u, hsplice, hgrown⟩ := @spliceBody_filled scope _ _ hread hplain
  obtain ⟨u', hsplice', hgrown'⟩ :=
    @spliceBody_filled scope _ _ hread' (hsettled.scanner.mode.trans hplain)
  refine ⟨?_, List.rel_append hsettled.lexemes ?_⟩
  · rw [Scanner.stepBody, Scanner.stepBody, Step.andThen_fst, Step.andThen_fst, hsplice, hsplice']
    exact hsettled.scanner.grownBody hgrown hgrown'
  · dsimp only
    rw [hsplice, hsplice']
    exact .nil

/-- Both are complete, or both are open in one context. -/
theorem finish (h : t.Twin t') :
    SameOutcome (List.Forall₂ Lexeme.SameKind) (t.finish scope) (t'.finish scope) :=
  h.kindred.finish.imp_ok fun _ _ _ ↦ sameKind_of_kindred

end Twin

end Scanner

open Scanner

/-- The items of a text, each of them without its place. -/
def IsText (items : List Item) : Prop := ∀ item ∈ items, ∃ c, item = ⟨.char c, 0⟩

theorem isText_charItems (text : List Char) : IsText (charItems text) := by
  intro item hitem
  obtain ⟨c, -, rfl⟩ := List.mem_map.1 hitem
  exact ⟨c, rfl⟩

/-- Twins read every text alike. -/
theorem Scanner.Twin.scan {scope : Scope} {t t' : Scanner} (h : t.Twin t') (ht : t.Sound)
    {items : List Item} (htext : IsText items) :
    SameOutcome Step.Twin (ShellTemplate.scan scope t items)
      (ShellTemplate.scan scope t' items) := by
  have hitems : Kinship.twin.Admits items := by
    intro item hitem
    obtain ⟨c, rfl⟩ := htext item hitem
    exact ⟨rfl, .inl ⟨c, rfl⟩⟩
  exact (h.kindred.scan ht hitems).imp_ok fun _ _ _ ↦ Step.Kindred.twin

end ShellTemplate
