import ShellTemplate.Proofs.Lexeme.Ends
import ShellTemplate.Proofs.Lexeme.Parallel

/-!
# Scanners in kindred words

The scanner looks at the piece that it reads in two ways only: whether there is one, and
whether it is a descriptor number. So two scanners that are in the same place of pieces
which cannot be told apart in this way do the same on everything that follows, and complete
lexemes that differ in their pieces alone.
-/

namespace ShellTemplate

namespace Piece

def append (p q : Piece) : Piece := ⟨p.raw ++ q.raw, p.text ++ q.text, p.expands || q.expands⟩

/-- The descriptor that the piece names where a redirection follows. -/
def descriptor? (p : Piece) : Option Nat := if p.expands then none else readDescriptor? p.raw

theorem descriptor?_of_notDigits {p : Piece} (h : NotDigits p.raw) : p.descriptor? = none := by
  rw [descriptor?, h.readDescriptor?, ite_self]

end Piece

/-- A relation between pieces that the scanner cannot tell apart, now or later. -/
structure Kinship where
  Kin : Piece → Piece → Prop
  empty : Kin {} {}
  append : ∀ {p p'}, Kin p p' → ∀ q, Kin (p.append q) (p'.append q)
  nil_iff : ∀ {p p'}, Kin p p' → (p'.raw = [] ↔ p.raw = [])
  descriptor : ∀ {p p'}, Kin p p' → p'.descriptor? = p.descriptor?
  /-- Holes may stand in the text that follows. -/
  holes : Prop
  /-- A hole takes back the backslash before it. -/
  dropLast : holes → ∀ {p p'}, Kin p p' →
    Kin { p with raw := p.raw.dropLast } { p' with raw := p'.raw.dropLast }

/-- The same lexeme up to the text of its piece. -/
inductive Lexeme.Kindred (k : Kinship) : Lexeme → Lexeme → Prop
  | piece {p p' : Piece} (kin : k.Kin p p') (quoting quoting' : Quoting) :
      Kindred k ⟨.piece p, quoting, {}⟩ ⟨.piece p', quoting', {}⟩
  | operator (op : Operator) : Kindred k ⟨.operator op, .bare, {}⟩ ⟨.operator op, .bare, {}⟩
  | blank : Kindred k ⟨.blank, .bare, {}⟩ ⟨.blank, .bare, {}⟩
  | hole (holes : k.holes) (index : Nat) (quoting : Quoting) (enclosing : Enclosing) :
      Kindred k ⟨.hole index, quoting, enclosing⟩ ⟨.hole index, quoting, enclosing⟩

namespace Scanner

/-- The scanners are in the same place of kindred pieces. -/
structure Kindred (k : Kinship) (t t' : Scanner) : Prop where
  frames : t'.frames = t.frames
  mode : t'.mode = t.mode
  previous : t'.previous = t.previous
  kin : k.Kin t.piece t'.piece

structure Step.Kindred (k : Kinship) (step step' : Step) : Prop where
  scanner : step.1.Kindred k step'.1
  lexemes : List.Forall₂ (Lexeme.Kindred k) step.2 step'.2

variable {k : Kinship}

theorem Step.Kindred.andThen {step step' : Step} {next next' : Scanner → Step}
    (h : Step.Kindred k step step')
    (hnext : ∀ t t', t.Kindred k t' → Step.Kindred k (next t) (next' t')) :
    Step.Kindred k (step.andThen next) (step'.andThen next') where
  scanner := (hnext _ _ h.scanner).scanner
  lexemes := List.rel_append h.lexemes (hnext _ _ h.scanner).lexemes

theorem Step.Kindred.before {step step' after after' : Step} (h : Step.Kindred k step step')
    (h' : Step.Kindred k after after') :
    Step.Kindred k (step.before after) (step'.before after') where
  scanner := h'.scanner
  lexemes := List.rel_append h.lexemes h'.lexemes

namespace Kindred

variable {scope : Scope} {t t' : Scanner} {c : Char}

theorem silent (h : t.Kindred k t') : Step.Kindred k (t, []) (t', []) := ⟨h, .nil⟩

theorem push (h : t.Kindred k t') (raw text : List Char) :
    (t.push scope raw text).Kindred k (t'.push scope raw text) where
  frames := h.frames
  mode := h.mode
  previous := h.previous
  kin := by simpa [Piece.append, Scanner.push] using k.append h.kin ⟨raw, text, false⟩

theorem markExpands (h : t.Kindred k t') : t.markExpands.Kindred k t'.markExpands where
  frames := h.frames
  mode := h.mode
  previous := h.previous
  kin := by simpa [Piece.append, Scanner.markExpands] using k.append h.kin ⟨[], [], true⟩

theorem enter (h : t.Kindred k t') (frame : Frame) :
    (t.enter frame).Kindred k (t'.enter frame) :=
  ⟨congrArg (frame :: ·) h.frames, h.mode, h.previous, h.kin⟩

theorem inMode (h : t.Kindred k t') (mode : Mode) : (t.inMode mode).Kindred k (t'.inMode mode) :=
  ⟨h.frames, rfl, h.previous, h.kin⟩

/-- A character with the same text behind quote removal was added to both pieces. -/
theorem pushed (h : t.Kindred k t') {u u' : Scanner} {e : Bool} {frames : List Frame}
    {added : List Char} (hu : Pushed t u c e frames) (hu' : Pushed t' u' c e frames)
    (htext : u.piece.text = t.piece.text ++ added)
    (htext' : u'.piece.text = t'.piece.text ++ added) : u.Kindred k u' where
  frames := hu'.frames.trans hu.frames.symm
  mode := hu'.mode.trans hu.mode.symm
  previous := by rw [hu.previous, hu'.previous, h.previous]
  kin := by
    have happend := k.append h.kin ⟨[c], added, e⟩
    simp only [Piece.append] at happend
    rwa [← hu.raw, ← hu'.raw, ← htext, ← htext', ← hu.expands, ← hu'.expands] at happend

theorem withPrevious (h : t.Kindred k t') (previous : Previous) :
    ({ t with previous := previous } : Scanner).Kindred k { t' with previous := previous } :=
  ⟨h.frames, h.mode, rfl, h.kin⟩

theorem flush (h : t.Kindred k t') : Step.Kindred k t.flush t'.flush := by
  unfold Scanner.flush
  simp only [k.nil_iff h.kin]
  split_ifs
  · exact h.silent
  · exact ⟨⟨h.frames, h.mode, rfl, k.empty⟩, .cons (.piece h.kin _ _) .nil⟩

theorem emitOperator (h : t.Kindred k t') (op : Operator) :
    Step.Kindred k (t.emitOperator op) (t'.emitOperator op) :=
  h.flush.andThen fun _ _ h ↦ ⟨h.withPrevious .boundary, .cons (.operator op) .nil⟩

theorem emitBlank (h : t.Kindred k t') : Step.Kindred k t.emitBlank t'.emitBlank := by
  refine h.flush.andThen fun u u' h ↦ ?_
  rw [h.previous]
  split_ifs
  · exact h.silent
  · exact ⟨h.withPrevious .blank, .cons .blank .nil⟩

theorem emitHole (h : t.Kindred k t') (hholes : k.holes) (index : Nat) (quoting : Quoting)
    (enclosing : Enclosing) :
    Step.Kindred k (t.emitHole index quoting enclosing) (t'.emitHole index quoting enclosing) :=
  h.flush.andThen fun _ _ h ↦ ⟨h.withPrevious .word, .cons (.hole hholes _ _ _) .nil⟩

theorem writtenDescriptor?_eq (h : t.Kindred k t') :
    t'.writtenDescriptor? = t.writtenDescriptor? := by
  have hpiece : ∀ u : Scanner, u.writtenDescriptor? =
      if u.previous != .word then u.piece.descriptor? else none := by
    intro u
    unfold writtenDescriptor? Piece.descriptor?
    cases u.piece.expands <;> simp
  rw [hpiece, hpiece, h.previous, k.descriptor h.kin]

theorem readAngle (h : t.Kindred k t') (mode : Option Nat → Mode) :
    (t.readAngle mode).Kindred k (t'.readAngle mode) := by
  unfold Scanner.readAngle
  rw [h.writtenDescriptor?_eq]
  cases t.writtenDescriptor? with
  | none => exact h.inMode _
  | some fd => exact ⟨h.frames, rfl, h.previous, k.empty⟩

theorem atWordStart (h : t.Kindred k t') : t'.atWordStart = t.atWordStart := by
  rw [Bool.eq_iff_iff]
  simp [Scanner.atWordStart, h.previous, k.nil_iff h.kin]

theorem readChar (h : t.Kindred k t') (hmode : t.mode = .plain) (c : Char) :
    Step.Kindred k (t.readChar scope c 0) (t'.readChar scope c 0) := by
  have hwithin : Within t t' [] := ⟨by rw [h.frames, List.append_nil], .inl rfl, by simp⟩
  have hparallel := @parallel_readChar scope scope c t t' [] hwithin hmode (h.mode.trans hmode)
    fun _ _ ↦ h.atWordStart
  generalize t.readChar scope c 0 = step at hparallel
  generalize t'.readChar scope c 0 = step' at hparallel
  cases hparallel with
  | blank => exact h.emitBlank
  | operator _ op => exact h.emitOperator op
  | comment => exact (h.inMode _).silent
  | begin _ mode => exact (h.inMode mode).silent
  | angle _ mode => exact (h.readAngle mode).silent
  | push e e' frames hs ht same _ _ _ text =>
      obtain rfl := same h.atWordStart
      obtain ⟨added, htext, htext', -⟩ := text
      rw [List.append_nil] at ht
      exact (h.pushed hs ht htext htext').silent
  | backslash => exact ((h.push _ _).inMode _).silent
  | dollar => exact (h.inMode _).silent

theorem readEscaped (h : t.Kindred k t') (c : Char) :
    (t.readEscaped scope c).Kindred k (t'.readEscaped scope c) := by
  have hplain := h.inMode .plain
  unfold Scanner.readEscaped
  dsimp only
  rw [hplain.frames]
  split_ifs <;> exact hplain.push _ _

theorem settle (h : t.Kindred k t') : Step.Kindred k (t.settle scope) (t'.settle scope) := by
  unfold Scanner.settle
  rw [h.mode]
  cases t.mode with
  | plain | comment | escape => exact h.silent
  | dollar => exact ((h.inMode _).push _ _).silent
  | pipe | ampersand | greater | less => exact (h.inMode _).emitOperator _

theorem settleBefore (h : t.Kindred k t') (c : Char) :
    Step.Kindred k (t.settleBefore scope c) (t'.settleBefore scope c) := by
  unfold Scanner.settleBefore
  rw [h.mode]
  cases t.mode with
  | dollar =>
      dsimp only
      split_ifs
      · exact ((h.inMode _).push _ _).markExpands.silent
      · exact ((h.inMode _).push _ _).silent
  | plain | comment | escape | pipe | ampersand | greater | less => exact h.settle

theorem complete? (h : t.Kindred k t') (c : Char) :
    Option.Rel (Step.Kindred k) (t.complete? scope c) (t'.complete? scope c) := by
  unfold Scanner.complete?
  rw [h.mode]
  cases t.mode with
  | plain => exact .none
  | escape => exact .some (h.readEscaped c).silent
  | comment =>
      dsimp only
      split_ifs
      · exact .some ((h.inMode _).emitOperator _)
      · exact .some h.silent
  | dollar =>
      dsimp only
      split_ifs
      · exact .some (((h.inMode _).push _ _).markExpands.enter _).silent
      · exact .some (((h.inMode _).push _ _).markExpands.enter _).silent
      · exact .none
  | pipe | ampersand | greater | less =>
      dsimp only
      split_ifs <;> first | exact .some ((h.inMode _).emitOperator _) | exact .none

theorem complete?_eq_none_iff (h : t.Kindred k t') (c : Char) :
    t'.complete? scope c = none ↔ t.complete? scope c = none := by
  have hcomplete := @Kindred.complete? k scope _ _ h c
  generalize t.complete? scope c = step at hcomplete ⊢
  generalize t'.complete? scope c = step' at hcomplete ⊢
  cases hcomplete <;> simp

theorem opensBodyAt_iff (h : t.Kindred k t') (c : Char) :
    t'.OpensBodyAt scope c ↔ t.OpensBodyAt scope c := by
  have hsettled := (@Kindred.settleBefore k scope _ _ h c).scanner
  unfold OpensBodyAt
  rw [h.complete?_eq_none_iff, opensBody_of_frames hsettled.frames]

theorem bodyScope (h : t.Kindred k t') : t'.bodyScope scope = t.bodyScope scope := by
  have hsettled := (@Kindred.settleBefore k scope _ _ h '\x60').scanner
  unfold Scanner.bodyScope
  rw [hsettled.frames]

theorem stepChar (h : t.Kindred k t') (ht : t.Sound) (c : Char) :
    Step.Kindred k (t.stepChar scope c 0) (t'.stepChar scope c 0) := by
  have hcomplete := @Kindred.complete? k scope _ _ h c
  unfold Scanner.stepChar
  cases hnone : t.complete? scope c with
  | some step =>
      rw [hnone] at hcomplete
      generalize t'.complete? scope c = step' at hcomplete
      cases hcomplete with
      | some hstep => exact hstep
  | none =>
      rw [(h.complete?_eq_none_iff c).2 hnone]
      have hsettled := @Kindred.settleBefore k scope _ _ h c
      have hplain := (ht.settlement (settleBefore_settlement hnone)).2
      have hread := @Kindred.readChar k scope _ _ hsettled.scanner hplain c
      exact ⟨hread.scanner, List.rel_append hsettled.lexemes hread.lexemes⟩

theorem stepHole (h : t.Kindred k t') (hholes : k.holes) (index : Nat) :
    Step.Kindred k (t.stepHole scope index) (t'.stepHole scope index) := by
  have hread : ∀ {u u' : Scanner}, u.Kindred k u' →
      Step.Kindred k (u.readHole scope index) (u'.readHole scope index) := by
    intro u u' h
    unfold readHole
    rw [h.frames]
    exact h.emitHole hholes _ _ _
  unfold Scanner.stepHole
  rw [h.mode]
  cases t.mode with
  | comment => exact h.silent
  | escape =>
      have hback : Kindred k ⟨t.frames, .plain, _, t.start, t.previous⟩
          ⟨t.frames, .plain, _, t'.start, t'.previous⟩ :=
        ⟨rfl, rfl, h.previous, k.dropLast hholes h.kin⟩
      unfold readEscapedHole
      dsimp only
      rw [h.frames]
      exact hback.emitHole hholes _ _ _
  | dollar => exact hread ((h.inMode _).push _ _)
  | plain | pipe | ampersand | greater | less => exact h.settle.andThen fun _ _ h ↦ hread h

theorem spliceLexemes (h : t.Kindred k t') {lexemes : List Lexeme}
    (hlexemes : k.holes ∨ Filled lexemes) :
    Step.Kindred k (spliceLexemes scope lexemes t) (spliceLexemes scope lexemes t') := by
  induction lexemes generalizing t t' with
  | nil => exact h.silent
  | cons lexeme rest ih =>
      have hrest := hlexemes.imp_right fun hfilled ↦ (Filled.cons_iff.1 hfilled).2
      obtain ⟨token, quoting, enclosing⟩ := lexeme
      cases token with
      | piece p => exact ih (h.push _ _) hrest
      | blank => exact ih (h.push _ _) hrest
      | operator op => exact ih (h.push _ _) hrest
      | hole index =>
          have hholes := hlexemes.resolve_right fun hfilled ↦ by
            simpa using (Filled.cons_iff.1 hfilled).1
          exact (h.emitHole hholes index quoting enclosing).andThen fun _ _ h ↦ ih h hrest

theorem stepBody (h : t.Kindred k t') {lexemes : List Lexeme}
    (hlexemes : k.holes ∨ Filled lexemes) :
    Step.Kindred k (t.stepBody scope lexemes) (t'.stepBody scope lexemes) :=
  (h.settleBefore '\x60').andThen fun _ _ h ↦
    ((h.push _ _).markExpands.spliceLexemes hlexemes).andThen fun _ _ h ↦ (h.push _ _).silent

/-- Both are complete, or both are open in one context. -/
theorem finish (h : t.Kindred k t') :
    SameOutcome (List.Forall₂ (Lexeme.Kindred k)) (t.finish scope) (t'.finish scope) := by
  unfold Scanner.finish
  rw [h.frames, h.mode]
  cases t.frames with
  | cons frame rest => exact .error _
  | nil =>
      dsimp only
      split_ifs
      · exact .error _
      · exact .ok (h.settle.andThen fun _ _ h ↦ h.flush).lexemes

end Kindred

end Scanner

open Scanner

/-- Items without their places, with holes among them only where holes may stand. -/
def Kinship.Admits (k : Kinship) (items : List Item) : Prop :=
  ∀ item ∈ items, item.place = 0 ∧ ((∃ c, item.symbol = .char c) ∨ k.holes)

theorem Kinship.admits_charItems (k : Kinship) (text : List Char) : k.Admits (charItems text) := by
  intro item hitem
  obtain ⟨c, -, rfl⟩ := List.mem_map.1 hitem
  exact ⟨rfl, .inl ⟨c, rfl⟩⟩

theorem Kinship.Admits.cutBody {k : Kinship} {items body behind : List Item} (h : k.Admits items)
    (hcut : ShellTemplate.cutBody items = some (body, behind)) : k.Admits body ∧ k.Admits behind :=
  ⟨fun item hitem ↦ h item (mem_of_cutBody hcut (.inl hitem)),
    fun item hitem ↦ h item (mem_of_cutBody hcut (.inr hitem))⟩

theorem Kinship.Admits.filled_of_scanAll {k : Kinship} {scope : Scope} {items : List Item}
    {lexemes : List Lexeme} (h : k.Admits items) (hscan : scanAll scope items = .ok lexemes) :
    k.holes ∨ Filled lexemes := by
  by_cases hholes : k.holes
  · exact .inl hholes
  · have hplain : Plain items := fun item hitem ↦ (h item hitem).2.resolve_right hholes
    exact .inr (hplain.filled_of_scanAll hscan)

theorem Kinship.admits_unplaced {k : Kinship} (hholes : k.holes) (symbols : List Symbol) :
    k.Admits (unplaced symbols) := by
  intro item hitem
  obtain ⟨symbol, -, rfl⟩ := List.mem_map.1 hitem
  exact ⟨rfl, .inr hholes⟩

/-- Kindred scanners read everything alike. -/
theorem Scanner.Kindred.scan {k : Kinship} {scope : Scope} {t t' : Scanner} (h : t.Kindred k t')
    (ht : t.Sound) {items : List Item} (hitems : k.Admits items) :
    SameOutcome (Step.Kindred k) (ShellTemplate.scan scope t items)
      (ShellTemplate.scan scope t' items) := by
  induction hn : items.length using Nat.strongRecOn generalizing scope t t' items with
  | ind n ih =>
    subst hn
    cases items with
    | nil =>
        rw [scan_nil, scan_nil]
        exact .ok h.silent
    | cons item rest =>
        obtain ⟨symbol, place⟩ := item
        obtain ⟨rfl, hsymbol⟩ := hitems _ List.mem_cons_self
        have hrest : k.Admits rest := fun item hitem ↦ hitems item (List.mem_cons_of_mem _ hitem)
        cases symbol with
        | hole index =>
            have hholes : k.holes := hsymbol.resolve_left (by simp)
            have hstep := @Kindred.stepHole k scope _ _ h hholes index
            rw [scan_hole, scan_hole]
            exact (ih rest.length (by simp) hstep.scanner (ht.stepHole index) hrest rfl).map
              fun _ _ ↦ hstep.before
        | char c =>
            by_cases hopen : t.OpensBodyAt scope c
            · have hopen' := (h.opensBodyAt_iff c).2 hopen
              cases hcut : cutBody rest with
              | none =>
                  rw [scan_open _ _ hopen hcut, scan_open _ _ hopen' hcut, h.bodyScope]
                  exact .error _
              | some cut =>
                  obtain ⟨body, behind⟩ := cut
                  have hlen := cutBody_length hcut
                  obtain ⟨hbody, hbehind⟩ := hrest.cutBody hcut
                  rw [scan_body _ _ hopen hcut, scan_body _ _ hopen' hcut, h.bodyScope]
                  cases hread : scanAll (t.bodyScope scope) body with
                  | error e => exact .error _
                  | ok lexemes =>
                      have hlexemes := hbody.filled_of_scanAll hread
                      have hstep := @Kindred.stepBody k scope _ _ h _ hlexemes
                      exact (ih behind.length (by simp only [List.length_cons]; omega)
                        hstep.scanner (ht.stepBody hopen lexemes) hbehind rfl).map
                        fun _ _ ↦ hstep.before
            · have hstep := @Kindred.stepChar k scope _ _ h ht c
              rw [scan_char _ _ hopen,
                scan_char _ _ fun hopen' ↦ hopen ((h.opensBodyAt_iff c).1 hopen')]
              exact (ih rest.length (by simp) hstep.scanner (ht.stepChar c 0) hrest rfl).map
                fun _ _ ↦ hstep.before

theorem Scanner.Kindred.scanRest {k : Kinship} {scope : Scope} {t t' : Scanner}
    (h : t.Kindred k t') (ht : t.Sound) {items : List Item} (hitems : k.Admits items) :
    SameOutcome (List.Forall₂ (Lexeme.Kindred k)) (ShellTemplate.scanRest scope t items)
      (ShellTemplate.scanRest scope t' items) :=
  (h.scan ht hitems).bind fun _ _ hstep ↦
    hstep.scanner.finish.map fun _ _ hfinal ↦ List.rel_append hstep.lexemes hfinal

end ShellTemplate
