import ShellTemplate.Proofs.Lexeme.Retold

/-!
# Places do not matter

Only errors mention places. Scanning items whose places are all forgotten gives
the same lexemes, and the same error but for its place.
-/

namespace ShellTemplate

def Frame.erase : Frame → Frame
  | .single _ => .single 0
  | .double _ => .double 0
  | .substitution _ parens => .substitution 0 parens
  | .parameter _ => .parameter 0

def Mode.erase : Mode → Mode
  | .dollar _ => .dollar 0
  | mode => mode

def Item.erase (item : Item) : Item := { item with place := 0 }

/-- An error without its place. -/
def LexError.erase : LexError → LexError
  | .unterminated quoting _ => .unterminated quoting 0
  | .trailingEscape => .trailingEscape

theorem Frame.erase_eq_moved : Frame.erase = Frame.moved fun _ ↦ 0 := by
  funext frame
  cases frame <;> rfl

theorem Mode.erase_eq_moved (mode : Mode) : mode.erase = mode.moved fun _ ↦ 0 := by
  cases mode <;> rfl

/-- A text that is told without its places. -/
def Retelling.placeless : Retelling := .renumbered (fun _ ↦ 0) id True

theorem Retelling.item_placeless : Retelling.placeless.item = Item.erase := by
  funext ⟨symbol, place⟩
  cases symbol <;> rfl

theorem Retelling.error_placeless : Retelling.placeless.error = LexError.erase := by
  funext e
  cases e <;> rfl

theorem Retelling.map_lexeme_placeless (lexemes : List Lexeme) :
    lexemes.map Retelling.placeless.lexeme = lexemes := by
  have hlexeme : Retelling.placeless.lexeme = id := by
    funext ⟨token, quoting, enclosing⟩
    cases token <;> rfl
  rw [hlexeme, List.map_id]

namespace Scanner

def erase (s : Scanner) : Scanner :=
  { s with frames := s.frames.map Frame.erase, mode := s.mode.erase }

def Step.erase (step : Step) : Step := (step.1.erase, step.2)

variable {scope : Scope} {s t : Scanner}

@[simp] theorem erase_mk (s : Scanner) (lexemes : List Lexeme) :
    Step.erase (s, lexemes) = (s.erase, lexemes) := rfl

@[simp] theorem erase_inMode (mode : Mode) :
    (s.inMode mode).erase = s.erase.inMode mode.erase := rfl

/-- What is left when the places are forgotten is the scanner told without them. -/
theorem retold_placeless_iff : s.Retold .placeless t ↔ t = s.erase := by
  constructor
  · intro h
    have hframes := h.frames
    have hmode := h.mode
    have hstart : t.start = s.start := h.start (.inl trivial)
    obtain ⟨frames, mode, piece, start, previous⟩ := t
    obtain ⟨rfl, rfl, rfl⟩ : piece = s.piece ∧ start = s.start ∧ previous = s.previous :=
      ⟨h.piece, hstart, h.previous⟩
    simp only [erase, Frame.erase_eq_moved, Mode.erase_eq_moved, mk.injEq, and_true]
    exact ⟨hframes, hmode⟩
  · rintro rfl
    exact ⟨congrArg (s.frames.map ·) Frame.erase_eq_moved, Mode.erase_eq_moved _, rfl, rfl,
      fun _ ↦ rfl⟩

theorem retold_erase (s : Scanner) : s.Retold .placeless s.erase := retold_placeless_iff.2 rfl

theorem Step.retold_placeless_iff {step step' : Step} :
    Step.Retold .placeless step step' ↔ step' = Step.erase step := by
  constructor
  · intro h
    exact Prod.ext (Scanner.retold_placeless_iff.1 h.scanner)
      (h.lexemes.trans (Retelling.map_lexeme_placeless _))
  · rintro rfl
    exact ⟨retold_erase _, (Retelling.map_lexeme_placeless _).symm⟩

@[simp] theorem erase_push (raw text : List Char) :
    (s.push scope raw text).erase = s.erase.push scope raw text :=
  (retold_placeless_iff.1 ((retold_erase s).push raw text)).symm

@[simp] theorem erase_emitOperator (op : Operator) :
    s.erase.emitOperator op = Step.erase (s.emitOperator op) :=
  Step.retold_placeless_iff.1 ((retold_erase s).emitOperator op)

theorem escapedQuoting_erase : s.erase.escapedQuoting = s.escapedQuoting :=
  (retold_erase s).escapedQuoting

theorem stepChar_erase (c : Char) (place : Nat) :
    s.erase.stepChar scope c 0 = Step.erase (s.stepChar scope c place) :=
  Step.retold_placeless_iff.1 (@Retold.stepChar _ scope _ _ (retold_erase s) c place)

theorem stepHole_erase (index : Nat) :
    s.erase.stepHole scope index = Step.erase (s.stepHole scope index) :=
  Step.retold_placeless_iff.1 (@Retold.stepHole _ scope _ _ (retold_erase s) index)

theorem stepBody_erase (lexemes : List Lexeme) :
    s.erase.stepBody scope lexemes = Step.erase (s.stepBody scope lexemes) := by
  have hstep := @Retold.stepBody _ scope _ _ (retold_erase s) lexemes
  rw [Retelling.map_lexeme_placeless] at hstep
  exact Step.retold_placeless_iff.1 hstep

theorem finish_erase (scope : Scope) (s : Scanner) :
    s.erase.finish scope = (s.finish scope).mapError LexError.erase := by
  have hfinish : s.erase.finish scope = _ := @Retold.finish _ scope _ _ (retold_erase s)
  rw [hfinish, Retelling.error_placeless, funext Retelling.map_lexeme_placeless]
  cases s.finish scope <;> rfl

end Scanner

open Scanner

theorem scanAll_erase (scope : Scope) (items : List Item) :
    scanAll scope (items.map Item.erase) = (scanAll scope items).mapError LexError.erase := by
  have hretold : scanAll scope (items.map Retelling.placeless.item) = _ :=
    scanAll_retold .placeless scope items
  rw [← Retelling.item_placeless, hretold, Retelling.error_placeless,
    funext Retelling.map_lexeme_placeless]
  cases scanAll scope items <;> rfl

/-- A run stays a run when the places are forgotten. -/
theorem Scans.erase {cond cond' : HoleCondition}
    (hcond : ∀ scope s index rest, cond scope s index rest →
      cond' scope s.erase index (rest.map Item.erase))
    {scope : Scope} {s : Scanner} {items : List Item} {out : Step}
    (h : Scans cond scope s items out) :
    Scans cond' scope s.erase (items.map Item.erase) (Step.erase out) := by
  induction h with
  | nil => exact .nil
  | @hole scope s index place rest after met tail ih =>
      have hstep := @stepHole_erase scope s index
      have hfirst : Step.erase ((s.stepHole scope index).before after) =
          (s.erase.stepHole scope index).before (Step.erase after) := by
        rw [hstep]
        rfl
      rw [hfirst]
      refine .hole (hcond _ _ _ _ met) ?_
      rw [hstep]
      exact ih
  | @char scope s c place rest after closed tail ih =>
      have hstep := @stepChar_erase scope s c place
      have hfirst : Step.erase ((s.stepChar scope c place).before after) =
          (s.erase.stepChar scope c 0).before (Step.erase after) := by
        rw [hstep]
        rfl
      rw [hfirst]
      refine .char (fun hopen ↦ closed (((retold_erase s).opensBodyAt_iff c).1 hopen)) ?_
      rw [hstep]
      exact ih
  | @body scope s c place rest body behind inner after final opened cut within ended tail ihin ih =>
      have hstep := @stepBody_erase scope s (inner.2 ++ final)
      have hfirst : Step.erase ((s.stepBody scope (inner.2 ++ final)).before after) =
          (s.erase.stepBody scope ((Step.erase inner).2 ++ final)).before (Step.erase after) := by
        rw [show (Step.erase inner).2 = inner.2 from rfl, hstep]
        rfl
      rw [hfirst]
      have hscope : s.erase.bodyScope scope = s.bodyScope scope := (retold_erase s).bodyScope
      have hcut := cutBody_retold .placeless rest
      rw [cut, Retelling.item_placeless] at hcut
      refine .body (((retold_erase s).opensBodyAt_iff c).2 opened) hcut ?_ ?_ ?_
      · rw [hscope]
        exact ihin
      · rw [hscope]
        exact (finish_erase _ _).trans (by rw [ended]; rfl)
      · rw [show (Step.erase inner).2 = inner.2 from rfl, hstep]
        exact ih

/-- Symbols with no places. -/
def unplaced (symbols : List Symbol) : List Item := symbols.map fun symbol ↦ ⟨symbol, 0⟩

theorem erase_placeFrom (start : Nat) (symbols : List Symbol) :
    (placeFrom start symbols).map Item.erase = unplaced symbols := by
  induction symbols generalizing start with
  | nil => rfl
  | cons symbol rest ih => exact congrArg (_ :: ·) (ih (start + 1))

theorem placeFrom_append (start : Nat) (symbols more : List Symbol) :
    placeFrom start (symbols ++ more) =
      placeFrom start symbols ++ placeFrom (start + symbols.length) more := by
  induction symbols generalizing start with
  | nil => rfl
  | cons symbol rest ih =>
      rw [List.cons_append, placeFrom, placeFrom, ih, List.length_cons, Nat.add_assoc,
        Nat.add_comm 1 rest.length, List.cons_append]

theorem symbolsFrom_append (next : Nat) (segments more : List Segment) :
    symbolsFrom next (segments ++ more) =
      symbolsFrom next segments ++ symbolsFrom (next + Template.holeCount ⟨segments⟩) more := by
  induction segments generalizing next with
  | nil => rfl
  | cons segment rest ih =>
      cases segment with
      | literal text =>
          rw [List.cons_append, symbolsFrom, symbolsFrom, ih, List.append_assoc]
          rfl
      | hole value =>
          have hcount : next + 1 + Template.holeCount ⟨rest⟩ =
              next + Template.holeCount ⟨.hole value :: rest⟩ := Nat.add_right_comm _ _ _
          rw [List.cons_append, symbolsFrom, symbolsFrom, ih, hcount]
          rfl

theorem symbol_placeFrom (start : Nat) (symbols : List Symbol) :
    (placeFrom start symbols).map Item.symbol = symbols := by
  induction symbols generalizing start with
  | nil => rfl
  | cons symbol rest ih => rw [placeFrom, List.map_cons, ih]

theorem Template.lexemes_eq_ok_iff {t : Template} {lexemes : List Lexeme} :
    t.lexemes = .ok lexemes ↔ scanAll {} (unplaced t.symbols) = .ok lexemes := by
  rw [← erase_placeFrom 0, scanAll_erase, mapError_eq_ok_iff]
  rfl

/-- The items of a text, with no places. -/
def charItems (text : List Char) : List Item := text.map fun c ↦ ⟨.char c, 0⟩

/-- The lexemes of a plain text, found without places. -/
theorem lexemesOfText_erase (text : List Char) :
    (lexemesOfText text).mapError LexError.erase = scanAll {} (charItems text) := by
  have hsymbols : (Template.ofText text).symbols = text.map Symbol.char := by
    simp [Template.symbols, Template.ofText, symbolsFrom]
  have hitems : (Template.ofText text).items.map Item.erase = charItems text := by
    rw [Template.items, erase_placeFrom, hsymbols, unplaced, List.map_map]
    rfl
  rw [lexemesOfText, Template.lexemes, ← scanAll_erase, hitems]

theorem lexemesOfText_eq_ok_iff {text : List Char} {lexemes : List Lexeme} :
    lexemesOfText text = .ok lexemes ↔ scanAll {} (charItems text) = .ok lexemes := by
  rw [← lexemesOfText_erase, mapError_eq_ok_iff]

end ShellTemplate
