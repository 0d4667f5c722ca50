import ShellTemplate.Proofs.Lexeme.Deeper
import ShellTemplate.Proofs.Lexeme.Level
import ShellTemplate.Proofs.Lexeme.Reads
import ShellTemplate.Proofs.Line

/-!
# A template between backticks

A template can be put between backticks when its text is written with one more level of
backslashes. It then becomes one word, which holds the whole line of the template with that
level of backslashes. The holes stay the same, one substitution deeper.
-/

namespace ShellTemplate

open Scanner

/-- A segment as it is written in a backtick body. -/
def Segment.backticked : Segment → Segment
  | .literal text => .literal (escapeBackticks text)
  | .hole value => .hole value

/-- The template between backticks. -/
def Template.backticked (t : Template) : Template :=
  ⟨.literal ['\x60'] :: t.segments.map Segment.backticked ++ [.literal ['\x60']]⟩

@[simp] theorem Template.holes_backticked (t : Template) : t.backticked.holes = t.holes := by
  have hsegments : ∀ segments : List Segment,
      Template.holes ⟨segments.map Segment.backticked ++ [.literal ['\x60']]⟩ =
        Template.holes ⟨segments⟩ := by
    intro segments
    induction segments with
    | nil => rfl
    | cons segment rest ih =>
        cases segment with
        | literal text => exact ih
        | hole value => exact congrArg (value :: ·) ih
  exact hsegments t.segments

section Symbols

/-- A symbol as it is written in a backtick body. -/
def Symbol.backticked : Symbol → List Symbol
  | .char c => if isSpecialInBackticks c then [.char '\\', .char c] else [.char c]
  | .hole index => [.hole index]

theorem flatMap_backticked (text : List Char) :
    (text.map Symbol.char).flatMap Symbol.backticked = (escapeBackticks text).map Symbol.char := by
  induction text with
  | nil => rfl
  | cons c rest ih =>
      have hcons : escapeBackticks (c :: rest) =
          (if isSpecialInBackticks c then ['\\', c] else [c]) ++ escapeBackticks rest := by
        simp [escapeBackticks, escapeBefore]
      rw [hcons, List.map_cons, List.flatMap_cons, ih, List.map_append]
      simp only [Symbol.backticked]
      split_ifs <;> rfl

theorem symbolsFrom_backticked (next : Nat) (segments : List Segment) :
    symbolsFrom next (segments.map Segment.backticked ++ [.literal ['\x60']]) =
      (symbolsFrom next segments).flatMap Symbol.backticked ++ [.char '\x60'] := by
  induction segments generalizing next with
  | nil => rfl
  | cons segment rest ih =>
      cases segment with
      | literal text =>
          simp only [List.map_cons, Segment.backticked, List.cons_append, symbolsFrom, ih,
            List.flatMap_append, flatMap_backticked, List.append_assoc]
      | hole value =>
          simp only [List.map_cons, Segment.backticked, List.cons_append, symbolsFrom, ih,
            List.flatMap_cons, Symbol.backticked, List.nil_append]

theorem Template.symbols_backticked (t : Template) : t.backticked.symbols =
    .char '\x60' :: t.symbols.flatMap Symbol.backticked ++ [.char '\x60'] :=
  congrArg (Symbol.char '\x60' :: ·) (symbolsFrom_backticked 0 t.segments)

/-- A body is cut off whole, with one level of backslashes removed. -/
theorem cutBody_backticked (symbols behind : List Symbol) :
    cutBody (unplaced (symbols.flatMap Symbol.backticked ++ .char '\x60' :: behind)) =
      some (unplaced symbols, unplaced behind) := by
  induction symbols with
  | nil => simp [unplaced, cutBody]
  | cons symbol rest ih =>
      rw [List.flatMap_cons, List.append_assoc]
      cases symbol with
      | hole index =>
          simp only [Symbol.backticked, List.cons_append, List.nil_append, unplaced,
            List.map_cons] at ih ⊢
          rw [cutBody, if_neg (by simp), ih]
          · rfl
          · simp
      | char c =>
          simp only [Symbol.backticked]
          split_ifs with hspecial
          · have hc : c = '\\' ∨ c = '\x60' ∨ c = '$' := by
              simpa [isSpecialInBackticks, or_assoc] using hspecial
            simp only [List.cons_append, List.nil_append, unplaced, List.map_cons] at ih ⊢
            rw [cutBody, if_pos hc, ih]
            rfl
          · have hbackslash : c ≠ '\\' := by
              rintro rfl
              simp [isSpecialInBackticks] at hspecial
            have hbacktick : c ≠ '\x60' := by
              rintro rfl
              simp [isSpecialInBackticks] at hspecial
            simp only [List.cons_append, List.nil_append, unplaced, List.map_cons] at ih ⊢
            rw [cutBody, if_neg (by simpa using hbacktick), ih]
            · rfl
            · simp [hbackslash]

end Symbols

/-- The lexemes of a substitution that stands alone, with these in its body. -/
def backtickedLexemes (lexemes : List Lexeme) : List Lexeme :=
  ((Scanner.stepBody {} lexemes {}).andThen Scanner.flush).2

/-- A substitution in backticks that stands alone: its body is scanned, then spliced in. -/
theorem scanAll_cutBody {text body : List Symbol}
    (hcut : cutBody (unplaced text) = some (unplaced body, [])) :
    scanAll {} (unplaced (.char '\x60' :: text)) =
      (scanAll (Scope.deeper {}) (unplaced body)).map backtickedLexemes := by
  have hopen : ({} : Scanner).OpensBodyAt {} '\x60' := ⟨rfl, rfl, rfl⟩
  have hitems : unplaced (.char '\x60' :: text) = ⟨.char '\x60', 0⟩ :: unplaced text := rfl
  have hscope : ({} : Scanner).bodyScope {} = Scope.deeper {} := rfl
  rw [scanAll, hitems, scan_body _ _ hopen hcut, hscope]
  cases scanAll (Scope.deeper {}) (unplaced body) with
  | error e => rfl
  | ok lexemes =>
      have hfields := spliceLexemes_frames {} lexemes
        (({} : Scanner).pushSyntax {} '\x60').markExpands
      have hplain : (Scanner.stepBody {} lexemes {}).1.mode = .plain := hfields.2
      have hfinish : (Scanner.stepBody {} lexemes {}).1.finish {} =
          .ok (Scanner.stepBody {} lexemes {}).1.flush.2 := by
        have hframes : (Scanner.stepBody {} lexemes {}).1.frames = [] := hfields.1
        unfold Scanner.finish
        rw [hframes]
        simp only [hplain, Scanner.settle_of_plain hplain, Step.andThen, List.nil_append]
        rfl
      change ((scan {} (Scanner.stepBody {} lexemes {}).1 []).map _ >>= _) = _
      rw [scan_nil]
      change ((Scanner.stepBody {} lexemes {}).1.finish {} >>= _) = _
      rw [hfinish]
      change Except.ok _ = Except.ok _
      rw [Step.before, List.append_nil]
      rfl

theorem Template.lexemes_backticked_eq_ok_iff {t : Template} {wrapped : List Lexeme} :
    t.backticked.lexemes = .ok wrapped ↔
      ∃ lexemes, t.lexemes = .ok lexemes ∧
        backtickedLexemes (lexemes.map Lexeme.deeper) = wrapped := by
  have hscan := scanAll_cutBody (cutBody_backticked t.symbols [])
  simp only [Template.lexemes_eq_ok_iff, Template.symbols_backticked, List.cons_append, hscan,
    scanAll_deeper, map_eq_ok_iff, mapError_eq_ok_iff]
  constructor
  · rintro ⟨_, ⟨lexemes, hlexemes, rfl⟩, rfl⟩
    exact ⟨lexemes, hlexemes, rfl⟩
  · rintro ⟨lexemes, hlexemes, rfl⟩
    exact ⟨_, ⟨lexemes, hlexemes, rfl⟩, rfl⟩

section Holes

/-- The lexemes that stand for holes. -/
def holeLexemes (lexemes : List Lexeme) : List Lexeme := lexemes.filter fun l ↦ l.token.isHole

@[simp] theorem holeLexemes_append (lexemes more : List Lexeme) :
    holeLexemes (lexemes ++ more) = holeLexemes lexemes ++ holeLexemes more :=
  List.filter_append _ _

theorem Filled.holeLexemes_eq_nil {lexemes : List Lexeme} (h : Filled lexemes) :
    holeLexemes lexemes = [] := by
  simpa [holeLexemes, List.filter_eq_nil_iff] using fun lexeme hl ↦ h lexeme hl

theorem holeLexemes_deeper (lexemes : List Lexeme) :
    holeLexemes (lexemes.map Lexeme.deeper) = (holeLexemes lexemes).map Lexeme.deeper := by
  simp only [holeLexemes, List.filter_map, Function.comp_def, Lexeme.token_deeper]

theorem holeLexemes_emitHole (index : Nat) (quoting : Quoting) (enclosing : Enclosing)
    (s : Scanner) : holeLexemes (s.emitHole index quoting enclosing).2 =
      [⟨.hole index, quoting, enclosing⟩] := by
  unfold emitHole
  rw [Step.andThen_snd, holeLexemes_append, Filled.flush.holeLexemes_eq_nil]
  rfl

/-- A body that is spliced in keeps its holes as they are. -/
theorem holeLexemes_spliceLexemes (scope : Scope) (lexemes : List Lexeme) (s : Scanner) :
    holeLexemes (spliceLexemes scope lexemes s).2 = holeLexemes lexemes := by
  induction lexemes generalizing s with
  | nil => rfl
  | cons lexeme rest ih =>
      obtain ⟨token, quoting, enclosing⟩ := lexeme
      cases token with
      | piece p => exact ih _
      | operator op => exact ih _
      | blank => exact ih _
      | hole index =>
          simp only [spliceLexemes, Step.andThen_snd, holeLexemes_append, holeLexemes_emitHole, ih]
          rfl

theorem backtickedLexemes_eq (lexemes : List Lexeme) :
    backtickedLexemes lexemes =
      (spliceLexemes {} lexemes (({} : Scanner).pushSyntax {} '\x60').markExpands).2 ++
        ((spliceLexemes {} lexemes
          (({} : Scanner).pushSyntax {} '\x60').markExpands).1.pushSyntax {} '\x60').flush.2 := by
  unfold backtickedLexemes stepBody spliceBody
  simp only [Scanner.settleBefore_of_plain (s := {}) rfl, Step.andThen, List.nil_append,
    List.append_nil]

theorem holeLexemes_backtickedLexemes (lexemes : List Lexeme) :
    holeLexemes (backtickedLexemes lexemes) = holeLexemes lexemes := by
  rw [backtickedLexemes_eq, holeLexemes_append, holeLexemes_spliceLexemes,
    Filled.flush.holeLexemes_eq_nil, List.append_nil]

end Holes

section Filling

variable {options : FillOptions} {values : List Value}

/-- A value is known for the hole, and it can be quoted there. -/
def Lexeme.Fillable (values : List Value) (lexeme : Lexeme) : Prop :=
  ∀ index, lexeme.token = .hole index →
    (∃ value, values[index]? = some value) ∧
      Value.unsafeContext? lexeme.quoting lexeme.enclosing = none

theorem Lexeme.fillable_deeper {lexeme : Lexeme} :
    lexeme.deeper.Fillable values ↔ lexeme.Fillable values := by
  obtain ⟨token, quoting, enclosing⟩ := lexeme
  cases token with
  | piece | operator | blank => simp [Lexeme.Fillable, Lexeme.deeper]
  | hole index =>
      have hcontext : Value.unsafeContext? quoting.deeper enclosing.deeper =
          Value.unsafeContext? quoting enclosing := by
        cases quoting <;> rfl
      simp only [Lexeme.Fillable, Lexeme.deeper, hcontext]

/-- Whether texts can be filled in is decided by the holes. -/
theorem exists_fill_iff (hvalues : ∀ value ∈ values, value.literalText?.isSome = true)
    {lexemes : List Lexeme} :
    (∃ tokens, fill options values lexemes = .ok tokens) ↔
      ∀ lexeme ∈ holeLexemes lexemes, lexeme.Fillable values := by
  induction lexemes with
  | nil => exact ⟨fun _ ↦ by simp [holeLexemes], fun _ ↦ ⟨[], rfl⟩⟩
  | cons lexeme rest ih =>
      obtain ⟨token, quoting, enclosing⟩ := lexeme
      have hother : token.isHole = false →
          ((∃ tokens, fill options values (⟨token, quoting, enclosing⟩ :: rest) = .ok tokens) ↔
            ∀ lexeme ∈ holeLexemes (⟨token, quoting, enclosing⟩ :: rest),
              lexeme.Fillable values) := by
        intro htoken
        have hholes : holeLexemes (⟨token, quoting, enclosing⟩ :: rest) = holeLexemes rest := by
          simp [holeLexemes, htoken]
        rw [hholes, ← ih, fill_cons_of_not_hole htoken]
        simp only [map_eq_ok_iff]
        exact ⟨fun ⟨_, tokens, hfill, _⟩ ↦ ⟨tokens, hfill⟩,
          fun ⟨tokens, hfill⟩ ↦ ⟨_, tokens, hfill, rfl⟩⟩
      cases token with
      | piece p => exact hother rfl
      | operator op => exact hother rfl
      | blank => exact hother rfl
      | hole index =>
          have hholes : holeLexemes (⟨.hole index, quoting, enclosing⟩ :: rest) =
              ⟨.hole index, quoting, enclosing⟩ :: holeLexemes rest := rfl
          rw [hholes, List.forall_mem_cons, ← ih]
          simp only [fill_hole_eq_ok_iff]
          constructor
          · rintro ⟨_, value, own, more, hvalue, hown, hmore, -⟩
            refine ⟨?_, more, hmore⟩
            rintro _ ⟨⟩
            obtain ⟨text, htext⟩ :=
              Option.isSome_iff_exists.1 (hvalues value (List.mem_of_getElem? hvalue))
            rw [fillHole_of_text htext] at hown
            refine ⟨⟨value, hvalue⟩, ?_⟩
            split at hown
            · cases hown
            · assumption
          · rintro ⟨hown, more, hmore⟩
            obtain ⟨⟨value, hvalue⟩, hcontext⟩ := hown index rfl
            obtain ⟨text, htext⟩ :=
              Option.isSome_iff_exists.1 (hvalues value (List.mem_of_getElem? hvalue))
            have hfill := @fillHole_of_text options _ _ htext quoting enclosing
            dsimp only at hcontext
            rw [hcontext] at hfill
            exact ⟨_, value, _, more, hvalue, hfill, hmore, rfl⟩

/-- A text is written the same in all contexts where it becomes a word of its own. -/
theorem Quoting.write_deeper (quoting : Quoting) (text : List Char) :
    quoting.deeper.write text = quoting.write text := by
  cases quoting <;> rfl

/-- Seen from within the backticks a hole is filled as it is without them. -/
theorem fill_deeper_lower (hvalues : ∀ value ∈ values, value.literalText?.isSome = true)
    (lexemes : List Lexeme) :
    fill options values ((lexemes.map Lexeme.deeper).map (Lexeme.lower 1)) =
      fill options values lexemes := by
  induction lexemes with
  | nil => rfl
  | cons lexeme rest ih =>
      obtain ⟨token, quoting, enclosing⟩ := lexeme
      cases token with
      | piece p => exact congrArg (· >>= _) ih
      | operator op => exact congrArg (· >>= _) ih
      | blank => exact congrArg (· >>= _) ih
      | hole index =>
          have hown : ∀ value, values[index]? = some value →
              fillHole options quoting.deeper (enclosing.deeper.lower 1) value =
                fillHole options quoting enclosing value := by
            intro value hvalue
            obtain ⟨text, htext⟩ :=
              Option.isSome_iff_exists.1 (hvalues value (List.mem_of_getElem? hvalue))
            have hcontext : Value.unsafeContext? quoting.deeper (enclosing.deeper.lower 1) =
                Value.unsafeContext? quoting enclosing := by
              cases quoting <;> rfl
            have hpiece : literalPiece quoting.deeper (enclosing.deeper.lower 1) text =
                literalPiece quoting enclosing text := by
              unfold literalPiece
              rw [Quoting.write_deeper]
              rfl
            rw [fillHole_of_text htext, fillHole_of_text htext, hcontext, hpiece]
          change fill options values (⟨.hole index, quoting.deeper, enclosing.deeper.lower 1⟩ ::
            (rest.map Lexeme.deeper).map (Lexeme.lower 1)) = _
          unfold fill
          rw [ih]
          cases hvalue : values[index]? with
          | none => rfl
          | some value =>
              change (fillHole options quoting.deeper _ value >>= _) =
                fillHole options quoting enclosing value >>= _
              rw [hown value hvalue]

end Filling

section OneWord

/-- All tokens are pieces, so that they make one word. -/
def Pieces (tokens : List Token) : Prop := ∀ token ∈ tokens, ∃ p, token = .piece p

theorem addAll_pieces {tokens : List Token} (h : Pieces tokens) (a : Assembly) :
    (a.addAll tokens).parts = a.parts ∧
      ((a.addAll tokens).word.getD {}).raw = (a.word.getD {}).raw ++ plainText tokens ∧
        (((a.addAll tokens).word.getD {}).expands = true ↔
          (a.word.getD {}).expands = true ∨ ∃ p, .piece p ∈ tokens ∧ p.expands = true) := by
  induction tokens generalizing a with
  | nil => simp
  | cons token rest ih =>
      obtain ⟨p, rfl⟩ := h token List.mem_cons_self
      obtain ⟨hparts, hraw, hexpands⟩ :=
        ih (fun other ho ↦ h other (by simp [ho])) (a.add (.piece p))
      refine ⟨hparts, ?_, ?_⟩
      · rw [Assembly.addAll_cons, hraw, plainText_cons]
        exact List.append_assoc _ _ _
      · rw [Assembly.addAll_cons, hexpands]
        simp [Assembly.add, Word.push, or_assoc]

theorem writeToken_pieces {tokens : List Token} (h : Pieces tokens) (line : List Char) :
    tokens.foldl writeToken line = (plainText tokens).reverse ++ line := by
  induction tokens generalizing line with
  | nil => rfl
  | cons token rest ih =>
      obtain ⟨p, rfl⟩ := h token List.mem_cons_self
      rw [List.foldl_cons, ih fun other ho ↦ h other (by simp [ho])]
      simp [writeToken, Token.text]

theorem exists_piece_of_mem_flush {s : Scanner} {lexeme : Lexeme} (h : lexeme ∈ s.flush.2) :
    ∃ p, lexeme.token = .piece p := by
  unfold flush at h
  split_ifs at h
  · simp at h
  · exact ⟨s.piece, congrArg Lexeme.token (List.mem_singleton.1 h)⟩

/-- A substitution is spliced in as pieces around its holes. -/
theorem spliceLexemes_piece_or_hole (scope : Scope) (lexemes : List Lexeme) (s : Scanner) :
    ∀ lexeme ∈ (spliceLexemes scope lexemes s).2,
      (∃ p, lexeme.token = .piece p) ∨ lexeme.token.isHole = true := by
  induction lexemes generalizing s with
  | nil => simp [spliceLexemes]
  | cons lexeme rest ih =>
      obtain ⟨token, quoting, enclosing⟩ := lexeme
      cases token with
      | piece p => exact ih _
      | operator op => exact ih _
      | blank => exact ih _
      | hole index =>
          intro lexeme hlexeme
          simp only [spliceLexemes, emitHole, Step.andThen_snd, List.mem_append,
            List.mem_singleton] at hlexeme
          rcases hlexeme with (hflush | rfl) | hrest
          · exact .inl (exists_piece_of_mem_flush hflush)
          · exact .inr rfl
          · exact ih _ lexeme hrest

/-- The mark of a piece that a substitution was opened in is not lost. -/
theorem exists_expands_spliceLexemes (scope : Scope) (lexemes : List Lexeme) {s : Scanner}
    (hraw : s.piece.raw ≠ []) (hexpands : s.piece.expands = true) :
    (∃ lexeme ∈ (spliceLexemes scope lexemes s).2, ∃ p, lexeme.token = .piece p ∧
        p.expands = true) ∨ (spliceLexemes scope lexemes s).1.piece.expands = true := by
  induction lexemes generalizing s with
  | nil => exact .inr hexpands
  | cons lexeme rest ih =>
      obtain ⟨token, quoting, enclosing⟩ := lexeme
      have hpush : ∀ raw, (s.push scope raw []).piece.raw ≠ [] := fun raw hnil ↦
        hraw (List.append_eq_nil_iff.1 hnil).1
      cases token with
      | piece p => exact ih (hpush _) hexpands
      | operator op => exact ih (hpush _) hexpands
      | blank => exact ih (hpush _) hexpands
      | hole index =>
          refine .inl ⟨⟨.piece s.piece, s.start, {}⟩, ?_, s.piece, rfl, hexpands⟩
          simp [spliceLexemes, emitHole, flush, hraw]

variable {options : FillOptions} {values : List Value}

theorem mem_of_fill {lexemes : List Lexeme} {tokens : List Token}
    (h : fill options values lexemes = .ok tokens) {lexeme : Lexeme} (hlexeme : lexeme ∈ lexemes)
    (hother : lexeme.token.isHole = false) : lexeme.token ∈ tokens := by
  obtain ⟨before, behind, rfl⟩ := List.append_of_mem hlexeme
  obtain ⟨first, second, -, hsecond, rfl⟩ := fill_append_eq_ok_iff.1 h
  rw [fill_cons_of_not_hole hother] at hsecond
  obtain ⟨more, -, rfl⟩ := map_eq_ok_iff.1 hsecond
  simp

theorem pieces_of_fill (hvalues : ∀ value ∈ values, value.literalText?.isSome = true)
    {lexemes : List Lexeme} {tokens : List Token}
    (hlexemes : ∀ lexeme ∈ lexemes, (∃ p, lexeme.token = .piece p) ∨ lexeme.token.isHole = true)
    (h : fill options values lexemes = .ok tokens) : Pieces tokens := by
  induction lexemes generalizing tokens with
  | nil =>
      obtain rfl : [] = tokens := by simpa [fill] using h
      simp [Pieces]
  | cons lexeme rest ih =>
      have hrest := fun {more} ↦ @ih more fun other ho ↦ hlexemes other (by simp [ho])
      obtain ⟨token, quoting, enclosing⟩ := lexeme
      rcases hlexemes _ List.mem_cons_self with ⟨p, hp⟩ | hhole
      · obtain rfl : token = .piece p := hp
        rw [fill_cons_of_not_hole rfl] at h
        obtain ⟨more, hmore, rfl⟩ := map_eq_ok_iff.1 h
        exact List.forall_mem_cons.2 ⟨⟨p, rfl⟩, hrest hmore⟩
      · cases token with
        | piece | operator | blank => cases hhole
        | hole index =>
            obtain ⟨value, own, more, hvalue, hown, hmore, rfl⟩ := fill_hole_eq_ok_iff.1 h
            obtain ⟨text, htext⟩ :=
              Option.isSome_iff_exists.1 (hvalues value (List.mem_of_getElem? hvalue))
            rw [fillHole_of_text htext] at hown
            split at hown
            · cases hown
            · cases hown
              exact List.forall_mem_append.2 ⟨by simp, hrest hmore⟩

/-- The lexemes of a substitution that stands alone, filled in: one marked word, which holds the
text of the body with its backslashes put back. -/
theorem fill_backtickedLexemes (hvalues : ∀ value ∈ values, value.literalText?.isSome = true)
    {lexemes : List Lexeme} (hdeep : Deep 1 lexemes) (hunbare : Unbare lexemes)
    {tokens : List Token} (h : fill options values (backtickedLexemes lexemes) = .ok tokens) :
    ∃ inner, fill options values (lexemes.map (Lexeme.lower 1)) = .ok inner ∧ Pieces tokens ∧
      plainText tokens = '\x60' :: escapeBackticks (plainText inner) ++ ['\x60'] ∧
        ∃ p, .piece p ∈ tokens ∧ p.expands = true := by
  have hpieces := spliceLexemes_piece_or_hole {} lexemes
    (({} : Scanner).pushSyntax {} '\x60').markExpands
  have hmarked := exists_expands_spliceLexemes {} lexemes
    (s := (({} : Scanner).pushSyntax {} '\x60').markExpands)
    (by simp [markExpands, pushSyntax, push])
    rfl
  have hsplice := @plainText_splice options values 0 {} lexemes hdeep hunbare
    (({} : Scanner).pushSyntax {} '\x60').markExpands
  rw [backtickedLexemes_eq] at h
  generalize spliceLexemes {} lexemes (({} : Scanner).pushSyntax {} '\x60').markExpands = spliced
    at h hpieces hmarked hsplice
  -- The closing backtick makes the last piece.
  have hlast : (spliced.1.pushSyntax {} '\x60').flush.2 =
      [⟨.piece (spliced.1.pushSyntax {} '\x60').piece,
        (spliced.1.pushSyntax {} '\x60').start, {}⟩] := by
    simp [flush, pushSyntax, push]
  rw [hlast] at h
  have hall := pieces_of_fill hvalues (fun lexeme hlexeme ↦ ?_) h
  · obtain ⟨first, last, hfirst, hlast, rfl⟩ := fill_append_eq_ok_iff.1 h
    obtain rfl : [_] = last := by simpa [fill] using hlast
    obtain ⟨inner, hinner, htext⟩ := @hsplice first (by
      rw [List.map_congr_left fun lexeme _ ↦ Lexeme.lower_zero lexeme, List.map_id']
      exact hfirst)
    refine ⟨inner, hinner, hall, ?_, ?_⟩
    · have hraw : (spliced.1.pushSyntax {} '\x60').piece.raw = spliced.1.piece.raw ++ ['\x60'] := rfl
      rw [plainText_append, plainText_cons, plainText_nil, Token.text, hraw, List.append_nil,
        ← List.append_assoc, htext]
      rfl
    · rcases hmarked with ⟨lexeme, hlexeme, p, hp, hexpands⟩ | hexpands
      · have hmem := mem_of_fill hfirst hlexeme (by rw [hp]; rfl)
        exact ⟨p, List.mem_append_left _ (hp ▸ hmem), hexpands⟩
      · exact ⟨(spliced.1.pushSyntax {} '\x60').piece, by simp, hexpands⟩
  · rcases List.mem_append.1 hlexeme with hlexeme | hlexeme
    · exact hpieces lexeme hlexeme
    · obtain rfl := List.mem_singleton.1 hlexeme
      exact .inl ⟨_, rfl⟩

/-- Pieces that end in a character other than a blank make a command of one word. -/
theorem parse_pieces {tokens : List Token} (h : Pieces tokens) {text : List Char} {c : Char}
    (htext : plainText tokens = text ++ [c]) (hc : isBlank c = false)
    (hexpands : ∃ p, .piece p ∈ tokens ∧ p.expands = true) :
    ∃ w : Word, w.expands = true ∧ w.raw = text ++ [c] ∧
      parse tokens = .ok ⟨[⟨[w], []⟩], text ++ [c]⟩ := by
  obtain ⟨hparts, hraw, hmark⟩ := addAll_pieces h {}
  have hmarked : (((({} : Assembly).addAll tokens).word).getD {}).expands = true :=
    hmark.2 (.inr hexpands)
  obtain ⟨w, hw⟩ : ∃ w, (({} : Assembly).addAll tokens).word = some w := by
    cases hword : (({} : Assembly).addAll tokens).word with
    | none => simp [hword] at hmarked
    | some w => exact ⟨w, rfl⟩
  rw [hw] at hraw hmarked
  have hassemble : assemble tokens = .ok [.word w] := by
    rw [assemble_eq_ok_iff]
    refine ⟨fun token htoken ↦ ?_, ?_⟩
    · obtain ⟨p, rfl⟩ := h token htoken
      rfl
    · rw [Assembly.finish, hparts, hw]
      rfl
  have hline : commandLine tokens = text ++ [c] := by
    rw [commandLine, writeToken_pieces h, htext]
    simp [hc]
  refine ⟨w, hmarked, ?_, ?_⟩
  · rw [← htext]
    exact hraw
  · unfold parse
    rw [hassemble, hline]
    rfl

end OneWord

section Deeper

theorem deep_deeper (lexemes : List Lexeme) : Deep 1 (lexemes.map Lexeme.deeper) := by
  intro lexeme hlexeme hhole
  obtain ⟨⟨token, quoting, enclosing⟩, -, rfl⟩ := List.mem_map.1 hlexeme
  cases token with
  | hole index => exact Nat.le_add_left 1 _
  | piece | operator | blank => cases hhole

theorem unbare_deeper (lexemes : List Lexeme) : Unbare (lexemes.map Lexeme.deeper) := by
  intro lexeme hlexeme hhole
  obtain ⟨⟨token, quoting, enclosing⟩, -, rfl⟩ := List.mem_map.1 hlexeme
  cases token with
  | hole index => cases quoting <;> exact nofun
  | piece | operator | blank => cases hhole

theorem tokens_eq_ok_iff {t : Template} {options : FillOptions} {tokens : List Token} :
    t.tokens options = .ok tokens ↔
      ∃ lexemes, t.lexemes = .ok lexemes ∧ fill options t.holes lexemes = .ok tokens := by
  simp only [Template.tokens, bind_eq_ok_iff, mapError_eq_ok_iff]

end Deeper

/-- A template between backticks is one word that holds the text of the filled template, and it
compiles when the template can be scanned and filled. Its holes are those of the template, one
substitution deeper. -/
theorem compile_backticked (t : Template) (options : FillOptions)
    (hholes : ∀ value ∈ t.holes, value.literalText?.isSome = true) :
    (∀ tokens, t.tokens options = .ok tokens →
      ∃ w : Word, w.expands = true ∧ t.backticked.compile options =
        .ok ⟨[⟨[w], []⟩], '\x60' :: escapeBackticks (plainText tokens) ++ ['\x60']⟩) ∧
      (∀ e, t.tokens options = .error e → ∃ e', t.backticked.compile options = .error e') ∧
        ∀ lexemes, t.lexemes = .ok lexemes → ∃ wrapped, t.backticked.lexemes = .ok wrapped ∧
          holeLexemes wrapped = (holeLexemes lexemes).map Lexeme.deeper := by
  have hwrapped : ∀ lexemes, t.lexemes = .ok lexemes →
      t.backticked.lexemes = .ok (backtickedLexemes (lexemes.map Lexeme.deeper)) :=
    fun lexemes hlexemes ↦ Template.lexemes_backticked_eq_ok_iff.2 ⟨lexemes, hlexemes, rfl⟩
  refine ⟨fun tokens htokens ↦ ?_, fun e herror ↦ ?_, fun lexemes hlexemes ↦
    ⟨_, hwrapped lexemes hlexemes, ?_⟩⟩
  · obtain ⟨lexemes, hlexemes, hfill⟩ := tokens_eq_ok_iff.1 htokens
    obtain ⟨outer, houter⟩ : ∃ outer,
        fill options t.holes (backtickedLexemes (lexemes.map Lexeme.deeper)) = .ok outer := by
      have hfillable := (@exists_fill_iff options _ hholes _).1 ⟨tokens, hfill⟩
      rw [exists_fill_iff hholes, holeLexemes_backtickedLexemes, holeLexemes_deeper]
      simpa only [List.forall_mem_map, Lexeme.fillable_deeper] using hfillable
    obtain ⟨inner, hinner, hpieces, htext, hmarked⟩ :=
      fill_backtickedLexemes hholes (deep_deeper lexemes) (unbare_deeper lexemes) houter
    rw [fill_deeper_lower hholes, hfill] at hinner
    cases hinner
    obtain ⟨w, hexpands, -, hparse⟩ := parse_pieces hpieces htext rfl hmarked
    refine ⟨w, hexpands, ?_⟩
    unfold Template.compile
    rw [tokens_eq_ok_iff.2 ⟨_, hwrapped lexemes hlexemes, by rwa [Template.holes_backticked]⟩]
    change (parse outer).mapError _ = _
    rw [hparse]
    rfl
  · cases hcompile : t.backticked.compile options with
    | error e' => exact ⟨e', rfl⟩
    | ok p =>
        obtain ⟨wrapped, outer, hscan, hfill, -⟩ := compile_eq_ok_iff.1 hcompile
        obtain ⟨lexemes, hlexemes, rfl⟩ := Template.lexemes_backticked_eq_ok_iff.1 hscan
        rw [Template.holes_backticked] at hfill
        obtain ⟨inner, hinner, -⟩ :=
          fill_backtickedLexemes hholes (deep_deeper lexemes) (unbare_deeper lexemes) hfill
        rw [fill_deeper_lower hholes] at hinner
        rw [tokens_eq_ok_iff.2 ⟨lexemes, hlexemes, hinner⟩] at herror
        cases herror
  · rw [holeLexemes_backtickedLexemes, holeLexemes_deeper]

/-- Texts in double quotes, behind a redirection and in a body of its own. -/
def nestedBodies : Template :=
  ⟨[.literal "grep \"".toList, .hole (.str "a$b".toList), .literal "\" 2>>".toList,
    .hole (.scalar "it's".toList), .literal " | wc `date -r \\$x ".toList,
    .hole (.joined [['\\'], ['x']] [',']), .literal "`".toList]⟩

def nestedBodiesTokens : List Token :=
  [.piece ⟨"grep".toList, "grep".toList, false⟩, .blank, .piece ⟨['"'], [], false⟩,
    .piece ⟨"a\\$b".toList, "a$b".toList, false⟩, .piece ⟨['"'], [], false⟩, .blank,
    .operator (.redirect ⟨some 2, .append⟩),
    .piece ⟨"'it'\\''s'".toList, "it's".toList, false⟩, .blank, .operator .pipe, .blank,
    .piece ⟨"wc".toList, "wc".toList, false⟩, .blank,
    .piece ⟨"`date -r \\$x ".toList, [], true⟩,
    .piece ⟨"'\\\\,x'".toList, "\\,x".toList, false⟩, .piece ⟨['\x60'], [], false⟩]

/-- The body inside the body is written with two levels of backslashes. -/
theorem compile_backticked_nestedBodies :
    (∀ value ∈ nestedBodies.holes, value.literalText?.isSome = true) ∧
      nestedBodies.tokens {} = .ok nestedBodiesTokens ∧
        ∃ w : Word, w.expands = true ∧ nestedBodies.backticked.compile {} = .ok ⟨[⟨[w], []⟩],
          "`grep \"a\\\\\\$b\" 2>>'it'\\\\''s' | wc \\`date -r \\\\\\$x '\\\\\\\\,x'\\``".toList⟩ := by
  have hholes : ∀ value ∈ nestedBodies.holes, value.literalText?.isSome = true := by
    decide +kernel
  have htokens : nestedBodies.tokens {} = .ok nestedBodiesTokens := by decide +kernel
  exact ⟨hholes, htokens, (compile_backticked nestedBodies {} hholes).1 _ htokens⟩

end ShellTemplate
