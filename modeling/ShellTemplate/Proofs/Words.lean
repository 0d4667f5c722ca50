import Mathlib.Tactic.SplitIfs
import ShellTemplate.Compile
import ShellTemplate.Proofs.Success

/-!
# Words of filled tokens

Merging tokens into words, told token by token: the parts that are complete and
the word that is going on. Filling goes lexeme by lexeme, so a history of
filled tokens can be kept along a run of the scanner.
-/

namespace ShellTemplate

def Token.isHole : Token → Bool
  | .hole _ => true
  | .piece _ | .operator _ | .blank => false

@[simp] theorem Token.isHole_piece (p : Piece) : (Token.piece p).isHole = false := rfl

@[simp] theorem Token.isHole_operator (op : Operator) : (Token.operator op).isHole = false := rfl

@[simp] theorem Token.isHole_blank : Token.blank.isHole = false := rfl

@[simp] theorem Token.isHole_hole (index : Nat) : (Token.hole index).isHole = true := rfl

/-- The parts that are complete and the word that is going on. -/
structure Assembly where
  parts : List Part := []
  word : Option Word := none

namespace Assembly

def add (a : Assembly) : Token → Assembly
  | .piece p => ⟨a.parts, some ((a.word.getD {}).push p)⟩
  | .blank => ⟨a.parts ++ partOfWord a.word, none⟩
  | .operator op => ⟨a.parts ++ partOfWord a.word ++ [.operator op], none⟩
  | .hole _ => a

def addAll (a : Assembly) (tokens : List Token) : Assembly := tokens.foldl add a

def finish (a : Assembly) : List Part := a.parts ++ partOfWord a.word

@[simp] theorem addAll_nil (a : Assembly) : a.addAll [] = a := rfl

@[simp] theorem addAll_cons (a : Assembly) (token : Token) (tokens : List Token) :
    a.addAll (token :: tokens) = (a.add token).addAll tokens := rfl

@[simp] theorem addAll_append (a : Assembly) (tokens more : List Token) :
    a.addAll (tokens ++ more) = (a.addAll tokens).addAll more := List.foldl_append

end Assembly

@[simp] theorem Word.push_empty (w : Word) : w.push {} = w := by simp [Word.push]

theorem Assembly.finish_addAll (a : Assembly) (tokens : List Token) :
    (a.addAll tokens).finish = a.parts ++ (Assembly.addAll ⟨[], a.word⟩ tokens).finish := by
  induction tokens generalizing a with
  | nil => simp [finish]
  | cons token rest ih =>
      rw [addAll_cons, addAll_cons, ih (a.add token), ih (Assembly.add ⟨[], a.word⟩ token)]
      cases token <;> simp [add]

/-- Tokens behind the end of a word are assembled on their own. -/
theorem map_assembleFrom_eq_ok_iff {tokens : List Token} {front parts : List Part}
    (ih : ∀ {more : List Part}, assembleFrom none tokens = .ok more ↔
      (∀ token ∈ tokens, token.isHole = false) ∧ (Assembly.addAll {} tokens).finish = more) :
    (assembleFrom none tokens).map (front ++ ·) = .ok parts ↔
      (∀ token ∈ tokens, token.isHole = false) ∧
        (Assembly.addAll ⟨front, none⟩ tokens).finish = parts := by
  rw [map_eq_ok_iff, Assembly.finish_addAll ⟨front, none⟩]
  constructor
  · rintro ⟨more, hmore, rfl⟩
    obtain ⟨htokens, rfl⟩ := ih.1 hmore
    exact ⟨htokens, rfl⟩
  · rintro ⟨htokens, rfl⟩
    exact ⟨_, ih.2 ⟨htokens, rfl⟩, rfl⟩

theorem assembleFrom_eq_ok_iff {word : Option Word} {tokens : List Token} {parts : List Part} :
    assembleFrom word tokens = .ok parts ↔
      (∀ token ∈ tokens, token.isHole = false) ∧
        (Assembly.addAll ⟨[], word⟩ tokens).finish = parts := by
  induction tokens generalizing word parts with
  | nil => simp [assembleFrom, Assembly.finish]
  | cons token rest ih =>
      cases token with
      | piece p => simp [assembleFrom, Assembly.add, ih]
      | blank =>
          rw [List.forall_mem_cons, Assembly.addAll_cons]
          exact (map_assembleFrom_eq_ok_iff ih).trans (by simp [Assembly.add])
      | operator op =>
          have hop : assembleFrom word (.operator op :: rest) =
              (assembleFrom none rest).map (partOfWord word ++ [.operator op] ++ ·) := by
            simp only [List.append_assoc, List.singleton_append]
            rfl
          rw [hop, List.forall_mem_cons, Assembly.addAll_cons]
          exact (map_assembleFrom_eq_ok_iff ih).trans (by simp [Assembly.add])
      | hole index => simp [assembleFrom]

theorem assemble_eq_ok_iff {tokens : List Token} {parts : List Part} :
    assemble tokens = .ok parts ↔
      (∀ token ∈ tokens, token.isHole = false) ∧ (Assembly.addAll {} tokens).finish = parts :=
  assembleFrom_eq_ok_iff

/-- The text of a value that is always one literal word. -/
def Value.literalText? : Value → Option (List Char)
  | .str text | .scalar text => some text
  | .joined items separator => some (separator.intercalate items)
  | .list _ | .raw _ => none

def Value.isList : Value → Bool
  | .list _ => true
  | .str _ | .scalar _ | .raw _ | .joined _ _ => false

section Filling

variable {options : FillOptions} {values : List Value}

theorem fill_cons_of_not_hole {lexeme : Lexeme} {rest : List Lexeme}
    (h : lexeme.token.isHole = false) :
    fill options values (lexeme :: rest) = (fill options values rest).map (lexeme.token :: ·) := by
  obtain ⟨token, quoting, enclosing⟩ := lexeme
  cases token <;> first
    | (simp [Token.isHole] at h; done)
    | (simp only [fill]; cases fill options values rest <;> rfl)

theorem fill_hole {index : Nat} {value : Value} (hvalue : values[index]? = some value)
    (quoting : Quoting) (enclosing : Enclosing) (rest : List Lexeme) :
    fill options values (⟨.hole index, quoting, enclosing⟩ :: rest) =
      fillHole options quoting enclosing value >>= fun own ↦
        (fill options values rest).map (own ++ ·) := by
  simp only [fill, hvalue]
  change (fillHole options quoting enclosing value).bind _ =
    (fillHole options quoting enclosing value).bind _
  cases fillHole options quoting enclosing value with
  | error e => rfl
  | ok own => cases fill options values rest <;> rfl

theorem fill_hole_eq_ok_iff {index : Nat} {quoting : Quoting} {enclosing : Enclosing}
    {rest : List Lexeme} {tokens : List Token} :
    fill options values (⟨.hole index, quoting, enclosing⟩ :: rest) = .ok tokens ↔
      ∃ value own more, values[index]? = some value ∧
        fillHole options quoting enclosing value = .ok own ∧
        fill options values rest = .ok more ∧ tokens = own ++ more := by
  cases hvalue : values[index]? with
  | none => simp [fill, hvalue, bind, Except.bind]
  | some value =>
      rw [fill_hole hvalue, bind_eq_ok_iff]
      simp only [map_eq_ok_iff, Option.some.injEq]
      constructor
      · rintro ⟨own, hown, more, hmore, rfl⟩
        exact ⟨value, own, more, rfl, hown, hmore, rfl⟩
      · rintro ⟨_, own, more, rfl, hown, hmore, rfl⟩
        exact ⟨own, hown, more, hmore, rfl⟩

/-- A text becomes one piece, wherever a value is safe. -/
theorem fillHole_of_text {value : Value} {text : List Char} (h : value.literalText? = some text)
    (quoting : Quoting) (enclosing : Enclosing) : fillHole options quoting enclosing value =
      match Value.unsafeContext? quoting enclosing with
      | some context => .error (.fill (.unsafeContext context))
      | none => .ok [.piece (literalPiece quoting enclosing text)] := by
  cases value <;> cases h <;> simp only [fillHole, Value.pieces] <;>
    cases Value.unsafeContext? quoting enclosing <;> rfl

theorem fillHole_raw {text : List Char} {quoting : Quoting} {enclosing : Enclosing}
    {tokens : List Token} (h : fillHole options quoting enclosing (.raw text) = .ok tokens) :
    quoting = .bare ∧ ∃ lexemes, lexemesOfText text = .ok lexemes ∧
      tokens = lexemes.map Lexeme.token := by
  unfold fillHole at h
  split_ifs at h with hbare
  obtain ⟨lexemes, hlex, rfl⟩ := map_eq_ok_iff.1 (mapError_eq_ok_iff.1 h)
  exact ⟨hbare, lexemes, hlex, rfl⟩

/-- Where no value is safe, none is filled in; shell syntax is refused for the context before the
constructs around it are looked at. -/
theorem fillHole_of_unsafeContext {quoting : Quoting} {enclosing : Enclosing}
    {context : UnsafeContext} (hbare : quoting ≠ .bare)
    (hcontext : Value.unsafeContext? quoting enclosing = some context) (value : Value) :
    fillHole options quoting enclosing value = .error (.fill (.unsafeContext context)) ∨
      ∃ text, value = .raw text ∧
        fillHole options quoting enclosing value = .error (.fill (.rawInContext quoting)) := by
  cases value with
  | raw text => exact .inr ⟨text, rfl, if_neg hbare⟩
  | str | scalar | list | joined =>
      left
      simp only [fillHole, Value.pieces, hcontext]
      rfl

theorem fill_of_not_hole {lexemes : List Lexeme}
    (h : ∀ lexeme ∈ lexemes, lexeme.token.isHole = false) :
    fill options values lexemes = .ok (lexemes.map Lexeme.token) := by
  induction lexemes with
  | nil => rfl
  | cons lexeme rest ih =>
      rw [fill_cons_of_not_hole (h _ (by simp)), ih fun l hl ↦ h l (by simp [hl])]
      rfl

theorem fill_append (lexemes more : List Lexeme) :
    fill options values (lexemes ++ more) = fill options values lexemes >>= fun first ↦
      (fill options values more).map (first ++ ·) := by
  induction lexemes with
  | nil =>
      change fill options values more = (fill options values more).map ([] ++ ·)
      cases fill options values more <;> rfl
  | cons lexeme rest ih =>
      obtain ⟨token, quoting, enclosing⟩ := lexeme
      cases token with
      | hole index =>
          cases hvalue : values[index]? with
          | none => simp [fill, hvalue, bind, Except.bind]
          | some value =>
              rw [List.cons_append, fill_hole hvalue, fill_hole hvalue, ih]
              cases fillHole options quoting enclosing value with
              | error e => rfl
              | ok own =>
                  cases fill options values rest with
                  | error e => rfl
                  | ok first =>
                      cases fill options values more <;> simp [bind, Except.bind, Except.map]
      | piece p | operator op | blank =>
          rw [List.cons_append, fill_cons_of_not_hole rfl, fill_cons_of_not_hole rfl, ih]
          cases fill options values rest with
          | error e => rfl
          | ok first => cases fill options values more <;> rfl

theorem fill_append_eq_ok_iff {lexemes more : List Lexeme} {tokens : List Token} :
    fill options values (lexemes ++ more) = .ok tokens ↔
      ∃ first second, fill options values lexemes = .ok first ∧
        fill options values more = .ok second ∧ tokens = first ++ second := by
  rw [fill_append, bind_eq_ok_iff]
  simp only [map_eq_ok_iff]
  constructor
  · rintro ⟨first, hfirst, second, hsecond, rfl⟩
    exact ⟨first, second, hfirst, hsecond, rfl⟩
  · rintro ⟨first, second, hfirst, hsecond, rfl⟩
    exact ⟨first, hfirst, second, hsecond, rfl⟩

/-- Filled lexemes have a value for each of their holes, and it can stand there. -/
theorem exists_fillHole_of_fill {lexemes : List Lexeme} {tokens : List Token}
    (h : fill options values lexemes = .ok tokens) {index : Nat} {quoting : Quoting}
    {enclosing : Enclosing} (hhole : ⟨.hole index, quoting, enclosing⟩ ∈ lexemes) :
    ∃ value own, values[index]? = some value ∧
      fillHole options quoting enclosing value = .ok own := by
  obtain ⟨before, behind, rfl⟩ := List.append_of_mem hhole
  obtain ⟨first, second, -, hsecond, -⟩ := fill_append_eq_ok_iff.1 h
  obtain ⟨value, own, more, hvalue, hown, -, -⟩ := fill_hole_eq_ok_iff.1 hsecond
  exact ⟨value, own, hvalue, hown⟩

end Filling

namespace Template

variable {t : Template} {options : FillOptions} {lexemes : List Lexeme}

theorem tokens_of_lexemes (h : t.lexemes = .ok lexemes) :
    t.tokens options = (fill options t.holes lexemes).mapError .ofFilling := by
  rw [tokens, h]
  rfl

theorem compile_of_lexemes_error {e : LexError} (h : t.lexemes = .error e) :
    t.compile options = .error (.lex e) := by
  rw [compile, tokens, h]
  rfl

theorem compile_of_fill_error {e : FillingError} (h : t.lexemes = .ok lexemes)
    (hfill : fill options t.holes lexemes = .error e) :
    t.compile options = .error (.ofFilling e) := by
  rw [compile, tokens_of_lexemes h, hfill]
  rfl

theorem compile_of_fill {tokens : List Token} (h : t.lexemes = .ok lexemes)
    (hfill : fill options t.holes lexemes = .ok tokens) :
    t.compile options = (parse tokens).mapError .parse := by
  rw [compile, tokens_of_lexemes h, hfill]
  rfl

end Template

/-- The steps of a successful compilation. -/
theorem compile_eq_ok_iff {t : Template} {options : FillOptions} {p : Pipeline} :
    t.compile options = .ok p ↔
      ∃ lexemes tokens, t.lexemes = .ok lexemes ∧ fill options t.holes lexemes = .ok tokens ∧
        (∀ token ∈ tokens, token.isHole = false) ∧
        stagesOfParts (Assembly.addAll {} tokens).finish = .ok p.stages ∧
        p.line = commandLine tokens := by
  simp only [Template.compile, Template.tokens, parse, bind_eq_ok_iff, mapError_eq_ok_iff, pure,
    Except.pure, Except.ok.injEq, assemble_eq_ok_iff]
  constructor
  · rintro ⟨tokens, ⟨lexemes, hlex, hfill⟩, parts, ⟨hfilled, rfl⟩, stages, hstages, rfl⟩
    exact ⟨lexemes, tokens, hlex, hfill, hfilled, hstages, rfl⟩
  · rintro ⟨lexemes, tokens, hlex, hfill, hfilled, hstages, hline⟩
    refine ⟨tokens, ⟨lexemes, hlex, hfill⟩, _, ⟨hfilled, rfl⟩, p.stages, hstages, ?_⟩
    cases p
    simp_all

end ShellTemplate
