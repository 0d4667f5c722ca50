import Mathlib.Data.List.Forall2
import ShellTemplate.Proofs.Lexeme.Holes

/-!
# The outline of a template

Filling a template in two steps: first everything but the texts, which gives
the same outline for all texts, and then the texts. The outline is divided into
words and operators in the same way as the tokens that it becomes.
-/

namespace ShellTemplate

/-- The text in a hole, where its value is one. -/
def textAt (values : List Value) (index : Nat) : List Char :=
  (values[index]?.bind Value.literalText?).getD []

namespace Lexeme

/-- The token that a lexeme becomes with these texts in the holes. -/
def plug (texts : Nat → List Char) : Lexeme → Token
  | ⟨.hole index, quoting, enclosing⟩ => .piece (literalPiece quoting enclosing (texts index))
  | ⟨token, _, _⟩ => token

variable {texts : Nat → List Char}

@[simp] theorem plug_hole (index : Nat) (quoting : Quoting) (enclosing : Enclosing) :
    plug texts ⟨.hole index, quoting, enclosing⟩ =
      .piece (literalPiece quoting enclosing (texts index)) := rfl

theorem plug_of_not_hole {lexeme : Lexeme} (h : lexeme.token.isHole = false) :
    lexeme.plug texts = lexeme.token := by
  obtain ⟨token, quoting, enclosing⟩ := lexeme
  cases token with
  | hole index => simp at h
  | piece p | operator op | blank => rfl

theorem isHole_plug (lexeme : Lexeme) : (lexeme.plug texts).isHole = false := by
  obtain ⟨token, quoting, enclosing⟩ := lexeme
  cases token <;> rfl

end Lexeme

/-- Tokens as lexemes; their context no longer matters. -/
def bareLexemes (tokens : List Token) : List Lexeme := tokens.map fun token ↦ ⟨token, .bare, {}⟩

/-- Fill a hole unless its value is a text that may stand there. -/
def outlineHole (options : FillOptions) (quoting : Quoting) (enclosing : Enclosing) (index : Nat)
    (value : Value) : Except FillingError (List Lexeme) :=
  if value.literalText?.isSome then
    match Value.unsafeContext? quoting enclosing with
    | some context => .error (.fill (.unsafeContext context))
    | none => .ok [⟨.hole index, quoting, enclosing⟩]
  else
    (fillHole options quoting enclosing value).map bareLexemes

/-- Fill every hole but those of texts. -/
def outline (options : FillOptions) (values : List Value) :
    List Lexeme → Except FillingError (List Lexeme)
  | [] => .ok []
  | ⟨.hole index, quoting, enclosing⟩ :: rest =>
    match values[index]? with
    | none => .error (.fill (.missingValue index))
    | some value => do
      let own ← outlineHole options quoting enclosing index value
      let more ← outline options values rest
      return own ++ more
  | lexeme :: rest => do
    let more ← outline options values rest
    return lexeme :: more

section Filling

variable {options : FillOptions} {values : List Value}

theorem mem_intersperse {α : Type} {separator x : α} {xs : List α}
    (h : x ∈ xs.intersperse separator) : x = separator ∨ x ∈ xs := by
  induction xs with
  | nil => simp at h
  | cons y ys ih =>
      cases ys with
      | nil => exact .inr h
      | cons z zs =>
          rw [List.intersperse_cons_cons, List.mem_cons, List.mem_cons] at h
          rcases h with rfl | rfl | h
          · exact .inr (by simp)
          · exact .inl rfl
          · exact (ih h).imp_right (List.mem_cons_of_mem y)

theorem isHole_of_fillHole {value : Value} (h : value.literalText? = none) {quoting : Quoting}
    {enclosing : Enclosing} {tokens : List Token}
    (hfill : fillHole options quoting enclosing value = .ok tokens) :
    ∀ token ∈ tokens, token.isHole = false := by
  cases value with
  | str | scalar | joined => simp [Value.literalText?] at h
  | raw text =>
      obtain ⟨_, lexemes, hlex, rfl⟩ := fillHole_raw hfill
      obtain ⟨out, final, hscan, hfinish, rfl⟩ := scanAll_eq_ok_iff.1 hlex
      have hfilled : Filled (out.2 ++ final) :=
        Filled.append_iff.2 ⟨(scans_of_scan hscan).filled (plain_ofText text), .finish hfinish⟩
      intro token htoken
      obtain ⟨lexeme, hl, rfl⟩ := List.mem_map.1 htoken
      exact hfilled lexeme hl
  | list items =>
      obtain ⟨pieces, _, rfl⟩ := map_eq_ok_iff.1 (mapError_eq_ok_iff.1 hfill)
      intro token htoken
      rcases mem_intersperse htoken with rfl | hmem
      · rfl
      · obtain ⟨p, _, rfl⟩ := List.mem_map.1 hmem
        rfl

theorem map_plug_bareLexemes {texts : Nat → List Char} {tokens : List Token}
    (h : ∀ token ∈ tokens, token.isHole = false) :
    (bareLexemes tokens).map (Lexeme.plug texts) = tokens := by
  rw [bareLexemes, List.map_map]
  exact (List.map_congr_left fun token ht ↦
    @Lexeme.plug_of_not_hole texts ⟨token, .bare, {}⟩ (h token ht)).trans
    (List.map_id _)

theorem fillHole_eq_outlineHole {index : Nat} {value : Value} (hvalue : values[index]? = some value)
    (quoting : Quoting) (enclosing : Enclosing) : fillHole options quoting enclosing value =
      (outlineHole options quoting enclosing index value).map
        (·.map (Lexeme.plug (textAt values))) := by
  unfold outlineHole
  cases htext : value.literalText? with
  | some text =>
      rw [fillHole_of_text htext]
      simp only [Option.isSome_some, if_true]
      cases Value.unsafeContext? quoting enclosing with
      | some context => rfl
      | none => simp [Except.map, textAt, hvalue, htext]
  | none =>
      simp only [Option.isSome_none, Bool.false_eq_true, if_false]
      cases hfill : fillHole options quoting enclosing value with
      | error e => rfl
      | ok tokens =>
          simp [Except.map, map_plug_bareLexemes (isHole_of_fillHole htext hfill)]

theorem fill_eq_outline (lexemes : List Lexeme) : fill options values lexemes =
    (outline options values lexemes).map (·.map (Lexeme.plug (textAt values))) := by
  induction lexemes with
  | nil => rfl
  | cons lexeme rest ih =>
      obtain ⟨token, quoting, enclosing⟩ := lexeme
      cases token with
      | hole index =>
          simp only [fill, outline]
          cases hvalue : values[index]? with
          | none => rfl
          | some value =>
              simp only [ih]
              change fillHole options quoting enclosing value >>= _ = _
              rw [fillHole_eq_outlineHole hvalue]
              cases outlineHole options quoting enclosing index value with
              | error e => rfl
              | ok own =>
                  cases outline options values rest with
                  | error e => rfl
                  | ok more => simp [Except.map, bind, Except.bind, pure, Except.pure]
      | piece p | operator op | blank =>
          simp only [fill, outline, ih]
          cases outline options values rest <;> rfl

end Filling

/-- Two values that only differ in their texts. -/
inductive Value.Exchange : Value → Value → Prop
  | same (value : Value) : Value.Exchange value value
  | text {value value' : Value} (h : value.literalText?.isSome = true)
      (h' : value'.literalText?.isSome = true) :
      Value.Exchange value value'

theorem outlineHole_exchange {options : FillOptions} {quoting : Quoting} {enclosing : Enclosing}
    {index : Nat} {value value' : Value} (h : value.Exchange value') :
    outlineHole options quoting enclosing index value =
      outlineHole options quoting enclosing index value' := by
  cases h with
  | same => rfl
  | text h h' => simp only [outlineHole, h, h', if_true]

theorem getElem?_forall₂ {α β : Type} {R : α → β → Prop} {xs : List α} {ys : List β}
    (h : List.Forall₂ R xs ys) (index : Nat) : Option.Rel R xs[index]? ys[index]? := by
  induction h generalizing index with
  | nil => exact .none
  | cons hhead _ ih =>
      cases index with
      | zero => exact .some hhead
      | succ index => exact ih index

/-- The outline does not depend on the texts. -/
theorem outline_exchange {options : FillOptions} {values values' : List Value}
    (h : List.Forall₂ Value.Exchange values values') (lexemes : List Lexeme) :
    outline options values lexemes = outline options values' lexemes := by
  induction lexemes with
  | nil => rfl
  | cons lexeme rest ih =>
      obtain ⟨token, quoting, enclosing⟩ := lexeme
      cases token with
      | hole index =>
          simp only [outline, ih]
          have hvalue := getElem?_forall₂ h index
          generalize values[index]? = value at hvalue
          generalize values'[index]? = value' at hvalue
          cases hvalue with
          | none => rfl
          | some hvalue => simp only [outlineHole_exchange hvalue]
      | piece p | operator op | blank => simp only [outline, ih]

/-- The piece that a lexeme adds to its word. -/
def Lexeme.pieceWith (texts : Nat → List Char) (lexeme : Lexeme) : Piece :=
  match lexeme.plug texts with
  | .piece p => p
  | _ => {}

/-- The word that consists of these lexemes. -/
def wordOf (texts : Nat → List Char) (lexemes : List Lexeme) : Word :=
  lexemes.foldl (fun w lexeme ↦ w.push (lexeme.pieceWith texts)) {}

/-- A word of an outline, as the lexemes it consists of, or an operator. -/
inductive OutlinePart where
  | word (lexemes : List Lexeme)
  | operator (op : Operator)
deriving DecidableEq

def OutlinePart.plug (texts : Nat → List Char) : OutlinePart → Part
  | .word lexemes => .word (wordOf texts lexemes)
  | .operator op => .operator op

/-- The part that ends with a word of these lexemes, if there are any. -/
def outlineWord (word : List Lexeme) : List OutlinePart := if word = [] then [] else [.word word]

/-- Divide an outline into words and operators, after the start of a word that was read
before. -/
def outlinePartsFrom (word : List Lexeme) : List Lexeme → List OutlinePart
  | [] => outlineWord word
  | lexeme :: rest =>
    match lexeme.token with
    | .piece _ | .hole _ => outlinePartsFrom (word ++ [lexeme]) rest
    | .blank => outlineWord word ++ outlinePartsFrom [] rest
    | .operator op => outlineWord word ++ .operator op :: outlinePartsFrom [] rest

def outlineParts (lexemes : List Lexeme) : List OutlinePart := outlinePartsFrom [] lexemes

/-- The word that is going on after these lexemes of it. -/
def wordSoFar (texts : Nat → List Char) (word : List Lexeme) : Option Word :=
  if word = [] then none else some (wordOf texts word)

section Parts

variable {texts : Nat → List Char} {word : List Lexeme}

theorem partOfWord_wordSoFar :
    partOfWord (wordSoFar texts word) = (outlineWord word).map (OutlinePart.plug texts) := by
  unfold wordSoFar outlineWord
  split_ifs <;> rfl

theorem wordSoFar_append (lexeme : Lexeme) : wordSoFar texts (word ++ [lexeme]) =
    some (((wordSoFar texts word).getD {}).push (lexeme.pieceWith texts)) := by
  by_cases h : word = [] <;> simp [wordSoFar, wordOf, h]

theorem finish_plug (lexemes : List Lexeme) :
    (Assembly.addAll ⟨[], wordSoFar texts word⟩ (lexemes.map (Lexeme.plug texts))).finish =
      (outlinePartsFrom word lexemes).map (OutlinePart.plug texts) := by
  induction lexemes generalizing word with
  | nil => simp [Assembly.finish, outlinePartsFrom, partOfWord_wordSoFar]
  | cons lexeme rest ih =>
      obtain ⟨token, quoting, enclosing⟩ := lexeme
      have hempty : wordSoFar texts [] = none := rfl
      rw [List.map_cons, Assembly.addAll_cons]
      cases token with
      | piece p =>
          have hih := @ih (word ++ [⟨.piece p, quoting, enclosing⟩])
          rw [wordSoFar_append] at hih
          exact hih
      | hole index =>
          have hih := @ih (word ++ [⟨.hole index, quoting, enclosing⟩])
          rw [wordSoFar_append] at hih
          exact hih
      | blank =>
          have hih := @ih []
          rw [hempty] at hih
          rw [Assembly.finish_addAll]
          simp [Assembly.add, Lexeme.plug, outlinePartsFrom, partOfWord_wordSoFar, hih]
      | operator op =>
          have hih := @ih []
          rw [hempty] at hih
          rw [Assembly.finish_addAll]
          simp [Assembly.add, Lexeme.plug, outlinePartsFrom, partOfWord_wordSoFar, hih,
            OutlinePart.plug]

end Parts

/-- A part of a word's value: static text, or the text in a hole. -/
inductive Fragment where
  | static (text : List Char)
  | hole (index : Nat)
deriving DecidableEq, Repr

def Fragment.text (texts : Nat → List Char) : Fragment → List Char
  | .static text => text
  | .hole index => texts index

def Lexeme.fragment : Lexeme → Fragment
  | ⟨.hole index, _, _⟩ => .hole index
  | ⟨.piece p, _, _⟩ => .static p.text
  | _ => .static []

theorem Lexeme.text_pieceWith (texts : Nat → List Char) (lexeme : Lexeme) :
    (lexeme.pieceWith texts).text = lexeme.fragment.text texts := by
  obtain ⟨token, quoting, enclosing⟩ := lexeme
  cases token <;> rfl

/-- The value of a word is put together from static texts and the texts in its holes. -/
theorem value_wordOf (texts : Nat → List Char) (lexemes : List Lexeme) :
    (wordOf texts lexemes).value = (lexemes.map Lexeme.fragment).flatMap (Fragment.text texts) := by
  have hfold : ∀ w : Word,
      (lexemes.foldl (fun w lexeme ↦ w.push (lexeme.pieceWith texts)) w).value =
        w.value ++ (lexemes.map Lexeme.fragment).flatMap (Fragment.text texts) := by
    induction lexemes with
    | nil => simp
    | cons lexeme rest ih =>
        intro w
        rw [List.foldl_cons, ih]
        simp [Word.push, Lexeme.text_pieceWith]
  exact (hfold {}).trans (List.nil_append _)

theorem expands_wordOf (texts texts' : Nat → List Char) (lexemes : List Lexeme) :
    (wordOf texts lexemes).expands = (wordOf texts' lexemes).expands := by
  have hpiece : ∀ lexeme : Lexeme,
      (lexeme.pieceWith texts).expands = (lexeme.pieceWith texts').expands := by
    rintro ⟨token, quoting, enclosing⟩
    cases token <;> rfl
  have hfold : ∀ w w' : Word, w.expands = w'.expands →
      (lexemes.foldl (fun w lexeme ↦ w.push (lexeme.pieceWith texts)) w).expands =
        (lexemes.foldl (fun w lexeme ↦ w.push (lexeme.pieceWith texts')) w').expands := by
    induction lexemes with
    | nil => exact fun _ _ h ↦ h
    | cons lexeme rest ih =>
        intro w w' h
        exact ih _ _ (by simp [Word.push, h, hpiece])
  exact hfold _ _ rfl

theorem wordOf_of_filled {lexemes : List Lexeme} (h : Filled lexemes)
    (texts texts' : Nat → List Char) : wordOf texts lexemes = wordOf texts' lexemes := by
  refine List.foldl_ext _ _ _ fun w lexeme hl ↦ ?_
  simp only [Lexeme.pieceWith, Lexeme.plug_of_not_hole (h lexeme hl)]

end ShellTemplate
