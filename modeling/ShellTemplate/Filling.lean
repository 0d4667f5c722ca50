import ShellTemplate.Lexeme
import ShellTemplate.Text.Blank

/-!
# Filling the holes

A value becomes shell text that reads back as exactly that value in the
context of its hole. Contexts where no such text exists are refused. Shell
syntax that the caller vouches for is scanned on its own and spliced in.
-/

namespace ShellTemplate

/-- A construct in which no value can be quoted safely. -/
inductive UnsafeContext where
  | parameterExpansion
  | quotedBackticks
deriving DecidableEq, Repr, Inhabited

def UnsafeContext.describe : UnsafeContext → String
  | .parameterExpansion => "parameter expansion `$\x7b...\x7d`"
  | .quotedBackticks => "backticks inside double quotes"

/-- Why a value cannot stand in its hole. -/
inductive FillError where
  /-- A list stands where only one word can. -/
  | ambiguousList (quoting : Quoting)
  /-- Shell syntax stands where it would be quoted or nested. -/
  | rawInContext (quoting : Quoting)
  | unsafeContext (context : UnsafeContext)
  /-- No value is known for the hole. -/
  | missingValue (index : Nat)
deriving DecidableEq, Repr, Inhabited

def FillError.message : FillError → String
  | .ambiguousList quoting =>
    s!"list value in {quoting.describe} context is ambiguous; join it with an explicit separator"
  | .rawInContext quoting =>
    s!"raw value is only allowed unquoted, found in {quoting.describe} context"
  | .unsafeContext context => s!"a value cannot be placed inside {context.describe}"
  | .missingValue index => s!"template has no value for hole {index}"

structure FillOptions where
  /-- Blanks keep one word per element of a list; any other text joins them into one. -/
  listSeparator : List Char := [' ']
deriving DecidableEq, Repr, Inhabited

def FillOptions.splitsWords (options : FillOptions) : Bool :=
  !options.listSeparator.isEmpty && options.listSeparator.all isBlank

/-- A text as it is written in a context; a word of its own outside quotes. -/
def Quoting.write (quoting : Quoting) (text : List Char) : List Char :=
  match quoting with
  | .single => escapeSingle text
  | .double => escapeDouble text
  | .bare | .escaped | .substitution _ | .parameter => singleQuote text

/-- Put back the backslashes that `levels` backtick substitutions strip. -/
def escapeLevels : Nat → List Char → List Char
  | 0, text => text
  | n + 1, text => escapeLevels n (escapeBackticks text)

/-- A word that stands for `text` in a hole. -/
def literalPiece (quoting : Quoting) (enclosing : Enclosing) (text : List Char) : Piece where
  raw := escapeLevels enclosing.backticks (quoting.write text)
  text := text

namespace Value

/-- The texts of the words that a value stands for. -/
def texts (options : FillOptions) : Value → List (List Char)
  | .str text | .scalar text | .raw text => [text]
  | .joined items separator => [separator.intercalate items]
  | .list items =>
    if options.splitsWords then items
    else if items.isEmpty then []
    else [options.listSeparator.intercalate items]

/-- The construct around a hole that makes every value unsafe there, if any. -/
def unsafeContext? (quoting : Quoting) (enclosing : Enclosing) : Option UnsafeContext :=
  if enclosing.parameter || quoting = .parameter then some .parameterExpansion
  else if enclosing.quotedBackticks then some .quotedBackticks
  else none

/-- The pieces that stand for a value in a hole. Each is a word of its own. -/
def pieces (options : FillOptions) (quoting : Quoting) (enclosing : Enclosing) (value : Value) :
    Except FillError (List Piece) :=
  match unsafeContext? quoting enclosing with
  | some context => .error (.unsafeContext context)
  | none =>
    match value with
    | .raw text =>
      if quoting = .bare then .ok [⟨text, text, false⟩] else .error (.rawInContext quoting)
    | .list _ =>
      if quoting.isQuoted then .error (.ambiguousList quoting)
      else .ok ((value.texts options).map (literalPiece quoting enclosing))
    | .str _ | .scalar _ | .joined _ _ =>
      .ok ((value.texts options).map (literalPiece quoting enclosing))

/-- The shell text of a value in a hole. -/
def render (options : FillOptions) (quoting : Quoting) (enclosing : Enclosing) (value : Value) :
    Except FillError (List Char) := do
  let pieces ← value.pieces options quoting enclosing
  return [' '].intercalate (pieces.map Piece.raw)

end Value

/-- Why the lexemes of a template cannot be filled in. -/
inductive FillingError where
  | lex (error : LexError)
  | fill (error : FillError)
deriving DecidableEq, Repr, Inhabited

/-- The tokens that a hole's value becomes. -/
def fillHole (options : FillOptions) (quoting : Quoting) (enclosing : Enclosing) :
    Value → Except FillingError (List Token)
  | .raw text =>
    if quoting = .bare then
      ((lexemesOfText text).map (·.map Lexeme.token)).mapError .lex
    else
      .error (.fill (.rawInContext quoting))
  | value =>
    ((value.pieces options quoting enclosing).map fun pieces ↦
      (pieces.map Token.piece).intersperse .blank).mapError .fill

/-- Replace each hole by the tokens of its value. -/
def fill (options : FillOptions) (values : List Value) :
    List Lexeme → Except FillingError (List Token)
  | [] => .ok []
  | ⟨.hole index, quoting, enclosing⟩ :: rest => do
    let value ←
      match values[index]? with
      | some value => .ok value
      | none => .error (.fill (.missingValue index))
    let tokens ← fillHole options quoting enclosing value
    let more ← fill options values rest
    return tokens ++ more
  | ⟨token, _, _⟩ :: rest => do
    let more ← fill options values rest
    return token :: more

end ShellTemplate
