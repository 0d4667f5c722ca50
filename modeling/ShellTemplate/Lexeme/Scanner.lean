import ShellTemplate.Lexeme.Item
import ShellTemplate.Text.Numeral
import ShellTemplate.Token

/-!
# The scanner

A machine that reads shell text one symbol at a time. Its state holds the
quoting constructs that are open, the piece of a word read so far, and what
the next symbol may complete. A step returns the new state with the lexemes it
completed. Backtick bodies are cut out and scanned on their own; this module
says what scanning them needs and how the outcome is spliced back.
-/

namespace ShellTemplate

/-- An open quoting construct and the place of its opener. -/
inductive Frame where
  | single (opened : Nat)
  | double (opened : Nat)
  /-- A command substitution with the number of parentheses open in it. -/
  | substitution (opened parens : Nat)
  | parameter (opened : Nat)
deriving DecidableEq, Repr, Inhabited

namespace Frame

def opened : Frame → Nat
  | .single p | .double p | .substitution p _ | .parameter p => p

def isDouble : Frame → Bool
  | .double _ => true
  | _ => false

def isSubstitution : Frame → Bool
  | .substitution _ _ => true
  | _ => false

def isParameter : Frame → Bool
  | .parameter _ => true
  | _ => false

end Frame

/-- What the last symbols left undecided. -/
inductive Mode where
  | plain
  /-- Inside a comment, up to the end of the line. -/
  | comment
  /-- After a backslash. -/
  | escape
  /-- After a dollar sign at this place. -/
  | dollar (opened : Nat)
  | pipe
  | ampersand
  /-- After `>` with the descriptor written before it. -/
  | greater (fd : Option Nat)
  /-- After `<` with the descriptor written before it. -/
  | less (fd : Option Nat)
deriving DecidableEq, Repr, Inhabited

/-- What the last completed lexeme was. -/
inductive Previous where
  /-- Nothing yet, or an operator. -/
  | boundary
  /-- A piece or a hole, so that a word is going on. -/
  | word
  | blank
deriving DecidableEq, Repr, Inhabited

/-- The backtick substitutions around the text that is scanned. -/
structure Scope where
  /-- Substitutions of either spelling around the text. -/
  depth : Nat := 0
  backticks : Nat := 0
  quotedBackticks : Bool := false
deriving DecidableEq, Repr, Inhabited

structure Scanner where
  /-- Open constructs, innermost first. -/
  frames : List Frame := []
  mode : Mode := .plain
  /-- The piece read so far; empty when its raw text is. -/
  piece : Piece := {}
  /-- The context at the start of `piece`. -/
  start : Quoting := .bare
  previous : Previous := .boundary
deriving DecidableEq, Repr, Inhabited

/-- The frames of the current command: a command substitution starts a new one. -/
def commandFrames (frames : List Frame) : List Frame :=
  frames.takeWhile fun f ↦ !f.isSubstitution

namespace Scope

def substitutions (scope : Scope) (frames : List Frame) : Nat :=
  scope.depth + frames.countP Frame.isSubstitution

/-- The context with these frames open. -/
def quoting (scope : Scope) (frames : List Frame) : Quoting :=
  match frames with
  | [] => if scope.depth = 0 then .bare else .substitution scope.depth
  | .single _ :: _ => .single
  | .double _ :: _ => .double
  | .parameter _ :: _ => .parameter
  | .substitution _ _ :: _ => .substitution (scope.substitutions frames)

def enclosing (scope : Scope) (frames : List Frame) : Enclosing where
  backticks := scope.backticks
  quotedBackticks := scope.quotedBackticks
  parameter := (commandFrames frames).any Frame.isParameter

/-- The scope of a backtick body that opens with these frames open. -/
def body (scope : Scope) (frames : List Frame) : Scope where
  depth := scope.substitutions frames + 1
  backticks := scope.backticks + 1
  quotedBackticks := scope.quotedBackticks || (commandFrames frames).any Frame.isDouble

end Scope

/-- A scanner together with the lexemes that a step completed. -/
abbrev Step := Scanner × List Lexeme

namespace Step

/-- Go on from the scanner of a step. -/
def andThen (step : Step) (next : Scanner → Step) : Step :=
  ((next step.1).1, step.2 ++ (next step.1).2)

end Step

namespace Scanner

variable (scope : Scope)

/-- Nothing of the current word has been read yet. -/
def atWordStart (s : Scanner) : Bool := s.piece.raw.isEmpty && s.previous != .word

/-- Complete the current piece, if there is one. -/
def flush (s : Scanner) : Step :=
  if s.piece.raw = [] then
    (s, [])
  else
    ({ s with piece := {}, previous := .word }, [⟨.piece s.piece, s.start, {}⟩])

/-- Add to the current piece; the context is that of its first character. -/
def push (raw text : List Char) (s : Scanner) : Scanner :=
  { s with
    piece := { s.piece with raw := s.piece.raw ++ raw, text := s.piece.text ++ text }
    start := if s.piece.raw = [] then scope.quoting s.frames else s.start }

/-- A character that stands for itself. -/
def pushChar (c : Char) (s : Scanner) : Scanner := s.push scope [c] [c]

/-- A character that quote removal takes away. -/
def pushSyntax (c : Char) (s : Scanner) : Scanner := s.push scope [c] []

def markExpands (s : Scanner) : Scanner := { s with piece := { s.piece with expands := true } }

def enter (frame : Frame) (s : Scanner) : Scanner := { s with frames := frame :: s.frames }

def leave (s : Scanner) : Scanner := { s with frames := s.frames.tail }

def inMode (mode : Mode) (s : Scanner) : Scanner := { s with mode := mode }

def emitOperator (op : Operator) (s : Scanner) : Step :=
  s.flush.andThen fun s ↦ ({ s with previous := .boundary }, [⟨.operator op, .bare, {}⟩])

/-- A run of blanks makes one lexeme. -/
def emitBlank (s : Scanner) : Step :=
  s.flush.andThen fun s ↦
    if s.previous = .blank then (s, []) else ({ s with previous := .blank }, [⟨.blank, .bare, {}⟩])

def emitHole (index : Nat) (quoting : Quoting) (enclosing : Enclosing) (s : Scanner) : Step :=
  s.flush.andThen fun s ↦ ({ s with previous := .word }, [⟨.hole index, quoting, enclosing⟩])

/-- The backslash before a hole escapes nothing once the hole is quoted: it is taken back. -/
def readEscapedHole (index : Nat) (s : Scanner) : Step :=
  let quoting :=
    match s.frames with
    | .double _ :: _ => Quoting.double
    | _ => Quoting.escaped
  emitHole index quoting (scope.enclosing s.frames)
    { s with mode := .plain, piece := { s.piece with raw := s.piece.raw.dropLast } }

def readHole (index : Nat) (s : Scanner) : Step :=
  s.emitHole index (scope.quoting s.frames) (scope.enclosing s.frames)

/-- The character after a backslash. An escaped newline vanishes; inside double quotes a
backslash is kept unless it stands before a special character. -/
def readEscaped (c : Char) (s : Scanner) : Scanner :=
  let s := s.inMode .plain
  let inDouble :=
    match s.frames with
    | .double _ :: _ => true
    | _ => false
  if c = '\n' then s.push scope [c] []
  else if inDouble && !isSpecialInDouble c then s.push scope [c] ['\\', c]
  else s.push scope [c] [c]

def readBackslash (s : Scanner) : Scanner := (s.pushSyntax scope '\\').inMode .escape

/-- The descriptor number written directly before a redirection operator: a word of its
own that consists of digits. -/
def writtenDescriptor? (s : Scanner) : Option Nat :=
  if !s.piece.expands && s.previous != .word then readDescriptor? s.piece.raw else none

/-- Start a redirection operator; a descriptor number before it leaves the word. -/
def readAngle (mode : Option Nat → Mode) (s : Scanner) : Scanner :=
  match s.writtenDescriptor? with
  | some fd => { s with piece := {}, mode := mode (some fd) }
  | none => { s with mode := mode none }

/-- A character outside all quotes. -/
def readBare (c : Char) (place : Nat) (s : Scanner) : Step :=
  if c = ' ' ∨ c = '\t' ∨ c = '\r' then s.emitBlank
  else if c = '\n' then s.emitOperator .newline
  else if c = '#' ∧ s.atWordStart then (s.inMode .comment, [])
  else if c = '\'' then ((s.pushSyntax scope c).enter (.single place), [])
  else if c = '"' then ((s.pushSyntax scope c).enter (.double place), [])
  else if c = '\\' then (s.readBackslash scope, [])
  else if c = '$' then (s.inMode (.dollar place), [])
  else if c = '|' then (s.inMode .pipe, [])
  else if c = '&' then (s.inMode .ampersand, [])
  else if c = ';' then s.emitOperator .semicolon
  else if c = '(' then s.emitOperator .openParen
  else if c = ')' then s.emitOperator .closeParen
  else if c = '>' then (s.readAngle .greater, [])
  else if c = '<' then (s.readAngle .less, [])
  else if c = '*' ∨ c = '?' ∨ c = '[' ∨ c = '\x7b' then ((s.pushChar scope c).markExpands, [])
  else if c = '~' ∧ s.atWordStart then ((s.pushChar scope c).markExpands, [])
  else (s.pushChar scope c, [])

/-- A character directly inside `$(…)`, with `parens` parentheses open. -/
def readSubstitution (c : Char) (place opened parens : Nat) (s : Scanner) : Scanner :=
  if c = ')' then
    match parens with
    | 0 => s.leave.pushChar scope c
    | n + 1 => (s.leave.enter (.substitution opened n)).pushChar scope c
  else if c = '(' then (s.leave.enter (.substitution opened (parens + 1))).pushChar scope c
  else if c = '\'' then (s.pushChar scope c).enter (.single place)
  else if c = '"' then (s.pushChar scope c).enter (.double place)
  else if c = '\\' then s.readBackslash scope
  else if c = '$' then s.inMode (.dollar place)
  else s.pushChar scope c

/-- A character directly inside a parameter expansion. A single quote quotes only where
the expansion itself is not inside double quotes. -/
def readParameter (c : Char) (place : Nat) (s : Scanner) : Scanner :=
  if c = '\x7d' then s.leave.pushChar scope c
  else if c = '"' then (s.pushChar scope c).enter (.double place)
  else if c = '\'' ∧ !(commandFrames s.frames).any Frame.isDouble then
    (s.pushChar scope c).enter (.single place)
  else if c = '\\' then s.readBackslash scope
  else if c = '$' then s.inMode (.dollar place)
  else s.pushChar scope c

/-- A character with nothing undecided before it. -/
def readChar (c : Char) (place : Nat) (s : Scanner) : Step :=
  match s.frames with
  | [] => s.readBare scope c place
  | .single _ :: _ =>
    if c = '\'' then (s.leave.pushSyntax scope c, []) else (s.pushChar scope c, [])
  | .double _ :: _ =>
    if c = '"' then (s.leave.pushSyntax scope c, [])
    else if c = '\\' then (s.readBackslash scope, [])
    else if c = '$' then (s.inMode (.dollar place), [])
    else (s.pushChar scope c, [])
  | .substitution opened parens :: _ => (s.readSubstitution scope c place opened parens, [])
  | .parameter _ :: _ => (s.readParameter scope c place, [])

/-- The characters that make a dollar sign before them an expansion. -/
def startsExpansion (c : Char) : Bool :=
  isLetter c || isDigit c || c ∈ ['_', '@', '*', '#', '?', '$', '!', '-', '\'', '"']

/-- Decide what was left undecided, given that it ends here. -/
def settle (s : Scanner) : Step :=
  match s.mode with
  | .plain | .comment | .escape => (s, [])
  | .dollar _ => ((s.inMode .plain).pushChar scope '$', [])
  | .pipe => (s.inMode .plain).emitOperator .pipe
  | .ampersand => (s.inMode .plain).emitOperator .background
  | .greater fd => (s.inMode .plain).emitOperator (.redirect ⟨fd, .out⟩)
  | .less fd => (s.inMode .plain).emitOperator (.redirect ⟨fd, .input⟩)

/-- Let a character complete what the symbols before it began, if it does. -/
def complete? (c : Char) (s : Scanner) : Option Step :=
  match s.mode with
  | .comment =>
    if c = '\n' then some ((s.inMode .plain).emitOperator .newline) else some (s, [])
  | .escape => some (s.readEscaped scope c, [])
  | .dollar opened =>
    if c = '\x7b' then
      some ((((s.inMode .plain).push scope ['$', '\x7b'] ['$', '\x7b']).markExpands).enter
        (.parameter opened), [])
    else if c = '(' then
      some ((((s.inMode .plain).push scope ['$', '('] ['$', '(']).markExpands).enter
        (.substitution opened 0), [])
    else none
  | .pipe => if c = '|' then some ((s.inMode .plain).emitOperator .or) else none
  | .ampersand => if c = '&' then some ((s.inMode .plain).emitOperator .and) else none
  | .greater fd =>
    if c = '>' then some ((s.inMode .plain).emitOperator (.redirect ⟨fd, .append⟩))
    else if c = '&' then some ((s.inMode .plain).emitOperator (.redirect ⟨fd, .dupOut⟩))
    else if c = '|' then some ((s.inMode .plain).emitOperator (.redirect ⟨fd, .out⟩))
    else none
  | .less fd =>
    if c = '&' then some ((s.inMode .plain).emitOperator (.redirect ⟨fd, .dupIn⟩)) else none
  | .plain => none

/-- Decide what was left undecided before a character that does not complete it. -/
def settleBefore (c : Char) (s : Scanner) : Step :=
  match s.mode with
  | .dollar _ =>
    let s := (s.inMode .plain).pushChar scope '$'
    (if startsExpansion c then s.markExpands else s, [])
  | _ => s.settle scope

/-- Read a hole. A dollar sign before it is written with a backslash, so that it cannot
combine with the text of the hole. -/
def stepHole (index : Nat) (s : Scanner) : Step :=
  match s.mode with
  | .comment => (s, [])
  | .escape => s.readEscapedHole scope index
  | .dollar _ =>
    ((s.inMode .plain).push scope ['\\', '$'] ['$']).readHole scope index
  | _ => (s.settle scope).andThen (·.readHole scope index)

/-- Whether a backtick read next, with nothing undecided, opens a body. -/
def opensBody (s : Scanner) : Bool :=
  match s.frames with
  | .single _ :: _ => false
  | _ => true

/-- Splice the lexemes of a backtick body into the current word, with one level of
backslashes put back. -/
def spliceLexemes : List Lexeme → Scanner → Step
  | [], s => (s, [])
  | ⟨.piece p, _, _⟩ :: rest, s =>
    spliceLexemes rest (s.push scope (escapeBackticks p.raw) [])
  | ⟨.blank, _, _⟩ :: rest, s => spliceLexemes rest (s.push scope [' '] [])
  | ⟨.operator op, _, _⟩ :: rest, s =>
    spliceLexemes rest (s.push scope (escapeBackticks op.text) [])
  | ⟨.hole index, quoting, enclosing⟩ :: rest, s =>
    (s.emitHole index quoting enclosing).andThen (spliceLexemes rest)

/-- A whole backtick substitution as part of the current word. -/
def spliceBody (lexemes : List Lexeme) (s : Scanner) : Step :=
  (spliceLexemes scope lexemes (s.pushSyntax scope '\x60').markExpands).andThen fun s ↦
    (s.pushSyntax scope '\x60', [])

end Scanner

end ShellTemplate
