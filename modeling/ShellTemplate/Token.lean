import ShellTemplate.Quoting

/-!
# Tokens of a command line

The pieces that scanning shell text yields: parts of words, holes, operators
and the blanks between them. A lexeme is a token with its quoting context.
-/

namespace ShellTemplate

/-- What a redirection does to its descriptor. -/
inductive RedirectKind where
  | out
  | append
  | input
  | dupOut
  | dupIn
deriving DecidableEq, Repr, Inhabited

namespace RedirectKind

def text : RedirectKind → List Char
  | .out => ['>']
  | .append => ['>', '>']
  | .input => ['<']
  | .dupOut => ['>', '&']
  | .dupIn => ['<', '&']

/-- The descriptor that is redirected where none is written. -/
def defaultDescriptor : RedirectKind → Nat
  | .input | .dupIn => 0
  | .out | .append | .dupOut => 1

end RedirectKind

/-- A redirection operator with the descriptor written before it, if any. -/
structure Redirect where
  fd : Option Nat
  kind : RedirectKind
deriving DecidableEq, Repr, Inhabited

namespace Redirect

def text (r : Redirect) : List Char :=
  (match r.fd with
    | some fd => (toString fd).toList
    | none => []) ++ r.kind.text

/-- The descriptor that is redirected. -/
def descriptor (r : Redirect) : Nat := r.fd.getD r.kind.defaultDescriptor

end Redirect

/-- A control operator of the shell. -/
inductive Operator where
  | pipe
  | redirect (redirect : Redirect)
  | semicolon
  | newline
  | background
  | and
  | or
  | openParen
  | closeParen
deriving DecidableEq, Repr, Inhabited

def Operator.text : Operator → List Char
  | .pipe => ['|']
  | .redirect r => r.text
  | .semicolon => [';']
  | .newline => ['\n']
  | .background => ['&']
  | .and => ['&', '&']
  | .or => ['|', '|']
  | .openParen => ['(']
  | .closeParen => [')']

/-- A run of word text between delimiters and holes. -/
structure Piece where
  /-- The shell text as it goes on the command line. -/
  raw : List Char := []
  /-- The literal text after quote removal. -/
  text : List Char := []
  /-- The shell would expand some of it. -/
  expands : Bool := false
deriving DecidableEq, Repr, Inhabited

inductive Token where
  /-- Part of a word; adjacent pieces belong to one word. -/
  | piece (piece : Piece)
  /-- The place of the template's hole with this number. -/
  | hole (index : Nat)
  | operator (op : Operator)
  | blank
deriving DecidableEq, Repr, Inhabited

/-- A token with the quoting context at its start; `enclosing` matters for holes. -/
structure Lexeme where
  token : Token
  quoting : Quoting
  enclosing : Enclosing := {}
deriving DecidableEq, Repr, Inhabited

end ShellTemplate
