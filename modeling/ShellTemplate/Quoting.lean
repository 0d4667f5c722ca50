/-!
# Quoting contexts

Where in the shell text a position stands, and how a text is written there so
that quote removal gives it back.
-/

namespace ShellTemplate

/-- The quoting context of a position in shell text. -/
inductive Quoting where
  | bare
  | single
  | double
  /-- Inside `$(…)` or backticks, `depth` substitutions deep. -/
  | substitution (depth : Nat)
  /-- Directly after a backslash outside double quotes. -/
  | escaped
  /-- Inside a parameter expansion in braces. -/
  | parameter
deriving DecidableEq, Repr, Inhabited

namespace Quoting

/-- Inside single or double quotes. -/
def isQuoted : Quoting → Bool
  | .single | .double => true
  | _ => false

def describe : Quoting → String
  | .bare => "unquoted"
  | .single => "single-quoted string"
  | .double => "double-quoted string"
  | .substitution depth => s!"command substitution (depth {depth})"
  | .escaped => "escape"
  | .parameter => "parameter expansion"

end Quoting

/-- The constructs around a hole that its text has to survive on top of the innermost
quoting context. -/
structure Enclosing where
  /-- Backtick substitutions around the hole; each strips one level of backslashes. -/
  backticks : Nat := 0
  /-- One of them opened inside double quotes. -/
  quotedBackticks : Bool := false
  /-- The hole stands inside a parameter expansion in braces. -/
  parameter : Bool := false
deriving DecidableEq, Repr, Inhabited

/-- Write a backslash before each character that `special` selects. -/
def escapeBefore (special : Char → Bool) (text : List Char) : List Char :=
  text.flatMap fun c ↦ if special c then ['\\', c] else [c]

/-- The characters that double quotes leave special. -/
def isSpecialInDouble (c : Char) : Bool := c = '"' || c = '\\' || c = '$' || c = '\x60'

/-- The characters in front of which a backtick substitution removes a backslash. -/
def isSpecialInBackticks (c : Char) : Bool := c = '\\' || c = '\x60' || c = '$'

def escapeDouble (text : List Char) : List Char := escapeBefore isSpecialInDouble text

/-- Add the backslashes that the shell strips when it reads a backtick body. -/
def escapeBackticks (text : List Char) : List Char := escapeBefore isSpecialInBackticks text

/-- Inside single quotes a quote is written by closing, escaping and reopening. -/
def escapeSingle (text : List Char) : List Char :=
  text.flatMap fun c ↦ if c = '\'' then ['\'', '\\', '\'', '\''] else [c]

/-- `text` as one single-quoted shell word. -/
def singleQuote (text : List Char) : List Char := '\'' :: escapeSingle text ++ ['\'']

end ShellTemplate
