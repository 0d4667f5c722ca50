import ShellTemplate.Host.ByteText
import ShellTemplate.Token

/-!
# Shell scripts

The commands of a POSIX shell language: simple commands with assignments and
redirections, pipelines and lists of them, and the common compound commands.
A word is a list of parts, some of which are still to be expanded.
-/

namespace ShellTemplate.Shell

/-- What a parameter expansion does with the value it finds. -/
inductive ParameterUse where
  | value
  | length
  /-- Another word instead of a value that is not there. With `orEmpty`, an empty value
  counts as not there. -/
  | useDefault (orEmpty : Bool)
  | assignDefault (orEmpty : Bool)
  | complain (orEmpty : Bool)
  /-- Another word instead of a value that is there. -/
  | alternative (orEmpty : Bool)
  /-- The value without a part at its end or start that matches a pattern. -/
  | trimEnd (longest : Bool)
  | trimStart (longest : Bool)
deriving DecidableEq, Repr, Inhabited

mutual

inductive WordPart where
  | literal (text : ByteText)
  /-- Text that is neither split nor matched against file names. -/
  | quoted (text : ByteText)
  | parameter (name : ByteText) (use : ParameterUse) (word : List WordPart) (inQuotes : Bool)
  | substitution (body : Script) (inQuotes : Bool)
  | arithmetic (expression : List WordPart) (inQuotes : Bool)

inductive Redirection where
  | mk (fd : Nat) (kind : RedirectKind) (target : List WordPart)

inductive Script where
  | nothing
  /-- Assignments, words and redirections, with the number of line ends behind them. -/
  | simple (behind : Nat) (assignments : List (ByteText × List WordPart))
    (words : List (List WordPart)) (redirections : List Redirection)
  | pipeline (negated : Bool) (stages : List Script)
  | andThen (first second : Script)
  | orElse (first second : Script)
  | sequence (first second : Script)
  | background (body : Script)
  | subshell (body : Script) (redirections : List Redirection)
  | group (body : Script) (redirections : List Redirection)
  | conditional (condition yes no : Script)
  /-- Repeat while the condition succeeds, or fails when `negated`. -/
  | loop (negated : Bool) (condition body : Script)
  /-- Repeat for each word; for each argument where no words are given. -/
  | forEach (name : ByteText) (words : Option (List (List WordPart))) (body : Script)

end

instance : Inhabited Script := ⟨.nothing⟩

instance : Inhabited WordPart := ⟨.literal []⟩

end ShellTemplate.Shell
