import ShellTemplate.Text.Numeral
import ShellTemplate.Token

/-!
# Pipelines

What a command line describes: commands connected by pipes, each with its
words and with the place where each redirected descriptor ends up.
-/

namespace ShellTemplate

/-- One complete shell word. -/
structure Word where
  /-- The shell text as it stands on the command line. -/
  raw : List Char := []
  /-- The text after quote removal. -/
  value : List Char := []
  expands : Bool := false
deriving DecidableEq, Repr, Inhabited

namespace Word

def push (w : Word) (p : Piece) : Word where
  raw := w.raw ++ p.raw
  value := w.value ++ p.text
  expands := w.expands || p.expands

/-- A shell name: a letter or underscore, then letters, digits and underscores. -/
def isName : List Char → Bool
  | [] => false
  | c :: rest => (c = '_' || isLetter c) && rest.all fun d ↦ d = '_' || isLetter d || isDigit d

/-- Written as `NAME=value`, which the shell takes as a variable assignment before the
command name. -/
def isAssignment (w : Word) : Bool :=
  w.raw.contains '=' && isName (w.raw.takeWhile (· ≠ '='))

end Word

inductive FileMode where
  | read
  | truncate
  | append
deriving DecidableEq, Repr, Inhabited

/-- Where a file descriptor ends up. -/
inductive Target where
  | file (path : Word) (mode : FileMode)
  /-- The command's own descriptor as it was before any redirection. -/
  | descriptor (fd : Nat)
deriving DecidableEq, Repr, Inhabited

/-- The redirected descriptors of a command in increasing order. -/
abbrev Redirects := List (Nat × Target)

namespace Redirects

def get? (redirects : Redirects) (fd : Nat) : Option Target := redirects.lookup fd

/-- Record where `fd` goes, in place of what was recorded before. -/
def set (fd : Nat) (target : Target) : Redirects → Redirects
  | [] => [(fd, target)]
  | (k, t) :: rest =>
    if fd < k then (fd, target) :: (k, t) :: rest
    else if fd = k then (fd, target) :: rest
    else (k, t) :: set fd target rest

end Redirects

/-- A simple command: its words and its redirections. -/
structure Stage where
  argv : List Word := []
  redirects : Redirects := []
deriving DecidableEq, Repr, Inhabited

/-- The commands that exist only inside the shell or change the shell itself. -/
def shellBuiltins : List String :=
  [".", ":", "alias", "bg", "break", "cd", "command", "continue", "eval", "exec", "exit",
    "export", "fg", "getopts", "hash", "jobs", "local", "read", "readonly", "return", "set",
    "shift", "source", "times", "trap", "type", "ulimit", "umask", "unalias", "unset", "wait"]

def isShellBuiltin (name : List Char) : Bool := shellBuiltins.any fun b ↦ b.toList = name

namespace Stage

def program? (stage : Stage) : Option (List Char) := stage.argv.head?.map Word.value

/-- The shell sets up descriptors that a directly started program cannot have. -/
def redirectNeedsShell : Nat × Target → Bool
  | (_, .descriptor _) => true
  | (fd, .file path _) => fd > 2 || path.expands

/-- Starting the command directly from its words would differ from what the shell does. -/
def needsShell (stage : Stage) : Bool :=
  stage.argv.head?.any (fun w ↦ w.isAssignment || isShellBuiltin w.value)
    || stage.argv.any Word.expands
    || stage.redirects.any redirectNeedsShell

/-- A descriptor other than standard input is written to a file. -/
def writesFile (stage : Stage) : Bool :=
  stage.redirects.any fun
    | (fd, .file _ mode) => fd ≠ 0 && mode ≠ .read
    | (_, .descriptor _) => false

end Stage

/-- Commands connected by pipes, with the command line that says the same. -/
structure Pipeline where
  stages : List Stage
  line : List Char
deriving DecidableEq, Repr, Inhabited

namespace Pipeline

/-- The pipeline relies on expansions or descriptors that only a shell provides. -/
def requiresShell (p : Pipeline) : Bool := p.stages.any Stage.needsShell

def hasOutputRedirection (p : Pipeline) : Bool := p.stages.any Stage.writesFile

end Pipeline

end ShellTemplate
