import ShellTemplate.Text.Alphanumeric

/-!
# Path expansion

Paths in options may begin with a tilde and name environment variables. A
variable that is not set leaves all variables as written.
-/

namespace ShellTemplate

/-- The variables of an environment; the first entry of a name counts. -/
abbrev Environment := List (List Char × List Char)

namespace Environment

def get? (env : Environment) (name : List Char) : Option (List Char) := env.lookup name

end Environment

def isVariableChar (c : Char) : Bool := isAlphanumeric c || c = '_'

/-- Cut a text at the first `:-`. -/
def splitDefault? : List Char → Option (List Char × List Char)
  | ':' :: '-' :: rest => some ([], rest)
  | c :: rest => (splitDefault? rest).map fun (name, value) ↦ (c :: name, value)
  | [] => none

/-- The value of what stands between the braces of `$\{…}`: a name, or a name and a default
behind `:-`. A default needs a name before it. -/
def bracedValue? (env : Environment) (inside : List Char) : Option (List Char) :=
  match splitDefault? inside with
  | some (c :: name, default) => some ((env.get? (c :: name)).getD default)
  | _ => env.get? inside

/-- Replace each variable by its value; two dollar signs make one. `none` if a variable is
not set. As many steps as there are characters suffice. -/
def expandVariablesWithin (env : Environment) : Nat → List Char → Option (List Char)
  | 0, text => some text
  | steps + 1, text =>
    match text with
    | [] => some []
    | '$' :: '\x7b' :: rest =>
      if rest.contains '\x7d' then do
        let value ← bracedValue? env (rest.takeWhile (· ≠ '\x7d'))
        let more ← expandVariablesWithin env steps ((rest.dropWhile (· ≠ '\x7d')).drop 1)
        return value ++ more
      else (expandVariablesWithin env steps rest).map fun more ↦ '$' :: '\x7b' :: more
    | '$' :: '$' :: rest => (expandVariablesWithin env steps rest).map ('$' :: ·)
    | '$' :: rest =>
      let name := rest.takeWhile isVariableChar
      if name = [] then (expandVariablesWithin env steps rest).map ('$' :: ·)
      else do
        let value ← env.get? name
        let more ← expandVariablesWithin env steps (rest.dropWhile isVariableChar)
        return value ++ more
    | c :: rest => (expandVariablesWithin env steps rest).map (c :: ·)

def expandVariables? (env : Environment) (text : List Char) : Option (List Char) :=
  expandVariablesWithin env text.length text

/-- The home directory of the account. -/
def accountHome : List Char := "/root".toList

/-- The home directory: the one that the environment names, or that of the account if the name
is empty. -/
def homeDirectory? (env : Environment) : Option (List Char) :=
  (env.get? "HOME".toList).map fun home ↦ if home.isEmpty then accountHome else home

/-- Replace a tilde that stands alone or before a slash by the home directory. -/
def expandTilde (env : Environment) (text : List Char) : List Char :=
  match text with
  | ['~'] | '~' :: '/' :: _ =>
    match homeDirectory? env with
    | some home => home ++ text.drop 1
    | none => text
  | _ => text

/-- Expand a path. A tilde that comes from the value of a variable stays. -/
def expandPath (env : Environment) (path : List Char) : List Char :=
  match expandVariables? env path with
  | none => expandTilde env path
  | some expanded =>
    if path.head? = some '~' ∨ expanded.head? ≠ some '~' then expandTilde env expanded
    else expanded

end ShellTemplate
