import ShellTemplate.Host.Shell.Pattern
import ShellTemplate.Host.Shell.Session

/-!
# Fields

What the expansion of a word leaves: characters that remember where they come
from. Only those from unquoted expansions are split into fields, and only
unquoted ones are matched against file names.
-/

namespace ShellTemplate.Shell

/-- Where a character of an expanded word comes from. -/
inductive Mark where
  | literal
  | quoted
  | expanded
deriving DecidableEq, Repr, Inhabited

/-- An element of an expanded word. -/
inductive Bit where
  | char (c : Char) (mark : Mark)
  /-- Quotes, which make a field even where nothing is in them. -/
  | quotes
  /-- The border between two arguments. -/
  | boundary
deriving DecidableEq, Repr, Inhabited

namespace Bit

def ofText (mark : Mark) (text : ByteText) : List Bit := text.map (.char · mark)

def char? : Bit → Option Char
  | .char c _ => some c
  | .quotes => none
  | .boundary => some ' '

/-- The text of an expanded word that is not split. -/
def textOf (bits : List Bit) : ByteText := bits.filterMap char?

/-- The pattern of an expanded word. -/
def patternOf (bits : List Bit) : Pattern :=
  Pattern.ofMarked (bits.filterMap fun
    | .char c mark => some (c, mark != .quoted)
    | .quotes | .boundary => none)

end Bit

/-- The progress of splitting: the fields so far, the open field, and whether white space has
closed a field to which a separator may still belong. -/
structure Splitting where
  fields : List (List Bit) := []
  current : Option (List Bit) := none
  closable : Bool := false

namespace Splitting

def extend (s : Splitting) (bit : Bit) : Splitting :=
  { s with current := some (bit :: s.current.getD []), closable := false }

/-- Close the open field, if there is one. -/
def close (s : Splitting) (closable : Bool) : Splitting :=
  match s.current with
  | some bits => ⟨bits.reverse :: s.fields, none, closable⟩
  | none => { s with closable := s.closable && closable }

/-- Go over one element of a word. White space runs together, any other separator ends a
field of its own. -/
def step (separators : ByteText) (s : Splitting) (bit : Bit) : Splitting :=
  match bit with
  | .boundary => s.close false
  | .char c .expanded =>
    if !separators.contains c then s.extend bit
    else if c = ' ' || c = '\t' || c = '\n' then s.close true
    else if s.current.isSome then s.close false
    else if s.closable then { s with closable := false }
    else { s with fields := [] :: s.fields }
  | .char _ _ | .quotes => s.extend bit

end Splitting

/-- Split an expanded word into fields. -/
def splitFields (separators : ByteText) (bits : List Bit) : List (List Bit) :=
  ((bits.foldl (Splitting.step separators) {}).close false).fields.reverse

/-- The words that a field stands for: the files that match it, or its text. -/
def fileNames (noglob : Bool) (tree : FileTree) (cwd : Path) (field : List Bit) : List ByteText :=
  let pattern := Bit.patternOf field
  if noglob || !pattern.any PatternItem.isActive then [Bit.textOf field]
  else
    match pattern.files tree cwd with
    | [] => [Bit.textOf field]
    | names => names.mergeSort fun a b ↦ !b.precedes a

/-- The words that an expanded word stands for. -/
def wordsOf (bits : List Bit) : Work (List ByteText) := do
  let s ← get
  let w ← getThe World
  return (splitFields s.separators bits).flatMap (fileNames (s.has .noglob) w.tree s.cwd)

/-- Cut a value where a pattern matches its end or its start. -/
def trim (pattern : Pattern) (atEnd longest : Bool) (value : ByteText) : ByteText :=
  let counts := List.range (value.length + 1)
  let counts := if longest then counts.reverse else counts
  match counts.find? fun n ↦
    pattern.accepts (if atEnd then value.drop (value.length - n) else value.take n) with
  | some n => if atEnd then value.take (value.length - n) else value.drop n
  | none => value

end ShellTemplate.Shell
