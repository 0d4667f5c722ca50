import ShellTemplate.Host.ByteText

/-!
# Paths as they are written

A path is a text of names with slashes between them. Slashes that follow one
another, a slash at the end, and single dots mean nothing, except for a dot at
the start; two paths that differ in nothing else are the same path.
-/

namespace ShellTemplate

/-- What counts of a path that is written as a text. -/
structure PathText where
  isAbsolute : Bool
  /-- The names and double dots, and the single dot that a relative path may begin with. -/
  names : List (List Char)
deriving DecidableEq, Repr, Inhabited

namespace PathText

def ofText (text : List Char) : PathText :=
  let isAbsolute := text.head? = some '/'
  let pieces := ByteText.splitAll '/' text
  let start := if !isAbsolute && pieces.head? = some ['.'] then [['.']] else []
  ⟨isAbsolute, start ++ pieces.filter fun piece ↦ !piece.isEmpty && piece ≠ ['.']⟩

/-- The names that lead to what a path lies in. -/
def parentNames (path : PathText) : List (List Char) := path.names.dropLast

end PathText

/-- Whether two texts are the same path. -/
def samePath (a b : List Char) : Bool := PathText.ofText a = PathText.ofText b

/-- A path as seen from a directory: an absolute one stays. -/
def joinPath (dir path : List Char) : List Char :=
  if path.head? = some '/' ∨ dir.isEmpty then path
  else if dir.getLast? = some '/' then dir ++ path
  else dir ++ '/' :: path

end ShellTemplate
