import ShellTemplate.Host.FileTree

/-!
# Patterns

The patterns that the shell matches against file names and against the values
of parameters.
-/

namespace ShellTemplate.Shell

inductive PatternItem where
  | exactly (c : Char)
  /-- Any one character. -/
  | one
  /-- Any characters, or none. -/
  | many
  /-- One character that is in one of these ranges, or that is in none of them. -/
  | among (negated : Bool) (ranges : List (Char × Char))
deriving DecidableEq, Repr, Inhabited

/-- A pattern for whole texts. -/
abbrev Pattern := List PatternItem

namespace PatternItem

/-- Whether an item that stands for one character stands for this one. -/
def accepts (c : Char) : PatternItem → Bool
  | .exactly d => c = d
  | .one => true
  | .many => false
  | .among negated ranges => (ranges.any fun (low, high) ↦ low ≤ c && c ≤ high) != negated

/-- Whether an item makes a text a pattern. -/
def isActive : PatternItem → Bool
  | .exactly _ => false
  | _ => true

end PatternItem

namespace Pattern

/-- Whether a pattern matches a whole text. -/
def accepts : Pattern → ByteText → Bool
  | [], text => text.isEmpty
  | .many :: rest, [] => accepts rest []
  | .many :: rest, c :: text => accepts rest (c :: text) || accepts (.many :: rest) text
  | _ :: _, [] => false
  | item :: rest, c :: text => item.accepts c && accepts rest text
termination_by pattern text => pattern.length + text.length

/-- The ranges of a bracket up to its closing bracket, which may be the first character. -/
def readRanges (first : Bool) :
    List (Char × Bool) → Option (List (Char × Char) × List (Char × Bool))
  | [] => none
  | (']', true) :: rest =>
    if first then (readRanges false rest).map fun (more, rest) ↦ ((']', ']') :: more, rest)
    else some ([], rest)
  | (low, _) :: ('-', true) :: (high, special) :: rest =>
    if high = ']' && special then some ([(low, low), ('-', '-')], rest)
    else (readRanges false rest).map fun (more, rest) ↦ ((low, high) :: more, rest)
  | (c, _) :: rest => (readRanges false rest).map fun (more, rest) ↦ ((c, c) :: more, rest)

theorem readRanges_length {first : Bool} {text rest : List (Char × Bool)}
    {ranges : List (Char × Char)} (h : readRanges first text = some (ranges, rest)) :
    rest.length < text.length := by
  fun_induction readRanges first text generalizing ranges rest <;>
    simp_all only [Option.map_eq_some_iff, Prod.mk.injEq, Prod.exists, Option.some.injEq,
      reduceCtorEq, List.length_cons] <;> grind

/-- The pattern of a text whose characters are marked as special or not. -/
def ofMarked (text : List (Char × Bool)) : Pattern :=
  match text with
  | [] => []
  | ('*', true) :: rest => .many :: ofMarked rest
  | ('?', true) :: rest => .one :: ofMarked rest
  | ('[', true) :: ('!', true) :: rest =>
    match _ : readRanges true rest with
    | some (ranges, after) => .among true ranges :: ofMarked after
    | none => .exactly '[' :: .exactly '!' :: ofMarked rest
  | ('[', true) :: rest =>
    match _ : readRanges true rest with
    | some (ranges, after) => .among false ranges :: ofMarked after
    | none => .exactly '[' :: ofMarked rest
  | (c, _) :: rest => .exactly c :: ofMarked rest
termination_by text.length
decreasing_by
  all_goals simp only [List.length_cons]
  all_goals first
    | omega
    | exact Nat.lt_of_lt_of_le (readRanges_length ‹_›) (by omega)

/-- The text of a pattern that has only one match. -/
def text? (pattern : Pattern) : Option ByteText :=
  pattern.mapM fun
    | .exactly c => some c
    | _ => none

/-- Cut a pattern at its slashes. -/
def components : Pattern → List Pattern
  | [] => [[]]
  | .exactly '/' :: rest => [] :: components rest
  | item :: rest =>
    match components rest with
    | first :: more => (item :: first) :: more
    | [] => [[item]]

end Pattern

/-- A way to a file so far: its text and where it leads. -/
structure Way where
  text : ByteText
  path : Path

namespace Way

/-- Follow one component of a pattern; names that begin with a dot have to be asked for. -/
def follow (tree : FileTree) (isLast : Bool) (component : Pattern) (way : Way) : List Way :=
  match component.text? with
  | some name =>
    let text := way.text ++ name ++ if isLast then [] else ['/']
    match tree.resolve way.path (if name.isEmpty then ['.'] else name) with
    | .ok path => if isLast && (tree.find? path).isNone then [] else [⟨text, path⟩]
    | .error _ => []
  | none =>
    let names := (tree.namesIn way.path).filter fun name ↦
      Pattern.accepts component name
        && (name.head? ≠ some '.' || component.head? = some (.exactly '.'))
    names.filterMap fun name ↦
      let path := way.path ++ [name]
      if isLast then some ⟨way.text ++ name, path⟩
      else if tree.find? path = some .directory then some ⟨way.text ++ name ++ ['/'], path⟩
      else none

end Way

/-- The files that a pattern stands for, from a directory. -/
def Pattern.files (tree : FileTree) (cwd : Path) (pattern : Pattern) : List ByteText :=
  let (start, pattern) : Way × Pattern :=
    match pattern with
    | .exactly '/' :: rest => (⟨['/'], []⟩, rest)
    | pattern => (⟨[], cwd⟩, pattern)
  let components := pattern.components
  let ways := (components.zipIdx 1).foldl (fun ways (component, index) ↦
    ways.flatMap (Way.follow tree (index = components.length) component)) [start]
  ways.map Way.text

end ShellTemplate.Shell
