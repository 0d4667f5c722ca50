/-!
# Command templates

A template is shell text written by the caller, interleaved with holes that
carry run-time values. A plain text is a template without holes.
-/

namespace ShellTemplate

/-- A run-time value that stands in a hole. -/
inductive Value where
  /-- Arbitrary text, one literal word. -/
  | str (text : List Char)
  /-- The text of a number or a truth value. -/
  | scalar (text : List Char)
  /-- One literal word per element. -/
  | list (items : List (List Char))
  /-- Shell syntax that the caller vouches for. -/
  | raw (text : List Char)
  /-- A sequence joined into one word. -/
  | joined (items : List (List Char)) (separator : List Char)
deriving DecidableEq, Repr, Inhabited

namespace Value

def ofBool (b : Bool) : Value := .scalar (if b then "true".toList else "false".toList)

def ofInt (n : Int) : Value := .scalar (toString n).toList

/-- The kind of a value as diagnostics name it. -/
def kind : Value → String
  | .str _ => "string"
  | .scalar _ => "scalar"
  | .list _ => "list"
  | .raw _ => "raw"
  | .joined _ _ => "joined list"

/-- The text of a value that is one word; a list is none. -/
def word? : Value → Option (List Char)
  | .str text | .scalar text | .raw text => some text
  | .joined items separator => some (separator.intercalate items)
  | .list _ => none

end Value

/-- One piece of a template. -/
inductive Segment where
  | literal (text : List Char)
  | hole (value : Value)
deriving DecidableEq, Repr, Inhabited

structure Template where
  segments : List Segment
deriving DecidableEq, Repr, Inhabited

namespace Template

/-- The template of a plain text. -/
def ofText (text : List Char) : Template := ⟨[.literal text]⟩

instance : Append Template := ⟨fun t u ↦ ⟨t.segments ++ u.segments⟩⟩

/-- The values of the holes, in template order. -/
def holes (t : Template) : List Value :=
  t.segments.filterMap fun
    | .hole value => some value
    | .literal _ => none

def hole? (t : Template) (index : Nat) : Option Value := t.holes[index]?

def holeCount (t : Template) : Nat := t.holes.length

/-- Add literal text at the end. -/
def literal (t : Template) (text : List Char) : Template := ⟨t.segments ++ [.literal text]⟩

/-- Add a hole at the end. -/
def hole (t : Template) (value : Value) : Template := ⟨t.segments ++ [.hole value]⟩

/-- Add a hole with shell syntax at the end. -/
def raw (t : Template) (text : List Char) : Template := t.hole (.raw text)

/-- The text of a segment list whose first hole has number `next`. -/
def maskFrom (next : Nat) : List Segment → List Char
  | [] => []
  | .literal text :: rest => text ++ maskFrom next rest
  | .hole _ :: rest => '\x7b' :: (toString next).toList ++ '\x7d' :: maskFrom (next + 1) rest

/-- The template for display: a hole shows as its number in braces, so that no value
leaks into a diagnostic. -/
def mask (t : Template) : List Char := maskFrom 0 t.segments

end Template

end ShellTemplate
