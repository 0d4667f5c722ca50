/-!
# TOML values

The values that a TOML document holds. A table remembers how it was written,
because that decides what may still be added to it.
-/

namespace ShellTemplate

/-- How a table came to be. -/
inductive TableKind where
  /-- By its own header. -/
  | defined
  /-- By the header of a table inside it. -/
  | implied
  /-- By a dotted key. -/
  | dotted
  /-- As an inline table. -/
  | inline
deriving DecidableEq, Repr, Inhabited

inductive Toml where
  | string (text : List Char)
  | integer (value : Int)
  | float (text : List Char)
  | bool (value : Bool)
  /-- A date, a time or both, in canonical spelling. -/
  | datetime (text : List Char)
  | array (items : List Toml)
  | table (kind : TableKind) (members : List (List Char × Toml))
  /-- An array of tables that were each begun by a header, the last one first. -/
  | tables (items : List (List (List Char × Toml)))
deriving Inhabited

namespace Toml

abbrev Members := List (List Char × Toml)

/-- Replace the value of a key. -/
def Members.replace (members : Members) (key : List Char) (value : Toml) : Members :=
  members.map fun (k, v) ↦ if k = key then (k, value) else (k, v)

/-- Change the table at the end of a path, adding tables on the way. A table reached
through a dotted key must not have a header of its own. -/
def update (dotted : Bool) (change : TableKind → Members → Option (TableKind × Members)) :
    List (List Char) → TableKind → Members → Option (TableKind × Members)
  | [], kind, members => change kind members
  | key :: path, kind, members =>
    match members.lookup key with
    | none => do
      let new := if dotted then TableKind.dotted else .implied
      let (k, inner) ← update dotted change path new []
      return (kind, members ++ [(key, .table k inner)])
    | some (.table k inner) =>
      if dotted ∧ k = .defined ∨ k = .inline then none
      else do
        let (k, inner) ← update dotted change path k inner
        return (kind, Members.replace members key (.table k inner))
    | some (.tables (last :: others)) => do
      let (_, last) ← update dotted change path .defined last
      return (kind, Members.replace members key (.tables (last :: others)))
    | some _ => none

/-- Add a key that is not there yet. A key that is written with a path may only enter a
table that dotted keys made. -/
def addEntry (viaPath : Bool) (key : List Char) (value : Toml) (kind : TableKind)
    (members : Members) : Option (TableKind × Members) :=
  if (kind = .dotted) ≠ viaPath ∨ (members.lookup key).isSome then none
  else some (kind, members ++ [(key, value)])

/-- Begin a table by its header: a new one, or one that was only implied so far. -/
def addTable (key : List Char) (kind : TableKind) (members : Members) :
    Option (TableKind × Members) :=
  match members.lookup key with
  | none => some (kind, members ++ [(key, .table .defined [])])
  | some (.table .implied inner) =>
    some (kind, Members.replace members key (.table .defined inner))
  | some _ => none

/-- Begin one more table of an array of tables. -/
def addTables (key : List Char) (kind : TableKind) (members : Members) :
    Option (TableKind × Members) :=
  match members.lookup key with
  | none => some (kind, members ++ [(key, .tables [[]])])
  | some (.tables items) => some (kind, Members.replace members key (.tables ([] :: items)))
  | some _ => none

end Toml

end ShellTemplate
