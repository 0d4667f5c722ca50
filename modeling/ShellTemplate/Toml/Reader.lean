import ShellTemplate.Toml.Scalar

/-!
# Reading TOML

A document is a list of statements, one a line: table headers and key-value
pairs. They are read first and then applied in order to an empty table.
-/

namespace ShellTemplate.Toml

/-- Values and keys may be nested less deep than this. -/
def nestingLimit : Nat := 80

def isBareKeyChar (c : Char) : Bool := isLetter c || isDigit c || c = '_' || c = '-'

/-- Read one part of a key. -/
def readSimpleKey? (text : List Char) : Option (List Char × List Char) :=
  match text with
  | '"' :: rest => readBasic (rest.length + 1) rest
  | '\'' :: rest => readLiteral rest
  | _ =>
    if (text.takeWhile isBareKeyChar).isEmpty then none
    else some (text.takeWhile isBareKeyChar, text.dropWhile isBareKeyChar)

/-- Read a key: parts with dots between them, and blanks anywhere around those. -/
def readKeyWithin : Nat → List Char → Option (List (List Char) × List Char)
  | 0, _ => none
  | steps + 1, text => do
    let (part, rest) ← readSimpleKey? (text.dropWhile isSpace)
    match rest.dropWhile isSpace with
    | '.' :: rest => do
      let (parts, rest) ← readKeyWithin steps rest
      return (part :: parts, rest)
    | rest => return ([part], rest)

def readKey? (text : List Char) : Option (List (List Char) × List Char) := do
  let (parts, rest) ← readKeyWithin (text.length + 1) text
  if parts.length < nestingLimit then some (parts, rest) else none

/-- The text behind a comment, up to its line ending. -/
def skipComment? (text : List Char) : Option (List Char) :=
  match text with
  | '#' :: rest =>
    let behind := rest.dropWhile isPlain
    if behind = [] ∨ (newline? behind).isSome then some behind else none
  | _ => some text

/-- Skip blanks, line endings and comments inside an array. -/
def skipFiller? : Nat → List Char → Option (List Char)
  | 0, _ => none
  | steps + 1, text =>
    match text.dropWhile isSpace with
    | '#' :: rest => do
      let behind ← skipComment? ('#' :: rest)
      skipFiller? steps behind
    | text =>
      match newline? text with
      | some rest => skipFiller? steps rest
      | none => some text

/-- Add a pair to an inline table. -/
def addInline (members : Members) (key : List (List Char)) (value : Toml) : Option Members :=
  match key.getLast? with
  | none => none
  | some last =>
    (update true (addEntry (1 < key.length) last value) key.dropLast .inline members).map
      Prod.snd

mutual

/-- Read a value. -/
def readValue : Nat → Nat → List Char → Option (Toml × List Char)
  | 0, _, _ => none
  | steps + 1, depth, text =>
    match text with
    | '[' :: rest => if depth + 1 < nestingLimit then readItems steps (depth + 1) [] rest else none
    | '\x7b' :: rest =>
      if depth + 1 < nestingLimit then
        match rest.dropWhile isSpace with
        | '\x7d' :: rest => some (.table .inline [], rest)
        | rest => readPairs steps (depth + 1) [] rest
      else none
    | _ =>
      if text.head? = some '"' ∨ text.head? = some '\'' then
        (readString? text).map fun (s, rest) ↦ (.string s, rest)
      else (bareValue? (cutBare text).1).map fun v ↦ (v, (cutBare text).2)

/-- Read the items of an array from here on; those before are held last first. -/
def readItems : Nat → Nat → List Toml → List Char → Option (Toml × List Char)
  | 0, _, _, _ => none
  | steps + 1, depth, items, text =>
    match skipFiller? (text.length + 1) text with
    | some (']' :: rest) => some (.array items.reverse, rest)
    | some text =>
      match readValue steps depth text with
      | some (item, rest) =>
        match skipFiller? (rest.length + 1) rest with
        | some (',' :: rest) => readItems steps depth (item :: items) rest
        | some (']' :: rest) => some (.array (item :: items).reverse, rest)
        | _ => none
      | none => none
    | none => none

/-- Read the pairs of an inline table from here on. -/
def readPairs : Nat → Nat → Members → List Char → Option (Toml × List Char)
  | 0, _, _, _ => none
  | steps + 1, depth, members, text =>
    match readKey? text with
    | some (key, '=' :: rest) =>
      match readValue steps depth (rest.dropWhile isSpace) with
      | some (value, rest) =>
        match addInline members key value with
        | some members =>
          match rest.dropWhile isSpace with
          | ',' :: rest => readPairs steps depth members rest
          | '\x7d' :: rest => some (.table .inline members, rest)
          | _ => none
        | none => none
      | none => none
    | _ => none

end

inductive Statement where
  /-- The header of a table. -/
  | table (key : List (List Char))
  /-- The header of one more table of an array. -/
  | tables (key : List (List Char))
  | pair (key : List (List Char)) (value : Toml)

/-- The text behind the end of a line. -/
def endLine? (text : List Char) : Option (List Char) := do
  let rest ← skipComment? (text.dropWhile isSpace)
  if rest = [] then some [] else newline? rest

/-- Read a statement at the start of a text without blanks before it. -/
def readStatement? (text : List Char) : Option (Statement × List Char) :=
  match text with
  | '[' :: '[' :: rest => do
    match ← readKey? rest with
    | (key, ']' :: ']' :: rest) => return (.tables key, rest)
    | _ => none
  | '[' :: rest => do
    match ← readKey? rest with
    | (key, ']' :: rest) => return (.table key, rest)
    | _ => none
  | _ => do
    match ← readKey? text with
    | (key, '=' :: rest) => do
      let rest := rest.dropWhile isSpace
      let (value, rest) ← readValue (rest.length + 1) 0 rest
      return (.pair key value, rest)
    | _ => none

/-- Read the statements of a document. A line takes at least one character. -/
def statementsWithin : Nat → List Char → Option (List Statement)
  | 0, _ => none
  | steps + 1, text =>
    match text.dropWhile isSpace with
    | [] => some []
    | text =>
      if text.head? = some '#' ∨ (newline? text).isSome then do
        let rest ← endLine? text
        statementsWithin steps rest
      else do
        let (statement, rest) ← readStatement? text
        let rest ← endLine? rest
        let more ← statementsWithin steps rest
        return statement :: more

/-- A document that is being read: its table, and the path of the current table. -/
structure Document where
  members : Members := []
  path : List (List Char) := []

/-- The root table of a document. -/
def Document.change (d : Document) (dotted : Bool) (path : List (List Char))
    (f : TableKind → Members → Option (TableKind × Members)) : Option Members :=
  (update dotted f path .defined d.members).map Prod.snd

def Document.apply (d : Document) : Statement → Option Document
  | .table key => do
    let last ← key.getLast?
    let members ← d.change false key.dropLast (addTable last)
    return ⟨members, key⟩
  | .tables key => do
    let last ← key.getLast?
    let members ← d.change false key.dropLast (addTables last)
    return ⟨members, key⟩
  | .pair key value => do
    let last ← key.getLast?
    let members ← d.change false d.path fun kind members ↦
      update true (addEntry (1 < key.length) last value) key.dropLast kind members
    return { d with members }

/-- The root table of a TOML text. A byte order mark before it is skipped. -/
def read? (text : List Char) : Option Members := do
  let text := if text.head? = some '\uFEFF' then text.drop 1 else text
  let statements ← statementsWithin (text.length + 1) text
  let document ← statements.foldlM Document.apply {}
  return document.members

end ShellTemplate.Toml
