import ShellTemplate.Decimal.Shortest
import ShellTemplate.Json

/-!
# Writing JSON

The compact text of a JSON value.
-/

namespace ShellTemplate.Json

def hexChar (n : Nat) : Char := if n < 10 then Char.ofNat (48 + n) else Char.ofNat (87 + n)

/-- A character inside a JSON string. -/
def escapeChar (c : Char) : List Char :=
  if c = '"' then ['\\', '"']
  else if c = '\\' then ['\\', '\\']
  else if c = '\n' then ['\\', 'n']
  else if c = '\r' then ['\\', 'r']
  else if c = '\t' then ['\\', 't']
  else if c = '\x08' then ['\\', 'b']
  else if c = '\x0c' then ['\\', 'f']
  else if c.toNat < 0x20 then ['\\', 'u', '0', '0', hexChar (c.toNat / 16), hexChar (c.toNat % 16)]
  else [c]

def writeString (text : List Char) : List Char := '"' :: text.flatMap escapeChar ++ ['"']

mutual

/-- Write a value before what has been written already. -/
def writeBefore : Json → List Char → List Char
  | .null, rest => 'n' :: 'u' :: 'l' :: 'l' :: rest
  | .unreadable, rest => 'n' :: 'u' :: 'l' :: 'l' :: rest
  | .bool true, rest => 't' :: 'r' :: 'u' :: 'e' :: rest
  | .bool false, rest => 'f' :: 'a' :: 'l' :: 's' :: 'e' :: rest
  | .integer n, rest => (toString n).toList ++ rest
  | .float x, rest => floatText x ++ rest
  | .string text, rest => writeString text ++ rest
  | .array items, rest => '[' :: writeItems true items (']' :: rest)
  | .object members, rest => '\x7b' :: writeMembers true members ('\x7d' :: rest)

def writeItems (first : Bool) : List Json → List Char → List Char
  | [], rest => rest
  | item :: items, rest =>
    let more := writeBefore item (writeItems false items rest)
    if first then more else ',' :: more

def writeMembers (first : Bool) : List (List Char × Json) → List Char → List Char
  | [], rest => rest
  | (name, value) :: members, rest =>
    let more := writeString name ++ ':' :: writeBefore value (writeMembers false members rest)
    if first then more else ',' :: more

end

/-- The compact text of a value. -/
def write (value : Json) : List Char := writeBefore value []

end ShellTemplate.Json
