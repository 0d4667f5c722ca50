import ShellTemplate.Json.Number
import ShellTemplate.Text.Numeral

/-!
# Reading JSON

A text is cut into tokens, and a machine with a stack of open arrays and
objects reads the tokens. The text must be one value with blanks around it.
-/

namespace ShellTemplate.Json

inductive Token where
  | openArray
  | closeArray
  | openObject
  | closeObject
  | comma
  | colon
  /-- A string; `none` if it holds half of a surrogate pair. -/
  | string (text : Option (List Char))
  | leaf (value : Json)

/-- The character that a one-letter escape stands for. -/
def simpleEscape? : Char → Option Char
  | '"' => some '"'
  | '\\' => some '\\'
  | '/' => some '/'
  | 'b' => some '\x08'
  | 'f' => some '\x0c'
  | 'n' => some '\n'
  | 'r' => some '\r'
  | 't' => some '\t'
  | _ => none

/-- What has been read of a string, last character first; `none` after half of a pair. -/
abbrev PartialString := Option (List Char)

/-- Read a string behind its opening quote, given the high half of a pair that was read
directly before. -/
def readString (soFar : PartialString) (high : Option Nat) :
    List Char → Option (PartialString × List Char)
  | '"' :: rest => some (if high.isSome then none else soFar.map List.reverse, rest)
  | '\\' :: 'u' :: a :: b :: c :: d :: rest =>
    match hexDigits? [a, b, c, d] with
    | none => none
    | some unit =>
      match high with
      | some h =>
        if 0xDC00 ≤ unit ∧ unit ≤ 0xDFFF then
          let code := 0x10000 + (h - 0xD800) * 0x400 + (unit - 0xDC00)
          readString (soFar.map (Char.ofNat code :: ·)) none rest
        else readString none none rest
      | none =>
        if 0xD800 ≤ unit ∧ unit ≤ 0xDBFF then readString soFar (some unit) rest
        else if 0xDC00 ≤ unit ∧ unit ≤ 0xDFFF then readString none none rest
        else readString (soFar.map (Char.ofNat unit :: ·)) none rest
  | '\\' :: e :: rest =>
    match simpleEscape? e with
    | some c => readString (if high.isSome then none else soFar.map (c :: ·)) none rest
    | none => none
  | c :: rest =>
    if c.toNat < 0x20 ∨ c = '\\' then none
    else readString (if high.isSome then none else soFar.map (c :: ·)) none rest
  | [] => none

def digitsOf (text : List Char) : List Nat := (text.takeWhile isDigit).map digitValue

/-- Read a numeral: one that does not start with a needless zero. -/
def readNumeral? (text : List Char) : Option (Numeral × List Char) := do
  let (negative, text) :=
    match text with
    | '-' :: rest => (true, rest)
    | _ => (false, text)
  let (whole, text) ←
    match text with
    | '0' :: rest => some ([0], rest)
    | _ =>
      let digits := digitsOf text
      if digits.isEmpty then none else some (digits, text.dropWhile isDigit)
  let (fraction, text) ←
    match text with
    | '.' :: rest =>
      let digits := digitsOf rest
      if digits.isEmpty then none else some (digits, rest.dropWhile isDigit)
    | _ => some ([], text)
  let (exponent, text) ←
    match text with
    | c :: rest =>
      if c = 'e' ∨ c = 'E' then
        let (negative, rest) :=
          match rest with
          | '-' :: rest => (true, rest)
          | '+' :: rest => (false, rest)
          | _ => (false, rest)
        let digits := digitsOf rest
        if digits.isEmpty then none
        else
          let n : Nat := digits.foldl (fun v d ↦ 10 * v + d) 0
          some (some (if negative then -(n : Int) else n), rest.dropWhile isDigit)
      else some (none, text)
    | [] => some (none, text)
  return (⟨negative, whole, fraction, exponent⟩, text)

/-- Read one token at the start of a text without blanks before it. -/
def readToken? : List Char → Option (Token × List Char)
  | '[' :: rest => some (.openArray, rest)
  | ']' :: rest => some (.closeArray, rest)
  | '\x7b' :: rest => some (.openObject, rest)
  | '\x7d' :: rest => some (.closeObject, rest)
  | ',' :: rest => some (.comma, rest)
  | ':' :: rest => some (.colon, rest)
  | '"' :: rest =>
    (readString (some []) none rest).map fun (text, rest) ↦ (.string text, rest)
  | 'n' :: 'u' :: 'l' :: 'l' :: rest => some (.leaf .null, rest)
  | 't' :: 'r' :: 'u' :: 'e' :: rest => some (.leaf (.bool true), rest)
  | 'f' :: 'a' :: 'l' :: 's' :: 'e' :: rest => some (.leaf (.bool false), rest)
  | text => (readNumeral? text).map fun (n, rest) ↦ (.leaf n.value, rest)

def isJsonBlank (c : Char) : Bool := c = ' ' || c = '\t' || c = '\n' || c = '\r'

/-- Cut a text into tokens. A token is never empty, so as many steps as there are
characters suffice. -/
def tokensWithin : Nat → List Char → Option (List Token)
  | 0, _ => none
  | steps + 1, text =>
    match text.dropWhile isJsonBlank with
    | [] => some []
    | text => do
      let (token, rest) ← readToken? text
      let more ← tokensWithin steps rest
      return token :: more

def tokens? (text : List Char) : Option (List Token) := tokensWithin (text.length + 1) text

/-- The members of an object; a name may be a string that denotes nothing. -/
abbrev ReadMembers := List (Option (List Char) × Json)

/-- An array or object that is still open, with its last element first. -/
inductive Open where
  | array (items : List Json)
  | object (members : ReadMembers)
  /-- An object whose next member has this name. -/
  | member (members : ReadMembers) (name : Option (List Char))

/-- What may come next. -/
inductive Expect where
  /-- A value. -/
  | value
  /-- A value or, directly behind the opener, the end of the array. -/
  | firstItem
  /-- The name of a member. -/
  | name
  /-- The name of a member or the end of the object. -/
  | firstName
  | colon
  /-- A comma or the end of the innermost container; the end of the text if there is none. -/
  | next
deriving DecidableEq

structure ReaderState where
  stack : List Open := []
  expect : Expect := .value
  result : Option Json := none

/-- The value of a string. -/
def ofText : Option (List Char) → Json
  | some text => .string text
  | none => .unreadable

/-- The object with these members, if all names denote something. -/
def ofMembers (members : ReadMembers) : Json :=
  match members.mapM fun (name, value) ↦ name.map fun name ↦ (name, value) with
  | some members => .object members
  | none => .unreadable

namespace ReaderState

/-- Put a complete value into its place. -/
def place (s : ReaderState) (value : Json) : Option ReaderState :=
  match s.stack with
  | [] => some { s with result := some value, expect := .next }
  | .array items :: rest =>
    some { s with stack := .array (value :: items) :: rest, expect := .next }
  | .member members name :: rest =>
    some { s with stack := .object ((name, value) :: members) :: rest, expect := .next }
  | .object _ :: _ => none

def wantsValue (s : ReaderState) : Bool := s.expect = .value || s.expect = .firstItem

def step (s : ReaderState) : Token → Option ReaderState
  | .leaf value => if s.wantsValue then s.place value else none
  | .string text =>
    if s.wantsValue then s.place (ofText text)
    else if s.expect = .name ∨ s.expect = .firstName then
      match s.stack with
      | .object members :: rest =>
        some { s with stack := .member members text :: rest, expect := .colon }
      | _ => none
    else none
  | .openArray =>
    if s.wantsValue then some { s with stack := .array [] :: s.stack, expect := .firstItem }
    else none
  | .openObject =>
    if s.wantsValue then some { s with stack := .object [] :: s.stack, expect := .firstName }
    else none
  | .closeArray =>
    match s.stack with
    | .array items :: rest =>
      if s.expect = .next ∨ s.expect = .firstItem then
        { s with stack := rest }.place (.array items.reverse)
      else none
    | _ => none
  | .closeObject =>
    match s.stack with
    | .object members :: rest =>
      if s.expect = .next ∨ s.expect = .firstName then
        { s with stack := rest }.place (ofMembers members.reverse)
      else none
    | _ => none
  | .comma =>
    if s.expect = .next then
      match s.stack with
      | .array _ :: _ => some { s with expect := .value }
      | .object _ :: _ => some { s with expect := .name }
      | _ => none
    else none
  | .colon => if s.expect = .colon then some { s with expect := .value } else none

end ReaderState

/-- The value of a JSON text. -/
def read? (text : List Char) : Option Json := do
  let tokens ← tokens? text
  let final ← tokens.foldlM ReaderState.step {}
  if final.stack.isEmpty then final.result else none

end ShellTemplate.Json
