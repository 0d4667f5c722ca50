import ShellTemplate.Host.Utility.Basic
import ShellTemplate.Host.Utility.Format.Escape

/-!
# Written sets of characters

A set of characters is written as a text with ranges, classes, repeated
characters and escapes. Its order matters, and a character may occur in it
more than once.
-/

namespace ShellTemplate.Utility

/-- The characters below U+0100. -/
def allBytes : ByteText := (List.range 256).map Char.ofNat

def isUpper (c : Char) : Bool := 'A' ≤ c && c ≤ 'Z'

def isLower (c : Char) : Bool := 'a' ≤ c && c ≤ 'z'

/-- A character of a written set, and whether it is written by an escape. -/
structure SetChar where
  char : Char
  escaped : Bool := false
deriving DecidableEq, Repr, Inhabited

/-- Whether a character is this one and may have a special meaning. -/
def SetChar.is (c : SetChar) (special : Char) : Bool := c.char = special && !c.escaped

/-- Replace the escapes of a written set; the messages are warnings. As many steps as there are
characters suffice. -/
def setCharsWithin : Nat → ByteText → List SetChar × List String
  | 0, _ => ([], [])
  | steps + 1, text =>
    match text with
    | [] => ([], [])
    | ['\\'] =>
      ([⟨'\\', false⟩], ["warning: an unescaped backslash at end of string is not portable"])
    | '\\' :: c :: rest =>
      let octal := ((c :: rest).take 3).takeWhile Format.isOctal
      let isLarge := 255 < valueIn 8 octal
      let digits := if isLarge then octal.take 2 else octal
      let (char, rest) :=
        if digits.isEmpty then ((Format.letterEscape? c).getD c, rest)
        else (Char.ofNat (valueIn 8 digits), (c :: rest).drop digits.length)
      let warnings :=
        if isLarge then [s!"warning: the ambiguous octal escape \\{shown octal} is being"
          ++ s!"\n\tinterpreted as the 2-byte sequence \\0{shown digits}, {shown (octal.drop 2)}"]
        else []
      let (more, others) := setCharsWithin steps rest
      (⟨char, true⟩ :: more, warnings ++ others)
    | c :: rest =>
      let (more, warnings) := setCharsWithin steps rest
      (⟨c, false⟩ :: more, warnings)

/-- Replace the escapes of a written set; the messages are warnings. -/
def setChars (text : ByteText) : List SetChar × List String := setCharsWithin text.length text

/-- A part of a written set. -/
inductive SetElement where
  | char (c : Char)
  | range (low high : Char)
  /-- All letters of a case. -/
  | letters (upper : Bool)
  /-- All characters of a class, other than the letters of a case. -/
  | members (chars : ByteText)
  /-- All characters that are sorted like this one, which is none but itself. -/
  | equivalents (c : Char)
  /-- A character so many times; without a number, as often as there is room for. -/
  | repeated (c : Char) (count : Nat)
deriving DecidableEq, Repr, Inhabited

/-- Why a written set, or a pair of them, makes no sense. -/
inductive SetFault where
  | noClassName
  | noEquivalent
  | unknownClass (name : ByteText)
  | longEquivalent (operand : ByteText)
  | badCount (count : ByteText)
  | reversedRange (low high : Char)
  | tooMany
  | roomInFirst
  | severalRooms
  | equivalentsInSecond
  | classInSecond
  | misaligned
  | emptySecond
  | classAtEnd
  | severalImages
  | needlessRoom
deriving DecidableEq, Repr, Inhabited

/-- A text of a written set in a message. -/
def legible (text : ByteText) : ByteText :=
  text.flatMap fun c ↦ if isPrintable c then [c] else escapeOf c

/-- A character of a written set in a message. -/
def legibleChar (c : Char) : ByteText := if isPrintable c then [c] else octalOf c

def SetFault.message : SetFault → String
  | .noClassName => "missing character class name '[::]'"
  | .noEquivalent => "missing equivalence class character '[==]'"
  | .unknownClass name => s!"invalid character class {inQuotes (legible name)}"
  | .longEquivalent operand =>
    s!"{shown (legible operand)}: equivalence class operand must be a single character"
  | .badCount count => s!"invalid repeat count {inQuotes (legible count)} in [c*n] construct"
  | .reversedRange low high =>
    let range := shown (legibleChar low ++ '-' :: legibleChar high)
    s!"range-endpoints of '{range}' are in reverse collating sequence order"
  | .tooMany => "too many characters in set"
  | .roomInFirst => "the [c*] repeat construct may not appear in string1"
  | .severalRooms => "only one [c*] repeat construct may appear in string2"
  | .equivalentsInSecond =>
    "[=c=] expressions may not appear in string2 when translating"
  | .classInSecond => "when translating, the only character classes that may appear in\n"
    ++ "string2 are 'upper' and 'lower'"
  | .misaligned => "misaligned [:upper:] and/or [:lower:] construct"
  | .emptySecond => "when not truncating set1, string2 must be non-empty"
  | .classAtEnd => "when translating with string1 longer than string2,\n"
    ++ "the latter string must not end with a character class"
  | .severalImages => "when translating with complemented character classes,\n"
    ++ "string2 must map all characters in the domain to one"
  | .needlessRoom => "the [c*] construct may appear in string2 only when translating"

namespace SetElement

/-- A character class. -/
def ofClass? (name : ByteText) : Option SetElement :=
  let among (test : Char → Bool) : Option SetElement := some (.members (allBytes.filter test))
  let isGraphic (c : Char) : Bool := '!' ≤ c && c ≤ '~'
  match String.ofList name with
  | "lower" => some (.letters false)
  | "upper" => some (.letters true)
  | "alpha" => among isLetter
  | "digit" => among isDigit
  | "alnum" => among fun c ↦ isLetter c || isDigit c
  | "space" => among isSpace
  | "blank" => among fun c ↦ c = ' ' || c = '\t'
  | "punct" => among fun c ↦ isGraphic c && !isLetter c && !isDigit c
  | "cntrl" => among fun c ↦ c.toNat < 32 || c.toNat = 127
  | "print" => among isPrintable
  | "graph" => among isGraphic
  | "xdigit" => among (isDigitIn 16)
  | _ => none

/-- The characters of an element in order, each with how often it occurs in a row. -/
def runs : SetElement → List (Char × Nat)
  | .char c | .equivalents c => [(c, 1)]
  | .range low high =>
    (List.range (high.toNat + 1 - low.toNat)).map fun n ↦ (Char.ofNat (low.toNat + n), 1)
  | .letters upper => (allBytes.filter (if upper then isUpper else isLower)).map (·, 1)
  | .members chars => chars.map (·, 1)
  | .repeated c count => if count = 0 then [] else [(c, count)]

def isClass : SetElement → Bool
  | .letters _ | .members _ => true
  | _ => false

/-- Whether an element takes the room that others leave. -/
def takesRoom : SetElement → Bool
  | .repeated _ 0 => true
  | _ => false

/-- The largest number of times that a character may be repeated, and of characters in a
set. -/
def countLimit : Nat := UInt64.size - 3

/-- The number of a repeated character; it is octal if it begins with a zero. -/
def readCount? (text : ByteText) : Option Nat :=
  let base := if text.head? = some '0' then 8 else 10
  let body := text.dropWhile isSpace
  let digits := if body.head? = some '+' then body.drop 1 else body
  let n := valueIn base digits
  if text.isEmpty then some 0
  else if !digits.isEmpty && digits.all (isDigitIn base) && n ≤ countLimit then some n
  else none

/-- An element in brackets and what follows, unless what stands behind the opening bracket means
something else. -/
abbrev Reading := Except SetFault (Option (SetElement × List SetChar))

/-- Read a repeated character behind its opening bracket. -/
def readRepeated (text : List SetChar) : Reading :=
  match text with
  | c :: star :: rest =>
    let count := rest.takeWhile fun c ↦ !c.escaped && c.char ≠ ']'
    match rest.drop count.length with
    | close :: after =>
      if star.is '*' && close.is ']' then
        let count := count.map SetChar.char
        match readCount? count with
        | some n => .ok (some (.repeated c.char n, after))
        | none => .error (.badCount count)
      else .ok none
    | [] => .ok none
  | _ => .ok none

/-- Cut a text before a mark and a closing bracket; what follows stands behind both. -/
def cutAt? (mark : Char) : List SetChar → Option (ByteText × List SetChar)
  | a :: b :: rest =>
    if a.is mark && b.is ']' then some ([], rest)
    else (cutAt? mark (b :: rest)).map fun (before, after) ↦ (a.char :: before, after)
  | _ => none

/-- Whether a text goes on with a star, digits and a closing bracket. -/
def looksRepeated (text : List SetChar) : Bool :=
  (text.head?.any (·.is '*')) &&
    ((text.drop 1).dropWhile fun c ↦ isDigit c.char).head?.any (·.is ']')

/-- Read a class, the equivalents of a character, or a repeated character behind an opening
bracket. -/
def readBracket (text : List SetChar) : Reading :=
  match text with
  | [] => .ok none
  | mark :: rest =>
    match if mark.is ':' || mark.is '=' then cutAt? mark.char rest else none with
    | none => readRepeated text
    | some ([], _) => .error (if mark.is ':' then .noClassName else .noEquivalent)
    | some (operand, after) =>
      let element? :=
        if mark.is ':' then ofClass? operand
        else
          match operand with
          | [c] => some (.equivalents c)
          | _ => none
      match element? with
      | some element => .ok (some (element, after))
      | none =>
        if looksRepeated rest then readRepeated text
        else .error (if mark.is ':' then .unknownClass operand else .longEquivalent operand)

/-- The elements of a written set. As many steps as there are characters suffice. -/
def readWithin : Nat → List SetChar → Except SetFault (List SetElement)
  | 0, _ => .ok []
  | steps + 1, text =>
    let goOn (element : SetElement) (rest : List SetChar) : Except SetFault (List SetElement) :=
      (readWithin steps rest).map (element :: ·)
    match text with
    | low :: next :: high :: rest => do
      match ← if low.is '[' then readBracket (next :: high :: rest) else .ok none with
      | some (element, rest) => goOn element rest
      | none =>
        if !next.is '-' then goOn (.char low.char) (next :: high :: rest)
        else if high.char < low.char then throw (.reversedRange low.char high.char)
        else goOn (.range low.char high.char) rest
    | text => .ok (text.map fun c ↦ .char c.char)

/-- The elements of a written set. -/
def read (text : List SetChar) : Except SetFault (List SetElement) :=
  readWithin (text.length + 1) text

end SetElement

/-- A set as it is written. -/
abbrev CharacterSet := List SetElement

namespace CharacterSet

def runs (s : CharacterSet) : List (Char × Nat) := s.flatMap SetElement.runs

def size (s : CharacterSet) : Nat := s.runs.foldl (fun n (_, count) ↦ n + count) 0

def has (s : CharacterSet) (c : Char) : Bool := s.runs.any fun (d, _) ↦ d = c

/-- The characters that are not in a set. -/
def complement (s : CharacterSet) : CharacterSet := [.members (allBytes.filter (!s.has ·))]

/-- Give the element that takes the room for a number of characters what is left of it. -/
def fill (room : Nat) (s : CharacterSet) : CharacterSet :=
  s.map fun
    | .repeated c 0 => .repeated c (room - s.size)
    | element => element

end CharacterSet

end ShellTemplate.Utility
