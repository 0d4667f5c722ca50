import ShellTemplate.Text.Numeral
import ShellTemplate.Toml

/-!
# TOML scalars

Strings in their four spellings, and the values written without quotes:
integers, floats, truth values, dates and times.
-/

namespace ShellTemplate.Toml

/-- A character that may stand in comments and strings as it is. -/
def isPlain (c : Char) : Bool := c = '\t' || (0x20 ≤ c.toNat && c.toNat ≠ 0x7F)

def isSpace (c : Char) : Bool := c = ' ' || c = '\t'

/-- The text behind one line ending. -/
def newline? : List Char → Option (List Char)
  | '\n' :: rest => some rest
  | '\r' :: '\n' :: rest => some rest
  | _ => none

/-- The character whose code point these hexadecimal digits give. -/
def scalarOfHex? (digits : List Char) : Option Char := do
  let n ← hexDigits? digits
  if n < 0xD800 ∨ (0xDFFF < n ∧ n < 0x110000) then some (Char.ofNat n) else none

/-- The character of an escape, behind its backslash. -/
def escape? : List Char → Option (Char × List Char)
  | 'b' :: rest => some ('\x08', rest)
  | 't' :: rest => some ('\t', rest)
  | 'n' :: rest => some ('\n', rest)
  | 'f' :: rest => some ('\x0c', rest)
  | 'r' :: rest => some ('\r', rest)
  | '"' :: rest => some ('"', rest)
  | '\\' :: rest => some ('\\', rest)
  | 'u' :: a :: b :: c :: d :: rest => (scalarOfHex? [a, b, c, d]).map fun ch ↦ (ch, rest)
  | 'U' :: a :: b :: c :: d :: e :: f :: g :: h :: rest =>
    (scalarOfHex? [a, b, c, d, e, f, g, h]).map fun ch ↦ (ch, rest)
  | _ => none

/-- Read the rest of a basic string. Every function here that has a step count needs at
most one step per character. -/
def readBasic : Nat → List Char → Option (List Char × List Char)
  | 0, _ => none
  | steps + 1, text =>
    match text with
    | '"' :: rest => some ([], rest)
    | '\\' :: rest => do
      let (c, rest) ← escape? rest
      let (more, rest) ← readBasic steps rest
      return (c :: more, rest)
    | c :: rest =>
      if isPlain c then do
        let (more, rest) ← readBasic steps rest
        return (c :: more, rest)
      else none
    | [] => none

/-- Read the rest of a literal string. -/
def readLiteral : List Char → Option (List Char × List Char)
  | '\'' :: rest => some ([], rest)
  | c :: rest =>
    if isPlain c then (readLiteral rest).map fun (more, rest) ↦ (c :: more, rest) else none
  | [] => none

/-- Blanks and line endings at the start of a text go away. -/
def skipBlankLines : Nat → List Char → List Char
  | 0, text => text
  | steps + 1, text =>
    match newline? text with
    | some rest => skipBlankLines steps rest
    | none =>
      match text with
      | c :: rest => if isSpace c then skipBlankLines steps rest else text
      | [] => []

/-- Quotes at the start of a multi-line string's text: three of them end it, and up to two
more before them belong to it. -/
def closing? (quote : Char) (text : List Char) : Option (List Char × List Char) :=
  let count := (text.takeWhile (· = quote)).length
  if 3 ≤ count ∧ count ≤ 5 then some (List.replicate (count - 3) quote, text.drop count)
  else none

/-- Read the rest of a multi-line string with these quotes. Only a basic one has escapes; a
backslash at the end of a line there takes away all blanks up to the next text. -/
def readMultiline (quote : Char) (escapes : Bool) : Nat → List Char →
    Option (List Char × List Char)
  | 0, _ => none
  | steps + 1, text =>
    match closing? quote text with
    | some done => some done
    | none =>
      if text.head? = some quote ∧ 5 < (text.takeWhile (· = quote)).length then none
      else
        match newline? text with
        | some rest =>
          (readMultiline quote escapes steps rest).map fun (more, rest) ↦ ('\n' :: more, rest)
        | none =>
          match text with
          | c :: rest =>
            if escapes ∧ c = '\\' then
              match newline? (rest.dropWhile isSpace) with
              | some behind =>
                readMultiline quote escapes steps (skipBlankLines behind.length behind)
              | none => do
                let (ch, rest) ← escape? rest
                let (more, rest) ← readMultiline quote escapes steps rest
                return (ch :: more, rest)
            else if isPlain c then
              (readMultiline quote escapes steps rest).map fun (more, rest) ↦ (c :: more, rest)
            else none
          | [] => none

/-- The text behind the line ending that directly follows opening quotes, if one does. -/
def dropNewline (text : List Char) : List Char := (newline? text).getD text

/-- Read a string of any spelling. -/
def readString? (text : List Char) : Option (List Char × List Char) :=
  match text with
  | '"' :: '"' :: '"' :: rest => readMultiline '"' true (rest.length + 1) (dropNewline rest)
  | '\'' :: '\'' :: '\'' :: rest => readMultiline '\'' false (rest.length + 1) (dropNewline rest)
  | '"' :: rest => readBasic (rest.length + 1) rest
  | '\'' :: rest => readLiteral rest
  | _ => none

/-- Digits of a class with single underscores between them, without the underscores. -/
def groupedDigits? (isMember : Char → Bool) : List Char → Option (List Char)
  | [] => none
  | [c] => if isMember c then some [c] else none
  | c :: '_' :: rest => if isMember c then (groupedDigits? isMember rest).map (c :: ·) else none
  | c :: rest => if isMember c then (groupedDigits? isMember rest).map (c :: ·) else none

/-- Split a sign off: whether it is a minus sign, and the rest. -/
def splitSign : List Char → Bool × List Char
  | '-' :: rest => (true, rest)
  | '+' :: rest => (false, rest)
  | text => (false, text)

/-- Decimal digits without a needless zero in front. -/
def decimalDigits? (text : List Char) : Option (List Char) :=
  match groupedDigits? isDigit text with
  | some ('0' :: _ :: _) => none
  | digits => digits

def fits64 (n : Int) : Bool := -0x8000000000000000 ≤ n && n < 0x8000000000000000

def readInteger? (text : List Char) : Option Int := do
  let n : Int ←
    match text with
    | '0' :: 'x' :: rest =>
      (groupedDigits? (isDigitIn 16) rest).map fun d ↦ (valueIn 16 d : Int)
    | '0' :: 'o' :: rest =>
      (groupedDigits? (isDigitIn 8) rest).map fun d ↦ (valueIn 8 d : Int)
    | '0' :: 'b' :: rest =>
      (groupedDigits? (isDigitIn 2) rest).map fun d ↦ (valueIn 2 d : Int)
    | _ =>
      let (negative, digits) := splitSign text
      (decimalDigits? digits).map fun d ↦
        if negative then -(valueIn 10 d : Int) else (valueIn 10 d : Int)
  if fits64 n then some n else none

/-- The exponent of a float, behind its letter. -/
def readExponent? (text : List Char) : Option Int :=
  let (negative, digits) := splitSign text
  (groupedDigits? isDigit digits).map fun d ↦
    if negative then -(valueIn 10 d : Int) else (valueIn 10 d : Int)

/-- Whether `digits * 10 ^ exponent` is beyond the largest double; below one it is not. -/
def overflows (digits : Nat) (exponent : Int) : Bool :=
  let bound := Nat.pow 2 1024 - Nat.pow 2 970
  if digits = 0 ∨ digits.log2 < 3 * (-exponent).toNat then false
  else if exponent > 400 then true
  else bound * Nat.pow 10 (-exponent).toNat ≤ digits * Nat.pow 10 exponent.toNat

def isFloat (text : List Char) : Bool :=
  let (negative, body) := splitSign text
  if body = "inf".toList ∨ body = "nan".toList then true
  else
    let isExponentMark (c : Char) : Bool := c = 'e' || c = 'E'
    let mantissa := body.takeWhile fun c ↦ !isExponentMark c
    let mark := body.dropWhile fun c ↦ !isExponentMark c
    let whole := mantissa.takeWhile (· ≠ '.')
    let point := mantissa.dropWhile (· ≠ '.')
    if mark = [] ∧ point = [] then false
    else
      let exponent := if mark = [] then some 0 else readExponent? (mark.drop 1)
      let fraction := if point = [] then some [] else groupedDigits? isDigit (point.drop 1)
      match decimalDigits? whole, fraction, exponent with
      | some w, some f, some e => negative || !overflows (valueIn 10 (w ++ f)) (e - f.length)
      | _, _, _ => false

def daysIn (year month : Nat) : Nat :=
  if month = 2 then
    if year % 4 = 0 ∧ (year % 100 ≠ 0 ∨ year % 400 = 0) then 29 else 28
  else if month = 4 ∨ month = 6 ∨ month = 9 ∨ month = 11 then 30
  else 31

/-- Two digits that denote a number between these bounds. -/
def twoDigits (low high : Nat) (a b : Char) : Bool :=
  isDigit a && isDigit b && low ≤ valueIn 10 [a, b] && valueIn 10 [a, b] ≤ high

/-- The text behind a date. -/
def date? : List Char → Option (List Char)
  | y :: y' :: y'' :: y''' :: '-' :: m :: m' :: '-' :: d :: d' :: rest =>
    if [y, y', y'', y'''].all isDigit && twoDigits 1 12 m m' &&
        twoDigits 1 (daysIn (valueIn 10 [y, y', y'', y''']) (valueIn 10 [m, m'])) d d' then
      some rest
    else none
  | _ => none

/-- The canonical text of a fraction of a second behind its point: as many of nine digits as
do not end in zeros, and nothing for zero. -/
def fractionText (digits : List Char) : List Char :=
  match ((digits.take 9).reverse.dropWhile (· = '0')).reverse with
  | [] => []
  | digits => '.' :: digits

/-- The canonical text of a time of day, and what follows. -/
def time? : List Char → Option (List Char × List Char)
  | h :: h' :: ':' :: m :: m' :: ':' :: s :: s' :: rest =>
    if twoDigits 0 23 h h' && twoDigits 0 59 m m' && twoDigits 0 60 s s' then
      let time := [h, h', ':', m, m', ':', s, s']
      match rest with
      | '.' :: fraction =>
        let digits := fraction.takeWhile isDigit
        if digits.isEmpty then none
        else some (time ++ fractionText digits, fraction.dropWhile isDigit)
      | _ => some (time, rest)
    else none
  | _ => none

/-- The canonical text of an offset from universal time: one of zero has a plus sign. -/
def offset? : List Char → Option (List Char)
  | [] => some []
  | ['Z'] | ['z'] => some ['Z']
  | [sign, h, h', ':', m, m'] =>
    if (sign = '+' || sign = '-') && twoDigits 0 23 h h' && twoDigits 0 59 m m' then
      let isZero := [h, h', m, m'].all (· = '0')
      some [if isZero then '+' else sign, h, h', ':', m, m']
    else none
  | _ => none

/-- The canonical text of a date, a time, or both with an optional offset. -/
def datetime? (text : List Char) : Option (List Char) :=
  match date? text with
  | some [] => some text
  | some (c :: rest) =>
    if c = 'T' || c = 't' || c = ' ' then do
      let (time, rest) ← time? rest
      let offset ← offset? rest
      return text.take 10 ++ 'T' :: time ++ offset
    else none
  | none =>
    match time? text with
    | some (time, []) => some time
    | _ => none

/-- The characters that unquoted values consist of. -/
def isBareChar (c : Char) : Bool :=
  isLetter c || isDigit c || c = '+' || c = '-' || c = '_' || c = '.' || c = ':'

/-- Cut an unquoted value off. A date may be followed by a blank and a time. -/
def cutBare (text : List Char) : List Char × List Char :=
  let first := text.takeWhile isBareChar
  let rest := text.dropWhile isBareChar
  match date? first, rest with
  | some [], ' ' :: c :: more =>
    if isDigit c then
      (first ++ ' ' :: (c :: more).takeWhile isBareChar, (c :: more).dropWhile isBareChar)
    else (first, rest)
  | _, _ => (first, rest)

/-- The value of an unquoted text. -/
def bareValue? (text : List Char) : Option Toml :=
  if text = "true".toList then some (.bool true)
  else if text = "false".toList then some (.bool false)
  else
    match datetime? text, readInteger? text with
    | some text, _ => some (.datetime text)
    | none, some n => some (.integer n)
    | none, none => if isFloat text then some (.float text) else none

end ShellTemplate.Toml
