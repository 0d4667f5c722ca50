import ShellTemplate.Host.ByteText
import ShellTemplate.Text.Numeral

/-!
# Escapes

What a backslash and the characters behind it stand for. The programs that
print and the shell itself know different escapes.
-/

namespace ShellTemplate.Format

/-- Who replaces escapes. -/
inductive Dialect where
  /-- The program `printf`. -/
  | program
  /-- The program `echo`. -/
  | echo
  /-- The commands of the shell itself. -/
  | shell
deriving DecidableEq, Repr, Inhabited

/-- Why printing ends before all is printed. -/
inductive Stop where
  /-- An escape asks for it. -/
  | asked
  | noHexDigits
  /-- No character goes by this number. -/
  | noCharacter (name : ByteText)
  /-- The format ends inside a conversion. -/
  | unfinished (directive : ByteText)
  /-- There is no such conversion. -/
  | noConversion (directive : ByteText)
  /-- The argument is no width. -/
  | noWidth (arg : ByteText)
  | noPrecision (arg : ByteText)
deriving DecidableEq, Repr, Inhabited

def isOctal (c : Char) : Bool := isDigitIn 8 c

/-- The character of a one-letter escape. -/
def letterEscape? : Char → Option Char
  | 'a' => some '\x07'
  | 'b' => some '\x08'
  | 'f' => some '\x0c'
  | 'n' => some '\n'
  | 'r' => some '\r'
  | 't' => some '\t'
  | 'v' => some '\x0b'
  | '\\' => some '\\'
  | _ => none

/-- A byte by its octal digits, at most three, and what follows. -/
def octalEscape (text : ByteText) : ByteText × ByteText :=
  let digits := (text.take 3).takeWhile isOctal
  ([Char.ofNat (valueIn 8 digits % 256)], text.drop digits.length)

/-- Whether a character may be named by a number: no control character, no half of a pair, and
of the basic characters only those that source texts do without. -/
def isNameable (n : Nat) : Bool :=
  (0x9F < n || n = 0x24 || n = 0x40 || n = 0x60) && (n < 0xD800 || 0xDFFF < n)

/-- A character by a mark and so many hexadecimal digits, and what follows. Only ASCII
characters can be printed, others are named. -/
def characterEscape (mark : Char) (count : Nat) (text : ByteText) :
    Except Stop (ByteText × ByteText) :=
  let named (mark : Char) (count n : Nat) : ByteText :=
    let digits := Nat.toDigits 16 n
    '\\' :: mark :: List.replicate (count - digits.length) '0' ++ digits
  if (text.takeWhile (isDigitIn 16)).length < count then .error .noHexDigits
  else
    let n := valueIn 16 (text.take count)
    if !isNameable n then .error (.noCharacter (named mark count n))
    else if n < 128 then .ok ([Char.ofNat n], text.drop count)
    else
      let name := if n < 0x10000 then named 'u' 4 n else named 'U' 8 n
      .ok (name.take 2 ++ (name.drop 2).map Char.toUpper, text.drop count)

/-- What an escape stands for, behind its backslash, and what follows. In an argument an octal
number may have a zero in front. -/
def escape (dialect : Dialect) (inArgument : Bool) (text : ByteText) :
    Except Stop (ByteText × ByteText) :=
  match text with
  | [] => .ok (['\\'], [])
  | c :: rest =>
    let unchanged : Except Stop (ByteText × ByteText) := .ok (['\\', c], rest)
    if c = 'c' then
      if dialect = .program || inArgument then .error .asked else unchanged
    else if c = '0' && inArgument then
      .ok (if (rest.head?.any isOctal) then octalEscape rest else octalEscape text)
    else if isOctal c then .ok (octalEscape text)
    else
      match dialect, c with
      | .program, '"' => .ok (['"'], rest)
      | .program, 'u' => characterEscape 'u' 4 rest
      | .program, 'U' => characterEscape 'U' 8 rest
      | _, 'e' => .ok (['\x1b'], rest)
      | .program, 'x' | .echo, 'x' =>
        match (rest.take 2).takeWhile (isDigitIn 16) with
        | [] => if dialect = .program then .error .noHexDigits else unchanged
        | digits => .ok ([Char.ofNat (valueIn 16 digits)], rest.drop digits.length)
      | _, _ =>
        match letterEscape? c with
        | some ch => .ok ([ch], rest)
        | none => unchanged

/-- Replace the escapes of an argument, up to one that ends the output. As many steps as there
are characters suffice. -/
def unescapeWithin (dialect : Dialect) : Nat → ByteText → ByteText × Option Stop
  | 0, _ => ([], none)
  | steps + 1, text =>
    match text with
    | [] => ([], none)
    | '\\' :: rest =>
      match escape dialect true rest with
      | .error stop => ([], some stop)
      | .ok (out, rest) =>
        let (more, stop?) := unescapeWithin dialect steps rest
        (out ++ more, stop?)
    | c :: rest =>
      let (more, stop?) := unescapeWithin dialect steps rest
      (c :: more, stop?)

/-- The text of an argument with its escapes replaced, and why the output ends there if it
does. -/
def unescape (dialect : Dialect) (text : ByteText) : ByteText × Option Stop :=
  unescapeWithin dialect (text.length + 1) text

end ShellTemplate.Format
