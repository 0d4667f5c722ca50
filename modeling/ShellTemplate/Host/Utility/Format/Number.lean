import ShellTemplate.Host.ByteText
import ShellTemplate.Host.Utility.Format.Escape
import ShellTemplate.Host.Utility.Real

/-!
# Numbers of the format language

Arguments read as numbers, and numbers written by a conversion with flags, a
width and a precision.
-/

namespace ShellTemplate.Format

/-- What there is to say about an argument that should be a number. -/
inductive Remark where
  | notNumeric (arg : ByteText)
  | trailing (arg : ByteText)
  | outOfRange (arg : ByteText)
  /-- These characters behind a character that stands for its number are not used. -/
  | unused (characters : ByteText)
deriving DecidableEq, Repr, Inhabited

/-- Whether a remark is a failure. -/
def Remark.isFault : Remark → Bool
  | .unused _ => false
  | _ => true

/-- Split off white space and a sign: whether it is a minus sign, and the rest. -/
def splitSign (text : ByteText) : Bool × ByteText :=
  match text.dropWhile isSpace with
  | '-' :: rest => (true, rest)
  | '+' :: rest => (false, rest)
  | rest => (false, rest)

/-- The remark on an argument that is read as a number, given how much of it is left over and
whether the number is out of range. The program looks at the range first. -/
def remarkOn (dialect : Dialect) (arg rest : ByteText) (outOfRange : Bool) : Option Remark :=
  let left : Option Remark :=
    if rest.isEmpty then none
    else if rest.length = arg.length then some (.notNumeric arg)
    else some (.trailing arg)
  let range := if outOfRange then some (Remark.outOfRange arg) else none
  if dialect = .program then range.or left else left.or range

/-- The number of the character behind a quote, if an argument is made of those. Only the
program does without a character, and cares about more of them. -/
def quotedCharacter? (dialect : Dialect) (text : ByteText) : Option (Nat × Option Remark) :=
  match text with
  | '\'' :: rest | '"' :: rest =>
    match rest with
    | [] => if dialect = .program then none else some (0, none)
    | [c] => some (c.toNat, none)
    | c :: more => some (c.toNat, if dialect = .program then some (.unused more) else none)
  | _ => none

/-- The digits of a whole number behind its sign, with their base, and what follows. -/
def splitDigits (body : ByteText) : Nat × ByteText × ByteText :=
  let within (base : Nat) (text : ByteText) : Nat × ByteText × ByteText :=
    let digits := text.takeWhile (isDigitIn base)
    (base, digits, text.drop digits.length)
  match body with
  | '0' :: 'x' :: d :: rest | '0' :: 'X' :: d :: rest =>
    if isDigitIn 16 d then within 16 (d :: rest) else within 8 body
  | '0' :: _ => within 8 body
  | _ => within 10 body

/-- The whole number at the start of a text, and what follows; without any digits that is all
of the text. -/
def readWhole (text : ByteText) : Int × ByteText :=
  let (negative, body) := splitSign text
  let (base, digits, rest) := splitDigits body
  let n : Int := valueIn base digits
  if digits.isEmpty then (0, text) else (if negative then -n else n, rest)

/-- An argument as a number of 64 bits with a sign. -/
def readSigned (dialect : Dialect) (arg : ByteText) : Int × Option Remark :=
  match quotedCharacter? dialect arg with
  | some (n, remark) => (n, remark)
  | none =>
    let (n, rest) := readWhole arg
    let clamped := max (-0x8000000000000000) (min n 0x7FFFFFFFFFFFFFFF)
    (clamped, remarkOn dialect arg rest (n ≠ clamped))

/-- An argument as a number of 64 bits without a sign; one below zero wraps around. -/
def readUnsigned (dialect : Dialect) (arg : ByteText) : Nat × Option Remark :=
  match quotedCharacter? dialect arg with
  | some (n, remark) => (n, remark)
  | none =>
    let (n, rest) := readWhole arg
    let isLarge := UInt64.size ≤ n.natAbs
    let held := if isLarge then UInt64.size - 1 else (n % UInt64.size).toNat
    (held, remarkOn dialect arg rest isLarge)

/-- A real number with its sign. -/
structure SignedReal where
  negative : Bool
  magnitude : RealSize
deriving DecidableEq, Repr, Inhabited

/-- The format in which a dialect holds real numbers. -/
def Dialect.realFormat : Dialect → RealFormat
  | .program => .extended
  | .echo | .shell => .double

/-- An argument as a real number. -/
def readReal (dialect : Dialect) (arg : ByteText) : SignedReal × Option Remark :=
  match quotedCharacter? dialect arg with
  | some (n, remark) => (⟨false, .finite ⟨n, 1⟩⟩, remark)
  | none =>
    let (negative, body) := splitSign arg
    match dialect.realFormat.read? body with
    | none => (⟨false, .finite ⟨0, 1⟩⟩, remarkOn dialect arg arg false)
    | some ((magnitude, outOfRange), rest) =>
      (⟨negative, magnitude⟩, remarkOn dialect arg rest outOfRange)

/-- The flags, width and precision of a conversion. -/
structure Spec where
  left : Bool := false
  plus : Bool := false
  space : Bool := false
  zero : Bool := false
  alternate : Bool := false
  /-- Digits in groups, or in the characters of a language; nothing comes of either. -/
  grouped : Bool := false
  width : Nat := 0
  precision : Option Nat := none
deriving DecidableEq, Repr, Inhabited

namespace Spec

/-- Fill a text up to the width. -/
def pad (s : Spec) (text : ByteText) : ByteText :=
  let fill := List.replicate (s.width - text.length) ' '
  if s.left then text ++ fill else fill ++ text

/-- A text behind a sign or another mark, filled up to the width, with zeros where they are
asked for and possible. -/
def padNumber (s : Spec) (zeros : Bool) (mark text : ByteText) : ByteText :=
  if s.zero && !s.left && zeros then
    mark ++ List.replicate (s.width - mark.length - text.length) '0' ++ text
  else s.pad (mark ++ text)

/-- The sign in front of a number. -/
def sign (s : Spec) (negative : Bool) : ByteText :=
  if negative then ['-'] else if s.plus then ['+'] else if s.space then [' '] else []

/-- The digits of a whole number: at least as many as the precision says, and none for zero
where it says so. -/
def digits (s : Spec) (base n : Nat) : ByteText :=
  let digits := if n = 0 && s.precision = some 0 then [] else Nat.toDigits base n
  List.replicate (s.precision.getD 0 - digits.length) '0' ++ digits

def signed (s : Spec) (n : Int) : ByteText :=
  s.padNumber s.precision.isNone (s.sign (n < 0)) (s.digits 10 n.natAbs)

/-- A number without a sign; an octal one may have to begin with a zero, and a hexadecimal one
with a mark of its base. -/
def unsigned (s : Spec) (base : Nat) (upper : Bool) (n : Nat) : ByteText :=
  let digits := s.digits base n
  let digits := if s.alternate && base = 8 && digits.head? ≠ some '0' then '0' :: digits else digits
  let mark : ByteText := if s.alternate && base = 16 && n ≠ 0 then ['0', 'x'] else []
  let text := s.padNumber s.precision.isNone mark digits
  if upper then text.map Char.toUpper else text

def real (s : Spec) (format : RealFormat) (style : RealStyle) (upper : Bool) (x : SignedReal) :
    ByteText :=
  let sign := s.sign x.negative
  let text :=
    match x.magnitude with
    | .infinite => s.padNumber false sign "inf".toList
    | .undefined => s.padNumber false sign "nan".toList
    | .finite f =>
      let mark := if style = .hexadecimal then ['0', 'x'] else []
      s.padNumber true (sign ++ mark) (style.text format s.alternate s.precision f)
  if upper then text.map Char.toUpper else text

end Spec

end ShellTemplate.Format
