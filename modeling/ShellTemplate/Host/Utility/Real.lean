import ShellTemplate.Text.Numeral

/-!
# Real numbers

Numerals as exact fractions, rounded to a binary format as a processor holds
them, and written with a given number of digits. A tie goes to the even
neighbour.
-/

namespace ShellTemplate

/-- A fraction without sign. -/
structure Fraction where
  numerator : Nat
  denominator : Nat := 1
deriving DecidableEq, Repr, Inhabited

namespace Fraction

/-- The quotient rounded to the nearest whole number, a tie to the even one. -/
def round (f : Fraction) : Nat :=
  let quotient := f.numerator / f.denominator
  let twice := 2 * (f.numerator % f.denominator)
  if f.denominator < twice || (twice = f.denominator && quotient % 2 = 1) then quotient + 1
  else quotient

/-- Multiply by a power of a base, whose exponent may be below zero. -/
def scale (f : Fraction) (base : Nat) (exponent : Int) : Fraction :=
  if 0 ≤ exponent then { f with numerator := f.numerator * Nat.pow base exponent.toNat }
  else { f with denominator := f.denominator * Nat.pow base (-exponent).toNat }

/-- Whether a fraction is at least as large as another one. -/
def isAtLeast (f g : Fraction) : Bool :=
  g.numerator * f.denominator ≤ f.numerator * g.denominator

/-- The largest power of a base that is not above a fraction, as its exponent. -/
def exponentIn (base : Nat) (f : Fraction) : Int :=
  let digits (n : Nat) : Int := (Nat.toDigits base n).length
  let guess := digits f.numerator - digits f.denominator
  if f.isAtLeast (Fraction.scale ⟨1, 1⟩ base guess) then guess else guess - 1

end Fraction

/-- A binary format: how many digits a number has, and which powers of two bound it. -/
structure RealFormat where
  digits : Nat
  /-- Numbers from two to this power on are out of range. -/
  above : Nat
  /-- Two to this power is the smallest number that is not zero. -/
  below : Int
deriving DecidableEq, Repr, Inhabited

namespace RealFormat

def double : RealFormat := ⟨53, 1024, -1074⟩

/-- The extended format of 80 bits. -/
def extended : RealFormat := ⟨64, 16384, -16445⟩

end RealFormat

/-- The size of a real number. -/
inductive RealSize where
  | finite (f : Fraction)
  | infinite
  | undefined
deriving DecidableEq, Repr, Inhabited

/-- The number of a format nearest to a fraction, and whether the fraction is out of range:
too large, or too small to have all digits. -/
def RealFormat.round (format : RealFormat) (f : Fraction) : RealSize × Bool :=
  if f.numerator = 0 then (.finite f, false)
  else
    let unit := f.exponentIn 2 - (format.digits - 1 : Nat)
    let isSmall := unit < format.below
    let unit := max unit format.below
    let g := Fraction.scale ⟨(f.scale 2 (-unit)).round, 1⟩ 2 unit
    if g.isAtLeast (Fraction.scale ⟨1, 1⟩ 2 format.above) then (.infinite, true)
    else (.finite g, isSmall && !(f.isAtLeast g && g.isAtLeast f))

/-- How a real number is written. -/
inductive RealStyle where
  | fixed
  | scientific
  /-- The shorter of both, without zeros at the end. -/
  | general
  /-- In hexadecimal digits with a binary exponent. -/
  | hexadecimal
deriving DecidableEq, Repr, Inhabited

namespace RealStyle

/-- Digits with a point before the last ones. Without any behind it, the point is only
written where it is asked for. -/
def withPoint (keepPoint : Bool) (places : Nat) (digits : List Char) : List Char :=
  let digits := List.replicate (places + 1 - digits.length) '0' ++ digits
  let whole := digits.take (digits.length - places)
  if places = 0 && !keepPoint then whole else whole ++ '.' :: digits.drop whole.length

def fixedText (keepPoint : Bool) (f : Fraction) (places : Nat) : List Char :=
  withPoint keepPoint places (Nat.toDigits 10 (f.scale 10 places).round)

/-- The digits and the exponent of a number with so many places behind the first digit. -/
def scientificDigits (f : Fraction) (places : Nat) : Nat × Int :=
  if f.numerator = 0 then (0, 0)
  else
    let exponent := f.exponentIn 10
    let digits := (f.scale 10 (places - exponent)).round
    if Nat.pow 10 (places + 1) ≤ digits then (digits / 10, exponent + 1) else (digits, exponent)

/-- An exponent with its mark and at least so many digits. -/
def exponentText (mark : Char) (least : Nat) (exponent : Int) : List Char :=
  let digits := Nat.toDigits 10 exponent.natAbs
  let zeros := List.replicate (least - digits.length) '0'
  mark :: (if exponent < 0 then '-' else '+') :: zeros ++ digits

/-- Drop zeros behind a point, and a point with nothing behind it. -/
def dropZeros (text : List Char) : List Char :=
  if text.contains '.' then
    let text := text.reverse.dropWhile (· = '0')
    (if text.head? = some '.' then text.drop 1 else text).reverse
  else text

/-- The hexadecimal text of a number of a format, with a first digit that has all the binary
digits that do not fill up others. -/
def hexadecimalText (format : RealFormat) (keepPoint : Bool) (precision : Option Nat)
    (f : Fraction) : List Char :=
  let lead := (format.digits - 1) % 4
  let exponent := if f.numerator = 0 then 0 else f.exponentIn 2 - lead
  let places := precision.getD (format.digits / 4)
  let digits := (f.scale 2 (4 * places - exponent)).round
  let (digits, exponent) :=
    if Nat.pow 16 (places + 1) ≤ digits then (digits / 16, exponent + 4) else (digits, exponent)
  let text := withPoint keepPoint places (Nat.toDigits 16 digits)
  let tidy := if precision.isNone then dropZeros text else text
  (if keepPoint && !tidy.contains '.' then tidy ++ ['.'] else tidy) ++ exponentText 'p' 1 exponent

/-- The text of a number; without a precision there are six digits, or all of the
hexadecimal ones. -/
def text (style : RealStyle) (format : RealFormat) (keepPoint : Bool) (precision : Option Nat)
    (f : Fraction) : List Char :=
  let places := precision.getD 6
  match style with
  | .fixed => fixedText keepPoint f places
  | .scientific =>
    let (digits, exponent) := scientificDigits f places
    withPoint keepPoint places (Nat.toDigits 10 digits) ++ exponentText 'e' 2 exponent
  | .general =>
    let count := max places 1
    let (digits, exponent) := scientificDigits f (count - 1)
    let tidy (text : List Char) : List Char := if keepPoint then text else dropZeros text
    if -4 ≤ exponent ∧ exponent < count then
      tidy (fixedText keepPoint f ((count : Int) - 1 - exponent).toNat)
    else
      tidy (withPoint keepPoint (count - 1) (Nat.toDigits 10 digits))
        ++ exponentText 'e' 2 exponent
  | .hexadecimal => hexadecimalText format keepPoint precision f

end RealStyle

/-- The digits of a numeral, with an exponent for their base. -/
structure RealNumeral where
  /-- Ten or sixteen. -/
  base : Nat
  digits : List Char
  /-- How many of the digits stand behind the point. -/
  places : Nat
  exponent : Int
deriving DecidableEq, Repr, Inhabited

namespace RealNumeral

/-- Exponents beyond this are out of range in every format. -/
def exponentLimit : Int := 20000

/-- The number of a format that a numeral denotes, and whether it is out of range. A
hexadecimal numeral has an exponent of two. -/
def round (format : RealFormat) (n : RealNumeral) : RealSize × Bool :=
  let digits := n.digits.dropWhile (· = '0')
  let factor := if n.base = 16 then 4 else 1
  let exponent := n.exponent - factor * (n.places : Int)
  let size := exponent + factor * (digits.length : Int)
  if digits.isEmpty then (.finite ⟨0, 1⟩, false)
  else if exponentLimit < size then (.infinite, true)
  else if size < -exponentLimit then (.finite ⟨0, 1⟩, true)
  else format.round (Fraction.scale ⟨valueIn n.base digits, 1⟩ (if n.base = 16 then 2 else 10)
    exponent)

/-- Read an exponent behind one of two marks, and what follows. -/
def readExponent (lower upper : Char) (text : List Char) : Int × List Char :=
  match text with
  | [] => (0, [])
  | c :: rest =>
    let (negative, body) :=
      match rest with
      | '-' :: body => (true, body)
      | '+' :: body => (false, body)
      | body => (false, body)
    let digits := body.takeWhile isDigit
    if (c = lower || c = upper) && !digits.isEmpty then
      let n : Int := valueIn 10 digits
      (if negative then -n else n, body.drop digits.length)
    else (0, text)

/-- Read a numeral in a base, without sign, and what follows. -/
def readIn? (base : Nat) (lower upper : Char) (text : List Char) :
    Option (RealNumeral × List Char) :=
  let whole := text.takeWhile (isDigitIn base)
  let rest := text.drop whole.length
  let (places, rest) :=
    match rest with
    | '.' :: more => (more.takeWhile (isDigitIn base), more.dropWhile (isDigitIn base))
    | _ => ([], rest)
  if whole.isEmpty && places.isEmpty then none
  else
    let (exponent, rest) := readExponent lower upper rest
    some (⟨base, whole ++ places, places.length, exponent⟩, rest)

/-- Read a numeral without sign, and what follows. -/
def read? (text : List Char) : Option (RealNumeral × List Char) :=
  let decimal := readIn? 10 'e' 'E' text
  match text with
  | '0' :: 'x' :: rest | '0' :: 'X' :: rest => (readIn? 16 'p' 'P' rest).orElse fun _ ↦ decimal
  | _ => decimal

end RealNumeral

/-- Read the word of a number that has no digits, in letters of either case, and what
follows. -/
def readNumberWord? (text : List Char) : Option (RealSize × List Char) :=
  let lower := text.map Char.toLower
  if "infinity".toList.isPrefixOf lower then some (.infinite, text.drop 8)
  else if "inf".toList.isPrefixOf lower then some (.infinite, text.drop 3)
  else if "nan".toList.isPrefixOf lower then
    match text.drop 3 with
    | '(' :: rest =>
      match rest.dropWhile fun c ↦ c = '_' || isLetter c || isDigit c with
      | ')' :: rest => some (.undefined, rest)
      | _ => some (.undefined, '(' :: rest)
    | rest => some (.undefined, rest)
  else none

/-- Read a real number of a format, without sign: the number, whether it is out of range, and
what follows. -/
def RealFormat.read? (format : RealFormat) (text : List Char) :
    Option ((RealSize × Bool) × List Char) :=
  match readNumberWord? text with
  | some (magnitude, rest) => some ((magnitude, false), rest)
  | none => (RealNumeral.read? text).map fun (n, rest) ↦ (n.round format, rest)

end ShellTemplate
