import ShellTemplate.Host.ByteText
import ShellTemplate.Host.Utility.Real
import ShellTemplate.Host.Utility.Size

/-!
# Orders of texts

The ways to compare two texts other than by their bytes: by the number that
they begin with, by the name of a month, or as versions.
-/

namespace ShellTemplate.Utility.Sorting

/-- What separates fields. -/
def isBlank (c : Char) : Bool := c = ' ' || c = '\t' || c = '\n'

/-- A decimal number: a whole number, and how many of its digits are behind the point. -/
structure DecimalNumber where
  digits : Int
  places : Nat
deriving DecidableEq, Repr, Inhabited

namespace DecimalNumber

def compare (a b : DecimalNumber) : Ordering :=
  Ord.compare (a.digits * Nat.pow 10 b.places) (b.digits * Nat.pow 10 a.places)

/-- The number at the start of a text, and what follows. Without digits it is zero. -/
def read (text : ByteText) : DecimalNumber × ByteText :=
  let (negative, body) :=
    match text with
    | '-' :: rest => (true, rest)
    | _ => (false, text)
  let whole := body.takeWhile isDigit
  let (places, rest) :=
    match body.drop whole.length with
    | '.' :: rest => (rest.takeWhile isDigit, rest.dropWhile isDigit)
    | rest => ([], rest)
  let n : Int := valueIn 10 (whole ++ places)
  (⟨if negative then -n else n, places.length⟩, rest)

end DecimalNumber

/-- By the numbers that texts begin with. -/
def compareNumbers (a b : ByteText) : Ordering :=
  (DecimalNumber.read (a.dropWhile isBlank)).1.compare (DecimalNumber.read (b.dropWhile isBlank)).1

/-- The place of the unit behind a number among all units; those of negative numbers come in
front, from the largest on. -/
def unitPlace (n : DecimalNumber) (rest : ByteText) : Int :=
  match rest with
  | c :: _ =>
    let power : Int := if c = 'm' then 0 else (unitPower? c).getD 0
    if n.digits < 0 then -power else if n.digits = 0 then 0 else power
  | [] => 0

/-- By the units behind numbers, then by the numbers. -/
def compareSizes (a b : ByteText) : Ordering :=
  let (m, restA) := DecimalNumber.read (a.dropWhile isBlank)
  let (n, restB) := DecimalNumber.read (b.dropWhile isBlank)
  (Ord.compare (unitPlace m restA) (unitPlace n restB)).then (m.compare n)

/-- A real number as an exact decimal, for comparing. -/
def compareFractions (a b : Bool × Fraction) : Ordering :=
  let signed (x : Bool × Fraction) : Int := if x.1 then -x.2.numerator else x.2.numerator
  Ord.compare (signed a * b.2.denominator) (signed b * a.2.denominator)

/-- By the real numbers that texts begin with. Texts without one come first, then those with
an undefined one. -/
def compareReals (a b : ByteText) : Ordering :=
  let read (text : ByteText) : Nat × Bool × Fraction :=
    let body := text.dropWhile isSpace
    let negative := body.head? = some '-'
    let body := if negative || body.head? = some '+' then body.drop 1 else body
    match RealFormat.extended.read? body with
    | none => (0, false, ⟨0, 1⟩)
    | some ((.undefined, _), _) => (1, false, ⟨0, 1⟩)
    | some ((.infinite, _), _) => (if negative then 2 else 4, false, ⟨0, 1⟩)
    | some ((.finite f, _), _) => (3, negative, f)
  let (rankA, x) := read a
  let (rankB, y) := read b
  (Ord.compare rankA rankB).then (compareFractions x y)

/-- The number of the month that a text begins with, and zero for none. -/
def monthOf (text : ByteText) : Nat :=
  let body := (text.dropWhile isBlank).map Char.toUpper
  let months := ["JAN", "FEB", "MAR", "APR", "MAY", "JUN", "JUL", "AUG", "SEP", "OCT", "NOV", "DEC"]
  ((months.findIdx? fun month ↦ month.toList.isPrefixOf body).map (· + 1)).getD 0

/-- By the names of months that texts begin with. -/
def compareMonths (a b : ByteText) : Ordering := Ord.compare (monthOf a) (monthOf b)

/-- The place of a character of a version that belongs to no number. A tilde comes even before
the end. -/
def versionPlace : Option Char → Int
  | none => -1
  | some c =>
    if isDigit c then 0
    else if isLetter c then c.toNat
    else if c = '~' then -2
    else c.toNat + 256

/-- Compare versions: in turn, what stands before a number character by character, and the
numbers. As many steps as there are characters suffice. -/
def compareVersionsWithin : Nat → ByteText → ByteText → Ordering
  | 0, _, _ => .eq
  | steps + 1, a, b =>
    let isOther (text : ByteText) : Bool := text.head?.any fun c ↦ !isDigit c
    if a.isEmpty && b.isEmpty then .eq
    else if isOther a || isOther b then
      (Ord.compare (versionPlace a.head?) (versionPlace b.head?)).then
        (compareVersionsWithin steps (a.drop 1) (b.drop 1))
    else
      (Ord.compare (valueIn 10 (a.takeWhile isDigit)) (valueIn 10 (b.takeWhile isDigit))).then
        (compareVersionsWithin steps (a.dropWhile isDigit) (b.dropWhile isDigit))

/-- Compare versions. -/
def compareVersions (a b : ByteText) : Ordering :=
  compareVersionsWithin (a.length + b.length) a b

/-- Whether a text is made of endings of file names: each a point, a letter, and letters or
digits. -/
def isEndings : ByteText → Bool
  | [] => true
  | '.' :: c :: rest => (isLetter c || c = '~') && goOn rest
  | _ => false
where
  goOn : ByteText → Bool
    | [] => true
    | '.' :: c :: rest => (isLetter c || c = '~') && goOn rest
    | c :: rest => (isLetter c || isDigit c || c = '~') && goOn rest

/-- A file name without its endings; its first character is none. -/
def withoutEndings : ByteText → ByteText
  | [] => []
  | c :: rest => c :: before rest
where
  before : ByteText → ByteText
    | [] => []
    | c :: rest => if isEndings (c :: rest) then [] else c :: before rest

/-- By versions in file names. Hidden names come first. -/
def compareFileVersions (a b : ByteText) : Ordering :=
  let rank (name : ByteText) : Nat :=
    match name with
    | [] => 0
    | ['.'] => 1
    | ['.', '.'] => 2
    | '.' :: _ => 3
    | _ => 4
  (Ord.compare (rank a) (rank b)).then
    ((compareVersions (withoutEndings a) (withoutEndings b)).then (compareVersions a b))

end ShellTemplate.Utility.Sorting
