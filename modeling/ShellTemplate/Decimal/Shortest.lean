/-!
# Shortest decimals

The decimal text of a binary floating-point number: the fewest digits that
read back as the same number, the nearest of those, and the upper one on a
tie. It is written positionally, without an exponent and without a fraction
that is zero.
-/

namespace ShellTemplate

/-- An interchange format by the widths of its fields. -/
structure BinaryFormat where
  fractionBits : Nat
  exponentBits : Nat
deriving DecidableEq, Repr

namespace BinaryFormat

def single : BinaryFormat := ⟨23, 8⟩

def double : BinaryFormat := ⟨52, 11⟩

end BinaryFormat

/-- The magnitude of a binary floating-point number. -/
inductive Magnitude where
  | infinite
  | notANumber
  /-- `mantissa * 2 ^ exponent`; at the bottom of a binade the gap below is half as wide. -/
  | finite (mantissa : Nat) (exponent : Int) (narrowBelow : Bool)
deriving DecidableEq, Repr

namespace BinaryFormat

def isNegative (format : BinaryFormat) (bits : Nat) : Bool :=
  bits.testBit (format.fractionBits + format.exponentBits)

/-- The magnitude that the fields below the sign denote. -/
def magnitude (format : BinaryFormat) (bits : Nat) : Magnitude :=
  let unit := Nat.pow 2 format.fractionBits
  let top := Nat.pow 2 format.exponentBits - 1
  let fraction := bits % unit
  let biased := bits / unit % (top + 1)
  let lowest : Int := 2 - Nat.pow 2 (format.exponentBits - 1) - format.fractionBits
  if biased = top then
    if fraction = 0 then .infinite else .notANumber
  else if biased = 0 then .finite fraction lowest false
  else .finite (unit + fraction) (lowest + (biased - 1)) (fraction = 0 && biased > 1)

end BinaryFormat

namespace Decimal

/-- A positive rational interval around a value, over one denominator. -/
structure Rounding where
  value : Nat
  low : Nat
  high : Nat
  denominator : Nat
  /-- The ends belong to the interval. -/
  closed : Bool

/-- The reals that round to `mantissa * 2 ^ exponent`. -/
def rounding (mantissa : Nat) (exponent : Int) (narrowBelow : Bool) : Rounding :=
  let scale := Nat.pow 2 exponent.toNat
  { value := 4 * mantissa * scale
    low := (4 * mantissa - if narrowBelow then 1 else 2) * scale
    high := (4 * mantissa + 2) * scale
    denominator := 4 * Nat.pow 2 (-exponent).toNat
    closed := mantissa % 2 = 0 }

namespace Rounding

def admits (r : Rounding) (numerator denominator : Nat) : Bool :=
  if r.closed then
    r.low * denominator ≤ numerator * r.denominator &&
      numerator * r.denominator ≤ r.high * denominator
  else
    r.low * denominator < numerator * r.denominator &&
      numerator * r.denominator < r.high * denominator

/-- The neighbour of the value among the multiples of `10 ^ place` that lies in the
interval: the nearer of two, the upper one on a tie. -/
def onGrid? (r : Rounding) (place : Int) : Option Nat :=
  let up := Nat.pow 10 place.toNat
  let down := Nat.pow 10 (-place).toNat
  let below := r.value * down / (r.denominator * up)
  let takesBelow := below ≠ 0 && r.admits (below * up) down
  let takesAbove := r.admits ((below + 1) * up) down
  let isUpperHalf := (2 * below + 1) * up * r.denominator ≤ 2 * r.value * down
  if takesAbove && (!takesBelow || isUpperHalf) then some (below + 1)
  else if takesBelow then some below
  else none

/-- The first grid with a neighbour in the interval, from `place` down. -/
def coarsest (r : Rounding) : Nat → Int → Nat × Int
  | 0, place => (0, place)
  | fuel + 1, place =>
    match r.onGrid? place with
    | some n => (n, place)
    | none => coarsest r fuel (place - 1)

end Rounding

/-- `n * 10 ^ place` in positional notation. -/
def positional (n : Nat) (place : Int) : List Char :=
  let digits := (toString n).toList
  if 0 ≤ place then
    digits ++ List.replicate place.toNat '0'
  else
    let places := (-place).toNat
    let padded := List.replicate (places + 1 - digits.length) '0' ++ digits
    padded.take (padded.length - places) ++ '.' :: padded.drop (padded.length - places)

/-- The text of a finite magnitude. Every grid is tried that can matter to a double. -/
def shortest (mantissa : Nat) (exponent : Int) (narrowBelow : Bool) : List Char :=
  if mantissa = 0 then ['0']
  else
    let found := (rounding mantissa exponent narrowBelow).coarsest 660 310
    positional found.1 found.2

end Decimal

/-- The text of the number that `bits` encode in a format. -/
def BinaryFormat.text (format : BinaryFormat) (bits : Nat) : List Char :=
  let sign := if format.isNegative bits then ['-'] else []
  match format.magnitude bits with
  | .notANumber => "NaN".toList
  | .infinite => sign ++ "inf".toList
  | .finite mantissa exponent narrowBelow =>
    sign ++ Decimal.shortest mantissa exponent narrowBelow

/-- The text of a double. -/
def floatText (x : Float) : List Char := BinaryFormat.double.text x.toBits.toNat

end ShellTemplate
