import ShellTemplate.Json

/-!
# JSON numbers

An integer that fits into 64 bits is kept exactly, apart from minus zero.
Every other numeral becomes a double: its leading digits as a 64-bit
significand, scaled once by a power of ten.
-/

namespace ShellTemplate.Json

/-- The parts of a JSON numeral. -/
structure Numeral where
  negative : Bool
  whole : List Nat
  /-- The digits behind the point; empty where there is none. -/
  fraction : List Nat
  exponent : Option Int

/-- Add digits to a significand while it fits into 64 bits: the significand and the number
of digits that were taken. -/
def takeDigits (significand taken : Nat) : List Nat → Nat × Nat
  | [] => (significand, taken)
  | d :: rest =>
    if significand * 10 + d < UInt64.size then takeDigits (significand * 10 + d) (taken + 1) rest
    else (significand, taken)

def powerOfTen (n : Nat) : Float := Float.ofScientific 1 false n

/-- `f * 10 ^ exponent`, unless that is out of range. -/
def scale? (f : Float) (exponent : Int) : Option Float :=
  if exponent > 308 then
    if f == 0 then some f else none
  else if exponent ≥ 0 then
    let scaled := f * powerOfTen exponent.toNat
    if scaled.isInf then none else some scaled
  else if exponent ≥ -308 then some (f / powerOfTen (-exponent).toNat)
  else
    let reduced := f / powerOfTen 308
    if exponent ≥ -616 then some (reduced / powerOfTen (-exponent - 308).toNat)
    else some (reduced / powerOfTen 308)

namespace Numeral

/-- The double nearest to the scaled significand. -/
def float? (n : Numeral) : Option Float :=
  let (leading, wholeTaken) := takeDigits 0 0 n.whole
  let (significand, fractionTaken) := takeDigits leading 0 n.fraction
  let exponent : Int :=
    n.exponent.getD 0 + ((n.whole.length : Int) - wholeTaken) - fractionTaken
  (scale? significand.toUInt64.toFloat exponent).map fun f ↦ if n.negative then -f else f

/-- The integer of a numeral without point and exponent, if it fits into 64 bits. -/
def integer? (n : Numeral) : Option Int :=
  if n.fraction.isEmpty && n.exponent.isNone then
    let magnitude : Nat := n.whole.foldl (fun v d ↦ 10 * v + d) 0
    if n.negative then
      if 0 < magnitude ∧ magnitude ≤ 0x8000000000000000 then some (-(magnitude : Int)) else none
    else
      if magnitude < UInt64.size then some magnitude else none
  else none

/-- The value of a numeral; unreadable when out of range. -/
def value (n : Numeral) : Json :=
  match n.integer? with
  | some i => .integer i
  | none =>
    match n.float? with
    | some f => .float f
    | none => .unreadable

end Numeral

end ShellTemplate.Json
