import ShellTemplate.Host.Utility.Basic

/-!
# Counts with units

A count in an option is a number, a unit, or both: `b` for blocks of 512, and
the usual letters for powers of 1024, which a following `B` turns into powers
of 1000.
-/

namespace ShellTemplate.Utility

/-- Why a text is no count. -/
inductive SizeFault where
  | malformed
  | tooLarge
deriving DecidableEq, Repr

/-- The power that the letter of a unit stands for. -/
def unitPower? (c : Char) : Option Nat :=
  match c with
  | 'k' | 'K' => some 1
  | 'm' | 'M' => some 2
  | 'G' => some 3
  | 'T' => some 4
  | 'P' => some 5
  | 'E' => some 6
  | 'Z' => some 7
  | 'Y' => some 8
  | 'R' => some 9
  | 'Q' => some 10
  | _ => none

/-- The factor of a unit. -/
def unitFactor? : ByteText → Option Nat
  | [] => some 1
  | ['b'] => some 512
  | c :: rest =>
    (unitPower? c).bind fun power ↦
      match rest with
      | [] | ['i', 'B'] => some (Nat.pow 1024 power)
      | ['B'] | ['D'] => some (Nat.pow 1000 power)
      | _ => none

/-- The count that a text denotes; it has 64 bits. -/
def readSize (text : ByteText) : Except SizeFault Nat :=
  let body := text.dropWhile isSpace
  let body := if body.head? = some '+' then body.drop 1 else body
  let digits := body.takeWhile isDigit
  let unit := body.drop digits.length
  if digits.isEmpty && (unit.isEmpty || body.length < text.length) then .error .malformed
  else
    match unitFactor? unit with
    | none => .error .malformed
    | some factor =>
      let n := (if digits.isEmpty then 1 else valueIn 10 digits) * factor
      if n < UInt64.size then .ok n else .error .tooLarge

end ShellTemplate.Utility
