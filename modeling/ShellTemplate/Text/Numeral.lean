/-!
# Numerals

Reading an unsigned number from its ASCII digits. Leading zeros are allowed.
-/

namespace ShellTemplate

def isDigit (c : Char) : Bool := '0' ≤ c && c ≤ '9'

def digitValue (c : Char) : Nat := c.toNat - '0'.toNat

/-- The number that a non-empty text of ASCII digits denotes. -/
def readDigits? (text : List Char) : Option Nat :=
  if text ≠ [] ∧ text.all isDigit then
    some (text.foldl (fun n c ↦ 10 * n + digitValue c) 0)
  else
    none

/-- A file descriptor number: digits that denote a number of 32 bits. -/
def readDescriptor? (text : List Char) : Option Nat :=
  (readDigits? text).filter (· < UInt32.size)

/-- The value of a hexadecimal digit. -/
def hexDigit? (c : Char) : Option Nat :=
  if isDigit c then some (c.toNat - 48)
  else if 'a' ≤ c ∧ c ≤ 'f' then some (c.toNat - 87)
  else if 'A' ≤ c ∧ c ≤ 'F' then some (c.toNat - 55)
  else none

def hexDigits? (digits : List Char) : Option Nat :=
  digits.foldlM (fun n c ↦ (hexDigit? c).map (16 * n + ·)) 0

/-- Whether a character is a digit in a base up to sixteen. -/
def isDigitIn (base : Nat) (c : Char) : Bool := (hexDigit? c).any (· < base)

/-- The number that digits denote in a base up to sixteen. -/
def valueIn (base : Nat) (digits : List Char) : Nat :=
  digits.foldl (fun n c ↦ base * n + (hexDigit? c).getD 0) 0

/-- An ASCII letter. -/
def isLetter (c : Char) : Bool := ('a' ≤ c && c ≤ 'z') || ('A' ≤ c && c ≤ 'Z')

end ShellTemplate
