/-!
# UTF-8

Encoding characters as bytes, and decoding bytes one at a time: the state says
which continuation bytes are still owed. An ill-formed sequence yields one
error for each maximal part that could have begun a character.
-/

namespace ShellTemplate

abbrev Bytes := List UInt8

/-- The bytes of a character. -/
def utf8OfChar (c : Char) : Bytes :=
  let n := c.toNat
  let tail (unit : Nat) : UInt8 := (0x80 + n / unit % 64).toUInt8
  if n < 0x80 then [n.toUInt8]
  else if n < 0x800 then [(0xC0 + n / 64).toUInt8, tail 1]
  else if n < 0x10000 then [(0xE0 + n / 4096).toUInt8, tail 64, tail 1]
  else [(0xF0 + n / 262144).toUInt8, tail 4096, tail 64, tail 1]

def encodeUtf8 (text : List Char) : Bytes := text.flatMap utf8OfChar

/-- A character that has begun: how many bytes are owed, the bounds of the next one, and
the bits read so far. -/
structure PartialChar where
  owed : Nat
  low : Nat
  high : Nat
  bits : Nat
deriving DecidableEq, Repr

/-- What the first byte of a character says. -/
inductive FirstByte where
  | whole (c : Char)
  | begins (state : PartialChar)
  | invalid
deriving DecidableEq, Repr

def firstByte (b : Nat) : FirstByte :=
  if b < 0x80 then .whole (Char.ofNat b)
  else if b < 0xC2 then .invalid
  else if b < 0xE0 then .begins ⟨1, 0x80, 0xBF, b - 0xC0⟩
  else if b < 0xF0 then
    .begins ⟨2, if b = 0xE0 then 0xA0 else 0x80, if b = 0xED then 0x9F else 0xBF, b - 0xE0⟩
  else if b < 0xF5 then
    .begins ⟨3, if b = 0xF0 then 0x90 else 0x80, if b = 0xF4 then 0x8F else 0xBF, b - 0xF0⟩
  else .invalid

/-- A decoder between two bytes: the character that has begun, and what has been read so
far, last first; `none` stands for an error. -/
structure Utf8Decoder where
  begun : Option PartialChar := none
  read : List (Option Char) := []
deriving DecidableEq, Repr, Inhabited

namespace Utf8Decoder

/-- Read the first byte of a character. -/
def start (d : Utf8Decoder) (b : UInt8) : Utf8Decoder :=
  match firstByte b.toNat with
  | .whole c => ⟨none, some c :: d.read⟩
  | .begins state => ⟨some state, d.read⟩
  | .invalid => ⟨none, none :: d.read⟩

def step (d : Utf8Decoder) (b : UInt8) : Utf8Decoder :=
  match d.begun with
  | none => d.start b
  | some s =>
    if s.low ≤ b.toNat ∧ b.toNat ≤ s.high then
      let bits := s.bits * 64 + (b.toNat - 0x80)
      if s.owed = 1 then ⟨none, some (Char.ofNat bits) :: d.read⟩
      else ⟨some ⟨s.owed - 1, 0x80, 0xBF, bits⟩, d.read⟩
    else (⟨none, none :: d.read⟩ : Utf8Decoder).start b

/-- All that was read; a character that is not complete is an error. -/
def finish (d : Utf8Decoder) : List (Option Char) :=
  (if d.begun.isSome then none :: d.read else d.read).reverse

end Utf8Decoder

/-- The characters of any bytes, with `none` for each error. -/
def decodeUtf8 (bytes : Bytes) : List (Option Char) :=
  (bytes.foldl Utf8Decoder.step {}).finish

/-- The characters of well-formed UTF-8. -/
def decodeUtf8? (bytes : Bytes) : Option (List Char) := (decodeUtf8 bytes).mapM id

/-- The characters of any bytes, with U+FFFD for each error. -/
def decodeUtf8Lossy (bytes : Bytes) : List Char :=
  (decodeUtf8 bytes).map (·.getD '\uFFFD')

end ShellTemplate
