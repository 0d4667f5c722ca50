import ShellTemplate.Text.Utf8

/-!
# Text encodings

The encodings that captured output can be decoded with, and the labels they
go by. Decoding is strict: ill-formed output is refused, and a byte order mark
is a character like any other.
-/

namespace ShellTemplate

inductive Encoding where
  | utf8
  | windows1252
  | utf16le
  | utf16be
deriving DecidableEq, Repr, Inhabited

namespace Encoding

def name : Encoding → String
  | .utf8 => "UTF-8"
  | .windows1252 => "windows-1252"
  | .utf16le => "UTF-16LE"
  | .utf16be => "UTF-16BE"

/-- The labels of each encoding in lower case. -/
def labels : Encoding → List String
  | .utf8 =>
    ["unicode-1-1-utf-8", "unicode11utf8", "unicode20utf8", "utf-8", "utf8", "x-unicode20utf8"]
  | .windows1252 =>
    ["ansi_x3.4-1968", "ascii", "cp1252", "cp819", "csisolatin1", "ibm819", "iso-8859-1",
      "iso-ir-100", "iso8859-1", "iso88591", "iso_8859-1", "iso_8859-1:1987", "l1", "latin1",
      "us-ascii", "windows-1252", "x-cp1252"]
  | .utf16le =>
    ["csunicode", "iso-10646-ucs-2", "ucs-2", "unicode", "unicodefeff", "utf-16", "utf-16le"]
  | .utf16be => ["unicodefffe", "utf-16be"]

def isLabelBlank (c : Char) : Bool :=
  c = ' ' || c = '\t' || c = '\n' || c = '\r' || c = '\x0c'

/-- A label without blanks around it and in lower case. -/
def normalizeLabel (label : List Char) : List Char :=
  ((((label.dropWhile isLabelBlank).reverse).dropWhile isLabelBlank).reverse).map Char.toLower

/-- The encoding that goes by a label. -/
def ofLabel? (label : List Char) : Option Encoding :=
  let label := String.ofList (normalizeLabel label)
  [.utf8, .windows1252, .utf16le, .utf16be].find? fun e ↦ e.labels.contains label

/-- The characters that windows-1252 has for the bytes from 0x80 to 0x9F. -/
def windows1252High : List Nat :=
  [0x20AC, 0x81, 0x201A, 0x192, 0x201E, 0x2026, 0x2020, 0x2021,
    0x2C6, 0x2030, 0x160, 0x2039, 0x152, 0x8D, 0x17D, 0x8F,
    0x90, 0x2018, 0x2019, 0x201C, 0x201D, 0x2022, 0x2013, 0x2014,
    0x2DC, 0x2122, 0x161, 0x203A, 0x153, 0x9D, 0x17E, 0x178]

def windows1252Char (b : UInt8) : Char :=
  if 0x80 ≤ b ∧ b < 0xA0 then Char.ofNat (windows1252High.getD (b.toNat - 0x80) 0xFFFD)
  else Char.ofNat b.toNat

/-- The 16-bit units of bytes with the given order; `none` for an odd number of bytes. -/
def units16? (bigEndian : Bool) : Bytes → Option (List Nat)
  | [] => some []
  | [_] => none
  | a :: b :: rest =>
    let unit := if bigEndian then a.toNat * 256 + b.toNat else b.toNat * 256 + a.toNat
    (units16? bigEndian rest).map (unit :: ·)

/-- The characters of UTF-16 units; `none` where half of a pair stands alone. -/
def decodeUnits? : List Nat → Option (List Char)
  | [] => some []
  | h :: l :: rest =>
    if 0xD800 ≤ h ∧ h < 0xDC00 then
      if 0xDC00 ≤ l ∧ l < 0xE000 then
        (decodeUnits? rest).map (Char.ofNat (0x10000 + (h - 0xD800) * 0x400 + (l - 0xDC00)) :: ·)
      else none
    else if 0xDC00 ≤ h ∧ h < 0xE000 then none
    else (decodeUnits? (l :: rest)).map (Char.ofNat h :: ·)
  | [u] => if 0xD800 ≤ u ∧ u < 0xE000 then none else some [Char.ofNat u]

/-- The text of bytes in an encoding, if they are well formed. -/
def decode? : Encoding → Bytes → Option (List Char)
  | .utf8, bytes => decodeUtf8? bytes
  | .windows1252, bytes => some (bytes.map windows1252Char)
  | .utf16le, bytes => units16? false bytes >>= decodeUnits?
  | .utf16be, bytes => units16? true bytes >>= decodeUnits?

end Encoding

end ShellTemplate
