import ShellTemplate.Text.Utf8

/-!
# Byte strings

Names, arguments and file contents are bytes to the host. A byte string is
held as text in which each byte stands as the character with its number, so
that the ASCII characters read as themselves.
-/

namespace ShellTemplate

/-- A byte string; every character is below U+0100. -/
abbrev ByteText := List Char

/-- White space in the sense of the host. -/
def isSpace (c : Char) : Bool := c = ' ' || ('\t' ≤ c && c ≤ '\r')

namespace ByteText

def ofBytes (bytes : Bytes) : ByteText := bytes.map fun b ↦ Char.ofNat b.toNat

def toBytes (text : ByteText) : Bytes := text.map fun c ↦ c.toNat.toUInt8

/-- The UTF-8 of a text. -/
def ofText (text : List Char) : ByteText := ofBytes (encodeUtf8 text)

def ofString (s : String) : ByteText := ofText s.toList

/-- Cut a text at every occurrence of a character. -/
def splitAll (separator : Char) : ByteText → List ByteText
  | [] => [[]]
  | c :: rest =>
    if c = separator then [] :: splitAll separator rest
    else
      match splitAll separator rest with
      | first :: more => (c :: first) :: more
      | [] => [[c]]

/-- Whether a text comes before another, by bytes. -/
def precedes : ByteText → ByteText → Bool
  | [], [] => false
  | [], _ :: _ => true
  | _ :: _, [] => false
  | c :: a, d :: b => c.toNat < d.toNat || (c = d && precedes a b)

/-- The order of texts by bytes. -/
def compare (a b : ByteText) : Ordering :=
  if a = b then .eq else if precedes a b then .lt else .gt

/-- The lines of a text, without the characters that end them; an unfinished last line
counts. -/
def lines (ending : Char) (text : ByteText) : List ByteText :=
  let (last, done) := text.foldl (fun (line, done) c ↦
    if c = ending then ([], line.reverse :: done) else (c :: line, done))
    (([], []) : ByteText × List ByteText)
  (if last.isEmpty then done else last.reverse :: done).reverse

end ByteText

end ShellTemplate
