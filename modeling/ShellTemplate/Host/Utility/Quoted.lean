import ShellTemplate.Host.ByteText
import ShellTemplate.Text.Numeral

/-!
# Quoted text in messages

How utilities show arguments and file names: with escapes for what cannot be
printed, or in a form that a shell reads back as the same text.
-/

namespace ShellTemplate.Utility

def isPrintable (c : Char) : Bool := ' ' ≤ c && c ≤ '~'

/-- The letter in the escape of a control character. -/
def escapeLetter? : Char → Option Char
  | '\x07' => some 'a'
  | '\x08' => some 'b'
  | '\x0c' => some 'f'
  | '\n' => some 'n'
  | '\r' => some 'r'
  | '\t' => some 't'
  | '\x0b' => some 'v'
  | _ => none

/-- A character by three octal digits. -/
def octalOf (c : Char) : ByteText :=
  let digits := Nat.toDigits 8 c.toNat
  '\\' :: List.replicate (3 - digits.length) '0' ++ digits

/-- The escape of a character that cannot be printed: a letter, or three octal digits. -/
def escapeOf (c : Char) : ByteText :=
  match escapeLetter? c with
  | some letter => ['\\', letter]
  | none => octalOf c

/-- Text in single quotes, with escapes. -/
def quoted (text : ByteText) : ByteText :=
  '\'' :: (text.flatMap fun c ↦
    if c = '\'' || c = '\\' then ['\\', c]
    else if isPrintable c then [c]
    else escapeOf c) ++ ['\'']

/-- The characters that mean themselves in a shell wherever they stand. -/
def isPlainInShell (c : Char) : Bool :=
  isLetter c || isDigit c || "%+,-./]_@".toList.contains c

/-- What is left to write of a text in single quotes for a shell. Escapes stand in quotes of
their own, behind a dollar sign. -/
def shellQuotedRest (inEscapes : Bool) : ByteText → ByteText
  | [] => ['\'']
  | c :: rest =>
    if c = '\'' then "'\\''".toList ++ shellQuotedRest false rest
    else if isPrintable c then
      (if inEscapes then "''".toList else []) ++ c :: shellQuotedRest false rest
    else (if inEscapes then [] else "'$'".toList) ++ escapeOf c ++ shellQuotedRest true rest

/-- Whether a text may stand in double quotes as it is. -/
def fitsDoubleQuotes (text : ByteText) : Bool :=
  (text.head?.all fun c ↦ c = '#' || c = '~' || isMember c) && (text.drop 1).all isMember
where
  isMember (c : Char) : Bool := isPlainInShell c || c = ' ' || c = '\'' || c = ':'

/-- Text in quotes for a shell: in single ones, unless it holds such a quote and otherwise
nothing that is special. -/
def shellQuoted (text : ByteText) : ByteText :=
  if text.contains '\'' && fitsDoubleQuotes text then '"' :: text ++ ['"']
  else '\'' :: shellQuotedRest false text

/-- Whether a shell takes a text without quotes for what it is. -/
def isShellWord (text : ByteText) : Bool :=
  match text with
  | [] => false
  | [c] => isMember c
  | c :: rest => (c = '\x7b' || c = '\x7d' || isMember c) && rest.all fun c ↦
    "\x7b\x7d#~".toList.contains c || isMember c
where
  isMember (c : Char) : Bool := isPlainInShell c || c = ':'

/-- Text for a shell, in quotes where it needs some. -/
def shellWord (text : ByteText) : ByteText := if isShellWord text then text else shellQuoted text

/-- The name of a file in a message, where a colon needs quotes as well. -/
def fileWord (name : ByteText) : ByteText :=
  if name.contains ':' then shellQuoted name else shellWord name

end ShellTemplate.Utility
