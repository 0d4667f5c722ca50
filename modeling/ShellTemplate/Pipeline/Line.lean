import ShellTemplate.Text.Blank
import ShellTemplate.Token

/-!
# The command line of a token list

Tokens are written one after another. A blank makes one space, and none at the
start of a line or after another blank; a descriptor number is kept apart from
the word before it.
-/

namespace ShellTemplate

/-- End the word before, unless nothing or a blank stands there. The line is held with its
last character first. -/
def separate : List Char → List Char
  | [] => []
  | c :: line => if c = ' ' ∨ c = '\n' then c :: line else ' ' :: c :: line

/-- Write one more token on a line that is held with its last character first. -/
def writeToken (line : List Char) : Token → List Char
  | .piece p => p.raw.reverse ++ line
  | .blank => separate line
  | .operator (.redirect r) =>
    r.text.reverse ++ (if r.fd.isSome then separate line else line)
  | .operator op => op.text.reverse ++ line
  | .hole _ => line

/-- The command line that the tokens stand for, without blanks at its end. -/
def commandLine (tokens : List Token) : List Char :=
  ((tokens.foldl writeToken []).dropWhile isBlank).reverse

end ShellTemplate
