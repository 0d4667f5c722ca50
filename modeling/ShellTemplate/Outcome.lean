import ShellTemplate.Text.Utf8

/-!
# Outcomes

What running a pipeline yields. An exit code other than zero is data, not an
error.
-/

namespace ShellTemplate

structure Outcome where
  /-- The code of the last stage, or of the rightmost failure under `pipefail`. -/
  exitCode : Int
  /-- One code per process, in pipeline order. -/
  stageCodes : List Int
  /-- The last stage's standard output, when captured. -/
  stdout : Option Bytes
  /-- The standard error of all stages, when captured. -/
  stderr : Option Bytes
  /-- The decoded standard output, when captured as text. -/
  text : Option (List Char)
deriving DecidableEq, Repr, Inhabited

namespace Outcome

def success (o : Outcome) : Bool := o.exitCode = 0

/-- The decoded text if there is one, else standard output with errors replaced. -/
def stdoutText (o : Outcome) : Option (List Char) := o.text <|> o.stdout.map decodeUtf8Lossy

def stderrText (o : Outcome) : Option (List Char) := o.stderr.map decodeUtf8Lossy

end Outcome

/-- The code of a pipeline: that of its last stage, or under `pipefail` the rightmost that is
not zero. -/
def pipelineCode (codes : List Int) (pipefail : Bool) : Int :=
  if pipefail then (codes.reverse.find? (· ≠ 0)).getD 0 else codes.getLast?.getD 0

end ShellTemplate
