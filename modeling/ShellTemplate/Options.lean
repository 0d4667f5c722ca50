import ShellTemplate.Text.Utf8

/-!
# Run options

How a pipeline is run: what is captured, where input comes from, and in which
directory and environment.
-/

namespace ShellTemplate

/-- What is kept of the last stage's standard output. -/
inductive Capture where
  | nothing
  /-- Keep it and decode it with the encoding of this label. -/
  | text (label : List Char)
  | bytes
deriving DecidableEq, Repr, Inhabited

def Capture.isSome : Capture → Bool
  | .nothing => false
  | .text _ | .bytes => true

/-- Where the first stage reads its input. -/
inductive StdinSource where
  | inherit
  | null
  | bytes (data : Bytes)
deriving DecidableEq, Repr, Inhabited

structure RunOptions where
  /-- Do not forward output. -/
  quiet : Bool := false
  capture : Capture := .nothing
  /-- Keep the standard error of every stage. -/
  captureStderr : Bool := false
  /-- Report the rightmost failing stage instead of the last stage. -/
  pipefail : Bool := false
  stdin : StdinSource := .inherit
  cwd : Option (List Char) := none
  /-- Added to the inherited environment in this order. -/
  env : List (List Char × List Char) := []
  /-- The interpreter of command lines that need a shell. -/
  shell : List Char := ['s', 'h']
deriving DecidableEq, Repr, Inhabited

end ShellTemplate
