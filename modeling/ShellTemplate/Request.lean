import ShellTemplate.Config
import ShellTemplate.Template

/-!
# Requests

A template to run, with options that override those of a configuration. The
reply carries what was captured, so standard output is always captured.
-/

namespace ShellTemplate

structure RequestOptions where
  quiet : Option Bool := none
  /-- The word `bytes` or `text`; any other leaves the choice to the configuration. -/
  capture : Option (List Char) := none
  encoding : Option (List Char) := none
  pipefail : Option Bool := none
  captureStderr : Option Bool := none
  cwd : Option (List Char) := none
  env : Variables := []
  stdin : Option (List Char) := none
  shell : Option (List Char) := none
  listSeparator : Option (List Char) := none
deriving DecidableEq, Repr, Inhabited

structure Request where
  template : Template
  options : RequestOptions := {}
deriving DecidableEq, Repr, Inhabited

namespace RequestOptions

/-- What is captured: bytes or text, never nothing. -/
def resolveCapture (o : RequestOptions) (c : Config) : Capture :=
  let encoding := o.encoding.getD c.exec.encoding
  if o.capture = some "bytes".toList then .bytes
  else if o.capture = some "text".toList then .text encoding
  else
    match captureOfWord c.exec.capture c.exec.encoding with
    | .bytes => .bytes
    | .nothing | .text _ => .text encoding

/-- How the holes are filled and the pipeline is run. Nothing is forwarded unless the request
asks for it, and the input is empty unless the request gives one. -/
def resolve (o : RequestOptions) (c : Config) (env : Environment) : FillOptions × RunOptions :=
  let base := c.runOptions env
  (⟨o.listSeparator.getD c.filling.listSeparator⟩,
    { quiet := o.quiet.getD true
      capture := o.resolveCapture c
      captureStderr := o.captureStderr.getD base.captureStderr
      pipefail := o.pipefail.getD base.pipefail
      stdin := match o.stdin with
        | some text => .bytes (encodeUtf8 text)
        | none => .null
      cwd := (o.cwd.map (expandPath env)) <|> base.cwd
      env := base.env ++ o.env
      shell := o.shell.getD base.shell })

end RequestOptions

end ShellTemplate
