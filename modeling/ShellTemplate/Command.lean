import ShellTemplate.Compile
import ShellTemplate.Options

/-!
# Commands

A template with the options it will be filled and run with, refined one
setting at a time.
-/

namespace ShellTemplate

structure Command where
  template : Template
  filling : FillOptions := {}
  options : RunOptions := {}
deriving DecidableEq, Repr, Inhabited

namespace Command

def withOptions (c : Command) (options : RunOptions) : Command := { c with options }

def withFilling (c : Command) (filling : FillOptions) : Command := { c with filling }

def listSeparator (c : Command) (separator : List Char) : Command :=
  { c with filling := { c.filling with listSeparator := separator } }

/-- Do not forward output. -/
def quiet (c : Command) : Command := { c with options := { c.options with quiet := true } }

/-- Capture standard output, which is then not forwarded. -/
def capturing (c : Command) (capture : Capture) : Command :=
  { c with options := { c.options with capture } }.quiet

def textEncoding (c : Command) (label : List Char) : Command := c.capturing (.text label)

/-- Capture standard output as UTF-8 text. -/
def text (c : Command) : Command := c.textEncoding ['u', 't', 'f', '-', '8']

def bytes (c : Command) : Command := c.capturing .bytes

def captureStderr (c : Command) : Command :=
  { c with options := { c.options with captureStderr := true } }

def pipefail (c : Command) : Command := { c with options := { c.options with pipefail := true } }

def cwd (c : Command) (dir : List Char) : Command :=
  { c with options := { c.options with cwd := some dir } }

def env (c : Command) (name value : List Char) : Command :=
  { c with options := { c.options with env := c.options.env ++ [(name, value)] } }

def stdinBytes (c : Command) (data : Bytes) : Command :=
  { c with options := { c.options with stdin := .bytes data } }

def stdinNull (c : Command) : Command := { c with options := { c.options with stdin := .null } }

def shell (c : Command) (shell : List Char) : Command :=
  { c with options := { c.options with shell } }

def compile (c : Command) : Except CompileError Pipeline := c.template.compile c.filling

end Command

end ShellTemplate
