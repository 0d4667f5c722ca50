import ShellTemplate.Filling
import ShellTemplate.Options
import ShellTemplate.Text.PathExpansion
import ShellTemplate.Variables

/-!
# Configuration

Settings for running and filling, and an overlay that overrides some of them.
The environment of an overlay adds to that of the configuration below it,
after the names that the overlay removes have been taken out.
-/

namespace ShellTemplate

structure RunConfig where
  shell : List Char := "sh".toList
  quiet : Bool := false
  /-- The word `bytes` or `text`; any other captures nothing. -/
  capture : List Char := "none".toList
  encoding : List Char := "utf-8".toList
  pipefail : Bool := false
  captureStderr : Bool := false
  cwd : Option (List Char) := none
  env : Variables := []
deriving DecidableEq, Repr, Inhabited

structure LogConfig where
  enabled : Bool := true
  level : List Char := "info".toList
  file : List Char := "~/.local/share/shl/shl.log".toList
deriving DecidableEq, Repr, Inhabited

/-- Whether runs are recorded at this level. A level that is not known records them. -/
def LogConfig.recordsRuns (c : LogConfig) : Bool :=
  !(["off", "error", "warn"]).contains (String.ofList (c.level.map Char.toLower))

/-- A whole configuration. -/
structure Config where
  exec : RunConfig := {}
  filling : FillOptions := {}
  logging : LogConfig := {}
deriving DecidableEq, Repr, Inhabited

structure RunOverlay where
  shell : Option (List Char) := none
  quiet : Option Bool := none
  capture : Option (List Char) := none
  encoding : Option (List Char) := none
  pipefail : Option Bool := none
  captureStderr : Option Bool := none
  cwd : Option (List Char) := none
  env : Variables := []
  /-- Names that are taken out before `env` is added. -/
  removeEnv : List (List Char) := []
deriving DecidableEq, Repr, Inhabited

structure LogOverlay where
  enabled : Option Bool := none
  level : Option (List Char) := none
  file : Option (List Char) := none
deriving DecidableEq, Repr, Inhabited

/-- Settings that override those of a configuration where they are given. -/
structure Overlay where
  exec : RunOverlay := {}
  listSeparator : Option (List Char) := none
  logging : LogOverlay := {}
deriving DecidableEq, Repr, Inhabited

namespace Overlay

def applyRun (o : RunOverlay) (c : RunConfig) : RunConfig where
  shell := o.shell.getD c.shell
  quiet := o.quiet.getD c.quiet
  capture := o.capture.getD c.capture
  encoding := o.encoding.getD c.encoding
  pipefail := o.pipefail.getD c.pipefail
  captureStderr := o.captureStderr.getD c.captureStderr
  cwd := o.cwd <|> c.cwd
  env := (c.env.without o.removeEnv).extend o.env

def applyLog (o : LogOverlay) (c : LogConfig) : LogConfig where
  enabled := o.enabled.getD c.enabled
  level := o.level.getD c.level
  file := o.file.getD c.file

/-- The configuration with the overlay on top. -/
def apply (o : Overlay) (c : Config) : Config where
  exec := applyRun o.exec c.exec
  filling := ⟨o.listSeparator.getD c.filling.listSeparator⟩
  logging := applyLog o.logging c.logging

end Overlay

/-- The capture setting that the words of a configuration mean. -/
def captureOfWord (word encoding : List Char) : Capture :=
  if word = "bytes".toList then .bytes
  else if word = "text".toList then .text encoding
  else .nothing

/-- The options that a configuration sets, in an environment. -/
def Config.runOptions (c : Config) (env : Environment) : RunOptions where
  quiet := c.exec.quiet
  capture := captureOfWord c.exec.capture c.exec.encoding
  captureStderr := c.exec.captureStderr
  pipefail := c.exec.pipefail
  stdin := .inherit
  cwd := c.exec.cwd.map (expandPath env)
  env := c.exec.env
  shell := c.exec.shell

end ShellTemplate
