import ShellTemplate.Config
import ShellTemplate.Toml.Reader

/-!
# Configuration files

Reading a configuration or an overlay from TOML. Keys that are not known are
ignored; a value of the wrong type makes the whole text invalid. A section may
also be an array that gives its fields in order.
-/

namespace ShellTemplate

namespace Toml

def text? : Toml → Option (List Char)
  | .string text => some text
  | _ => none

def flag? : Toml → Option Bool
  | .bool b => some b
  | _ => none

def texts? : Toml → Option (List (List Char))
  | .array items => items.mapM text?
  | .tables [] => some []
  | _ => none

/-- The one key of the table that a date or time is taken for where a table is asked for. -/
def datetimeKey : List Char := "$__toml_private_datetime".toList

/-- Variables in a table of strings. -/
def variables? : Toml → Option Variables
  | .datetime text => some [(datetimeKey, text)]
  | .table _ members => do
    let pairs ← members.mapM fun (name, value) ↦ (text? value).map fun text ↦ (name, text)
    return Variables.extend [] pairs
  | _ => none

end Toml

/-- A section of a document: named fields, or fields in order. -/
inductive ConfigSection where
  | named (members : Toml.Members)
  | ordered (items : List Toml)

namespace ConfigSection

/-- The section of this name; one that is not there has no fields. -/
def find? (name : String) (members : Toml.Members) : Option ConfigSection :=
  match members.lookup name.toList with
  | none => some (.named [])
  | some (.table _ inner) => some (.named inner)
  | some (.array items) => some (.ordered items)
  | some (.tables items) => some (.ordered (items.reverse.map (.table .defined)))
  | some (.datetime _) => some (.named [])
  | some _ => none

/-- The field of a name and a position. -/
def get? (s : ConfigSection) (name : String) (position : Nat) : Option Toml :=
  match s with
  | .named members => members.lookup name.toList
  | .ordered items => items[position]?

/-- Read a field that may be missing: `none` if it is there and has the wrong type. -/
def read? (s : ConfigSection) (name : String) (position : Nat) (read : Toml → Option α) :
    Option (Option α) :=
  match s.get? name position with
  | none => some none
  | some value => (read value).map some

/-- Read a field that stands for a default where it is missing. -/
def readD? (s : ConfigSection) (name : String) (position : Nat) (read : Toml → Option α)
    (default : α) : Option α :=
  (s.read? name position read).map (·.getD default)

/-- Fields in order must all be given, up to this many. -/
def hasFirst (s : ConfigSection) (count : Nat) : Bool :=
  match s with
  | .named _ => true
  | .ordered items => count ≤ items.length

end ConfigSection

open Toml in
/-- A whole configuration; a setting that is missing has its default. -/
def Config.ofToml? (text : List Char) : Option Config := do
  let root ← Toml.read? text
  let exec ← ConfigSection.find? "exec" root
  let render ← ConfigSection.find? "render" root
  let logging ← ConfigSection.find? "logging" root
  let base : Config := {}
  return {
    exec := {
      shell := ← exec.readD? "shell" 0 text? base.exec.shell
      quiet := ← exec.readD? "quiet" 1 flag? base.exec.quiet
      capture := ← exec.readD? "capture" 2 text? base.exec.capture
      encoding := ← exec.readD? "encoding" 3 text? base.exec.encoding
      pipefail := ← exec.readD? "pipefail" 4 flag? base.exec.pipefail
      captureStderr := ← exec.readD? "capture_stderr" 5 flag? base.exec.captureStderr
      cwd := ← exec.read? "cwd" 6 text?
      env := ← exec.readD? "env" 7 variables? base.exec.env }
    filling := ⟨← render.readD? "list_separator" 0 text? base.filling.listSeparator⟩
    logging := {
      enabled := ← logging.readD? "enabled" 0 flag? base.logging.enabled
      level := ← logging.readD? "level" 1 text? base.logging.level
      file := ← logging.readD? "file" 2 text? base.logging.file } }

open Toml in
/-- An overlay; a setting that is missing is not overridden. -/
def Overlay.ofToml? (text : List Char) : Option Overlay := do
  let root ← Toml.read? text
  let exec ← ConfigSection.find? "exec" root
  let render ← ConfigSection.find? "render" root
  let logging ← ConfigSection.find? "logging" root
  if exec.hasFirst 7 && render.hasFirst 1 && logging.hasFirst 3 then
    return {
      exec := {
        shell := ← exec.read? "shell" 0 text?
        quiet := ← exec.read? "quiet" 1 flag?
        capture := ← exec.read? "capture" 2 text?
        encoding := ← exec.read? "encoding" 3 text?
        pipefail := ← exec.read? "pipefail" 4 flag?
        captureStderr := ← exec.read? "capture_stderr" 5 flag?
        cwd := ← exec.read? "cwd" 6 text?
        env := ← exec.readD? "env" 7 variables? []
        removeEnv := ← exec.readD? "remove_env" 8 texts? [] }
      listSeparator := ← render.read? "list_separator" 0 text?
      logging := {
        enabled := ← logging.read? "enabled" 0 flag?
        level := ← logging.read? "level" 1 text?
        file := ← logging.read? "file" 2 text? } }
  else none

end ShellTemplate
