import ShellTemplate.Compile
import ShellTemplate.Config.Reader
import ShellTemplate.Json.Reader
import ShellTemplate.Json.Writer
import ShellTemplate.Request.Reader
import ShellTemplate.Run.Execution

/-!
# The command line tool

Reads a request from standard input, runs it, answers with the result as JSON
and ends with the exit code of the command. Where the command cannot be run, it
says why and ends with code 2.
-/

namespace ShellTemplate

/-- What the tool comes to: its exit code, and the reply if the command was run. -/
structure ToolAnswer where
  code : Nat
  reply : Option Json := none

namespace Tool

/-- The JSON of output: its text, else its bytes as UTF-8, else their numbers. -/
def outputJson (text : Option (List Char)) (bytes : Option Bytes) : Json :=
  match text, bytes with
  | some text, _ => .string text
  | none, some bytes =>
    match decodeUtf8? bytes with
    | some text => .string text
    | none => .array (bytes.map fun b ↦ .integer b.toNat)
  | none, none => .null

/-- The reply to a request. -/
def reply (outcome : Outcome) (micros : Nat) : Json :=
  .record [
    ("duration_ms", .integer (micros / 1000 : Nat)),
    ("exit_code", .integer outcome.exitCode),
    ("stage_codes", .array (outcome.stageCodes.map .integer)),
    ("stderr", outputJson none outcome.stderr),
    ("stdout", outputJson outcome.text outcome.stdout)]

/-- The exit code of the tool for that of a command. -/
def exitCode (code : Int) : Nat := (max 0 (min code 255)).toNat

/-- The tool's name for itself in its messages. -/
def say (caller : Process) (message : String) : Act Unit :=
  caller.write 2 (ByteText.ofString s!"shl: {message}\n")

def refuse (caller : Process) (message : String) : Act ToolAnswer := do
  say caller message
  return { code := 2 }

/-- The environment of a process as text. -/
def environment (caller : Process) : Environment :=
  let text (bytes : ByteText) : List Char := decodeUtf8Lossy (ByteText.toBytes bytes)
  caller.env.map fun (name, value) ↦ (text name, text value)

/-- The text of a file, if there is one and it is UTF-8. -/
def fileText? (tree : FileTree) (cwd : Path) (path : List Char) : Option (List Char) := do
  match tree.find? (← (tree.resolve cwd (ByteText.ofText path)).toOption) with
  | some (.file content) => decodeUtf8? (ByteText.toBytes content)
  | _ => none

/-- The configuration: the defaults under the overlay in the home directory. An overlay that
cannot be read is reported and ignored. -/
def loadConfig (caller : Process) : Act Config := do
  let tree := (← get).tree
  let home? := (environment caller).get? "HOME".toList
  let text? := home?.bind fun home ↦
    fileText? tree caller.cwd (joinPath home ".config/shl/config.toml".toList)
  match text? with
  | none => return {}
  | some text =>
    match Overlay.ofToml? text with
    | some overlay => return overlay.apply {}
    | none =>
      say caller "config parse error"
      return {}

/-- Make the directories that lead to a path, as far as that is possible. -/
def makeParents (cwd : Path) (path : List Char) : Act Unit :=
  let path := PathText.ofText (ByteText.ofText path)
  let base := if path.isAbsolute then [] else cwd
  if path.names.any (·.contains '\x00') then pure ()
  else modify fun w ↦ { w with tree := w.tree.putAlong base path.parentNames }

/-- Open the log that the configuration asks for. A log that cannot be opened is done
without. -/
def openLog (config : LogConfig) (caller : Process) : Act (Option Nat) := do
  if !config.enabled then return none
  let path := expandPath (environment caller) config.file
  makeParents caller.cwd path
  match ← Act.openPath caller.cwd (ByteText.ofText path) .append with
  | .ok channel => return if config.recordsRuns then some channel else none
  | .error _ => return none

/-- Run a request. -/
def run (request : Request) (config : Config) (log : Option Nat) (caller : Process) :
    Act ToolAnswer := do
  let (filling, options) := request.options.resolve config (environment caller)
  match request.template.compile filling with
  | .error e => refuse caller e.message
  | .ok pipeline =>
    let report ← pipeline.execute options caller
    match log, report.record with
    | some channel, some record =>
      Act.write channel (ByteText.ofText ("[INFO] ".toList ++ record ++ ['\n']))
    | _, _ => pure ()
    match report.result with
    | .error e => refuse caller e.message
    | .ok outcome => return ⟨exitCode outcome.exitCode, some (reply outcome report.micros)⟩

/-- Serve the request on standard input. -/
def serve (caller : Process) : Act ToolAnswer := do
  let config ← loadConfig caller
  let log ← openLog config.logging caller
  match decodeUtf8? (ByteText.toBytes (← caller.slurp 0)) with
  | none => refuse caller "failed to read stdin: stream did not contain valid UTF-8"
  | some input =>
    match Json.read? input >>= Request.ofJson? with
    | none => refuse caller "JSON parse error"
    | some request => run request config log caller

/-- Serve a request and print the reply; the result is the exit code. -/
def converse (caller : Process) : Act Nat := do
  let answer ← serve caller
  match answer.reply with
  | some reply => caller.write 1 (ByteText.ofText (Json.write reply ++ ['\n']))
  | none => pure ()
  return answer.code

end Tool

end ShellTemplate
