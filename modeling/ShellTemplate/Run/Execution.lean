import ShellTemplate.Encoding
import ShellTemplate.Host.Shell.Interpreter
import ShellTemplate.Log
import ShellTemplate.Outcome
import ShellTemplate.Run.Children
import ShellTemplate.Run.Wiring
import ShellTemplate.Variables

/-!
# Execution

Running a pipeline on the host on behalf of a calling process. All processes
are started before any is waited for; what they write is collected as the
options say; an exit code is never an error.
-/

namespace ShellTemplate

/-- Why a pipeline cannot be run, or its result not be given. -/
inductive RunError where
  | unknownEncoding (label : List Char)
  | redirect (path : List Char) (cause : OsError)
  | spawn (stage : Nat) (program : List Char) (cause : OsError)
  /-- The captured output is ill formed; the outcome is kept. -/
  | decode (encoding : Encoding) (outcome : Outcome)
deriving DecidableEq, Repr, Inhabited

def RunError.message : RunError → String
  | .unknownEncoding label => s!"unknown text encoding \x60{String.ofList label}\x60"
  | .redirect path cause =>
    s!"cannot open redirection target \x60{String.ofList path}\x60: {cause.message}"
  | .spawn stage program cause =>
    s!"failed to spawn stage {stage} (\x60{String.ofList program}\x60): {cause.message}"
  | .decode encoding _ => s!"captured stdout is not valid {encoding.name}"

/-- What a run leaves: its result, and the record of it if all processes came to their end. -/
structure RunReport where
  result : Except RunError Outcome
  record : Option (List Char) := none
  /-- How long the run took. -/
  micros : Nat := 0
  /-- The run as it has ended, if it was begun. -/
  run : Option (RunState Branch) := none

/-- The exit code of a process; a signal counts from 128. -/
def Halt.code : Halt → Int
  | .exit code => (code % 256 : Nat)
  | .signal n => 128 + (n : Int)
  | .stuck => -1

namespace Execution

/-- The directory that the processes start in. -/
def workingDirectory (tree : FileTree) (caller : Process) (options : RunOptions) :
    Except OsError Path :=
  match options.cwd with
  | none => .ok caller.cwd
  | some dir => do
    let path ← tree.resolve caller.cwd (ByteText.ofText dir)
    match tree.find? path with
    | some .directory => return path
    | some _ => throw .notDirectory
    | none => throw .noEntry

/-- The variables that the options set, as byte strings; the last value of a name counts. -/
def ownVariables (options : RunOptions) : Variables :=
  Variables.extend [] (options.env.map fun (name, value) ↦
    (ByteText.ofText name, ByteText.ofText value))

/-- What a process sees of an entry: its name ends at the first equals sign, even if the name
that was set holds one. -/
def visibleEntry (entry : ByteText × ByteText) : ByteText × ByteText :=
  match entry.1.dropWhile (· ≠ '=') with
  | [] => entry
  | _ :: more => (entry.1.takeWhile (· ≠ '='), more ++ '=' :: entry.2)

/-- The environment of the processes: the caller's, with the variables of the options set. If
there are any, the entries are in the order of their names. -/
def environment (caller : Process) (options : RunOptions) : List (ByteText × ByteText) :=
  if options.env.isEmpty then caller.env
  else ((Variables.extend [] caller.env).extend (ownVariables options)).map visibleEntry

/-- Find what a launch starts, or why it cannot be started. A NUL character in what a process
gets is refused before anything else. -/
def findProgram (tree : FileTree) (caller : Process) (options : RunOptions) (launch : Launch) :
    Except OsError (Program × Path) := do
  let texts := launch.program :: launch.args
    ++ (ownVariables options).flatMap (fun (name, value) ↦ [name, value]) ++ options.cwd.toList
  if texts.any (·.contains '\x00') then throw .nulInArgument
  let cwd ← workingDirectory tree caller options
  let p : Process := ⟨[], environment caller options, cwd, []⟩
  let searchPath := (p.lookup? "PATH".toList).getD "/bin:/usr/bin".toList
  let program ← tree.searchProgram cwd searchPath (ByteText.ofText launch.program)
  let argv := (launch.program :: launch.args).map ByteText.ofText
  if !{ p with argv }.fits then throw .argumentsTooLong
  return (program, cwd)

/-- Open the files of a launch: the channels of its descriptors, or the path that cannot be
opened. What was opened before stays open. -/
def openFiles (caller : Process) (options : RunOptions) :
    List Opening → List (Nat × Nat) → Act (Except RunError (List (Nat × Nat)))
  | [], opened => return .ok opened
  | .shared fd earlier :: rest, opened =>
    openFiles caller options rest (opened ++ ((opened.lookup earlier).map (fd, ·)).toList)
  | .fresh fd path mode :: rest, opened => do
    let full := match options.cwd with
      | some dir => joinPath dir path
      | none => path
    match ← caller.openPath (ByteText.ofText full) mode with
    | .error cause => return .error (.redirect full cause)
    | .ok channel => openFiles caller options rest (opened ++ [(fd, channel)])

/-- The start of a run: what has been started, and the pipes that lead on. -/
structure Starting where
  run : RunState Branch
  /-- The channel of the pipe from the process before. -/
  predecessor : Option Nat := none
  /-- The pipes that captured outputs go to. -/
  stdout : Option Nat := none
  stderr : List Nat := []
  error : Option RunError := none

/-- The channel that a standard output leads to, with the pipe if one is made. -/
def outputChannel (caller : Process) (fd : Nat) (file : Option Nat) (wire : OutputEnd) :
    Act (Option Nat × Option Nat) := do
  match wire with
  | .file => return (file, none)
  | .downstream | .captured =>
    let (pipe, channel) ← Act.newPipe
    return (some channel, some pipe)
  | .caller => return (caller.channel? fd, none)
  | .discarded => return (some (← Act.newChannel (.device .null)), none)

/-- The channel that standard input leads to. -/
def inputChannel (caller : Process) (file predecessor : Option Nat) (wire : InputEnd) :
    Act (Option Nat) := do
  match wire with
  | .file => return file
  | .predecessor => return predecessor
  | .callerStdin => return caller.channel? 0
  | .supplied data => some <$> Act.pipeWith (ByteText.ofBytes data)
  | .empty => some <$> Act.newChannel (.device .null)

/-- Start one process, if the run has come to it. -/
def startStage (caller : Process) (options : RunOptions) (count : Nat) (s : Starting)
    (stage : (Launch × Wiring × Option Launch) × Nat) : Act Starting := do
  let ((launch, wiring, next), index) := stage
  if s.run.phase ≠ .opening index then return s
  match ← openFiles caller options launch.openings [] with
  | .error e => return { s with run := s.run.step count .failed, error := some e }
  | .ok files =>
    let run := (s.run.step count .succeeded).step count .succeeded
    match findProgram (← get).tree caller options launch with
    | .error cause =>
      let error := RunError.spawn index launch.program cause
      return { s with run := run.step count .failed, error := some error }
    | .ok (program, cwd) =>
      let stdin ← inputChannel caller (files.lookup 0) s.predecessor wiring.stdin
      let (stdout, outPipe) ← outputChannel caller 1 (files.lookup 1) wiring.stdout
      let (stderr, errPipe) ← outputChannel caller 2 (files.lookup 2) wiring.stderr
      let descriptors := [(0, stdin), (1, stdout), (2, stderr)].filterMap fun (fd, channel) ↦
        channel.map (fd, ·)
      let p : Process := {
        argv := (launch.program :: launch.args).map ByteText.ofText
        env := environment caller options
        cwd
        descriptors }
      let leadsOn := wiring.stdout = .downstream
      let branch : Branch := {
        work := Shell.start Shell.depthLimit program p
        output := if leadsOn then outPipe else none
        unread := next.any (·.hasFile 0) }
      return { s with
        run := run.step count (.spawned branch)
        predecessor := if leadsOn then stdout else none
        stdout := if leadsOn then none else outPipe
        stderr := s.stderr ++ errPipe.toList }

/-- Read what was written to a captured pipe. -/
def collect (pipe : Nat) : Act ByteText := do
  let w ← get
  Act.setEnding pipe w.writersEnding
  let channel ← Act.newChannel (.pipe pipe)
  Act.slurp channel

/-- Pass captured outputs on to a descriptor of the caller, unless the run is quiet. -/
def forward (caller : Process) (options : RunOptions) (fd : Nat) (outputs : List ByteText) :
    Act Unit :=
  if options.quiet then return else outputs.forM (caller.write fd)

/-- Decode the captured output of an outcome. -/
def decodeOutcome (encoding : Option Encoding) (outcome : Outcome) : Except RunError Outcome :=
  match encoding, outcome.stdout with
  | some encoding, some bytes =>
    match encoding.decode? bytes with
    | some text => .ok { outcome with text := some text }
    | none => .error (.decode encoding outcome)
  | _, _ => .ok outcome

/-- Wait for the children of a run and take in what they wrote. -/
def complete (caller : Process) (options : RunOptions) (line : List Char)
    (encoding : Option Encoding) (started : Nat) (s : Starting) : Act RunReport := do
  let finishes ← Branch.runAll (s.run.set.children.map Child.process)
  if finishes.any fun f ↦ f.halt = .stuck then throw .stuck
  let run := finishes.foldl (fun (run : RunState Branch) _ ↦ run.step finishes.length .succeeded)
    s.run
  let stdout ← s.stdout.toList.mapM collect
  let stderr ← s.stderr.mapM collect
  forward caller options 1 stdout
  forward caller options 2 stderr
  if run.phase ≠ .collecting then throw .stuck
  let stageCodes := finishes.map fun f ↦ f.halt.code
  let outcome : Outcome := {
    exitCode := pipelineCode stageCodes options.pipefail
    stageCodes
    stdout := if options.capture.isSome then some (ByteText.toBytes stdout.flatten) else none
    stderr := if options.captureStderr then some (ByteText.toBytes stderr.flatten) else none
    text := none }
  let micros := (← get).clock - started
  let record := executionRecord line outcome.exitCode micros
  return ⟨decodeOutcome encoding outcome, some record, micros,
    some (run.step finishes.length .succeeded)⟩

end Execution

/-- The encoding that captured output is decoded with. -/
def Capture.encoding? : Capture → Except RunError (Option Encoding)
  | .text label =>
    match Encoding.ofLabel? label with
    | some encoding => .ok (some encoding)
    | none => .error (.unknownEncoding label)
  | .nothing | .bytes => .ok none

/-- Run a pipeline on behalf of a process. -/
def Pipeline.execute (p : Pipeline) (options : RunOptions) (caller : Process) : Act RunReport := do
  match options.capture.encoding? with
  | .error e => return { result := .error e }
  | .ok encoding =>
    let launches := p.launches options
    let nexts := launches.tail.map some ++ [none]
    let stages := launches.zip ((wirings options launches).zip nexts)
    let time := (← get).clock
    let s ← stages.zipIdx.foldlM (Execution.startStage caller options launches.length)
      { run := .start launches.length }
    match s.error with
    | some e => return { result := .error e, run := s.run.step launches.length .succeeded }
    | none => Execution.complete caller options p.line encoding time s

end ShellTemplate
