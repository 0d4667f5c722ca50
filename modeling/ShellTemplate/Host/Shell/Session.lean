import ShellTemplate.Host.Process
import ShellTemplate.Host.Shell.Script

/-!
# Shell sessions

The state of a running shell: its parameters, variables, settings and
descriptors. A subshell starts from a copy of it.
-/

namespace ShellTemplate.Shell

structure Variable where
  /-- A variable may be exported or made read-only before it has a value. -/
  value : Option ByteText := none
  exported : Bool := false
  readOnly : Bool := false
deriving DecidableEq, Repr, Inhabited

/-- Where the shell goes on instead of with the next command. -/
inductive Jump where
  /-- Behind so many loops. -/
  | leaveLoops (count : Nat)
  /-- To the next round of the last of so many loops. -/
  | nextRound (count : Nat)
  /-- Behind the whole script. -/
  | leaveScript
deriving DecidableEq, Repr, Inhabited

/-- A command in the background. -/
structure Job where
  id : Nat
  /-- When it ends and with which status; it may go on past the deadline. -/
  ended : Option (Nat × Nat)
deriving DecidableEq, Repr, Inhabited

/-- The options that `set` changes. -/
inductive Setting where
  /-- Stop at the first command that fails. -/
  | errexit
  /-- Do not replace patterns by file names. -/
  | noglob
  /-- Refuse parameters that are not set. -/
  | nounset
  /-- Options without an effect on what scripts do here. -/
  | other (name : String)
deriving DecidableEq, Repr, Inhabited

structure Session where
  /-- The name the shell calls itself. -/
  name : ByteText
  args : List ByteText
  bindings : List (ByteText × Variable)
  cwd : Path
  descriptors : List (Nat × Nat)
  status : Nat := 0
  settings : List Setting := []
  jobs : List Job := []
  aliases : List (ByteText × ByteText) := []
  /-- The commands to run for signals; number zero stands for the end of the shell. -/
  traps : List (Nat × ByteText) := []
  mask : Nat := 18
  jump : Option Jump := none
  /-- A command substitution has set the status since this was last taken back. -/
  substituted : Bool := false
  /-- How deep in loops the current command stands. -/
  loops : Nat := 0
  /-- The line ends in the script. -/
  lineEnds : Nat := 0
  line : Nat := 1
deriving DecidableEq, Repr, Inhabited

/-- What a shell does: it changes its session and acts on the host. -/
abbrev Work := StateT Session Act

/-- The number that a shell goes by. -/
def processId : Nat := 1000

namespace Session

def entry? (s : Session) (name : ByteText) : Option Variable := s.bindings.lookup name

def setVariable (s : Session) (name : ByteText) (v : Variable) : Session :=
  if (s.entry? name).isSome then
    { s with bindings := s.bindings.map fun (n, old) ↦ if n = name then (n, v) else (n, old) }
  else { s with bindings := s.bindings ++ [(name, v)] }

/-- Give a variable a value; whether it is exported stays. -/
def assign (s : Session) (name value : ByteText) : Session :=
  s.setVariable name { (s.entry? name).getD {} with value := some value }

/-- Give a variable a value that programs get. -/
def «export» (s : Session) (name value : ByteText) : Session :=
  s.setVariable name { (s.entry? name).getD {} with value := some value, exported := true }

def unassign (s : Session) (name : ByteText) : Session :=
  { s with bindings := s.bindings.filter fun (n, _) ↦ n ≠ name }

/-- The variables that programs get. -/
def environment (s : Session) : List (ByteText × ByteText) :=
  s.bindings.filterMap fun (name, v) ↦
    if v.exported then v.value.map fun value ↦ (name, value) else none

def decimal (n : Nat) : ByteText := Nat.toDigits 10 n

/-- The value of a parameter. -/
def parameter? (s : Session) (name : ByteText) : Option ByteText :=
  match name with
  | ['?'] => some (decimal s.status)
  | ['#'] => some (decimal s.args.length)
  | ['$'] => some (decimal processId)
  | ['!'] => s.jobs.getLast?.map fun job ↦ decimal job.id
  | ['-'] =>
    some ([(Setting.nounset, 'u'), (.noglob, 'f'), (.errexit, 'e')].filterMap fun (setting, c) ↦
      if s.settings.contains setting then some c else none)
  | ['@'] | ['*'] => if s.args.isEmpty then none else some ([' '].intercalate s.args)
  | _ =>
    match readDigits? name with
    | some 0 => some s.name
    | some n => s.args[n - 1]?
    | none => (s.entry? name).bind Variable.value

def has (s : Session) (setting : Setting) : Bool := s.settings.contains setting

def channel? (s : Session) (fd : Nat) : Option Nat := s.descriptors.lookup fd

/-- Let a descriptor refer to a channel. -/
def bind (s : Session) (fd channel : Nat) : Session :=
  { s with descriptors := (fd, channel) :: s.descriptors.filter fun (n, _) ↦ n ≠ fd }

def close (s : Session) (fd : Nat) : Session :=
  { s with descriptors := s.descriptors.filter fun (n, _) ↦ n ≠ fd }

/-- The characters at which unquoted expansions are split. -/
def separators (s : Session) : ByteText :=
  match s.entry? "IFS".toList with
  | some ⟨some text, _, _⟩ => text
  | _ => [' ', '\t', '\n']

/-- The process that a program started by the shell is. -/
def process (s : Session) (argv : List ByteText) : Process where
  argv
  env := s.environment
  cwd := s.cwd
  descriptors := s.descriptors

end Session

/-- Write to a descriptor of the shell. -/
def write (fd : Nat) (text : ByteText) : Work Unit := do
  match (← get).channel? fd with
  | some channel => Act.write channel text
  | none => return

def sayText (text : ByteText) : Work Unit := write 1 text

def say (text : String) : Work Unit := write 1 (ByteText.ofString text)

/-- Text in a message; the bytes of names are kept. -/
def shown (text : ByteText) : String := String.ofList text

/-- Report an error. The characters of the message are bytes. -/
def complain (message : String) : Work Unit := do
  let s ← get
  write 2 (s!"{shown s.name}: {s.line}: {message}\n").toList

/-- Report an error and leave the shell. -/
def fail (message : String) : Work α := do
  complain message
  throw (.exit 2)

def setStatus (status : Nat) : Work Unit := modify fun s ↦ { s with status }

/-- Give a variable a value, unless it is read-only. -/
def assignVariable (context : String) (name value : ByteText) : Work Unit := do
  let s ← get
  if (s.entry? name).any Variable.readOnly then fail s!"{context}{shown name}: is read only"
  set (s.assign name value)

/-- Run something that prints and gives a status. That its output goes nowhere it finds out
when it has written some. -/
def printing (name : ByteText) (work : Work Nat) : Work Nat := do
  let s ← get
  match ← (s.process []).writeFault? 1 with
  | none => work
  | some _ =>
    let (_, channel) ← Act.newPipe
    set (s.bind 1 channel)
    let status ← work
    modify fun after ↦ { after with descriptors := s.descriptors }
    if (← Act.written channel).isEmpty then return status
    complain s!"{shown name}: {shown name}: I/O error"
    return 1

/-- Do something with other descriptors and have the old ones back. -/
def keepingDescriptors (work : Work Unit) : Work Unit := do
  let before := (← get).descriptors
  work
  modify fun s ↦ { s with descriptors := before }

end ShellTemplate.Shell
