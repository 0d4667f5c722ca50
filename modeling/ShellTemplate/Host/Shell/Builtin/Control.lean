import ShellTemplate.Host.Shell.Builtin.Basic
import ShellTemplate.Host.Shell.Reader

/-!
# Builtins that steer the shell

Leaving loops and the shell, signals, background commands, the working
directory, and questions about command names.
-/

namespace ShellTemplate.Shell.Builtin

/-- The status that an optional argument gives. -/
def statusOf (name : String) (args : List ByteText) : Work Nat := do
  match args with
  | [] => return (← get).status
  | text :: _ => return (← number name text) % 256

def exit (args : List ByteText) : Work Nat := do
  let status ← statusOf "exit" args
  throw (.exit status)

/-- Outside functions this leaves the script. -/
def leave (args : List ByteText) : Work Nat := do
  let status ← statusOf "return" args
  modify fun s ↦ { s with jump := some .leaveScript }
  return status

/-- Jump over loops, if the command stands in one. -/
def jumpLoops (name : String) (jump : Nat → Jump) (args : List ByteText) : Work Nat := do
  let count ← match args with
    | [] => pure 1
    | text :: _ =>
      match ← number name text with
      | 0 => fail s!"{name}: Illegal number: {shown text}"
      | n => pure n
  modify fun s ↦ if s.loops = 0 then s else { s with jump := some (jump (min count s.loops)) }
  return 0

/-- The signals by their numbers. -/
def signalNames : List (Nat × String) :=
  [(1, "HUP"), (2, "INT"), (3, "QUIT"), (4, "ILL"), (5, "TRAP"), (6, "ABRT"), (7, "BUS"),
    (8, "FPE"), (9, "KILL"), (10, "USR1"), (11, "SEGV"), (12, "USR2"), (13, "PIPE"), (14, "ALRM"),
    (15, "TERM"), (16, "STKFLT"), (17, "CHLD"), (18, "CONT"), (19, "STOP"), (20, "TSTP"),
    (21, "TTIN"), (22, "TTOU"), (23, "URG"), (24, "XCPU"), (25, "XFSZ"), (26, "VTALRM"),
    (27, "PROF"), (28, "WINCH"), (29, "POLL"), (30, "PWR"), (31, "SYS")]

/-- The number of a signal, from its name or its digits. Zero is the end of the shell. -/
def signalNumber? (text : ByteText) : Option Nat :=
  match readNumber? text with
  | some n => if n < 65 then some n else none
  | none =>
    let name := (String.ofList text).toUpper
    if name = "EXIT" then some 0
    else (signalNames.find? fun (_, n) ↦ n = name).map (·.1)

/-- Send a signal to the shell itself. -/
def raise (signal : Nat) : Work Unit := do
  if signal = 0 || signal ∈ [17, 18, 23, 28] then return
  if signal ∈ [19, 20, 21, 22] then throw .stuck
  if signal ≠ 9 && (((← get).traps.lookup signal).isSome) then return
  throw (.signal signal)

/-- Send a signal to processes by their numbers. Zero stands for all of them, the shell
included. -/
def signalProcesses (signal : Nat) (targets : List ByteText) : Work Nat :=
  targets.foldlM (fun status target ↦ do
    match readNumber? target with
    | none => refuse "kill" s!"Illegal number: {shown target}"
    | some id =>
      if id = processId || id = 0 then
        raise signal
        return status
      else
        let s ← get
        if s.jobs.any fun job ↦ job.id = id then
          let now := (← getThe World).clock
          let stopped (job : Job) : Job :=
            if job.id = id && signal ≠ 0 then { job with ended := some (now, 128 + signal) }
            else job
          set { s with jobs := s.jobs.map stopped }
          return status
        else
          complain "kill: No such process\n"
          return 1) 0

def kill (args : List ByteText) : Work Nat := do
  let usage := "Usage: kill [-s sigspec | -signum | -sigspec] [pid | job]... or\n" ++
    "kill -l [exitstatus]"
  match args with
  | [] => refuse "kill" usage
  | [['-', 'l']] =>
    say "0\n"
    signalNames.forM fun (_, name) ↦ say s!"{name}\n"
    return 0
  | ['-', 'l'] :: text :: _ =>
    let n ← number "kill" text
    match signalNames.lookup (n % 128) with
    | some name =>
      say s!"{name}\n"
      return 0
    | none => refuse "kill" s!"invalid signal number or exit status: {shown text}"
  | ['-', 's'] :: name :: targets =>
    match signalNumber? name with
    | some signal => signalProcesses signal targets
    | none => refuse "kill" s!"invalid signal number or name: {shown name}"
  | ['-', '-'] :: targets => signalProcesses 15 targets
  | ('-' :: c :: name) :: targets =>
    match signalNumber? (c :: name) with
    | some signal => if targets.isEmpty then refuse "kill" usage else signalProcesses signal targets
    | none => refuse "kill" s!"Illegal option -{c}"
  | targets => signalProcesses 15 targets

/-- Wait until a command in the background has ended. -/
def await (job : Job) : Work Nat := do
  match job.ended with
  | some (time, status) =>
    Act.advanceTo time
    return status
  | none => throw .stuck

def wait (args : List ByteText) : Work Nat := do
  let jobs := (← get).jobs
  if args.isEmpty then
    jobs.forM fun job ↦ discard (await job)
    modify fun s ↦ { s with jobs := [] }
    return 0
  args.foldlM (fun _ text ↦ do
    let id ← number "wait" text
    match jobs.find? fun job ↦ job.id = id with
    | some job => await job
    | none => return 127) 0

def trap (args : List ByteText) : Work Nat := do
  let nameOf (n : Nat) : String := if n = 0 then "EXIT" else (signalNames.lookup n).getD ""
  match args with
  | [] =>
    (← get).traps.forM fun (n, command) ↦
      sayText ("trap -- ".toList ++ quotedValue command ++ (s!" {nameOf n}\n").toList)
    return 0
  | action :: signals =>
    let (action?, signals) : Option ByteText × List ByteText :=
      if signals.isEmpty then (none, [action])
      else if action = ['-'] then (none, signals)
      else (some action, signals)
    signals.foldlM (fun status text ↦ do
      match signalNumber? text with
      | none =>
        write 2 (s!"trap: {shown text}: bad trap\n").toList
        return 1
      | some n =>
        modify fun s ↦
          let others := s.traps.filter fun (m, _) ↦ m ≠ n
          { s with traps := match action? with
            | some command => others ++ [(n, command)]
            | none => others }
        return status) 0

/-- The directory that `cd` leads to; `-` stands for the one before. -/
def cd (args : List ByteText) : Work Nat := do
  let s ← get
  let operands := args.dropWhile ["-L".toList, "-P".toList, "--".toList].contains
  let back := operands.head? = some ['-']
  let target := match operands with
    | [] => (s.parameter? "HOME".toList).getD []
    | ['-'] :: _ => (s.parameter? "OLDPWD".toList).getD s.cwd.text
    | text :: _ => text
  let w ← getThe World
  let path := w.tree.resolve s.cwd (if target.isEmpty then ['.'] else target)
  match path with
  | .ok path =>
    if w.tree.find? path = some .directory then
      set ({ s with cwd := path }.export "OLDPWD".toList s.cwd.text
        |>.export "PWD".toList path.text)
      if back then sayText (path.text ++ ['\n'])
      return 0
    else refuse "cd" s!"can't cd to {shown target}"
  | .error _ => refuse "cd" s!"can't cd to {shown target}"

def times (_ : List ByteText) : Work Nat := do
  say "0m0.000000s 0m0.000000s\n0m0.000000s 0m0.000000s\n"
  return 0

def ulimit (args : List ByteText) : Work Nat := do
  match args with
  | [] =>
    say "unlimited\n"
    return 0
  | _ => refuse "ulimit" "bad number"

def jobs (_ : List ByteText) : Work Nat := return 0

def resume (name : String) (_ : List ByteText) : Work Nat := refuse name "No current job"

def «local» (_ : List ByteText) : Work Nat := fail "local: not in a function"

/-- The builtins whose assignments stay and whose errors end the shell. -/
def specialNames : List String :=
  [":", ".", "break", "continue", "eval", "exec", "exit", "export", "readonly", "return", "set",
    "shift", "times", "trap", "unset"]

def plainNames : List String :=
  ["alias", "bg", "cd", "command", "echo", "false", "fg", "getopts", "hash", "jobs", "kill",
    "local", "printf", "pwd", "read", "test", "[", "true", "type", "ulimit", "umask", "unalias",
    "wait"]

def isSpecial (name : ByteText) : Bool := specialNames.contains (String.ofList name)

def isPlain (name : ByteText) : Bool := plainNames.contains (String.ofList name)

/-- The directories in which programs are looked for. -/
def searchPath (s : Session) : ByteText := (s.parameter? "PATH".toList).getD []

/-- Where a program of this name is found. -/
def locate? (s : Session) (w : World) (name : ByteText) : Option ByteText :=
  let isProgram (path : ByteText) : Bool := (w.tree.program? s.cwd path).toOption.isSome
  if name.contains '/' then if isProgram name then some name else none
  else ((ByteText.splitAll ':' (searchPath s)).map fun dir ↦ dir ++ '/' :: name).find? isProgram

/-- Say what kind of command each name is. -/
def describe (args : List ByteText) : Work Nat := do
  let w ← getThe World
  args.foldlM (fun status name ↦ do
    let answer (text : String) : Work Nat := do
      sayText (name ++ (text ++ "\n").toList)
      return status
    let s ← get
    if reservedWords.contains name then answer " is a shell keyword"
    else if isSpecial name then answer " is a special shell builtin"
    else if isPlain name then answer " is a shell builtin"
    else
      match locate? s w name with
      | some path => answer s!" is {shown path}"
      | none =>
        sayText (name ++ ": not found\n".toList)
        return 127) 0

def hash (args : List ByteText) : Work Nat := do
  let w ← getThe World
  args.foldlM (fun status name ↦ do
    if (locate? (← get) w name).isSome then return status
    else
      complain s!"hash: {shown name}: not found"
      return 1) 0

end ShellTemplate.Shell.Builtin
