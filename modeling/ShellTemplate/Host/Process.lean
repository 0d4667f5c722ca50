import ShellTemplate.Host.World

/-!
# Processes

A process has arguments, an environment, a working directory, and descriptors
that refer to channels of the host.
-/

namespace ShellTemplate

structure Process where
  /-- The name it was started by, then its arguments. -/
  argv : List ByteText
  env : List (ByteText × ByteText)
  cwd : Path
  /-- The channel of each open descriptor. -/
  descriptors : List (Nat × Nat)
deriving DecidableEq, Repr, Inhabited

namespace Process

def channel? (p : Process) (fd : Nat) : Option Nat := p.descriptors.lookup fd

/-- Let a descriptor refer to a channel. -/
def bind (p : Process) (fd channel : Nat) : Process :=
  { p with descriptors := (fd, channel) :: p.descriptors.filter fun (n, _) ↦ n ≠ fd }

def args (p : Process) : List ByteText := p.argv.drop 1

/-- The value of a variable; the first entry of a name counts. -/
def lookup? (p : Process) (name : ByteText) : Option ByteText := p.env.lookup name

/-- The longest argument of a new process, and the longest entry of its environment. -/
def textLimit : Nat := 131071

/-- The room for all arguments and variables, with their ends and their addresses. -/
def textRoom : Nat := 2097152

/-- Whether the arguments and variables of a new process are short enough. -/
def fits (p : Process) : Bool :=
  let lengths := p.argv.map List.length
    ++ p.env.map fun (name, value) ↦ name.length + 1 + value.length
  lengths.all (· ≤ textLimit) && lengths.foldl (fun n length ↦ n + length + 9) 0 ≤ textRoom

/-- Why nothing can be written to a descriptor, if that is so. -/
def writeFault? (p : Process) (fd : Nat) : Act (Option OsError) :=
  match p.channel? fd with
  | some channel => Act.writeFault? channel
  | none => return some .badDescriptor

/-- Write to a descriptor; nothing happens if it is closed. -/
def write (p : Process) (fd : Nat) (data : ByteText) : Act Unit :=
  match p.channel? fd with
  | some channel => Act.write channel data
  | none => return

/-- Write a message; its characters are bytes. -/
def say (p : Process) (text : String) : Act Unit := p.write 2 text.toList

/-- Read a descriptor to its end. -/
def slurp (p : Process) (fd : Nat) : Act ByteText :=
  match p.channel? fd with
  | some channel => Act.slurp channel
  | none => return []

/-- Copy data to standard output as it comes, changed by a function that keeps a state. -/
def copyWith (p : Process) (change : σ → ByteText → ByteText × σ) (state : σ)
    (chunks : List Chunk) : Act σ :=
  chunks.foldlM (fun state chunk ↦ do
    Act.advanceTo chunk.time
    let (out, state) := change state chunk.data
    p.write 1 out
    return state) state

/-- Wait for the end of an input whose endless rest is passed on through a function. -/
def passEnding (p : Process) (ending : Ending) (change : Char → Option Char) : Act Unit :=
  match ending with
  | .endless c =>
    match change c, p.channel? 1 with
    | some c, some channel => Act.writeEndless channel c
    | _, _ => throw .stuck
  | ending => Act.awaitEnding ending

/-- The descriptor that a path names. -/
def ownDescriptor? (path : ByteText) : Option Nat :=
  match ["/dev/stdin", "/dev/stdout", "/dev/stderr"].idxOf? (String.ofList path) with
  | some fd => some fd
  | none =>
    let directory := "/dev/fd/".toList
    if directory.isPrefixOf path then readDigits? (path.drop directory.length) else none

/-- Open a path as a process sees it: some paths name its own descriptors. -/
def openPath (p : Process) (path : ByteText) (mode : FileMode) : Act (Except OsError Nat) :=
  match ownDescriptor? path with
  | some fd =>
    match p.channel? fd with
    | some channel => return .ok channel
    | none => return .error .noEntry
  | none => Act.openPath p.cwd path mode

end Process

namespace Act

/-- All that has been written to a pipe. -/
def written (channel : Nat) : Act ByteText := do
  let (chunks, _) ← readAll channel
  return chunks.flatMap Chunk.data

/-- Do something on behalf of a process with this input, and take what is written to its two
outputs. -/
def onBehalf (env : List (ByteText × ByteText)) (cwd : Path) (input : ByteText)
    (work : Process → Act α) : Act (α × ByteText × ByteText) := do
  let stdin ← pipeWith input
  let (_, stdout) ← newPipe
  let (_, stderr) ← newPipe
  let a ← work ⟨[], env, cwd, [(0, stdin), (1, stdout), (2, stderr)]⟩
  return (a, ← written stdout, ← written stderr)

end Act

end ShellTemplate
