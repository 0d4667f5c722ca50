import ShellTemplate.Run.Launch

/-!
# Wiring

Where the standard descriptors of each process of a run lead: to a file, to a
neighbour, to the caller, or nowhere. It depends on the position of a process,
on its files and those of the one before, and on the options.
-/

namespace ShellTemplate

inductive InputEnd where
  | file
  /-- The output of the process before. -/
  | predecessor
  | callerStdin
  | supplied (data : Bytes)
  | empty
deriving DecidableEq, Repr, Inhabited

inductive OutputEnd where
  | file
  /-- The input of the process behind. -/
  | downstream
  | captured
  | caller
  | discarded
deriving DecidableEq, Repr, Inhabited

structure Wiring where
  stdin : InputEnd
  stdout : OutputEnd
  stderr : OutputEnd
deriving DecidableEq, Repr, Inhabited

namespace Wiring

/-- Where the first process reads. -/
def callerInput : StdinSource → InputEnd
  | .inherit => .callerStdin
  | .null => .empty
  | .bytes data => .supplied data

def input (options : RunOptions) (isFirst isFed : Bool) (launch : Launch) : InputEnd :=
  if launch.hasFile 0 then .file
  else if isFed then .predecessor
  else if isFirst then callerInput options.stdin
  else .empty

def output (options : RunOptions) (isLast : Bool) (launch : Launch) : OutputEnd :=
  if launch.hasFile 1 then .file
  else if !isLast then .downstream
  else if options.capture.isSome then .captured
  else if options.quiet then .discarded
  else .caller

def errors (options : RunOptions) (launch : Launch) : OutputEnd :=
  if launch.hasFile 2 then .file
  else if options.captureStderr then .captured
  else if options.quiet then .discarded
  else .caller

/-- The wiring of the processes behind others, given whether one of those writes to the
first of them. -/
def ofLaunches (options : RunOptions) (isFirst isFed : Bool) : List Launch → List Wiring
  | [] => []
  | launch :: rest =>
    let stdout := output options rest.isEmpty launch
    ⟨input options isFirst isFed launch, stdout, errors options launch⟩ ::
      ofLaunches options false (stdout = .downstream) rest

end Wiring

/-- The wiring of all processes of a run. -/
def wirings (options : RunOptions) (launches : List Launch) : List Wiring :=
  Wiring.ofLaunches options true false launches

end ShellTemplate
