import ShellTemplate.Host.World

/-!
# Processes side by side

Processes that start at the same time and are connected by pipes, each writing
what the next one reads. They are run one after another, each from the common
start; afterwards those that wrote more than anyone read are cut off.
-/

namespace ShellTemplate

/-- The bytes that a pipe holds while nobody reads it. -/
def pipeCapacity : Nat := 65536

/-- The signal for writing into a pipe that nobody reads any more. -/
def brokenPipe : Halt := .signal 13

structure Branch where
  work : Act Nat
  /-- The pipe to the next branch, which no other branch writes. -/
  output : Option Nat := none
  /-- The next branch does not even have the pipe. -/
  unread : Bool := false

/-- How a branch came out. -/
structure Finish where
  halt : Halt
  time : Nat
deriving DecidableEq, Repr, Inhabited

namespace Pipe

/-- Whether its writer fails because the reader has gone at a time: it fills the pipe, or
writes after that time. -/
def isBroken (p : Pipe) (capacity readerEnd : Nat) : Bool :=
  match p.ending with
  | .endless _ => true
  | _ =>
    capacity < Chunk.total p.chunks || p.chunks.any fun c ↦ readerEnd < c.time

end Pipe

namespace World

/-- How a pipe ends whose writers have all come as far as they come. -/
def writersEnding (w : World) : Ending :=
  match w.latest with
  | some time => .eof time
  | none => .never

end World

namespace Branch

/-- Run a branch from a time on. -/
def run (start : Nat) (branch : Branch) : Act Finish := do
  let before := (← get).latest
  modify fun w ↦ { w with clock := start, latest := some start }
  let halt ← Act.apart branch.work
  let w ← get
  match branch.output, w.latest with
  | some pipe, some time => Act.setEnding pipe (.eof time)
  | _, _ => pure ()
  modify fun w ↦ { w with latest := before.bind fun a ↦ w.latest.map fun b ↦ max a b }
  return ⟨halt, w.clock⟩

/-- Cut off a branch that still writes when the one behind it has ended. -/
def cutOff (w : World) (branch : Branch) (finish : Finish) (next : Option Finish) : Finish :=
  match next, branch.output.bind fun pipe ↦ w.pipes[pipe]? with
  | some next, some pipe =>
    let capacity := if branch.unread then 0 else pipeCapacity
    if next.halt ≠ .stuck && pipe.isBroken capacity next.time then
      ⟨brokenPipe, max finish.time next.time⟩
    else finish
  | _, _ => finish

/-- Cut off the branches of a row, from its end. -/
def settle (w : World) : List (Branch × Finish) → List Finish
  | [] => []
  | (branch, finish) :: rest =>
    let rest := settle w rest
    cutOff w branch finish rest.head? :: rest

/-- Run branches side by side until all of them have ended. -/
def runAll (branches : List Branch) : Act (List Finish) := do
  let start := (← get).clock
  let finishes ← branches.mapM (run start)
  let w ← get
  let settled := settle w (branches.zip finishes)
  let ended := settled.all fun f ↦ f.halt ≠ .stuck
  let time := settled.foldl (fun time f ↦ max time f.time) start
  set { w with
    clock := time
    latest := match w.latest with
      | some latest => some (max latest time)
      | none => if ended then some time else none }
  return settled

end Branch

end ShellTemplate
