/-!
# The children of a run

A run starts its processes one after another, then waits for them in order. It
may fail at every step, and it may be dropped between any two. The set of its
children takes care that none of them is left behind: as long as it is armed,
going away kills all of them.
-/

namespace ShellTemplate

/-- A process that has been started. -/
structure Child (α : Type) where
  process : α
  /-- It has been waited for with success. -/
  reaped : Bool := false
  /-- It has been sent a kill. -/
  killed : Bool := false
deriving DecidableEq, Repr, Inhabited

/-- The children that a run owns. -/
structure StageSet (α : Type) where
  children : List (Child α) := []
  /-- Going away kills the children. -/
  armed : Bool := true
deriving DecidableEq, Repr, Inhabited

namespace StageSet

variable {α : Type}

def push (s : StageSet α) (process : α) : StageSet α :=
  { s with children := s.children ++ [{ process }] }

/-- Send every child a kill. -/
def kill (s : StageSet α) : StageSet α :=
  { s with children := s.children.map fun c ↦ { c with killed := true } }

/-- Note that a child has been waited for. -/
def reap (s : StageSet α) (index : Nat) : StageSet α :=
  { s with children := s.children.modify index fun c ↦ { c with reaped := true } }

def disarm (s : StageSet α) : StageSet α := { s with armed := false }

/-- Let the set go away. -/
def drop (s : StageSet α) : StageSet α := if s.armed then s.kill else s

end StageSet

/-- How a run ends. -/
inductive RunEnding where
  | openFailed (stage : Nat)
  | connectFailed (stage : Nat)
  | spawnFailed (stage : Nat)
  | waitFailed (child : Nat)
  | collectFailed
  | dropped
  | finished
deriving DecidableEq, Repr, Inhabited

/-- What a run does next. -/
inductive Phase where
  | opening (stage : Nat)
  | connecting (stage : Nat)
  | spawning (stage : Nat)
  | waiting (child : Nat)
  /-- Taking in what the children have written. -/
  | collecting
  /-- Waiting for children that have been killed. -/
  | aborting (ending : RunEnding)
  | ended (ending : RunEnding)
deriving DecidableEq, Repr, Inhabited

/-- What happens to a run. -/
inductive RunEvent (α : Type) where
  /-- The system has done what was asked of it. -/
  | succeeded
  /-- The system has started this process. -/
  | spawned (process : α)
  | failed
  /-- Nobody waits for the run any more. -/
  | dropped
deriving DecidableEq, Repr, Inhabited

structure RunState (α : Type) where
  phase : Phase
  set : StageSet α := {}
  /-- Every process that the system has started for the run. -/
  started : List α := []
  /-- The stages whose files have been opened. -/
  opened : List Nat := []
deriving DecidableEq, Repr, Inhabited

namespace RunState

variable {α : Type}

/-- The start of a run with so many stages. -/
def start (stages : Nat) : RunState α :=
  if stages = 0 then { phase := .collecting, set := ({} : StageSet α).disarm }
  else { phase := .opening 0 }

/-- Kill what has been started and wait for it. -/
def abort (s : RunState α) (ending : RunEnding) : RunState α :=
  { s with phase := .aborting ending, set := s.set.kill }

/-- End at once; the set goes away. -/
def leave (s : RunState α) (ending : RunEnding) : RunState α :=
  { s with phase := .ended ending, set := s.set.drop }

/-- How a run with so many stages goes on. An event that does not belong to its phase
changes nothing. -/
def step (stages : Nat) (s : RunState α) (event : RunEvent α) : RunState α :=
  match s.phase, event with
  | .ended _, _ => s
  | _, .dropped => s.leave .dropped
  | .opening k, .succeeded => { s with phase := .connecting k, opened := s.opened ++ [k] }
  | .opening k, .failed => s.abort (.openFailed k)
  | .connecting k, .succeeded => { s with phase := .spawning k }
  | .connecting k, .failed => s.abort (.connectFailed k)
  | .spawning k, .spawned process =>
    { s with
      phase := if k + 1 < stages then .opening (k + 1) else .waiting 0
      set := s.set.push process
      started := s.started ++ [process] }
  | .spawning k, .failed => s.abort (.spawnFailed k)
  | .waiting i, .succeeded =>
    if i + 1 < stages then { s with phase := .waiting (i + 1), set := s.set.reap i }
    else { s with phase := .collecting, set := (s.set.reap i).disarm }
  | .waiting i, .failed => s.leave (.waitFailed i)
  | .collecting, .succeeded => s.leave .finished
  | .collecting, .failed => s.leave .collectFailed
  | .aborting ending, .succeeded | .aborting ending, .failed =>
    { s with phase := .ended ending, set := s.set.disarm }
  | _, _ => s

/-- The states that a run with so many stages can come to. -/
inductive Reachable (stages : Nat) : RunState α → Prop where
  | start : Reachable stages (start stages)
  | step {s : RunState α} (event : RunEvent α) :
    Reachable stages s → Reachable stages (s.step stages event)

end RunState

end ShellTemplate
