import ShellTemplate.Host.FileTree

/-!
# The host

What processes act on: the file tree, the channels that descriptors refer to,
the pipes between processes, and a clock in microseconds. A process runs from
its start to its end before the next one is looked at; what it writes into a
pipe carries the time, so that a reader waits as long as it would in parallel.
A process that waits beyond the deadline is stuck.
-/

namespace ShellTemplate

/-- How a process stops. -/
inductive Halt where
  | exit (code : Nat)
  | signal (number : Nat)
  /-- It waits for something that does not happen before the deadline. -/
  | stuck
deriving DecidableEq, Repr, Inhabited

/-- Data that was written at a time. -/
structure Chunk where
  time : Nat
  data : ByteText
deriving DecidableEq, Repr, Inhabited

/-- How much data chunks hold. -/
def Chunk.total (chunks : List Chunk) : Nat := chunks.foldl (fun n c ↦ n + c.data.length) 0

/-- How a stream of data goes on behind its chunks. -/
inductive Ending where
  | eof (time : Nat)
  /-- One character without end. -/
  | endless (c : Char)
  /-- Nothing more comes, and no end either. -/
  | never
deriving DecidableEq, Repr, Inhabited

structure Pipe where
  /-- What has been written and not yet read, the last chunk first. -/
  chunks : List Chunk := []
  ending : Ending := .never
deriving DecidableEq, Repr, Inhabited

/-- What an open descriptor refers to. -/
inductive Channel where
  | file (path : Path) (offset : Nat) (append : Bool)
  | directory
  | device (device : Device)
  | pipe (id : Nat)
deriving DecidableEq, Repr, Inhabited

structure World where
  tree : FileTree := {}
  channels : Array Channel := #[]
  pipes : Array Pipe := #[]
  /-- The time of the process that is running. -/
  clock : Nat := 0
  /-- The last time at which a process has ended; nothing if one of them never does. -/
  latest : Option Nat := some 0
  deadline : Option Nat := none
deriving DecidableEq, Repr, Inhabited

namespace World

def setChannel (w : World) (channel : Nat) (c : Channel) : World :=
  { w with channels := w.channels.modify channel fun _ ↦ c }

def changePipe (w : World) (pipe : Nat) (change : Pipe → Pipe) : World :=
  { w with pipes := w.pipes.modify pipe change }

end World

/-- An activity on the host. What happened before it stops stays. -/
abbrev Act := ExceptT Halt (StateM World)

namespace Act

/-- Go on at a time, if it is later than now. -/
def advanceTo (time : Nat) : Act Unit := do
  let w ← get
  let time := max time w.clock
  match w.deadline with
  | some limit => if limit < time then throw .stuck else set { w with clock := time }
  | none => set { w with clock := time }

/-- Run an activity as a process of its own, up to its end, and note the time of that. -/
def apart (work : Act Nat) : Act Halt := do
  let halt ← tryCatch (Halt.exit <$> work) pure
  modify fun w ↦
    { w with latest := if halt = .stuck then none else w.latest.map fun time ↦ max time w.clock }
  return halt

def newChannel (channel : Channel) : Act Nat := do
  let w ← get
  set { w with channels := w.channels.push channel }
  return w.channels.size

/-- Make a pipe; both its ends are this one channel. -/
def newPipe : Act (Nat × Nat) := do
  let w ← get
  set { w with pipes := w.pipes.push {} }
  let channel ← newChannel (.pipe w.pipes.size)
  return (w.pipes.size, channel)

def setEnding (pipe : Nat) (ending : Ending) : Act Unit :=
  modify (·.changePipe pipe fun p ↦ { p with ending })

/-- Make a pipe that holds this data and then ends. -/
def pipeWith (data : ByteText) : Act Nat := do
  let (pipe, channel) ← newPipe
  modify fun w ↦ w.changePipe pipe fun _ ↦
    ⟨if data.isEmpty then [] else [⟨w.clock, data⟩], .eof w.clock⟩
  return channel

/-- Open a path as a new channel. -/
def openPath (base : Path) (text : ByteText) (mode : FileMode) : Act (Except OsError Nat) := do
  let w ← get
  match w.tree.openPath base text mode with
  | .error e => return .error e
  | .ok (tree, opened) =>
    set { w with tree }
    let channel ← newChannel (match opened with
      | .file path => .file path 0 (mode = .append)
      | .directory => .directory
      | .device d => .device d)
    return .ok channel

/-- Why nothing can be written to a channel, if that is so. -/
def writeFault? (channel : Nat) : Act (Option OsError) := do
  return if (← get).channels[channel]? = some (.device .full) then some .noSpace else none

/-- Write data to a channel. -/
def write (channel : Nat) (data : ByteText) : Act Unit := do
  let w ← get
  match w.channels[channel]? with
  | some (.file path offset append) =>
    let start := if append then (w.tree.content path).length else offset
    if data.isEmpty then return
    set ({ w with tree := w.tree.writeAt path start data }.setChannel channel
      (.file path (start + data.length) append))
  | some (.pipe id) =>
    if data.isEmpty then return
    set (w.changePipe id fun p ↦ { p with chunks := ⟨w.clock, data⟩ :: p.chunks })
  | _ => return

/-- Write one character without end; the writer never comes back. -/
def writeEndless (channel : Nat) (c : Char) : Act Unit := do
  let w ← get
  match w.channels[channel]? with
  | some (.pipe id) => setEnding id (.endless c)
  | _ => return
  throw .stuck

/-- Take all that a channel still has to read: its chunks in order and how it ends. -/
def readAll (channel : Nat) : Act (List Chunk × Ending) := do
  let w ← get
  match w.channels[channel]? with
  | some (.file path offset append) =>
    let data := (w.tree.content path).drop offset
    set (w.setChannel channel (.file path (offset + data.length) append))
    return (if data.isEmpty then [] else [⟨w.clock, data⟩], .eof w.clock)
  | some (.pipe id) =>
    let pipe := w.pipes[id]?.getD {}
    set (w.changePipe id fun p ↦ { p with chunks := [] })
    return (pipe.chunks.reverse.mergeSort fun a b ↦ a.time ≤ b.time, pipe.ending)
  | some (.device .zero) | some (.device .full) => return ([], .endless '\x00')
  | _ => return ([], .eof w.clock)

/-- Put chunks back that were read and not needed. -/
def unread (channel : Nat) (chunks : List Chunk) : Act Unit := do
  let w ← get
  match w.channels[channel]? with
  | some (.file path offset append) =>
    let count := Chunk.total chunks
    set (w.setChannel channel (.file path (offset - count) append))
  | some (.pipe id) =>
    set (w.changePipe id fun p ↦ { p with chunks := chunks.reverse })
  | _ => return

/-- Wait for the end of a stream. -/
def awaitEnding : Ending → Act Unit
  | .eof time => advanceTo time
  | .endless _ | .never => throw .stuck

/-- Read a channel to its end and wait for that. -/
def slurp (channel : Nat) : Act ByteText := do
  let (chunks, ending) ← readAll channel
  awaitEnding ending
  return chunks.flatMap Chunk.data

/-- Cut data after a number of characters; chunks that are not needed are left over. -/
def splitChunks : Nat → List Chunk → List Chunk × List Chunk
  | 0, chunks => ([], chunks)
  | _, [] => ([], [])
  | n + 1, ⟨time, data⟩ :: rest =>
    if data.length ≤ n + 1 then
      let (used, left) := splitChunks (n + 1 - data.length) rest
      (⟨time, data⟩ :: used, left)
    else ([⟨time, data.take (n + 1)⟩], ⟨time, data.drop (n + 1)⟩ :: rest)
termination_by _ chunks => chunks.length

/-- Read up to a number of characters: chunks to go through in time, and how the stream
ends if it has fewer. -/
def readUpTo (channel count : Nat) : Act (List Chunk × Option Ending) := do
  let (chunks, ending) ← readAll channel
  let (used, left) := splitChunks count chunks
  unread channel left
  let length := Chunk.total used
  if length = count then return (used, none)
  else
    match ending with
    | .endless c =>
      return (used ++ [⟨0, List.replicate (count - length) c⟩], none)
    | _ => return (used, some ending)

end Act

end ShellTemplate
