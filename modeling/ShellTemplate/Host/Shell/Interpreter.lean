import ShellTemplate.Host.Parallel
import ShellTemplate.Host.Shell.Arithmetic
import ShellTemplate.Host.Shell.Builtin
import ShellTemplate.Host.Shell.Fields
import ShellTemplate.Host.Utility
import ShellTemplate.Text.PathExpansion

/-!
# Running shell scripts

The shell expands the words of a command, sets up its descriptors, and runs it
as a builtin or as a program, which may be a shell again. Every function takes
a bound on how deep commands may be nested, rounds of loops included; a script
that goes deeper counts as one that does not end.
-/

namespace ShellTemplate.Shell

/-- The bound on nesting. -/
def depthLimit : Nat := 3000

/-- The status that the shell makes of how a process stopped. -/
def statusOfHalt : Halt → Work Nat
  | .exit code => return code % 256
  | .signal n => return 128 + n
  | .stuck => throw .stuck

/-- What the shell says of a program that a signal has stopped. -/
def signalReport? : Halt → Option String
  | .signal 1 => some "Hangup"
  | .signal 9 => some "Killed"
  | .signal 10 => some "User defined signal 1"
  | .signal 12 => some "User defined signal 2"
  | .signal 14 => some "Alarm clock"
  | .signal 15 => some "Terminated"
  | _ => none

/-- Run something in a copy of a session; what is left of it is its status. -/
def inCopy (session : Session) (work : Work Unit) : Act Nat := do
  let copy := { session with traps := [], loops := 0, jobs := [] }
  let ((), s) ← work.run copy
  return s.status

/-- Why a redirection fails, in the words of the shell. -/
def openFailure (mode : FileMode) (target : ByteText) (e : OsError) : String :=
  let (verb, missing) :=
    if mode = .read then ("open", "No such file") else ("create", "Directory nonexistent")
  let reason := match e with
    | .noEntry | .notDirectory => missing
    | e => e.reason
  s!"cannot {verb} {shown target}: {reason}"

/-- Let a descriptor refer to a file. -/
def redirectToFile (fd : Nat) (mode : FileMode) (target : ByteText) : Work Bool := do
  match ← ((← get).process []).openPath target mode with
  | .ok channel =>
    modify fun s ↦ s.bind fd channel
    return true
  | .error e =>
    complain (openFailure mode target e)
    return false

/-- Let a descriptor refer to what another one refers to, or close it. -/
def redirectToDescriptor (fd : Nat) (target : ByteText) : Work Bool := do
  if target = ['-'] then
    modify fun s ↦ s.close fd
    return true
  match Builtin.readNumber? target with
  | none => fail "Syntax error: Bad fd number"
  | some n =>
    match (← get).channel? n with
    | some channel =>
      modify fun s ↦ s.bind fd channel
      return true
    | none =>
      complain s!"{n}: Bad file descriptor"
      return false

/-- The home directory of an account; an empty name stands for the one that the shell runs
as. -/
def homeOf? (s : Session) (account : ByteText) : Option ByteText :=
  match String.ofList account with
  | "" => s.parameter? "HOME".toList
  | "root" => some accountHome
  | _ => none

/-- Replace a tilde in front of a word, with the name of an account behind it, by the home
directory. -/
def expandTilde (s : Session) : List WordPart → List WordPart
  | .literal ('~' :: text) :: parts =>
    let account := text.takeWhile (· ≠ '/')
    let rest := text.drop account.length
    match if rest.isEmpty && !parts.isEmpty then none else homeOf? s account with
    | some home => .quoted home :: (if rest.isEmpty then parts else .literal rest :: parts)
    | none => .literal ('~' :: text) :: parts
  | parts => parts

/-- Whether a word is nothing but all arguments in double quotes. -/
def isQuotedArguments : List WordPart → Bool
  | parts => parts.all fun
    | .quoted [] => true
    | .parameter ['@'] .value _ true => true
    | _ => false

/-- The arguments as an expanded word. -/
def argumentBits (s : Session) (name : ByteText) (inQuotes : Bool) : List Bit :=
  let mark : Mark := if inQuotes then .quoted else .expanded
  let separate : List Bit :=
    if inQuotes && name = ['*'] then
      match s.entry? "IFS".toList with
      | some ⟨some [], _, _⟩ => []
      | some ⟨some (c :: _), _, _⟩ => [.char c .quoted]
      | _ => [.char ' ' .quoted]
    else [.boundary]
  separate.intercalate (s.args.map fun arg ↦
    (if inQuotes then [Bit.quotes] else []) ++ Bit.ofText mark arg)

/-- The text of a substitution: without the line ends at its end, and without NUL. -/
def substitutionText (output : ByteText) : ByteText :=
  ((output.filter (· ≠ '\x00')).reverse.dropWhile (· = '\n')).reverse

/-- Stop the shell if a failure has to. -/
def checkFailure (tested : Bool) : Work Unit := do
  let s ← get
  if s.status ≠ 0 && !tested && s.has .errexit then throw (.exit s.status)

/-- Take note of a jump at the end of a round of a loop: whether the loop goes on. -/
def nextRound : Work Bool := do
  let s ← get
  match s.jump with
  | none => return true
  | some (.leaveLoops n) =>
    set { s with jump := if n ≤ 1 then none else some (.leaveLoops (n - 1)) }
    return false
  | some (.nextRound n) =>
    set { s with jump := if n ≤ 1 then none else some (.nextRound (n - 1)) }
    return n ≤ 1
  | some .leaveScript => return false

/-- Do something inside one more loop. -/
def inLoop (work : Work Unit) : Work Unit := do
  modify fun s ↦ { s with loops := s.loops + 1 }
  work
  modify fun s ↦ { s with loops := s.loops - 1 }

mutual

/-- Expand one part of a word. -/
def expandPart : Nat → WordPart → Work (List Bit)
  | 0, _ => throw .stuck
  | steps + 1, part => do
    match part with
    | .literal text => return Bit.ofText .literal text
    | .quoted text => return .quotes :: Bit.ofText .quoted text
    | .arithmetic expression inQuotes =>
      let text := Bit.textOf (← expandParts steps expression)
      let s ← get
      match Arithmetic.evaluate s.parameter? text with
      | .ok (n, assigned) =>
        assigned.forM fun (name, value) ↦ assignVariable "" name (toString value).toList
        return Bit.ofText (if inQuotes then .quoted else .expanded) (toString n).toList
      | .error e => fail (e.message text)
    | .substitution body inQuotes =>
      return Bit.ofText (if inQuotes then .quoted else .expanded) (← substitute steps body)
    | .parameter name use word inQuotes =>
      let s ← get
      let value? := s.parameter? name
      let isArguments := name = ['@'] || name = ['*']
      let mark : Mark := if inQuotes then .quoted else .expanded
      let bits (value : ByteText) : List Bit :=
        if isArguments then argumentBits s name inQuotes else Bit.ofText mark value
      let refuseUnset : Work Unit :=
        if s.has .nounset && value?.isNone && !isArguments then
          fail s!"{shown name}: parameter not set"
        else pure ()
      let isThere (orEmpty : Bool) : Bool :=
        match value? with
        | some value => !(orEmpty && value.isEmpty)
        | none => false
      let other : Work (List Bit) := do
        let bits ← expandParts steps word
        return bits.map fun
          | .char c .literal => .char c mark
          | bit => bit
      match use with
      | .value =>
        refuseUnset
        return bits (value?.getD [])
      | .length =>
        refuseUnset
        return Bit.ofText mark (Session.decimal
          (if isArguments then s.args.length else (value?.getD []).length))
      | .useDefault orEmpty => if isThere orEmpty then return bits (value?.getD []) else other
      | .alternative orEmpty => if isThere orEmpty then other else return []
      | .assignDefault orEmpty =>
        if isThere orEmpty then return bits (value?.getD [])
        else
          let value := Bit.textOf (← other)
          assignVariable "" name value
          return Bit.ofText mark value
      | .complain orEmpty =>
        if isThere orEmpty then return bits (value?.getD [])
        else
          let text := Bit.textOf (← other)
          fail (s!"{shown name}: " ++
            if !text.isEmpty then shown text
            else if orEmpty then "parameter not set or null" else "parameter not set")
      | .trimEnd longest =>
        let pattern := Bit.patternOf (← expandParts steps word)
        return Bit.ofText mark (trim pattern true longest (value?.getD []))
      | .trimStart longest =>
        let pattern := Bit.patternOf (← expandParts steps word)
        return Bit.ofText mark (trim pattern false longest (value?.getD []))

def expandParts : Nat → List WordPart → Work (List Bit)
  | 0, _ => throw .stuck
  | steps + 1, parts => do
    let s ← get
    return (← (expandTilde s parts).mapM (expandPart steps)).flatten

/-- The words that a word stands for. -/
def expandWord : Nat → List WordPart → Work (List ByteText)
  | 0, _ => throw .stuck
  | steps + 1, parts => do
    let s ← get
    let isNothing := isQuotedArguments parts && s.args.isEmpty && parts.length > 1
    if isNothing then return []
    wordsOf (← expandParts steps parts)

/-- The output of a script, run in a subshell. -/
def substitute : Nat → Script → Work ByteText
  | 0, _ => throw .stuck
  | steps + 1, body => do
    let s ← get
    let (pipe, channel) ← Act.newPipe
    let branch : Branch := {
      work := inCopy (s.bind 1 channel) (evaluate steps false body), output := pipe }
    let finishes ← Branch.runAll [branch]
    let output ← Act.slurp channel
    let status ← statusOfHalt ((finishes.head?.map Finish.halt).getD .stuck)
    modify fun s ↦ { s with status, substituted := true }
    return substitutionText output

/-- Set up redirections one after another, up to one that fails. -/
def redirect : Nat → List Redirection → Work Bool
  | 0, _ => throw .stuck
  | _ + 1, [] => return true
  | steps + 1, .mk fd kind target :: rest => do
    let target := Bit.textOf (← expandParts steps target)
    let done ← match kind with
      | .out => redirectToFile fd .truncate target
      | .append => redirectToFile fd .append target
      | .input => redirectToFile fd .read target
      | .dupOut | .dupIn => redirectToDescriptor fd target
    if done then redirect steps rest else return false

/-- Run a script. Where its status is tested, a failure does not end the shell. -/
def evaluate : Nat → Bool → Script → Work Unit
  | 0, _, _ => throw .stuck
  | steps + 1, tested, script => do
    match script with
    | .nothing => return
    | .simple behind assignments words redirections =>
      modify fun s ↦ { s with line := s.lineEnds + 1 - behind, substituted := false }
      let words := (← words.mapM (expandWord steps)).flatten
      match words with
      | [] => keepingDescriptors do
        if ← redirect steps redirections then
          assign steps false assignments
          modify fun s ↦ if s.substituted then s else { s with status := 0 }
        else setStatus 2
      | name :: args =>
        let before := (← get).descriptors
        if ← redirect steps redirections then
          runAssigned steps assignments (name :: args)
        else if Builtin.isSpecial name then throw (.exit 2)
        else setStatus 2
        if !(name = "exec".toList && args.isEmpty) then
          modify fun s ↦ { s with descriptors := before }
      checkFailure tested
    | .pipeline negated stages =>
      let s ← get
      let (branches, _) ← stages.zipIdx.foldlM (fun (branches, input) (stage, index) ↦ do
        let s := match input with
          | some channel => s.bind 0 channel
          | none => s
        if index + 1 = stages.length then
          return (branches ++ [{ work := inCopy s (evaluate steps negated stage) }], none)
        else
          let (pipe, channel) ← Act.newPipe
          let work := inCopy (s.bind 1 channel) (evaluate steps false stage)
          return (branches ++ [{ work, output := pipe }], some channel))
        (([] : List Branch), (none : Option Nat))
      let finishes ← Branch.runAll branches
      if finishes.any fun f ↦ f.halt = .stuck then throw .stuck
      let status ← statusOfHalt ((finishes.getLast?.map Finish.halt).getD (.exit 0))
      if negated then setStatus (if status = 0 then 1 else 0)
      else
        setStatus status
        checkFailure tested
    | .andThen first second =>
      evaluate steps true first
      let s ← get
      if s.status = 0 && s.jump.isNone then evaluate steps tested second
    | .orElse first second =>
      evaluate steps true first
      let s ← get
      if s.status ≠ 0 && s.jump.isNone then evaluate steps tested second
    | .sequence first second =>
      evaluate steps tested first
      if (← get).jump.isNone then evaluate steps tested second
    | .background body =>
      let s ← get
      let w ← getThe World
      let input ← Act.newChannel (.device .null)
      let halt ← Act.apart (inCopy (s.bind 0 input) (evaluate steps false body))
      let ended ← match halt with
        | .stuck => pure none
        | halt => do
          let status ← statusOfHalt halt
          pure (some ((← getThe World).clock, status))
      modifyThe World fun now ↦ { now with clock := w.clock }
      modify fun s ↦
        { s with status := 0, jobs := s.jobs ++ [⟨processId + 1 + s.jobs.length, ended⟩] }
    | .subshell body redirections =>
      let s ← get
      let work : Work Unit := do
        if ← redirect steps redirections then evaluate steps tested body else setStatus 2
      setStatus (← statusOfHalt (← Act.apart (inCopy s work)))
      checkFailure tested
    | .group body redirections =>
      keepingDescriptors do
        if ← redirect steps redirections then evaluate steps tested body else setStatus 2
    | .conditional condition yes no =>
      evaluate steps true condition
      let s ← get
      if s.jump.isNone then
        if s.status = 0 then evaluate steps tested yes
        else
          setStatus 0
          evaluate steps tested no
    | .loop negated condition body => inLoop (repeatLoop steps negated tested 0 condition body)
    | .forEach name words body =>
      let values ← match words with
        | some words => (·.flatten) <$> words.mapM (expandWord steps)
        | none => (·.args) <$> get
      setStatus 0
      inLoop (forRounds steps tested name values body)

/-- Run the rounds of a loop; its status is that of the last body that was run. -/
def repeatLoop : Nat → Bool → Bool → Nat → Script → Script → Work Unit
  | 0, _, _, _, _, _ => throw .stuck
  | steps + 1, negated, tested, status, condition, body => do
    evaluate steps true condition
    if (← get).jump.isNone && ((← get).status = 0) == negated then setStatus status
    else
      if (← get).jump.isNone then evaluate steps tested body
      let status := (← get).status
      if ← nextRound then repeatLoop steps negated tested status condition body

/-- Run the rounds of a loop over words. -/
def forRounds : Nat → Bool → ByteText → List ByteText → Script → Work Unit
  | 0, _, _, _, _ => throw .stuck
  | _ + 1, _, _, [], _ => return
  | steps + 1, tested, name, value :: values, body => do
    assignVariable "" name value
    evaluate steps tested body
    if ← nextRound then forRounds steps tested name values body

/-- Carry out assignments, exported or not. -/
def assign : Nat → Bool → List (ByteText × List WordPart) → Work Unit
  | 0, _, _ => throw .stuck
  | _ + 1, _, [] => return
  | steps + 1, exported, (name, parts) :: rest => do
    assignVariable "" name (Bit.textOf (← expandParts steps parts))
    if exported then
      modify fun s ↦ s.setVariable name { (s.entry? name).getD {} with exported := true }
    assign steps exported rest

/-- Run a command with assignments in front. They stay if the command is a special
builtin. -/
def runAssigned : Nat → List (ByteText × List WordPart) → List ByteText → Work Unit
  | 0, _, _ => throw .stuck
  | steps + 1, assignments, words => do
    if Builtin.isSpecial (words.headD []) then
      assign steps (words.head? = some "exec".toList) assignments
      runCommand steps words
    else
      let before := (← get).bindings
      assign steps true assignments
      let own := (← get).bindings
      runCommand steps words
      if !assignments.isEmpty && (← get).bindings = own then
        modify fun s ↦ { s with bindings := before }

/-- Run a command given by its words. -/
def runCommand : Nat → List ByteText → Work Unit
  | 0, _ => throw .stuck
  | _ + 1, [] => setStatus 0
  | steps + 1, name :: args => do
    match Builtin.find? name with
    | some builtin =>
      let builtin := printing name ∘ builtin
      if name = "exit".toList then
        let status ← Builtin.statusOf "exit" args
        leaveShell steps status
      if Builtin.isSpecial name || name = "local".toList then setStatus (← builtin args)
      else
        setStatus (← tryCatch (builtin args) fun
          | .exit status => return status
          | halt => throw halt)
    | none =>
      match String.ofList name, args with
      | "eval", args =>
        let text := [' '].intercalate args
        if text.all (· = ' ') then setStatus 0 else runText steps "eval: " text
      | ".", file :: _ =>
        let s ← get
        let path :=
          if file.contains '/' then some file
          else
            let w := (ByteText.splitAll ':' (Builtin.searchPath s)).map fun dir ↦ dir ++ '/' :: file
            w.find? fun _ ↦ false
        match path with
        | none => fail s!".: {shown file}: not found"
        | some path =>
          match ← Act.openPath s.cwd path .read with
          | .error e => fail (".: " ++ openFailure .read path e)
          | .ok channel =>
            runText steps ".: " (← Act.slurp channel)
            modify fun s ↦ { s with jump := if s.jump = some .leaveScript then none else s.jump }
      | ".", [] => setStatus 0
      | "exec", [] => setStatus 0
      | "exec", args =>
        let halt ← runProgram steps "exec: " args
        match halt with
        | .exit code => throw (.exit (code % 256))
        | halt => throw halt
      | "command", ['-', 'v'] :: target :: _ =>
        let w ← getThe World
        if Builtin.isSpecial target || Builtin.isPlain target || reservedWords.contains target then
          sayText (target ++ ['\n'])
          setStatus 0
        else
          match Builtin.locate? (← get) w target with
          | some path =>
            sayText (path ++ ['\n'])
            setStatus 0
          | none => setStatus 127
      | "command", ['-', 'V'] :: targets => setStatus (← Builtin.describe (targets.take 1))
      | "command", ['-', 'p'] :: words => runCommand steps words
      | "command", ['-', '-'] :: words => runCommand steps words
      | "command", ('-' :: c :: _) :: _ =>
        setStatus (← Builtin.refuse "command" s!"Illegal option -{c}")
      | "command", words => runCommand steps words
      | _, _ =>
        let halt ← runProgram steps "" (name :: args)
        match signalReport? halt with
        | some report => write 2 (report ++ "\n").toList
        | none => pure ()
        setStatus (← statusOfHalt halt)

/-- Run a program as a process and tell how it stopped; one that cannot be started stops with
a status that says why. -/
def runProgram : Nat → String → List ByteText → Work Halt
  | 0, _, _ => throw .stuck
  | steps + 1, context, words => do
    let s ← get
    let w ← getThe World
    let name := words.headD []
    let p := s.process words
    let found : Except OsError Program := do
      let program ← w.tree.searchProgram s.cwd (Builtin.searchPath s) name
      if p.fits then return program else throw .argumentsTooLong
    match found with
    | .ok program => Act.apart (start steps program p)
    | .error e =>
      let isMissing := e = .noEntry || e = .notDirectory
      let reason :=
        if name.isEmpty then "Permission denied" else if isMissing then "not found" else e.reason
      complain s!"{context}{shown name}: {reason}"
      return .exit (if isMissing || e = .nameTooLong then 127 else 126)

/-- Run what a program does. -/
def start : Nat → Program → Process → Act Nat
  | 0, _, _ => throw .stuck
  | steps + 1, program, p =>
    match program with
    | .sh => runShell steps p
    | program => Utility.run program p

/-- Read a text as a script and run it. -/
def runText : Nat → String → ByteText → Work Unit
  | 0, _, _ => throw .stuck
  | steps + 1, context, text => do
    match readScript text with
    | .error e => fail (context ++ e.message)
    | .ok script =>
      let outer ← get
      set { outer with lineEnds := text.count '\n' }
      evaluate steps false script
      modify fun s ↦ { s with lineEnds := outer.lineEnds, line := outer.line }

/-- End the shell, after what is to be done at its end. -/
def leaveShell : Nat → Nat → Work Unit
  | 0, _ => throw .stuck
  | steps + 1, status => do
    match (← get).traps.lookup 0 with
    | some command =>
      modify fun s ↦ { s with traps := s.traps.filter fun (n, _) ↦ n ≠ 0, status }
      runText steps "" command
    | none => pure ()
    throw (.exit status)

/-- Run a shell with the arguments of a process: a script given by `-c`, the script in a
file, or one that it reads. -/
def runShell : Nat → Process → Act Nat
  | 0, _ => throw .stuck
  | steps + 1, p => do
    let initial := (p.env.filter fun (name, _) ↦ Word.isName name).foldl
      (fun s (name, value) ↦ s.setVariable name ⟨some value, true, false⟩)
      ({ name := p.argv.headD [], args := [], bindings := [], cwd := p.cwd,
         descriptors := p.descriptors } : Session)
    let session := initial.export "PWD".toList p.cwd.text
      |>.assign "OPTIND".toList ['1'] |>.assign "IFS".toList [' ', '\t', '\n']
    let work : Work Unit := do
      modify fun s ↦ { s with line := 0 }
      let options := p.args.takeWhile Utility.isOption
      let isCommand := options.any (·.contains 'c')
      let settings := options.map fun arg ↦ arg.filter fun c ↦ c ≠ 'c' && c ≠ 's'
      let operands := (← Builtin.changeSettings ""
        (settings.filter (· ≠ ['-']) ++ p.args.drop options.length)).getD []
      let text ← match isCommand, operands with
        | true, [] => fail "-c requires an argument"
        | true, text :: rest =>
          modify fun s ↦ { s with name := rest.headD s.name, args := rest.drop 1 }
          pure text
        | false, file :: rest =>
          match ← Act.openPath p.cwd file .read with
          | .error e => fail (openFailure .read file e)
          | .ok channel =>
            modify fun s ↦ { s with name := file, args := rest }
            Act.slurp channel
        | false, [] => p.slurp 0
      modify fun s ↦ { s with line := 1 }
      runText steps "" text
      leaveShell steps (← get).status
    let ((), s) ← work.run session
    return s.status

end

end ShellTemplate.Shell
