import ShellTemplate.Host.Shell.Builtin.Basic
import ShellTemplate.Pipeline

/-!
# Builtins for parameters and settings

`set`, `shift`, `export`, `readonly`, `unset`, `read`, `getopts`, `alias` and
others that change the session.
-/

namespace ShellTemplate.Shell.Builtin

/-- Variables in the order of their names. -/
def sortedVariables (s : Session) : List (ByteText × Variable) :=
  s.bindings.mergeSort fun a b ↦ !b.1.precedes a.1

/-- Print variables as definitions behind a word. -/
def printDefinitions (word : String) (bindings : List (ByteText × Variable)) : Work Nat := do
  sayText (bindings.flatMap fun (name, v) ↦
    word.toList ++ name ++
      (match v.value with
      | some value => '=' :: quotedValue value
      | none => []) ++ ['\n'])
  return 0

/-- Mark variables, with new values where they are given; print the marked ones if none is
named. -/
def mark (name : String) (marked : Variable → Bool) (change : Variable → Variable)
    (args : List ByteText) : Work Nat := do
  let (letters, operands) := splitLetters args
  match letters.find? (· ≠ 'p') with
  | some c => fail s!"{name}: Illegal option -{c}"
  | none =>
    if operands.isEmpty then
      printDefinitions s!"{name} " ((sortedVariables (← get)).filter fun (_, v) ↦ marked v)
    else
      operands.forM fun text ↦ do
        let (target, value?) := splitDefinition text
        if !Word.isName target then fail s!"{name}: {shown target}: bad variable name"
        match value? with
        | some value => assignVariable s!"{name}: " target value
        | none => pure ()
        modify fun s ↦ s.setVariable target (change ((s.entry? target).getD {}))
      return 0

def exportNames : List ByteText → Work Nat :=
  mark "export" Variable.exported fun v ↦ { v with exported := true }

def protectNames : List ByteText → Work Nat :=
  mark "readonly" Variable.readOnly fun v ↦ { v with readOnly := true }

def unsetNames (args : List ByteText) : Work Nat := do
  let (letters, operands) := splitLetters args
  if letters.contains 'f' then return 0
  operands.forM fun name ↦ do
    if !Word.isName name then fail s!"unset: {shown name}: bad variable name"
    let s ← get
    if (s.entry? name).any Variable.readOnly then fail s!"unset: {shown name}: is read only"
    set (s.unassign name)
  return 0

/-- The setting of an option letter. -/
def settingOfLetter? (c : Char) : Option Setting :=
  match c with
  | 'e' => some .errexit
  | 'f' => some .noglob
  | 'u' => some .nounset
  | c => if "aBbCEIimnsVvx".toList.contains c then some (.other (String.singleton c)) else none

def settingOfName? (name : ByteText) : Option Setting :=
  match String.ofList name with
  | "errexit" => some .errexit
  | "noglob" => some .noglob
  | "nounset" => some .nounset
  | name =>
    if name ∈ ["ignoreeof", "interactive", "monitor", "noexec", "stdin", "xtrace", "verbose", "vi",
        "emacs", "noclobber", "allexport", "notify", "privileged", "nolog", "debug"]
    then some (.other name)
    else none

def turn (on : Bool) (setting : Setting) : Work Unit := modify fun s ↦
  let others := s.settings.filter (· != setting)
  { s with settings := if on then setting :: others else others }

/-- Turn the settings of option letters on or off; a name may follow. What is left over are
the operands, if there are any. -/
def changeSettings (context : String) : List ByteText → Work (Option (List ByteText))
  | [] => return none
  | ['-', '-'] :: rest => return some rest
  | ['-'] :: rest => return if rest.isEmpty then none else some rest
  | (sign :: letters) :: rest => do
    if sign ≠ '-' && sign ≠ '+' then return some ((sign :: letters) :: rest)
    let on := sign = '-'
    if letters = ['o'] then
      match rest with
      | [] => return none
      | name :: rest =>
        match settingOfName? name with
        | none => fail s!"{context}Illegal option {sign}o {shown name}"
        | some setting =>
          turn on setting
          changeSettings context rest
    else
      letters.forM fun c ↦
        match settingOfLetter? c with
        | none => fail s!"{context}Illegal option {sign}{c}"
        | some setting => turn on setting
      changeSettings context rest
  | operands => return some operands

def setParameters (args : List ByteText) : Work Nat := do
  if args.isEmpty then
    printDefinitions "" ((sortedVariables (← get)).filter fun (_, v) ↦ v.value.isSome)
  else
    match ← changeSettings "set: " args with
    | some operands => modify fun s ↦ { s with args := operands }
    | none => pure ()
    return 0

def shift (args : List ByteText) : Work Nat := do
  let count ← match args with
    | [] => pure 1
    | text :: _ => number "shift" text
  let s ← get
  if s.args.length < count then fail "shift: can't shift that many"
  set { s with args := s.args.drop count }
  return 0

/-- The first line of data with times, and what follows its end if the end is there. Unless
it is raw, a backslash is removed and keeps its character from being a separator. -/
def takeLine (raw : Bool) (line : List (Char × Bool)) : List (Char × Nat) →
    List (Char × Bool) × Option (Nat × List (Char × Nat))
  | [] => (line.reverse, none)
  | ('\n', time) :: rest => (line.reverse, some (time, rest))
  | ('\\', _) :: (c, time) :: rest =>
    if raw then takeLine raw (('\\', false) :: line) ((c, time) :: rest)
    else if c = '\n' then takeLine raw line rest
    else takeLine raw ((c, true) :: line) rest
  | (c, _) :: rest => takeLine raw ((c, false) :: line) rest

/-- Read a line, and whether its end was there. -/
def readLine (raw : Bool) (fd : Nat) : Work (List (Char × Bool) × Bool) := do
  match (← get).channel? fd with
  | none => return ([], false)
  | some channel =>
    let (chunks, ending) ← Act.readAll channel
    let data := chunks.flatMap fun chunk ↦ chunk.data.map fun c ↦ (c, chunk.time)
    match takeLine raw [] data with
    | (line, some (time, rest)) =>
      Act.unread channel (rest.map fun (c, time) ↦ ⟨time, [c]⟩)
      Act.advanceTo time
      return (line, true)
    | (line, none) =>
      Act.awaitEnding ending
      return (line, false)

/-- Whether a character of a line separates fields. -/
def isSeparator (separators : ByteText) : Char × Bool → Bool
  | (c, kept) => !kept && separators.contains c

/-- White space that separates fields. -/
def isBlankSeparator (separators : ByteText) : Char × Bool → Bool
  | (c, kept) => isSeparator separators (c, kept) && (c = ' ' || c = '\t' || c = '\n')

/-- Give the fields of a line to variables; the last one takes the rest. -/
def assignFields (separators : ByteText) : List ByteText → List (Char × Bool) →
    List (ByteText × ByteText)
  | [], _ => []
  | [name], line =>
    let body := line.dropWhile (isBlankSeparator separators)
    [(name, ((body.reverse.dropWhile (isBlankSeparator separators)).reverse).map (·.1))]
  | name :: names, line =>
    let body := line.dropWhile (isBlankSeparator separators)
    let field := body.takeWhile fun c ↦ !isSeparator separators c
    let rest := (body.drop field.length).dropWhile (isBlankSeparator separators)
    let rest :=
      match rest, (body.drop field.length).head? with
      | c :: more, some d =>
        if isSeparator separators c && (c.1 = d.1 || isBlankSeparator separators d) then more
        else rest
      | _, _ => rest
    (name, field.map (·.1)) :: assignFields separators names rest

def read (args : List ByteText) : Work Nat := do
  let (raw, names) :=
    match args with
    | ['-', 'r'] :: rest => (true, rest)
    | ['-', 'p'] :: _ :: rest => (false, rest)
    | args => (false, args)
  if names.isEmpty then return ← refuse "read" "arg count"
  match names.find? fun name ↦ !Word.isName name with
  | some name => refuse "read" s!"{shown name}: bad variable name"
  | none =>
    let (line, complete) ← readLine raw 0
    (assignFields (← get).separators names line).forM fun (name, value) ↦
      assignVariable "read: " name value
    return if complete then 0 else 1

/-- Take the next option letter off the arguments. -/
def getopts (args : List ByteText) : Work Nat := do
  match args with
  | letters :: target :: given =>
    let s ← get
    let words := if given.isEmpty then s.args else given
    let index := ((s.parameter? "OPTIND".toList).bind readNumber?).getD 1
    let assign (name : String) (value : ByteText) : Work Unit :=
      assignVariable "getopts: " name.toList value
    match words[index - 1]? with
    | some ['-', c] =>
      if c ≠ '-' && letters.contains c && c ≠ ':' then
        assignVariable "getopts: " target [c]
        let takesValue := ((letters.dropWhile (· ≠ c)).drop 1).head? = some ':'
        if takesValue then assign "OPTARG" (words[index]?.getD [])
        assign "OPTIND" (Session.decimal (index + if takesValue then 2 else 1))
        return 0
      else if c = '-' then
        assignVariable "getopts: " target ['?']
        return 1
      else
        assignVariable "getopts: " target ['?']
        write 2 (s!"Illegal option -{c}\n").toList
        assign "OPTIND" (Session.decimal (index + 1))
        return 0
    | _ =>
      assignVariable "getopts: " target ['?']
      return 1
  | _ => refuse "getopts" "Usage: getopts optstring var [arg...]"

def defineAliases (args : List ByteText) : Work Nat := do
  let definition (name value : ByteText) : ByteText := name ++ '=' :: quotedValue value ++ ['\n']
  if args.isEmpty then
    (← get).aliases.forM fun (name, value) ↦ sayText (definition name value)
    return 0
  args.foldlM (fun status text ↦ do
    let (name, value?) := splitDefinition text
    match value? with
    | some value =>
      modify fun s ↦
        { s with aliases := (s.aliases.filter fun (n, _) ↦ n ≠ name) ++ [(name, value)] }
      return status
    | none =>
      match (← get).aliases.lookup name with
      | some value =>
        sayText (definition name value)
        return status
      | none =>
        write 2 (s!"alias: {shown name} not found\n").toList
        return 1) 0

def removeAliases (args : List ByteText) : Work Nat := do
  if args = [['-', 'a']] then
    modify fun s ↦ { s with aliases := [] }
    return 0
  args.foldlM (fun status name ↦ do
    if ((← get).aliases.lookup name).isSome then
      modify fun s ↦ { s with aliases := s.aliases.filter fun (n, _) ↦ n ≠ name }
      return status
    else
      write 2 (s!"unalias: {shown name} not found\n").toList
      return 1) 0

/-- The mask of new files, in octal digits. -/
def umask (args : List ByteText) : Work Nat := do
  let octal (n : Nat) : ByteText :=
    let digits := Nat.toDigits 8 n
    List.replicate (4 - digits.length) '0' ++ digits ++ ['\n']
  match args with
  | [] =>
    sayText (octal (← get).mask)
    return 0
  | [['-', 'S']] =>
    let mask := (← get).mask
    let rights (shift : Nat) : String :=
      let bits := 7 - mask / shift % 8
      (if bits / 4 % 2 = 1 then "r" else "") ++ (if bits / 2 % 2 = 1 then "w" else "")
        ++ (if bits % 2 = 1 then "x" else "")
    say s!"u={rights 64},g={rights 8},o={rights 1}\n"
    return 0
  | text :: _ =>
    if text.all fun c ↦ '0' ≤ c && c ≤ '7' then
      modify fun s ↦ { s with mask := text.foldl (fun n c ↦ 8 * n + digitValue c) 0 % 512 }
      return 0
    else if text.all isDigit then refuse "umask" s!"Illegal number: {shown text}"
    else return 0

end ShellTemplate.Shell.Builtin
