import ShellTemplate.Host.Process
import ShellTemplate.Host.Utility.Quoted

/-!
# Arguments and messages of utilities

What the utilities share: how they call themselves in messages, how they read
options and operands, and how they open their inputs.
-/

namespace ShellTemplate.Utility

/-- Text in a message; the bytes of names are kept. -/
def shown (text : ByteText) : String := String.ofList text

/-- An argument in a message. -/
def inQuotes (text : ByteText) : String := shown (quoted text)

/-- The name of a file in a message. -/
def fileName (name : ByteText) : String := shown (fileWord name)

/-- The name of a file in a message that always has quotes. -/
def quotedName (name : ByteText) : String := shown (shellQuoted name)

/-- The name that a utility calls itself in its messages. -/
def nameOf (p : Process) : String := shown (p.argv.headD [])

def complain (p : Process) (message : String) : Act Unit := p.say s!"{nameOf p}: {message}\n"

def askForHelp (p : Process) : Act Unit :=
  p.say s!"Try '{nameOf p} --help' for more information.\n"

/-- Open an operand for reading; a minus sign is standard input. -/
def openOperand (p : Process) (operand : ByteText) : Act (Except OsError Nat) := do
  if operand = ['-'] then
    match p.channel? 0 with
    | some channel => return .ok channel
    | none => return .error .badDescriptor
  else p.openPath operand .read

/-- Whether an argument is an option: it begins with a minus sign and has more. -/
def isOption : ByteText → Bool
  | '-' :: _ :: _ => true
  | _ => false

/-- Why the options of a utility cannot be read. -/
inductive OptionFault where
  | unknown (letter : Char)
  | missingValue (letter : Char)
  | unknownWord (word : ByteText)
  | ambiguousWord (word : ByteText) (names : List String)
  | missingWordValue (name : String)
  | needlessValue (name : String)
deriving DecidableEq, Repr

def OptionFault.message : OptionFault → String
  | .unknown letter => s!"invalid option -- '{letter}'"
  | .missingValue letter => s!"option requires an argument -- '{letter}'"
  | .unknownWord word => s!"unrecognized option '--{shown word}'"
  | .ambiguousWord word names =>
    s!"option '--{shown word}' is ambiguous; possibilities:"
      ++ String.join (names.map fun name ↦ s!" '--{name}'")
  | .missingWordValue name => s!"option '--{name}' requires an argument"
  | .needlessValue name => s!"option '--{name}' doesn't allow an argument"

/-- The options of a utility, each known by a letter. One from U+0100 on cannot occur in an
argument; it stands for an option that only has a name. -/
structure OptionTable where
  flags : String
  /-- Options with a value, in the same argument or the next. -/
  valued : String := ""
  /-- Options whose name may have a value in the same argument. -/
  optional : String := ""
  /-- The options that have a name. -/
  names : List (String × Char) := []
  /-- Options end at the first operand. -/
  stopsEarly : Bool := false

/-- The arguments of a utility, sorted out up to a fault if there is one. -/
structure Arguments where
  options : List (Char × ByteText) := []
  operands : List ByteText := []
  fault : Option OptionFault := none

namespace Arguments

def has (a : Arguments) (letter : Char) : Bool := a.options.any fun (l, _) ↦ l = letter

def hasAny (a : Arguments) (letters : String) : Bool := letters.toList.any a.has

def letters (a : Arguments) : List Char := a.options.map (·.1)

/-- The last value of an option. -/
def value? (a : Arguments) (letter : Char) : Option ByteText := a.options.reverse.lookup letter

def withOptions (a : Arguments) (options : List (Char × ByteText)) : Arguments :=
  { a with options := options ++ a.options }

/-- The operands, or standard input if there are none. -/
def inputs (a : Arguments) : List ByteText := if a.operands.isEmpty then [['-']] else a.operands

end Arguments

namespace OptionTable

/-- What an argument with options comes to: the options, the fault that stops it, and the
arguments behind what it has taken. -/
abbrev Reading := List (Char × ByteText) × Option OptionFault × List ByteText

/-- Read the letters of one argument; a value may be taken from the arguments behind it. -/
def readLetters (t : OptionTable) : List Char → List ByteText → Reading
  | [], rest => ([], none, rest)
  | c :: letters, rest =>
    if t.valued.toList.contains c then
      match letters, rest with
      | [], [] => ([], some (.missingValue c), [])
      | [], value :: rest => ([(c, value)], none, rest)
      | value, rest => ([(c, value)], none, rest)
    else if t.flags.toList.contains c then
      let (more, fault, rest) := readLetters t letters rest
      ((c, []) :: more, fault, rest)
    else ([], some (.unknown c), rest)

/-- The names that a word may stand for: the one that it is, or those that it begins. -/
def candidates (t : OptionTable) (word : ByteText) : List (String × Char) :=
  match t.names.filter fun (name, _) ↦ name.toList = word with
  | [] => t.names.filter fun (name, _) ↦ word.isPrefixOf name.toList
  | same => same

/-- Read an option by its name, behind the two minus signs. -/
def readName (t : OptionTable) (text : ByteText) (rest : List ByteText) : Reading :=
  let word := text.takeWhile (· ≠ '=')
  let value? := if word.length < text.length then some (text.drop (word.length + 1)) else none
  match t.candidates word with
  | [] => ([], some (.unknownWord text), rest)
  | (name, letter) :: others =>
    if others.any fun (_, l) ↦ l ≠ letter then
      ([], some (.ambiguousWord text ((name, letter) :: others |>.map (·.1))), rest)
    else if t.valued.toList.contains letter then
      match value?, rest with
      | some value, rest => ([(letter, value)], none, rest)
      | none, value :: rest => ([(letter, value)], none, rest)
      | none, [] => ([], some (.missingWordValue name), [])
    else
      match value? with
      | none => ([(letter, [])], none, rest)
      | some value =>
        if t.optional.toList.contains letter then ([(letter, value)], none, rest)
        else ([], some (.needlessValue name), rest)

/-- Sort out arguments; as many steps as there are arguments suffice. -/
def readWithin (t : OptionTable) : Nat → List ByteText → Arguments
  | 0, args => { operands := args }
  | steps + 1, args =>
    let goOn (reading : Reading) : Arguments :=
      match reading with
      | (options, some fault, _) => { options, fault }
      | (options, none, rest) => (readWithin t steps rest).withOptions options
    match args with
    | [] => {}
    | ['-', '-'] :: rest => { operands := rest }
    | ('-' :: '-' :: text) :: rest => goOn (t.readName text rest)
    | ('-' :: c :: letters) :: rest => goOn (t.readLetters (c :: letters) rest)
    | operand :: rest =>
      if t.stopsEarly then { operands := operand :: rest }
      else
        let more := readWithin t steps rest
        { more with operands := operand :: more.operands }

/-- Sort out arguments. -/
def read (t : OptionTable) (args : List ByteText) : Arguments := t.readWithin args.length args

end OptionTable

/-- What a utility says of arguments that it does not take. -/
structure Refusal where
  message : String
  offersHelp : Bool := false
deriving DecidableEq, Repr

/-- Say why arguments are not taken. -/
def Refusal.report (r : Refusal) (p : Process) : Act Unit := do
  complain p r.message
  if r.offersHelp then askForHelp p

/-- What a word chooses of some words, of which a beginning suffices if it is clear. Words that
choose the same follow each other. -/
def choose [DecidableEq α] (option : String) (choices : List (String × α)) (word : ByteText) :
    Except Refusal α :=
  let refuse (what : String) : Except Refusal α :=
    let (lines, _) := choices.foldl (fun (lines, last?) (name, a) ↦
      (lines ++ (if last? = some a then ", " else "\n  - ") ++ s!"'{name}'", some a))
      ("", (none : Option α))
    .error ⟨s!"{what} argument {inQuotes word} for '--{option}'\nValid arguments are:{lines}", true⟩
  match choices.find? fun (name, _) ↦ name.toList = word with
  | some (_, a) => .ok a
  | none =>
    match choices.filter fun (name, _) ↦ word.isPrefixOf name.toList with
    | [] => refuse "invalid"
    | (_, a) :: others => if others.all fun (_, b) ↦ b = a then .ok a else refuse "ambiguous"

/-- Do something with the arguments of a process, unless an option has a value that is refused
or something else is wrong with one, whatever comes first. -/
def withOptions (p : Process) (t : OptionTable) (faultCode : Nat)
    (read : List (Char × ByteText) → Except Refusal α) (work : Arguments → α → Act Nat) :
    Act Nat := do
  let args := t.read p.args
  match read args.options, args.fault with
  | .error refusal, _ =>
    refusal.report p
    return faultCode
  | .ok _, some fault =>
    Refusal.report ⟨fault.message, true⟩ p
    return faultCode
  | .ok a, none => work args a

/-- Do something with the arguments of a process whose options have no values. -/
def withArguments (p : Process) (t : OptionTable) (faultCode : Nat)
    (work : Arguments → Act Nat) : Act Nat :=
  withOptions p t faultCode (fun _ ↦ .ok ()) fun args _ ↦ work args

end ShellTemplate.Utility
