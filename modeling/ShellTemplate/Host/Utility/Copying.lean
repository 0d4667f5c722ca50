import ShellTemplate.Host.Utility.Size

/-!
# `cat` and `head`

The utilities that copy their inputs, with marks or cut off.
-/

namespace ShellTemplate.Utility

/-- How `cat` marks what it copies. -/
structure CatMarks where
  number : Bool := false
  /-- Number only lines that are not empty. -/
  numberNonblank : Bool := false
  squeezeBlank : Bool := false
  showEnds : Bool := false
  showTabs : Bool := false
  showNonprinting : Bool := false

namespace CatMarks

def ofArguments (a : Arguments) : CatMarks where
  number := a.has 'n' && !a.has 'b'
  numberNonblank := a.has 'b'
  squeezeBlank := a.has 's'
  showEnds := a.hasAny "AeE"
  showTabs := a.hasAny "AtT"
  showNonprinting := a.hasAny "Aetv"

/-- A character with marks for what cannot be seen. -/
def visible (m : CatMarks) (c : Char) : ByteText :=
  if c = '\t' then if m.showTabs then ['^', 'I'] else [c]
  else if !m.showNonprinting || c = '\n' then [c]
  else
    let n := c.toNat
    let low (k : Nat) : ByteText :=
      if k < 32 then ['^', Char.ofNat (k + 64)] else if k = 127 then ['^', '?'] else [Char.ofNat k]
    if n < 128 then low n else 'M' :: '-' :: low (n - 128)

end CatMarks

/-- Where `cat` is, over all its inputs: the number of the last numbered line, whether a line
begins, and how many empty lines came directly before. -/
structure CatState where
  line : Nat := 0
  atStart : Bool := true
  blanks : Nat := 0
  /-- A carriage return is not written yet; its mark depends on what follows. -/
  heldReturn : Bool := false

namespace CatState

def step (m : CatMarks) (s : CatState) (c : Char) : ByteText × CatState :=
  let held : ByteText :=
    if !s.heldReturn then [] else if c = '\n' then ['^', 'M'] else ['\r']
  let isBlank := s.atStart && c = '\n'
  if isBlank && m.squeezeBlank && 1 ≤ s.blanks then ([], s)
  else
    let numbered := s.atStart && (m.number || m.numberNonblank && !isBlank)
    let line := if numbered then s.line + 1 else s.line
    let digits := (toString line).toList
    let label := if numbered then List.replicate (6 - digits.length) ' ' ++ digits ++ ['\t'] else []
    let holds := c = '\r' && m.showEnds && !m.showNonprinting
    let text :=
      if holds then [] else if c = '\n' && m.showEnds then ['$', '\n'] else m.visible c
    (held ++ label ++ text, ⟨line, c = '\n', if isBlank then s.blanks + 1 else 0, holds⟩)

/-- Mark data. -/
def mark (m : CatMarks) (s : CatState) (data : ByteText) : ByteText × CatState :=
  let (parts, s) := data.foldl (fun (parts, s) c ↦
    let (part, s) := step m s c
    (part :: parts, s)) (([] : List ByteText), s)
  (parts.reverse.flatten, s)

end CatState

/-- Whether a process would read from a channel what it writes itself. -/
def feedsItself (p : Process) (input : Nat) : Act Bool := do
  let w ← get
  match w.channels[input]?, (p.channel? 1).bind fun channel ↦ w.channels[channel]? with
  | some (.file path offset _), some (.file target position append) =>
    let position := if append then (w.tree.content target).length else position
    return path = target && offset < position
  | _, _ => return false

/-- Copy an operand of `cat`: whether all went well, and the state behind it. -/
def copyOperand (p : Process) (marks : CatMarks) (plain : Bool) (s : CatState)
    (operand : ByteText) : Act (Bool × CatState) := do
  let refuse (reason : String) : Act (Bool × CatState) := do
    complain p s!"{fileName operand}: {reason}"
    return (false, s)
  match ← openOperand p operand with
  | .error e => refuse e.reason
  | .ok channel =>
    if (← get).channels[channel]? = some .directory then return ← refuse OsError.isDirectory.reason
    if ← feedsItself p channel then return ← refuse "input file is output file"
    let (chunks, ending) ← Act.readAll channel
    let mark (s : CatState) (data : ByteText) : ByteText × CatState :=
      if plain then (data, s) else s.mark marks data
    let s ← p.copyWith mark s chunks
    p.passEnding ending some
    return (true, s)

def catOptions : OptionTable where
  flags := "AbeEnstTuv"
  names := [("number-nonblank", 'b'), ("number", 'n'), ("squeeze-blank", 's'),
    ("show-nonprinting", 'v'), ("show-ends", 'E'), ("show-tabs", 'T'), ("show-all", 'A')]

def cat (p : Process) : Act Nat :=
  withArguments p catOptions 1 fun args ↦ do
    let marks := CatMarks.ofArguments args
    let plain := args.options.all fun (c, _) ↦ c = 'u'
    let (code, s) ← args.inputs.foldlM (fun (code, s) operand ↦ do
      let (done, s) ← copyOperand p marks plain s operand
      return (if done then code else 1, s)) ((0 : Nat), ({} : CatState))
    if s.heldReturn then p.write 1 ['\r']
    return code

/-- When `head` writes the names of its inputs. -/
inductive Titles where
  | several
  | always
  | never
deriving DecidableEq, Repr

/-- What `head` keeps: so many bytes or lines, or all but so many at the end. -/
structure HeadPlan where
  bytes : Bool := false
  count : Nat := 10
  fromEnd : Bool := false
  titles : Titles := .several
  /-- The character that ends a line. -/
  lineEnd : Char := '\n'

namespace HeadPlan

/-- Keep what the value of an option says. -/
def keep (plan : HeadPlan) (bytes : Bool) (value : ByteText) : Except Refusal HeadPlan :=
  let fromEnd := value.head? = some '-'
  let value := if fromEnd then value.drop 1 else value
  let unit := if bytes then "bytes" else "lines"
  let message := s!"invalid number of {unit}: {inQuotes value}"
  match readSize value with
  | .ok count => .ok { plan with bytes, count, fromEnd }
  | .error .malformed => .error ⟨message, false⟩
  | .error .tooLarge => .error ⟨s!"{message}: Value too large for defined data type", false⟩

/-- Follow one option. -/
def follow (plan : HeadPlan) (option : Char × ByteText) : Except Refusal HeadPlan :=
  match option.1 with
  | 'c' => plan.keep true option.2
  | 'n' => plan.keep false option.2
  | 'q' => .ok { plan with titles := .never }
  | 'v' => .ok { plan with titles := .always }
  | 'z' => .ok { plan with lineEnd := '\x00' }
  | c => .error ⟨s!"invalid trailing option -- {c}", true⟩

/-- The plan of an argument that is a number with letters behind it. -/
def ofNumber (digits letters : ByteText) : Except Refusal HeadPlan := do
  let (plan, unit) ← letters.foldlM (fun ((plan : HeadPlan), (unit : ByteText)) c ↦
    match c with
    | 'c' => .ok ({ plan with bytes := true }, [])
    | 'b' | 'k' | 'm' => .ok ({ plan with bytes := true }, [c])
    | 'l' => .ok ({ plan with bytes := false }, unit)
    | c => (plan.follow (c, [])).map (·, unit)) (({} : HeadPlan), ([] : ByteText))
  plan.keep plan.bytes (digits ++ unit)

end HeadPlan

/-- Keep lines of data while some are left to keep. -/
def takeLines (lineEnd : Char) (left : Nat) (data : ByteText) : ByteText × Nat :=
  let (out, left) := data.foldl (fun (out, left) c ↦
    if left = 0 then (out, 0) else (c :: out, if c = lineEnd then left - 1 else left))
    (([] : ByteText), left)
  (out.reverse, left)

/-- Data without its last lines; an unfinished one counts. -/
def dropLastLines (lineEnd : Char) (count : Nat) (data : ByteText) : ByteText :=
  let unfinished := if data.getLast?.all (· = lineEnd) then 0 else 1
  let lines := data.count lineEnd + unfinished
  if count = 0 then data else (takeLines lineEnd (lines - count) data).1

/-- Copy the beginning of a channel. -/
def copyHead (p : Process) (plan : HeadPlan) (channel : Nat) : Act Unit := do
  if plan.fromEnd then
    let data ← Act.slurp channel
    p.write 1 (if plan.bytes then data.take (data.length - plan.count)
      else dropLastLines plan.lineEnd plan.count data)
  else if plan.bytes then
    let (chunks, ending) ← Act.readUpTo channel plan.count
    p.copyWith (fun (_ : Unit) data ↦ (data, ())) () chunks
    match ending with
    | some ending => Act.awaitEnding ending
    | none => return
  else
    let (chunks, ending) ← Act.readAll channel
    let left ← p.copyWith (takeLines plan.lineEnd) plan.count chunks
    if left ≠ 0 then Act.awaitEnding ending

/-- Copy the beginnings of operands. -/
def copyHeads (p : Process) (args : Arguments) (plan : HeadPlan) : Act Nat := do
  let titled := plan.titles = .always || plan.titles = .several && 1 < args.operands.length
  let (code, _) ← args.inputs.foldlM (fun ((code : Nat), isFirst) operand ↦ do
    match ← openOperand p operand with
    | .error e =>
      complain p s!"cannot open {quotedName operand} for reading: {e.reason}"
      return (1, isFirst)
    | .ok channel =>
      let name := if operand = ['-'] then "standard input".toList else operand
      if titled then
        p.write 1 ((if isFirst then [] else ['\n']) ++ "==> ".toList ++ name ++ " <==\n".toList)
      if plan.count = 0 && !plan.fromEnd then return (code, false)
      if (← get).channels[channel]? = some .directory then
        complain p s!"error reading {quotedName name}: {OsError.isDirectory.reason}"
        return (1, false)
      copyHead p plan channel
      return (code, false)) (0, true)
  return code

def headOptions : OptionTable where
  flags := "qvz0123456789"
  valued := "cn"
  names := [("bytes", 'c'), ("lines", 'n'), ("quiet", 'q'), ("silent", 'q'), ("verbose", 'v'),
    ("zero-terminated", 'z')]

/-- The first argument may be a number with letters behind it. -/
def head (p : Process) : Act Nat := do
  let run (p : Process) (plan : HeadPlan) : Act Nat :=
    withOptions p headOptions 1 (fun options ↦ options.foldlM HeadPlan.follow plan) (copyHeads p)
  match p.argv with
  | name :: ('-' :: c :: text) :: rest =>
    if !isDigit c then run p {}
    else
      let digits := (c :: text).takeWhile isDigit
      match HeadPlan.ofNumber digits ((c :: text).drop digits.length) with
      | .ok plan => run { p with argv := name :: rest } plan
      | .error refusal =>
        refusal.report p
        return 1
  | _ => run p {}

end ShellTemplate.Utility
