import ShellTemplate.Host.Utility.Basic

/-!
# `wc`

Counting lines, words, characters and bytes, and measuring the widest line.
-/

namespace ShellTemplate.Utility

structure Counts where
  lines : Nat := 0
  words : Nat := 0
  bytes : Nat := 0
  /-- The width of the widest line. -/
  width : Nat := 0

namespace Counts

def add (a b : Counts) : Counts :=
  ⟨a.lines + b.lines, a.words + b.words, a.bytes + b.bytes, max a.width b.width⟩

/-- The column behind a character. Only a line feed counts as the end of a line that goes on
below, and what cannot be printed has no width. -/
def nextColumn (column : Nat) (c : Char) : Nat :=
  if c = '\n' || c = '\r' || c = '\x0c' then 0
  else if c = '\t' then column + 8 - column % 8
  else if isPrintable c then column + 1
  else column

/-- Where counting is inside a word and a line. -/
structure Place where
  inWord : Bool := false
  column : Nat := 0

/-- Count a character. A word begins with one that can be printed. -/
def step (n : Counts) (place : Place) (c : Char) : Counts × Place :=
  let isWordLike := isPrintable c && !isSpace c
  let column := nextColumn place.column c
  (⟨if c = '\n' then n.lines + 1 else n.lines,
    if isWordLike && !place.inWord then n.words + 1 else n.words,
    n.bytes + 1, max n.width column⟩, ⟨isWordLike || place.inWord && !isSpace c, column⟩)

def ofText (data : ByteText) : Counts :=
  (data.foldl (fun (n, place) c ↦ step n place c) (({} : Counts), ({} : Place))).1

/-- The numbers that are asked for, right-aligned to a width, and a name. Each byte is a
character. -/
def line (n : Counts) (letters : List Char) (width : Nat) (name : Option ByteText) : ByteText :=
  let numbers := [('l', n.lines), ('w', n.words), ('m', n.bytes), ('c', n.bytes), ('L', n.width)]
  let columns := numbers.filterMap fun (letter, k) ↦
    let digits := (toString k).toList
    if letters.contains letter then
      some (List.replicate (width - digits.length) ' ' ++ digits)
    else none
  [' '].intercalate (columns ++ name.toList) ++ ['\n']

end Counts

/-- When `wc` writes the total of all its inputs. -/
inductive TotalRule where
  | several
  | always
  /-- The total alone. -/
  | only
  | never
deriving DecidableEq, Repr

def TotalRule.names : List (String × TotalRule) :=
  [("auto", several), ("always", always), ("only", only), ("never", never)]

def TotalRule.isDue : TotalRule → Nat → Bool
  | .several, inputs => 1 < inputs
  | .always, _ | .only, _ => true
  | .never, _ => false

/-- Whether a channel is a regular file, and how large that is. -/
def fileSize? (channel : Nat) : Act (Option Nat) := do
  let w ← get
  match w.channels[channel]? with
  | some (.file path _ _) => return some (w.tree.content path).length
  | _ => return none

/-- The width of the numbers: that of the size of all inputs, and at least seven if that is not
known. -/
def countWidth (channels : List (Except OsError Nat)) : Act Nat := do
  let sizes ← channels.mapM fun
    | .ok channel => fileSize? channel
    | .error _ => return some 0
  let digits := (toString (sizes.foldl (fun n size ↦ n + size.getD 0) 0)).length
  return if sizes.all Option.isSome then digits else max digits 7

/-- Count one input; nothing comes of one that cannot be opened. -/
def countInput (p : Process) (name : ByteText) (channel : Except OsError Nat) :
    Act (Bool × Option Counts) := do
  match channel with
  | .error e =>
    complain p s!"{fileName name}: {e.reason}"
    return (false, none)
  | .ok channel =>
    if (← get).channels[channel]? = some .directory then
      complain p s!"{fileName name}: {OsError.isDirectory.reason}"
      return (false, some {})
    return (true, some (Counts.ofText (← Act.slurp channel)))

def wcOptions : OptionTable where
  flags := "clLmw"
  valued := "Σ"
  names := [("bytes", 'c'), ("chars", 'm'), ("lines", 'l'), ("words", 'w'),
    ("max-line-length", 'L'), ("total", 'Σ')]

/-- The rule that the options say for the total. -/
def totalRule (options : List (Char × ByteText)) : Except Refusal TotalRule :=
  options.foldlM (fun rule (letter, value) ↦
    if letter = 'Σ' then choose "total" TotalRule.names value else .ok rule) .several

def wc (p : Process) : Act Nat :=
  withOptions p wcOptions 1 totalRule fun args rule ↦ do
    let asked := args.letters.filter (· ≠ 'Σ')
    let letters := if asked.isEmpty then ['l', 'w', 'c'] else asked
    let channels ← args.inputs.mapM (openOperand p)
    let isSingle := args.inputs.length = 1 && letters.eraseDups.length = 1
    let width ← if isSingle || rule = .only then pure 1 else countWidth channels
    let results ← (args.inputs.zip channels).mapM fun (name, channel) ↦ do
      let (done, counts?) ← countInput p name channel
      if rule ≠ .only then
        counts?.forM fun counts ↦ p.write 1
          (counts.line letters width (if args.operands.isEmpty then none else some name))
      return (done, counts?.getD {})
    if rule.isDue args.inputs.length then
      let total := results.foldl (fun total (_, counts) ↦ total.add counts) ({} : Counts)
      p.write 1 (total.line letters width (if rule = .only then none else some "total".toList))
    return if results.all (·.1) then 0 else 1

end ShellTemplate.Utility
