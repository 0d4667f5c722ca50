import ShellTemplate.Host.Utility.Sorting.Key

/-!
# `sort`

The lines of the inputs in order.
-/

namespace ShellTemplate.Utility

namespace Sorting

/-- What `sort` is asked to do. -/
structure Plan where
  common : KeyOrder := {}
  keys : List Key := []
  separator : Option Char := none
  /-- Only check whether the input is in order; a capital letter says nothing of it. -/
  check : Option Char := none
  merges : Bool := false
  output : Option ByteText := none
  isStable : Bool := false
  isUnique : Bool := false
  /-- The character that ends a line. -/
  lineEnd : Char := '\n'

def incompatible (letters : String) : Refusal := ⟨s!"options '-{letters}' are incompatible", false⟩

namespace Plan

/-- Check the order, in one way only. -/
def checking (plan : Plan) (letter : Char) : Except Refusal Plan :=
  if plan.check.all (· = letter) then .ok { plan with check := some letter }
  else .error (incompatible "cC")

/-- Separate fields by a character. -/
def separatedBy (plan : Plan) (text : ByteText) : Except Refusal Plan := do
  let c ←
    match text with
    | [] => throw ⟨"empty tab", false⟩
    | [c] => pure c
    | ['\\', '0'] => pure '\x00'
    | text => throw ⟨s!"multi-character tab {inQuotes text}", false⟩
  if plan.separator.all (· = c) then return { plan with separator := some c }
  else throw ⟨"incompatible tabs", false⟩

/-- Write to a file. -/
def writingTo (plan : Plan) (path : ByteText) : Except Refusal Plan :=
  if plan.output.all (· = path) then .ok { plan with output := some path }
  else .error ⟨"multiple output files specified", false⟩

/-- The words for the ways to compare, with their letters. -/
def orderWords : List (String × Char) :=
  [("general-numeric", 'g'), ("human-numeric", 'h'), ("month", 'M'), ("numeric", 'n'),
    ("random", 'R'), ("version", 'V')]

def checkWords : List (String × Char) :=
  [("quiet", 'C'), ("silent", 'C'), ("diagnose-first", 'c')]

/-- Follow one option. -/
def follow (plan : Plan) (option : Char × ByteText) : Except Refusal Plan := do
  let (letter, value) := option
  match letter with
  | 'k' =>
    match Key.read value with
    | .ok key => return { plan with keys := plan.keys ++ [key] }
    | .error fault => throw ⟨fault.message, false⟩
  | 't' => plan.separatedBy value
  | 'o' => plan.writingTo value
  | 'c' | 'C' => plan.checking letter
  | 'Χ' => plan.checking (← if value.isEmpty then pure 'c' else choose "check" checkWords value)
  | 'Σ' =>
    return { plan with common := plan.common.add true true [← choose "sort" orderWords value] }
  | 'm' => return { plan with merges := true }
  | 's' => return { plan with isStable := true }
  | 'u' => return { plan with isUnique := true }
  | 'z' => return { plan with lineEnd := '\x00' }
  | letter =>
    if KeyOrder.isLetter letter then
      return { plan with common := plan.common.add true true [letter] }
    else return plan

/-- How a plan compares lines. A key that says nothing of its order has the common one. -/
def lineOrder (plan : Plan) : Except Refusal LineOrder := do
  let keys := plan.keys.map fun key ↦
    if key.order.isPlain && !key.order.letters.contains 'r' then { key with order := plan.common }
    else key
  let keys := if keys.isEmpty && !plan.common.isPlain then [{ order := plan.common }] else keys
  match keys.findSome? fun key ↦ key.order.clash? with
  | some letters => throw (incompatible letters)
  | none => return ⟨keys, plan.separator, plan.isStable || plan.isUnique,
      plan.common.letters.contains 'r'⟩

end Plan

/-- Read the content of an input that is open. -/
def readInput (name : ByteText) (channel : Nat) : Act (Except String ByteText) := do
  if (← get).channels[channel]? = some .directory then
    return .error s!"read failed: {fileName name}: {OsError.isDirectory.reason}"
  return .ok (← Act.slurp channel)

/-- Keep the first line of each run that compares equal. -/
def firstOfRuns (same : ByteText → ByteText → Bool) : List ByteText → List ByteText
  | a :: rest => a :: firstOfRuns same (rest.dropWhile (same a))
  | [] => []
termination_by lines => lines.length
decreasing_by
  have := (List.dropWhile_sublist (l := rest) (same a)).length_le
  simp only [List.length_cons]
  omega

/-- The lines of inputs in order; merging takes those of each input as they come. -/
def LineOrder.arrange (o : LineOrder) (plan : Plan) (parts : List (List ByteText)) :
    List ByteText :=
  let isBefore (a b : ByteText) : Bool := o.compare a b != .gt
  let sorted :=
    if plan.merges then parts.foldl (fun merged part ↦ merged.merge part isBefore) []
    else parts.flatten.mergeSort isBefore
  if plan.isUnique then firstOfRuns (fun a b ↦ o.compare a b = .eq) sorted else sorted

/-- The first line that is out of order, with its number. -/
def disorder? (o : LineOrder) (strict : Bool) : Nat → List ByteText → Option (Nat × ByteText)
  | n, a :: b :: rest =>
    let order := o.compare a b
    if order = .gt || strict && order = .eq then some (n + 1, b)
    else disorder? o strict (n + 1) (b :: rest)
  | _, _ => none

/-- Check whether the lines of an input are in order. -/
def checkInput (p : Process) (plan : Plan) (o : LineOrder) (letter : Char) (name : ByteText) :
    Act Nat := do
  let content ←
    match ← openOperand p name with
    | .error e => pure (Except.error s!"open failed: {fileName name}: {e.reason}")
    | .ok channel => readInput name channel
  match content.map (disorder? o plan.isUnique 1 ∘ ByteText.lines plan.lineEnd) with
  | .error message =>
    complain p message
    return 2
  | .ok none => return 0
  | .ok (some (n, line)) =>
    if letter = 'c' then
      p.say s!"{nameOf p}: {shown name}:{n}: disorder: {shown (line ++ [plan.lineEnd])}"
    return 1

/-- Open the file for the output; there is none for standard output. -/
def openOutput (p : Process) (plan : Plan) (mode : FileMode) : Act (Except OsError (Option Nat)) :=
  match plan.output with
  | none => return .ok none
  | some path => return (← p.openPath path mode).map some

/-- Sort the lines of inputs, or merge lines that are in order. That an input is missing is found
out before any is read. The file for the output is there by then as well, but what it holds is
lost only when all is read. -/
def sortInputs (p : Process) (plan : Plan) (o : LineOrder) (names : List ByteText) : Act Nat := do
  let refuse (message : String) : Act Nat := do
    complain p message
    return 2
  let inputs ← names.mapM fun name ↦ do
    match ← openOperand p name with
    | .ok channel => return Except.ok (name, channel)
    | .error e => return Except.error s!"cannot read: {fileName name}: {e.reason}"
  match inputs.mapM id with
  | .error message => refuse message
  | .ok inputs =>
    if let .error e ← openOutput p plan .append then
      return ← refuse s!"open failed: {fileName (plan.output.getD [])}: {e.reason}"
    let contents ← inputs.mapM fun (name, channel) ↦ readInput name channel
    match contents.mapM id with
    | .error message => refuse message
    | .ok contents =>
      let text := (o.arrange plan (contents.map (ByteText.lines plan.lineEnd))).flatMap
        fun line ↦ line ++ [plan.lineEnd]
      match ← openOutput p plan .truncate with
      | .ok (some channel) => Act.write channel text
      | _ => p.write 1 text
      return 0

/-- The options of `sort`; of some of them nothing comes. -/
def options : OptionTable where
  flags := "bcCdfghimMnrRsuVzΧΔ"
  valued := "koStTyΣΠΒΚΡ"
  optional := "Χ"
  names := [("ignore-leading-blanks", 'b'), ("check", 'Χ'), ("compress-program", 'Κ'),
    ("debug", 'Δ'), ("dictionary-order", 'd'), ("ignore-case", 'f'), ("general-numeric-sort", 'g'),
    ("ignore-nonprinting", 'i'), ("key", 'k'), ("merge", 'm'), ("month-sort", 'M'),
    ("numeric-sort", 'n'), ("human-numeric-sort", 'h'), ("version-sort", 'V'),
    ("random-sort", 'R'), ("random-source", 'Ρ'), ("sort", 'Σ'), ("output", 'o'),
    ("reverse", 'r'), ("stable", 's'), ("batch-size", 'Β'), ("buffer-size", 'S'),
    ("field-separator", 't'), ("temporary-directory", 'T'), ("unique", 'u'),
    ("zero-terminated", 'z'), ("parallel", 'Π')]

end Sorting

open Sorting in
def sort (p : Process) : Act Nat :=
  withOptions p options 2 (fun options ↦ options.foldlM Plan.follow {}) fun args plan ↦ do
    let refuse (refusal : Refusal) : Act Nat := do
      refusal.report p
      return 2
    match plan.lineOrder, plan.check with
    | .error refusal, _ => refuse refusal
    | .ok order, none => sortInputs p plan order args.inputs
    | .ok order, some letter =>
      match args.inputs with
      | _ :: extra :: _ =>
        refuse ⟨s!"extra operand {quotedName extra} not allowed with -{letter}", false⟩
      | names =>
        if plan.output.isSome then refuse (incompatible (String.ofList [letter, 'o']))
        else checkInput p plan order letter (names.headD ['-'])

end ShellTemplate.Utility
