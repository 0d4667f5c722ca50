import ShellTemplate.Host.Utility.CharacterSet

/-!
# `tr`

Replacing, deleting and squeezing the characters of written sets.
-/

namespace ShellTemplate.Utility

/-- What becomes of the letters of one case where those of another, or the same one, stand for
them. -/
def letterPairs (upper toUpper : Bool) : List (Char × Char) :=
  if upper && !toUpper then (allBytes.filter isUpper).map fun c ↦ (c, c.toLower)
  else if !upper && toUpper then (allBytes.filter isLower).map fun c ↦ (c, c.toUpper)
  else if upper then [('A', 'A')]
  else [('a', 'a')]

/-- A character in a row, or the letters of a case while they are still together. -/
abbrev SetRun := (Char × Nat) ⊕ Bool

/-- Put two sets side by side, up to the end of one of them. The letters of a case in the second
set have to stand beside such letters in the first. -/
def pairWithin : Nat → List SetRun → List SetRun → Except SetFault (List (Char × Char))
  | 0, _, _ => .ok []
  | steps + 1, first, second =>
    match first, second with
    | _, [] => .ok []
    | .inr upper :: first, .inr toUpper :: second =>
      (pairWithin steps first second).map (letterPairs upper toUpper ++ ·)
    | _, .inr _ :: _ => .error .misaligned
    | [], _ => .ok []
    | .inr upper :: first, second =>
      pairWithin steps ((SetElement.letters upper).runs.map .inl ++ first) second
    | .inl (c, n) :: first, .inl (d, m) :: second =>
      let left (c : Char) (n : Nat) (runs : List SetRun) : List SetRun :=
        if n = 0 then runs else .inl (c, n) :: runs
      (pairWithin steps (left c (n - m) first) (left d (m - n) second)).map ((c, d) :: ·)

/-- The places of a set. -/
def setRuns (s : CharacterSet) : List SetRun :=
  s.flatMap fun
    | .letters upper => [.inr upper]
    | element => element.runs.map .inl

/-- What the second set makes of the characters of the first. -/
def pairs (first second : CharacterSet) : Except SetFault (List (Char × Char)) :=
  let first := setRuns first
  let second := setRuns second
  pairWithin (27 * (first.length + second.length) + 1) first second

/-- Repeat the last character of a set until it has at least so many of them. -/
def extend (size : Nat) (s : CharacterSet) : Except SetFault CharacterSet :=
  if size ≤ s.size then .ok s
  else if (s.getLast?.any SetElement.isClass) then .error .classAtEnd
  else
    match s.runs.getLast? with
    | some (c, _) => .ok (s ++ [.repeated c (size - s.size)])
    | none => .error .emptySecond

/-- What `tr` does with each character, in tables over all bytes. -/
structure Transliteration where
  deleted : Array Bool := #[]
  images : Array Char := #[]
  /-- The characters that are not written twice in a row. -/
  squeezed : Array Bool := #[]

namespace Transliteration

/-- The table of a property. -/
def tableOf (test : Char → Bool) : Array Bool := (allBytes.map test).toArray

def deletes (t : Transliteration) (c : Char) : Bool := t.deleted.getD c.toNat false

def image (t : Transliteration) (c : Char) : Char := t.images.getD c.toNat c

def squeezes (t : Transliteration) (c : Char) : Bool := t.squeezed.getD c.toNat false

/-- Change data, given the character written last. -/
def apply (t : Transliteration) (last : Option Char) (data : ByteText) :
    ByteText × Option Char :=
  let (out, last) := data.foldl (fun (out, last) c ↦
    if t.deletes c then (out, last)
    else if t.squeezes (t.image c) && last = some (t.image c) then (out, last)
    else (t.image c :: out, some (t.image c))) (([] : ByteText), last)
  (out.reverse, last)

/-- The table of what characters become; the last pair of a character says it. -/
def imagesOf (pairs : List (Char × Char)) : Array Char :=
  let pairs := pairs.reverse
  (allBytes.map fun c ↦ (pairs.lookup c).getD c).toArray

/-- The replacing of one set by another, with the second one as it is used. Nothing is put beside
the letters of a case if the first set is a complement. -/
def replacing (args : Arguments) (written first second : CharacterSet) :
    Except SetFault (List (Char × Char) × CharacterSet) := do
  let complements := args.hasAny "cC"
  if second.any fun element ↦ element matches .equivalents _ then throw .equivalentsInSecond
  if second.any fun element ↦ element matches .members _ then throw .classInSecond
  if !complements then discard (pairs first second)
  let second ← if args.has 't' then .ok second else extend first.size second
  let images := second.runs.map (·.1)
  if complements && written.any SetElement.isClass
      && !(second.size = first.size && !images.isEmpty && images.all (images.head? = some ·)) then
    throw .severalImages
  let beside := if complements then second.runs.map fun (c, n) ↦ .repeated c n else second
  return (← pairs first beside, second)

/-- What options make of one or two sets. -/
def ofSets (args : Arguments) (written : CharacterSet) (second? : Option CharacterSet) :
    Except SetFault Transliteration := do
  if SetElement.countLimit < written.size then throw .tooMany
  let first := if args.hasAny "cC" then written.complement else written
  if written.any SetElement.takesRoom then throw .roomInFirst
  let inFirst := tableOf first.has
  match second? with
  | none => return if args.has 'd' then { deleted := inFirst } else { squeezed := inFirst }
  | some second =>
    if SetElement.countLimit < second.size then throw .tooMany
    let needsRoom := second.any SetElement.takesRoom
    if 1 < second.countP SetElement.takesRoom then throw .severalRooms
    if args.has 'd' then
      if needsRoom then throw .needlessRoom
      return { deleted := inFirst, squeezed := tableOf second.has }
    let (pairs, second) ← replacing args written first (second.fill first.size)
    let squeezed := if args.has 's' then tableOf second.has else #[]
    return { images := imagesOf pairs, squeezed }

end Transliteration

/-- Pass standard input through a transliteration. -/
def transliterateInput (p : Process) (t : Transliteration) : Act Nat := do
  let refuse (e : OsError) : Act Nat := do
    complain p s!"read error: {e.reason}"
    return 1
  match p.channel? 0 with
  | none => refuse .badDescriptor
  | some channel =>
    if (← get).channels[channel]? = some .directory then return ← refuse .isDirectory
    let (chunks, ending) ← Act.readAll channel
    discard (p.copyWith t.apply none chunks)
    p.passEnding ending fun c ↦
      if t.deletes c || t.squeezes (t.image c) then none else some (t.image c)
    return 0

/-- What is wrong with the number of operands of `tr`, with an explanation. -/
def operandFault? (p : Process) (args : Arguments) : Option (String × String) :=
  let deletes := args.has 'd'
  let squeezes := args.has 's'
  let least := if deletes = squeezes then 2 else 1
  let most := if deletes && !squeezes then 1 else 2
  let count := args.operands.length
  if count = 0 then some ("missing operand", "")
  else if count < least then
    some (s!"missing operand after {inQuotes (p.argv.getLastD [])}",
      if squeezes then "Two strings must be given when both deleting and squeezing repeats.\n"
      else "Two strings must be given when translating.\n")
  else
    match args.operands.drop most with
    | [] => none
    | extra :: _ =>
      some (s!"extra operand {inQuotes extra}", if count = 2 then
        "Only one string may be given when deleting without squeezing repeats.\n" else "")

/-- Read sets as they are written, with the warnings on each before what is wrong with it. -/
def readSets (p : Process) : List ByteText → Act (Except SetFault (List CharacterSet))
  | [] => return .ok []
  | text :: rest => do
    let (chars, warnings) := setChars text
    warnings.forM (complain p)
    match SetElement.read chars with
    | .error fault => return .error fault
    | .ok set => return (← readSets p rest).map (set :: ·)

def trOptions : OptionTable where
  flags := "AcCdst"
  names := [("complement", 'c'), ("delete", 'd'), ("squeeze-repeats", 's'), ("truncate-set1", 't')]
  stopsEarly := true

def tr (p : Process) : Act Nat :=
  withArguments p trOptions 1 fun args ↦ do
    match operandFault? p args with
    | some (message, explanation) =>
      complain p message
      p.say explanation
      askForHelp p
      return 1
    | none =>
      let sets ← readSets p args.operands
      match sets.bind fun sets ↦ Transliteration.ofSets args (sets.headD []) sets[1]? with
      | .ok t => transliterateInput p t
      | .error fault =>
        complain p fault.message
        return 1

end ShellTemplate.Utility
