import ShellTemplate.Host.Utility.Basic
import ShellTemplate.Host.Utility.Sorting.Order

/-!
# Keys of lines

The parts of lines that they are compared by, and how.
-/

namespace ShellTemplate.Utility.Sorting

/-- How parts of lines are compared. -/
structure KeyOrder where
  /-- Letters of the options, which say what to compare by and which characters to leave out. -/
  letters : List Char := []
  /-- Skip blanks before the place of a character where a key begins, or ends. -/
  skipsStart : Bool := false
  skipsEnd : Bool := false
deriving DecidableEq, Repr, Inhabited

namespace KeyOrder

/-- The letters that say how to compare. -/
def isLetter (c : Char) : Bool := "bdfghiMnRrV".toList.contains c

/-- Follow letters; blanks are skipped at the start or at the end. -/
def add (o : KeyOrder) (atStart atEnd : Bool) (letters : List Char) : KeyOrder where
  letters := o.letters ++ letters.filter (· ≠ 'b')
  skipsStart := o.skipsStart || atStart && letters.contains 'b'
  skipsEnd := o.skipsEnd || atEnd && letters.contains 'b'

/-- Whether an order is by bytes, either way round. -/
def isPlain (o : KeyOrder) : Bool :=
  !o.skipsStart && !o.skipsEnd && o.letters.all (· = 'r')

/-- The letters of an order that make no sense together, if there are any. -/
def clash? (o : KeyOrder) : Option String :=
  let kinds := ['n', 'g', 'h', 'M'].countP o.letters.contains
  let other := "VRdi".toList.any o.letters.contains
  let letters := "dfghiMnRV".toList.filter fun c ↦
    o.letters.contains c && !(c = 'i' && o.letters.contains 'd')
  if 1 < kinds + (if other then 1 else 0) then some (String.ofList letters) else none

/-- The characters of a text that count, all of them in upper case where case does not. -/
def relevant (o : KeyOrder) (text : ByteText) : ByteText :=
  let text :=
    if o.letters.contains 'd' then
      text.filter fun c ↦ isBlank c || ShellTemplate.isLetter c || isDigit c
    else if o.letters.contains 'i' then text.filter isPrintable
    else text
  if o.letters.contains 'f' then text.map Char.toUpper else text

/-- Compare parts of lines. -/
def compare (o : KeyOrder) (a b : ByteText) : Ordering :=
  let a := o.relevant a
  let b := o.relevant b
  let order :=
    if o.letters.contains 'n' then compareNumbers a b
    else if o.letters.contains 'g' then compareReals a b
    else if o.letters.contains 'h' then compareSizes a b
    else if o.letters.contains 'M' then compareMonths a b
    else if o.letters.contains 'V' then compareFileVersions a b
    else a.compare b
  if o.letters.contains 'r' then order.swap else order

end KeyOrder

/-- A part of the lines that they are compared by. -/
structure Key where
  /-- How many fields come before it, and how many characters of its first field. -/
  start : Nat × Nat := (0, 0)
  /-- How many fields come before the one where it ends, and how many characters of that field
  belong to it; all of them for zero. -/
  stop : Option (Nat × Nat) := none
  order : KeyOrder := {}
deriving DecidableEq, Repr, Inhabited

namespace Key

/-- Why a key makes no sense. -/
inductive Fault where
  | noNumber (place : String) (text : ByteText)
  | malformed (reason : String) (key : ByteText)

def Fault.message : Fault → String
  | .noNumber place text =>
    s!"invalid number {place}: invalid count at start of {inQuotes text}"
  | .malformed reason key => s!"{reason}: invalid field specification {inQuotes key}"

/-- Read a number, and what follows. -/
def readNumber (place : String) (text : ByteText) : Except Fault (Nat × ByteText) :=
  let body := text.dropWhile isSpace
  let body := if body.head? = some '+' then body.drop 1 else body
  let digits := body.takeWhile isDigit
  if digits.isEmpty then .error (.noNumber place text)
  else .ok (valueIn 10 digits, body.drop digits.length)

/-- Read the number of a field, from 1, and perhaps that of a character. -/
def readPlace (key : ByteText) (place : String) (text : ByteText) (default : Nat) :
    Except Fault ((Nat × Nat) × ByteText) := do
  let (field, rest) ← readNumber place text
  if field = 0 then throw (.malformed "field number is zero" key)
  match rest with
  | '.' :: rest =>
    let (char, rest) ← readNumber "after '.'" rest
    return ((field - 1, char), rest)
  | rest => return ((field - 1, default), rest)

/-- Read a key. -/
def read (key : ByteText) : Except Fault Key := do
  let ((field, char), rest) ← readPlace key "at field start" key 1
  if char = 0 then throw (.malformed "character offset is zero" key)
  let first := rest.takeWhile KeyOrder.isLetter
  let order := KeyOrder.add {} true false first
  let (stop, order, rest) ←
    match rest.drop first.length with
    | ',' :: rest => do
      let (stop, rest) ← readPlace key "after ','" rest 0
      let second := rest.takeWhile KeyOrder.isLetter
      pure (some stop, order.add false true second, rest.drop second.length)
    | rest => pure (none, order, rest)
  if !rest.isEmpty then throw (.malformed "stray character in field spec" key)
  return ⟨(field, char - 1), stop, order⟩

/-- What follows behind the next field. Without a separator a field has the blanks before it. -/
def skipField (separator : Option Char) (text : ByteText) : ByteText :=
  match separator with
  | some c => (text.dropWhile (· ≠ c)).drop 1
  | none => (text.dropWhile isBlank).dropWhile fun c ↦ !isBlank c

/-- What follows behind so many fields. -/
def skipFields (separator : Option Char) (count : Nat) (text : ByteText) : ByteText :=
  (min count text.length).repeat (skipField separator) text

/-- What follows behind so many characters, and perhaps blanks before them. -/
def skipChars (skipsBlanks : Bool) (count : Nat) (text : ByteText) : ByteText :=
  (if skipsBlanks then text.dropWhile isBlank else text).drop count

/-- The part of a line that a key stands for. -/
def extract (key : Key) (separator : Option Char) (line : ByteText) : ByteText :=
  let fromStart :=
    skipChars key.order.skipsStart key.start.2 (skipFields separator key.start.1 line)
  let behind :=
    match key.stop with
    | none => []
    | some (field, 0) =>
      let last := skipFields separator field line
      match separator with
      | some c => last.dropWhile (· ≠ c)
      | none => skipField none last
    | some (field, char) =>
      skipChars key.order.skipsEnd char (skipFields separator field line)
  fromStart.take (fromStart.length - behind.length)

end Key

/-- How lines are compared: by keys, and if those do not tell them apart and nothing else is
asked for, as a whole. -/
structure LineOrder where
  keys : List Key := []
  separator : Option Char := none
  keysOnly : Bool := false
  reversed : Bool := false
deriving Inhabited

def LineOrder.compare (o : LineOrder) (a b : ByteText) : Ordering :=
  let byKeys := o.keys.foldl (fun order key ↦
    order.then (key.order.compare (key.extract o.separator a) (key.extract o.separator b))) .eq
  if o.keysOnly && !o.keys.isEmpty then byKeys
  else
    let order := a.compare b
    byKeys.then (if o.reversed then order.swap else order)

end ShellTemplate.Utility.Sorting
