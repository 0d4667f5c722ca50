import ShellTemplate.Decimal.Shortest
import ShellTemplate.Json
import ShellTemplate.Request

/-!
# Reading requests

The JSON form of a request. Members that are not known are passed over, a
known one must not stand twice. A request and its options may also be arrays
that give the members in order.
-/

namespace ShellTemplate

namespace Json

def text? : Json → Option (List Char)
  | .string text => some text
  | _ => none

def flag? : Json → Option Bool
  | .bool b => some b
  | _ => none

def texts? : Json → Option (List (List Char))
  | .array items => items.mapM text?
  | _ => none

/-- Read a value that may be null. -/
def orNull? (read : Json → Option α) : Json → Option (Option α)
  | .null => some none
  | value => (read value).map some

/-- Variables in an object of strings; the last value of a name counts. -/
def variables? : Json → Option Variables
  | .object members => do
    let pairs ← members.mapM fun (name, value) ↦ (text? value).map fun text ↦ (name, text)
    return Variables.extend [] pairs
  | _ => none

/-- The member of a name: `none` if it stands twice. -/
def member? (name : String) (members : List (List Char × Json)) : Option (Option Json) :=
  match membersNamed name members with
  | [] => some none
  | [value] => some (some value)
  | _ => none

/-- Read a member that has to be there. -/
def required? (name : String) (read : Json → Option α) (members : List (List Char × Json)) :
    Option α := do
  (← member? name members) >>= read

/-- Read a member that stands for a default where it is missing. -/
def withDefault? (name : String) (read : Json → Option α) (default : α)
    (members : List (List Char × Json)) : Option α := do
  match ← member? name members with
  | some value => read value
  | none => return default

end Json

open Json

/-- Shell syntax in a hole: an object with the member `raw`. -/
def Value.rawOfJson? (members : List (List Char × Json)) : Option Value :=
  (required? "raw" text? members).map .raw

/-- A joined list in a hole: an object with the member `join`, and `sep` if need be. -/
def Value.joinedOfJson? (members : List (List Char × Json)) : Option Value := do
  return .joined (← required? "join" texts? members) (← withDefault? "sep" text? [] members)

/-- The value of a hole. A number beyond 64 bits with a sign is a float. -/
def Value.ofJson? : Json → Option Value
  | .string text => some (.str text)
  | .bool b => some (.ofBool b)
  | .integer n =>
    if n < 0x8000000000000000 then some (.ofInt n) else some (.scalar (floatText (Float.ofInt n)))
  | .float x => some (.scalar (floatText x))
  | .array items => (texts? (.array items)).map .list
  | .object members => rawOfJson? members <|> joinedOfJson? members
  | .null | .unreadable => none

/-- How deep arrays and objects may lie inside each other in a piece of a template: all
that is read of a request has to stay below 128, and a piece lies in two of them. -/
def segmentDepth : Nat := 125

/-- A piece of a template: text, or an object with the value of a hole. Nothing in it may be
unreadable or lie too deep, even where it is passed over. -/
def Segment.ofJson? (j : Json) : Option Segment :=
  if !j.isReadable segmentDepth then none
  else
    match j with
    | .string text => some (.literal text)
    | .object members => (required? "value" Value.ofJson? members).map .hole
    | _ => none

def Template.ofJson? : Json → Option Template
  | .array items => (items.mapM Segment.ofJson?).map Template.mk
  | _ => none

/-- The options of a request. In an array all of them have to be there. -/
def RequestOptions.ofJson? : Json → Option RequestOptions
  | .object members => do
    return {
      quiet := ← withDefault? "quiet" (orNull? flag?) none members
      capture := ← withDefault? "capture" (orNull? text?) none members
      encoding := ← withDefault? "encoding" (orNull? text?) none members
      pipefail := ← withDefault? "pipefail" (orNull? flag?) none members
      captureStderr := ← withDefault? "capture_stderr" (orNull? flag?) none members
      cwd := ← withDefault? "cwd" (orNull? text?) none members
      env := ← withDefault? "env" variables? [] members
      stdin := ← withDefault? "stdin" (orNull? text?) none members
      shell := ← withDefault? "shell" (orNull? text?) none members
      listSeparator := ← withDefault? "list_separator" (orNull? text?) none members }
  | .array [quiet, capture, encoding, pipefail, captureStderr, cwd, env, stdin, shell,
      separator] => do
    return {
      quiet := ← orNull? flag? quiet
      capture := ← orNull? text? capture
      encoding := ← orNull? text? encoding
      pipefail := ← orNull? flag? pipefail
      captureStderr := ← orNull? flag? captureStderr
      cwd := ← orNull? text? cwd
      env := ← variables? env
      stdin := ← orNull? text? stdin
      shell := ← orNull? text? shell
      listSeparator := ← orNull? text? separator }
  | _ => none

def Request.ofJson? : Json → Option Request
  | .object members => do
    return ⟨← required? "template" Template.ofJson? members,
      ← withDefault? "options" RequestOptions.ofJson? {} members⟩
  | .array [template] => (Template.ofJson? template).map fun template ↦ { template }
  | .array [template, options] => do
    return ⟨← Template.ofJson? template, ← RequestOptions.ofJson? options⟩
  | _ => none

end ShellTemplate
