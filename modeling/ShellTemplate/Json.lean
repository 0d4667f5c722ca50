/-!
# JSON values

Values as a JSON text gives them. A number is an integer of 64 bits or a
double. A string with half of a surrogate pair, an object with such a string as
a name, or a number out of range, is well formed but denotes nothing: it is kept
as unreadable, for a reader that does not need it to pass over.
-/

namespace ShellTemplate

inductive Json where
  | null
  | bool (value : Bool)
  | integer (value : Int)
  | float (value : Float)
  | string (text : List Char)
  | unreadable
  | array (items : List Json)
  | object (members : List (List Char × Json))
deriving Inhabited

namespace Json

def text (s : String) : Json := .string s.toList

/-- Build an object from named members. -/
def record (members : List (String × Json)) : Json :=
  .object (members.map fun (name, value) ↦ (name.toList, value))

/-- The values of all members with this name. -/
def membersNamed (name : String) (members : List (List Char × Json)) : List Json :=
  members.filterMap fun (key, value) ↦ if key = name.toList then some value else none

mutual

/-- Whether nothing in a value is unreadable, and no more than this many arrays and objects
lie inside each other. -/
def isReadable : Nat → Json → Bool
  | _, .unreadable => false
  | 0, .array _ | 0, .object _ => false
  | depth + 1, .array items => areReadable depth items
  | depth + 1, .object members => membersReadable depth members
  | _, _ => true

def areReadable : Nat → List Json → Bool
  | _, [] => true
  | depth, item :: items => isReadable depth item && areReadable depth items

def membersReadable : Nat → List (List Char × Json) → Bool
  | _, [] => true
  | depth, (_, value) :: members => isReadable depth value && membersReadable depth members

end

end Json

end ShellTemplate
