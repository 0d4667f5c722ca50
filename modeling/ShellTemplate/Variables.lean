/-!
# Variables

Named values as an environment holds them: in the order of their names, each
name once. A name is ordered by the code points of its characters.
-/

namespace ShellTemplate

/-- Variables in increasing order of their names, each name once. -/
abbrev Variables := List (List Char × List Char)

/-- Whether a name comes before another, by code points. -/
def nameBefore : List Char → List Char → Bool
  | [], [] => false
  | [], _ :: _ => true
  | _ :: _, [] => false
  | c :: a, d :: b => c.toNat < d.toNat || (c = d && nameBefore a b)

namespace Variables

def get? (vars : Variables) (name : List Char) : Option (List Char) := vars.lookup name

/-- Set a variable, in place of its value so far. -/
def set (name value : List Char) : Variables → Variables
  | [] => [(name, value)]
  | (k, v) :: rest =>
    if name = k then (name, value) :: rest
    else if nameBefore name k then (name, value) :: (k, v) :: rest
    else (k, v) :: set name value rest

/-- Set variables one after another. -/
def extend (vars more : Variables) : Variables :=
  more.foldl (fun vars (name, value) ↦ vars.set name value) vars

/-- Take variables out. -/
def without (vars : Variables) (names : List (List Char)) : Variables :=
  vars.filter fun (name, _) ↦ !names.contains name

end Variables

end ShellTemplate
