import ShellTemplate.Host.Shell.Session

/-!
# Arguments of builtin commands

Numbers and options, and what a builtin says about wrong ones.
-/

namespace ShellTemplate.Shell.Builtin

/-- A number without a sign. -/
def readNumber? (text : ByteText) : Option Nat :=
  if text.isEmpty || !text.all isDigit then none else readDigits? text

/-- The number that an argument denotes. A wrong one ends the shell if the builtin is a
special one. -/
def number (name : String) (text : ByteText) : Work Nat :=
  match readNumber? text with
  | some n => return n
  | none => fail s!"{name}: Illegal number: {shown text}"

/-- Report an error of a builtin that the shell survives. -/
def refuse (name message : String) : Work Nat := do
  complain s!"{name}: {message}"
  return 2

/-- The letters of the options in front, and the operands. -/
def splitLetters : List ByteText → ByteText × List ByteText
  | [] => ([], [])
  | ['-', '-'] :: rest => ([], rest)
  | ('-' :: c :: letters) :: rest =>
    let (more, operands) := splitLetters rest
    (c :: letters ++ more, operands)
  | operands => ([], operands)

/-- A value in single quotes, with quotes in it in double quotes. -/
def quotedValue (text : ByteText) : ByteText :=
  '\'' :: (text.flatMap fun c ↦ if c = '\'' then "'\"'\"'".toList else [c]) ++ ['\'']

/-- Split an argument of the form `name=value`. -/
def splitDefinition (text : ByteText) : ByteText × Option ByteText :=
  let name := text.takeWhile (· ≠ '=')
  (name, if name.length < text.length then some (text.drop (name.length + 1)) else none)

end ShellTemplate.Shell.Builtin
