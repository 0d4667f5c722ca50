import ShellTemplate.Host.Shell.Builtin.Basic
import ShellTemplate.Host.Utility.Condition
import ShellTemplate.Host.Utility.Format

/-!
# Builtins that print or test

`echo`, `printf`, `pwd`, `test` and `[`.
-/

namespace ShellTemplate.Shell.Builtin

/-- Escapes are always replaced. -/
def echo (args : List ByteText) : Work Nat := do
  let (newline, words) :=
    match args with
    | ['-', 'n'] :: rest => (false, rest)
    | args => (true, args)
  let (text, stop) := Format.unescape .shell ([' '].intercalate words)
  sayText (if newline && stop.isNone then text ++ ['\n'] else text)
  return 0

open Format in
/-- What `printf` says of an argument. -/
def remarkText : Remark → String
  | .notNumeric arg => s!"printf: {shown arg}: expected numeric value"
  | .trailing arg => s!"printf: {shown arg}: not completely converted"
  | .outOfRange arg => s!"printf: {shown arg}: Numerical result out of range"
  | .unused _ => ""

/-- What is said comes before what is printed, which waits for the end. -/
def printf (args : List ByteText) : Work Nat := do
  match if args.head? = some ['-', '-'] then args.drop 1 else args with
  | [] => refuse "printf" "usage: printf format [arg ...]"
  | format :: rest =>
    match format with
    | '-' :: c :: _ =>
      if args.length = rest.length + 1 then return ← refuse "printf" s!"Illegal option -{c}"
    | _ => pure ()
    let printed := Format.print .shell format rest
    printed.remarks.reverse.forM fun remark ↦ complain (remarkText remark)
    let status ←
      match printed.stop with
      | some (.unfinished _) => refuse "printf" "missing format character"
      | some (.noConversion directive) =>
        refuse "printf" s!"{shown directive}: invalid directive"
      | _ => pure (if printed.remarks.isEmpty then 0 else 1)
    sayText printed.text
    return status

def pwd (_ : List ByteText) : Work Nat := do
  sayText ((← get).cwd.text ++ ['\n'])
  return 0

open Condition in
/-- What `test` says of a condition that makes no sense. -/
def conditionText : Fault → String
  | .unexpected word => about word "unexpected operator"
  | .noOperand operator => about operator "argument expected"
  | .unclosed => "closing paren expected"
  | .notNumber word => s!"Illegal number: {shown word}"
where
  about (word : ByteText) (text : String) : String :=
    if word.isEmpty then text else s!"{shown word}: {text}"

def test (name : String) (condition : List ByteText) : Work Nat := do
  let w ← getThe World
  match Condition.evaluate w.tree (← get).cwd condition with
  | .ok truth => return if truth then 0 else 1
  | .error fault => refuse name (conditionText fault)

def bracket (args : List ByteText) : Work Nat :=
  if args.getLast? = some [']'] then test "[" args.dropLast else refuse "[" "missing ]"

end ShellTemplate.Shell.Builtin
