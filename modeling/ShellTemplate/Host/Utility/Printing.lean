import ShellTemplate.Host.Utility.Basic
import ShellTemplate.Host.Utility.Format

/-!
# `printf` and `echo`

The utilities that print their arguments.
-/

namespace ShellTemplate.Utility

open Format in
/-- What `printf` says of an argument. -/
def remarkText : Remark → String
  | .notNumeric arg => s!"{inQuotes arg}: expected a numeric value"
  | .trailing arg => s!"{inQuotes arg}: value not completely converted"
  | .outOfRange arg => s!"{inQuotes arg}: Numerical result out of range"
  | .unused characters =>
    s!"warning: {shown characters}: character(s) following character constant have been ignored"

open Format in
/-- What `printf` says at its end, if it does not come to the end of its format. -/
def stopText? : Stop → Option String
  | .asked => none
  | .noHexDigits => some "missing hexadecimal number in escape"
  | .noCharacter name => some s!"invalid universal character name {shown name}"
  | .unfinished directive | .noConversion directive =>
    some s!"{shown directive}: invalid conversion specification"
  | .noWidth arg => some s!"invalid field width: {inQuotes arg}"
  | .noPrecision arg => some s!"invalid precision: {inQuotes arg}"

/-- What is said comes before what is printed, which waits for the end. -/
def printf (p : Process) : Act Nat := do
  match if p.args.head? = some ['-', '-'] then p.args.drop 1 else p.args with
  | [] =>
    complain p "missing operand"
    askForHelp p
    return 1
  | format :: args =>
    let printed := Format.print .program format args
    printed.remarks.reverse.forM fun remark ↦ complain p (remarkText remark)
    let code ←
      match printed.stop with
      | some stop =>
        match stopText? stop with
        | some text =>
          complain p text
          pure 1
        | none => pure 0
      | none =>
        match printed.args with
        | extra :: _ =>
          complain p s!"warning: ignoring excess arguments, starting with {inQuotes extra}"
        | [] => pure ()
        pure (if printed.remarks.any Format.Remark.isFault then 1 else 0)
    p.write 1 printed.text
    return code

/-- The options of `echo` in front of its text: whether to end the line, and whether to
replace escapes. -/
def echoOptions (newline escapes : Bool) : List ByteText → Bool × Bool × List ByteText
  | arg :: rest =>
    if isOption arg && (arg.drop 1).all fun c ↦ c = 'n' || c = 'e' || c = 'E' then
      let escapes := (arg.drop 1).foldl (fun escapes c ↦
        if c = 'e' then true else if c = 'E' then false else escapes) escapes
      echoOptions (newline && !(arg.drop 1).contains 'n') escapes rest
    else (newline, escapes, arg :: rest)
  | [] => (newline, escapes, [])

def echo (p : Process) : Act Nat := do
  let (newline, escapes, words) := echoOptions true false p.args
  let text := [' '].intercalate words
  let (text, stop) := if escapes then Format.unescape .echo text else (text, none)
  p.write 1 (if newline && stop.isNone then text ++ ['\n'] else text)
  return 0

end ShellTemplate.Utility
