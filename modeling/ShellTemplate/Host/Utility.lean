import ShellTemplate.Host.Utility.Condition
import ShellTemplate.Host.Utility.Copying
import ShellTemplate.Host.Utility.Counting
import ShellTemplate.Host.Utility.Printing
import ShellTemplate.Host.Utility.Sorting
import ShellTemplate.Host.Utility.Surroundings
import ShellTemplate.Host.Utility.Transliteration

/-!
# Utilities

The programs of the host other than its shell. They take their arguments from a
process, act on its descriptors and return an exit code.
-/

namespace ShellTemplate.Utility

/-- What a utility does; the shell is none of them. -/
def work (program : Program) (p : Process) : Act Nat :=
  match program with
  | .succeed => return 0
  | .fail => return 1
  | .echo => echo p
  | .printf => printf p
  | .cat => cat p
  | .sort => sort p
  | .tr => tr p
  | .wc => wc p
  | .head => head p
  | .printenv => printenv p
  | .sleep => sleep p
  | .pwd => pwd p
  | .test => test p p.args
  | .sh => return 127

/-- The exit code of a utility that cannot write what it has to. -/
def writeFailureCode : Program → Nat
  | .sort | .printenv => 2
  | _ => 1

/-- Run a utility. That its output goes nowhere it finds out when it has written some. -/
def run (program : Program) (p : Process) : Act Nat := do
  match ← p.writeFault? 1 with
  | none => work program p
  | some fault =>
    let (_, channel) ← Act.newPipe
    let code ← work program (p.bind 1 channel)
    if (← Act.written channel).isEmpty then return code
    complain p s!"write error: {fault.reason}"
    return writeFailureCode program

end ShellTemplate.Utility
