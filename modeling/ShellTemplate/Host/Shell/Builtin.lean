import ShellTemplate.Host.Shell.Builtin.Control
import ShellTemplate.Host.Shell.Builtin.Parameters
import ShellTemplate.Host.Shell.Builtin.Printing

/-!
# Builtin commands

The commands that the shell runs itself, by their names.
-/

namespace ShellTemplate.Shell.Builtin

/-- What a builtin does with its arguments. The builtins that run other commands are none of
these. -/
def find? (name : ByteText) : Option (List ByteText → Work Nat) :=
  match String.ofList name with
  | ":" | "true" => some fun _ ↦ return 0
  | "false" => some fun _ ↦ return 1
  | "echo" => some echo
  | "printf" => some printf
  | "pwd" => some pwd
  | "test" => some (test "test")
  | "[" => some bracket
  | "export" => some exportNames
  | "readonly" => some protectNames
  | "unset" => some unsetNames
  | "set" => some setParameters
  | "shift" => some shift
  | "read" => some read
  | "getopts" => some getopts
  | "alias" => some defineAliases
  | "unalias" => some removeAliases
  | "umask" => some umask
  | "exit" => some exit
  | "return" => some leave
  | "break" => some (jumpLoops "break" .leaveLoops)
  | "continue" => some (jumpLoops "continue" .nextRound)
  | "kill" => some kill
  | "wait" => some wait
  | "trap" => some trap
  | "cd" => some cd
  | "times" => some times
  | "ulimit" => some ulimit
  | "jobs" => some jobs
  | "fg" => some (resume "fg")
  | "bg" => some (resume "bg")
  | "local" => some «local»
  | "type" => some describe
  | "hash" => some hash
  | _ => none

end ShellTemplate.Shell.Builtin
