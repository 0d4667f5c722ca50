/-!
# Execution records

The line that is logged for each completed run.
-/

namespace ShellTemplate

/-- A command line on one line, cut after 200 characters. -/
def compactLine (line : List Char) : List Char :=
  (line.flatMap fun c ↦ if c = '\n' then [';', ' '] else [c]).take 200

/-- The record of a run that took so many microseconds. -/
def executionRecord (line : List Char) (exitCode : Int) (micros : Nat) : List Char :=
  s!"exit={exitCode}\t{micros / 1000}ms\t".toList ++ compactLine line

end ShellTemplate
