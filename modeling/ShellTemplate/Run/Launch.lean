import ShellTemplate.Host.PathText
import ShellTemplate.Options
import ShellTemplate.Pipeline

/-!
# Launches

The processes that run a pipeline: one for each stage where the stages can be
started directly, otherwise one shell that gets the command line. A launch
also says which files it opens, and which descriptors share an open file.
-/

namespace ShellTemplate

/-- One process to start. -/
structure Launch where
  program : List Char
  args : List (List Char)
  /-- The files of descriptors, in increasing order of the descriptors. -/
  files : List (Nat × List Char × FileMode) := []
deriving DecidableEq, Repr, Inhabited

/-- How a launch comes by the file of a descriptor. -/
inductive Opening where
  | fresh (fd : Nat) (path : List Char) (mode : FileMode)
  /-- The open file of an earlier descriptor. -/
  | shared (fd earlier : Nat)
deriving DecidableEq, Repr, Inhabited

namespace Launch

/-- The directly started process of a stage. Duplications are none of its files. -/
def ofStage (stage : Stage) : Launch where
  program := (stage.program?).getD []
  args := (stage.argv.drop 1).map Word.value
  files := stage.redirects.filterMap fun
    | (fd, .file path mode) => some (fd, path.value, mode)
    | (_, .descriptor _) => none

/-- What is put in front of a command line so that the shell reports the rightmost failure; a
shell without that option goes on without it. -/
def pipefailLead : List Char := "(set -o pipefail) 2>/dev/null && set -o pipefail; ".toList

/-- The shell that runs a command line. -/
def ofLine (line : List Char) (options : RunOptions) : Launch where
  program := options.shell
  args := ["-c".toList, if options.pipefail then pipefailLead ++ line else line]

/-- The openings of files given the ones before: a descriptor with the same path and mode as
an earlier one shares the file of the first such. -/
def openingsAfter (earlier : List (Nat × List Char × FileMode)) :
    List (Nat × List Char × FileMode) → List Opening
  | [] => []
  | (fd, path, mode) :: rest =>
    (match earlier.find? fun (_, p, m) ↦ samePath p path && m = mode with
      | some (first, _, _) => .shared fd first
      | none => .fresh fd path mode) :: openingsAfter (earlier ++ [(fd, path, mode)]) rest

/-- How the files of a launch are opened, in order. -/
def openings (launch : Launch) : List Opening := openingsAfter [] launch.files

def hasFile (launch : Launch) (fd : Nat) : Bool := launch.files.any fun (n, _, _) ↦ n = fd

end Launch

namespace Pipeline

/-- The processes that run a pipeline. -/
def launches (p : Pipeline) (options : RunOptions) : List Launch :=
  if p.requiresShell then [Launch.ofLine p.line options] else p.stages.map Launch.ofStage

end Pipeline

end ShellTemplate
