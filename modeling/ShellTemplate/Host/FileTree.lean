import ShellTemplate.Host.ByteText
import ShellTemplate.Pipeline

/-!
# File trees

The files of the host: directories, regular files, programs and some devices,
each under its absolute path. Paths are resolved one name at a time, so that
an error says what stands in the way.
-/

namespace ShellTemplate

/-- Why the operating system refuses a request. -/
inductive OsError where
  | noEntry
  | accessDenied
  | notDirectory
  | isDirectory
  | noDevice
  | badDescriptor
  | noSpace
  | nameTooLong
  /-- The arguments and variables of a new process take too much room. -/
  | argumentsTooLong
  /-- A path holds a NUL character. -/
  | nulInPath
  /-- An argument or a variable of a new process holds a NUL character. -/
  | nulInArgument
deriving DecidableEq, Repr, Inhabited

namespace OsError

def reason : OsError → String
  | .noEntry => "No such file or directory"
  | .accessDenied => "Permission denied"
  | .notDirectory => "Not a directory"
  | .isDirectory => "Is a directory"
  | .noDevice => "No such device or address"
  | .badDescriptor => "Bad file descriptor"
  | .noSpace => "No space left on device"
  | .nameTooLong => "File name too long"
  | .argumentsTooLong => "Argument list too long"
  | .nulInPath => "file name contained an unexpected NUL byte"
  | .nulInArgument => "nul byte found in provided data"

def number? : OsError → Option Nat
  | .noEntry => some 2
  | .noDevice => some 6
  | .argumentsTooLong => some 7
  | .badDescriptor => some 9
  | .accessDenied => some 13
  | .notDirectory => some 20
  | .isDirectory => some 21
  | .noSpace => some 28
  | .nameTooLong => some 36
  | .nulInPath | .nulInArgument => none

def message (e : OsError) : String :=
  match e.number? with
  | some n => s!"{e.reason} (os error {n})"
  | none => e.reason

end OsError

/-- The programs that the host can run. -/
inductive Program where
  | succeed
  | fail
  | echo
  | printf
  | cat
  | sort
  | tr
  | wc
  | head
  | printenv
  | sleep
  | pwd
  | test
  | sh
deriving DecidableEq, Repr, Inhabited

namespace Program

def all : List Program :=
  [.succeed, .fail, .echo, .printf, .cat, .sort, .tr, .wc, .head, .printenv, .sleep, .pwd, .test,
    .sh]

def name : Program → String
  | .succeed => "true"
  | .fail => "false"
  | .echo => "echo"
  | .printf => "printf"
  | .cat => "cat"
  | .sort => "sort"
  | .tr => "tr"
  | .wc => "wc"
  | .head => "head"
  | .printenv => "printenv"
  | .sleep => "sleep"
  | .pwd => "pwd"
  | .test => "test"
  | .sh => "sh"

end Program

/-- The names from the root down. -/
abbrev Path := List ByteText

def Path.text (path : Path) : ByteText :=
  if path.isEmpty then ['/'] else path.flatMap fun name ↦ '/' :: name

inductive Device where
  | null
  /-- Gives bytes without end. -/
  | zero
  /-- Like `zero`, and never takes any. -/
  | full
  /-- The terminal that nobody sits at. -/
  | terminal
deriving DecidableEq, Repr, Inhabited

inductive Node where
  | directory
  | file (content : ByteText)
  | program (program : Program)
  | device (device : Device)
deriving DecidableEq, Repr, Inhabited

/-- The nodes below the root, each under its path. -/
structure FileTree where
  nodes : List (Path × Node) := []
deriving DecidableEq, Repr, Inhabited

namespace FileTree

def find? (tree : FileTree) (path : Path) : Option Node :=
  if path.isEmpty then some .directory else tree.nodes.lookup path

/-- Put a node under a path, in place of what is there. -/
def put (tree : FileTree) (path : Path) (node : Node) : FileTree :=
  if (tree.nodes.lookup path).isSome then
    ⟨tree.nodes.map fun (p, n) ↦ if p = path then (p, node) else (p, n)⟩
  else ⟨tree.nodes ++ [(path, node)]⟩

/-- Put a directory and those above it that are missing. -/
def putDirectory (tree : FileTree) (path : Path) : FileTree :=
  (List.range path.length).foldl (fun tree n ↦
    if (tree.find? (path.take (n + 1))).isSome then tree
    else tree.put (path.take (n + 1)) .directory) tree

/-- Put the directories that names lead to, up to one that stands for something else. -/
def putAlong (tree : FileTree) (dir : Path) : List ByteText → FileTree
  | [] => tree
  | name :: rest =>
    if name.isEmpty ∨ name = ['.'] then putAlong tree dir rest
    else if name = ['.', '.'] then putAlong tree dir.dropLast rest
    else
      match tree.find? (dir ++ [name]) with
      | some .directory => putAlong tree (dir ++ [name]) rest
      | some _ => tree
      | none => putAlong (tree.put (dir ++ [name]) .directory) (dir ++ [name]) rest

/-- The longest name. -/
def nameLimit : Nat := 255

/-- The longest text of a path. -/
def pathLimit : Nat := 4095

/-- Follow names from a directory. The last one need not exist. -/
def follow (tree : FileTree) (dir : Path) : List ByteText → Except OsError Path
  | [] => .ok dir
  | name :: rest =>
    match tree.find? dir with
    | none => .error .noEntry
    | some .directory =>
      if name.isEmpty ∨ name = ['.'] then follow tree dir rest
      else if name = ['.', '.'] then follow tree dir.dropLast rest
      else if nameLimit < name.length then .error .nameTooLong
      else follow tree (dir ++ [name]) rest
    | some _ => .error .notDirectory

/-- The path that a text names from a directory. -/
def resolve (tree : FileTree) (base : Path) (text : ByteText) : Except OsError Path :=
  if text.contains '\x00' then .error .nulInPath
  else if pathLimit < text.length then .error .nameTooLong
  else
    match text with
    | [] => .error .noEntry
    | '/' :: rest => tree.follow [] (ByteText.splitAll '/' rest)
    | _ => tree.follow base (ByteText.splitAll '/' text)

/-- What an opened path gives access to. -/
inductive Opened where
  | file (path : Path)
  | directory
  | device (device : Device)
deriving DecidableEq, Repr, Inhabited

/-- The text before slashes at the end that only a directory may have: behind a name that is
not made of dots. -/
def directoryText? (text : ByteText) : Option ByteText :=
  let body := (text.reverse.dropWhile (· = '/')).reverse
  let name := (body.reverse.takeWhile (· ≠ '/')).reverse
  if body.length = text.length || [[], ['.'], ['.', '.']].contains name then none else some body

/-- Open a path for reading or writing. Writing makes a file that is missing, and truncates
one that is there unless it is appended to. -/
def openPath (tree : FileTree) (base : Path) (text : ByteText) (mode : FileMode) :
    Except OsError (FileTree × Opened) := do
  match directoryText? text with
  | some body =>
    if mode ≠ .read then
      discard (tree.resolve base body)
      throw .isDirectory
  | none => pure ()
  let path ← tree.resolve base text
  match tree.find? path, mode with
  | some .directory, .read => return (tree, .directory)
  | some .directory, _ => throw .isDirectory
  | some (.device .terminal), _ => throw .noDevice
  | some (.device d), _ => return (tree, .device d)
  | some (.program _), .read => return (tree, .device .null)
  | some (.program _), _ => throw .accessDenied
  | some (.file _), .truncate => return (tree.put path (.file []), .file path)
  | some (.file _), _ => return (tree, .file path)
  | none, .read => throw .noEntry
  | none, _ =>
    match tree.find? path.dropLast with
    | some .directory => return (tree.put path (.file []), .file path)
    | some _ => throw .notDirectory
    | none => throw .noEntry

def content (tree : FileTree) (path : Path) : ByteText :=
  match tree.find? path with
  | some (.file content) => content
  | _ => []

/-- Write data into a file at an offset; a gap before it is filled with NUL bytes. -/
def writeAt (tree : FileTree) (path : Path) (offset : Nat) (data : ByteText) : FileTree :=
  let old := tree.content path
  let before := old.take offset ++ List.replicate (offset - old.length) '\x00'
  tree.put path (.file (before ++ data ++ old.drop (offset + data.length)))

/-- The program that a path names. -/
def program? (tree : FileTree) (base : Path) (text : ByteText) : Except OsError Program := do
  let path ← tree.resolve base text
  match tree.find? path with
  | some (.program p) => return p
  | some _ => throw .accessDenied
  | none => throw .noEntry

/-- Look for a program in directories. The search goes on where nothing is found; that a
file may not be run is only said at the end. -/
def searchWithin (tree : FileTree) (base : Path) (name : ByteText) (denied : Bool) :
    List ByteText → Except OsError Program
  | [] => .error (if denied then .accessDenied else .noEntry)
  | dir :: rest =>
    match tree.program? base (if dir.isEmpty then name else dir ++ '/' :: name) with
    | .ok program => .ok program
    | .error .accessDenied => searchWithin tree base name true rest
    | .error .noEntry | .error .notDirectory => searchWithin tree base name denied rest
    | .error e => .error e

/-- Find a program as a new process does: a name with a slash is a path, any other name is
looked for in each directory of the search path. -/
def searchProgram (tree : FileTree) (base : Path) (searchPath name : ByteText) :
    Except OsError Program :=
  if name.isEmpty then .error .noEntry
  else if name.contains '/' then tree.program? base name
  else tree.searchWithin base name false (ByteText.splitAll ':' searchPath)

/-- The regular files below a directory, by their paths from there. -/
def filesBelow (tree : FileTree) (base : Path) : List (Path × ByteText) :=
  tree.nodes.filterMap fun (path, node) ↦
    match node with
    | .file content =>
      if base.isPrefixOf path ∧ path ≠ base then some (path.drop base.length, content) else none
    | _ => none

/-- The names in a directory. -/
def namesIn (tree : FileTree) (dir : Path) : List ByteText :=
  tree.nodes.filterMap fun (path, _) ↦
    if path.dropLast = dir then path.getLast? else none

/-- The tree of a host before anything runs: its programs and devices. -/
def system : FileTree :=
  let path (names : List String) : Path := names.map ByteText.ofString
  let directories := [["bin"], ["usr"], ["usr", "bin"], ["dev"], ["tmp"], ["etc"]]
  let devices := [("null", Device.null), ("zero", .zero), ("random", .zero), ("urandom", .zero),
    ("full", .full), ("tty", .terminal)]
  let programs := Program.all.flatMap fun p ↦
    [(path ["bin", p.name], Node.program p), (path ["usr", "bin", p.name], .program p)]
  ⟨directories.map (fun names ↦ (path names, .directory)) ++
    devices.map (fun (name, device) ↦ (path ["dev", name], .device device)) ++ programs⟩

end FileTree

end ShellTemplate
