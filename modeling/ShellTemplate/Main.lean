import ShellTemplate.Tool

/-!
# The command line

A request on standard input, its reply on standard output. The command runs on
a host of its own, which begins with the configuration of the home directory
and is forgotten at the end.
-/

namespace ShellTemplate

/-- The host before a request: programs, a home directory, and the configuration in it. -/
def World.atHome (home : Path) (config : Option Bytes) : World :=
  let dir := home ++ [".config".toList, "shl".toList]
  let tree := FileTree.system.putDirectory dir
  match config with
  | some text =>
    { tree := tree.put (dir ++ ["config.toml".toList]) (.file (ByteText.ofBytes text)) }
  | none => { tree }

/-- The exit code and the two outputs of the tool; a tool that never ends counts as failed. -/
def Tool.session (home : Path) (config : Option Bytes) (input : Bytes) : Nat × Bytes × Bytes :=
  let env := [("PATH", ByteText.ofString "/usr/bin:/bin"), ("HOME", home.text)]
  let work := Act.onBehalf (env.map fun (name, value) ↦ (name.toList, value)) home
    (ByteText.ofBytes input) Tool.converse
  match (work.run.run (World.atHome home config)).1 with
  | .ok (code, stdout, stderr) => (code, ByteText.toBytes stdout, ByteText.toBytes stderr)
  | .error _ => (2, [], [])

end ShellTemplate

open ShellTemplate

/-- The bytes of a file, if it can be read. -/
def contentOf (path : String) : IO (Option Bytes) := do
  try
    return some (← IO.FS.readBinFile path).toList
  catch _ =>
    return none

def main : IO UInt32 := do
  let home := (← IO.getEnv "HOME").getD "/"
  let config ← contentOf s!"{home}/.config/shl/config.toml"
  let input ← (← IO.getStdin).readBinToEnd
  let (code, stdout, stderr) := Tool.session
    ((ByteText.splitAll '/' (ByteText.ofString home)).filter (!·.isEmpty)) config input.toList
  (← IO.getStdout).write ⟨stdout.toArray⟩
  (← IO.getStderr).write ⟨stderr.toArray⟩
  return code.toUInt32
