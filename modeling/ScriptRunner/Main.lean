import ScriptRunner.CommandLine
import ScriptRunner.Host.Machine

/-!
# ScriptRunner.Main

The program. Its scripts run on a machine in memory that has the registry and the settings
of the user in it: they print what they print there, and change nothing outside.
-/

namespace ScriptRunner

/-- The variables of the environment that a run can depend on. -/
def inheritedNames : List String :=
  ["HOME", "LANG", "LC_ALL", "LOGNAME", "PATH", "SHELL", "TMPDIR", "USER"]

/-- The environment of a run. -/
def inheritedEnv : IO Env := do
  let bound ← inheritedNames.filterMapM (fun name => do
    return (← IO.getEnv name).map (fun value => (name, value)))
  return Bindings.ofList bound

/-- The machine with a file of the outside in it, if there is one. -/
def takeFile (m : Machine) (path : Path) : IO Machine := do
  try
    let content ← IO.FS.readBinFile path
    let (tree, _) := m.tree.makeDirectories m.here ((Path.parent path).getD "/")
    return match tree.write m.here path content.toList with
      | .ok tree => { m with tree := tree }
      | .error _ => m
  catch _ => return m

/-- The machine of a run. -/
def machineOf (env : Env) (args : List String) : IO Machine := do
  let here := toString (← IO.currentDir)
  let (tree, _) := Machine.standardTree.makeDirectories [] here
  let m : Machine := ⟨tree, Path.components here⟩
  let settings := (env.lookup "HOME").toList.map (fun home => Path.join home Settings.fileInHome)
  let registry :=
    match CommandLine.Arguments.parse args with
    | .ok args => [args.file]
    | .error _ => []
  (settings ++ registry).foldlM takeFile m

/-- What a notice adds to the complaints of a run. -/
def complaintOf? : Notice → Option String
  | .warning text => some text
  | .batch (.ended _ failure) => failure
  | _ => none

end ScriptRunner

open ScriptRunner in
/-- Runs the program. -/
def main (args : List String) : IO UInt32 := do
  let env ← inheritedEnv
  let machine ← machineOf env args
  let out ← IO.getStdout
  let onTerminal ← out.isTty
  let done := CommandLine.program Batch.nestingDepth onTerminal Machine.host env args machine
  out.write ⟨done.value.output.toArray⟩
  out.flush
  for complaint in done.notices.filterMap complaintOf? ++ done.value.complaint.toList do
    IO.eprintln complaint
  return UInt32.ofNat done.value.code
