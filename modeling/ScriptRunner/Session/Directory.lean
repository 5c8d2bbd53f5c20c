import ScriptRunner.Bindings
import ScriptRunner.Failure
import ScriptRunner.Path

/-!
# ScriptRunner.Session.Directory

The command `cd`, which moves a session to another directory. The target is resolved by
its text alone; whether the directory exists shows when a program is started there.
-/

namespace ScriptRunner

/-- The name of the command that changes the directory. -/
def changeDirectoryName : String := "cd"

/-- The directory that `cd` with these arguments leads to from `cwd`. A leading `~` is the
home directory of the environment. -/
def changeDirectory (cwd : Path) (args : List String) (env : Env) : Except BuiltinFault Path :=
  match args with
  | [target] =>
    .ok (Path.normalize (Path.join cwd (Path.expandTilde (env.lookup "HOME") target)))
  | _ => .error (.directoryCount args.length)

end ScriptRunner
