import ScriptRunner.Effect
import ScriptRunner.Quoting

/-!
# ScriptRunner.Session.DryRun

Dry runs: the command line of a program in place of what it would do. Command
substitutions still run their programs, because the command lines depend on them.
-/

namespace ScriptRunner

/-- What is reported in place of running a program: its words, quoted as far as they need
it. -/
def Invocation.line (i : Invocation) : Bytes :=
  Utf8.encode (joinWords i.argv) ++ Pipe.lineBreak

/-- The same way into the world, but no script entry starts a program. -/
def Launcher.dry {σ : Type} (l : Launcher σ) : Launcher σ where
  start request := do
    Effect.report (.data request.line)
    pure (.ok Exit.success)
  capture := l.capture

end ScriptRunner
