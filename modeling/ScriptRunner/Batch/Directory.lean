import ScriptRunner.Effect

/-!
# ScriptRunner.Batch.Directory

The directory that the actions of a batch share.
-/

namespace ScriptRunner

/-- The directory of a batch. -/
structure BuildDirectory where
  path : Path
  /-- Whether it has been prepared for use. -/
  started : Bool
  deriving DecidableEq, Repr

namespace BuildDirectory

variable {σ : Type}

/-- A directory that has not been prepared. -/
def ofPath (path : Path) : BuildDirectory := ⟨path, false⟩

/-- Removes the directory with everything in it. One that is missing is fine. -/
def clean (host : Host σ) (d : BuildDirectory) :
    Effect σ (BuildDirectory × Except Failure Unit) := do
  Effect.notify (.removal d.path)
  match ← host.removeTree d.path with
  | .ok () => pure (⟨d.path, false⟩, .ok ())
  | .error (.refused .noEntry) => pure (⟨d.path, false⟩, .ok ())
  | .error fault => pure (d, .error (.file fault))

/-- Makes the directory where it is missing. -/
def start (host : Host σ) (d : BuildDirectory) :
    Effect σ (BuildDirectory × Except Failure Unit) := do
  Effect.notify (.creation d.path)
  match ← host.makeDirectories d.path with
  | .ok () => pure (⟨d.path, true⟩, .ok ())
  | .error fault => pure (d, .error (.file fault))

/-- Prepares the directory, unless that is done: removes it first if it is to be clean,
and makes it. -/
def prepare (host : Host σ) (cleanFirst : Bool) (d : BuildDirectory) :
    Effect σ (BuildDirectory × Except Failure Unit) :=
  if d.started then pure (d, .ok ())
  else if cleanFirst then do
    match ← d.clean host with
    | (cleaned, .ok ()) => cleaned.start host
    | (kept, .error failure) => pure (kept, .error failure)
  else d.start host

end BuildDirectory

end ScriptRunner
