import ScriptRunner.Batch.Directory
import ScriptRunner.Batch.Selection
import ScriptRunner.Registry.Load
import ScriptRunner.Session.Basic
import ScriptRunner.Session.DryRun

/-!
# ScriptRunner.Batch.Basic

Batches: running actions of a registry one after another in a shared directory.

* Every action gets a session of its own in the directory of the batch. The session of an
  action that succeeds leaves its state to the next one; a failed action leaves nothing.
* An action that is running cannot be started again before it has ended.
* In an interactive batch the builtin `run-actions` runs other actions from inside a script.
  Its actions are actions of the same batch: they find the state that the last successful
  action left, and leave theirs.

An action runs in two steps, because other things may happen between them: `startJob` gives
a job its session, and `runJob` runs it to its end. `runActions` is the whole for a list of
actions, up to the first that fails.

Actions that run actions are nested, and nothing in a batch ends a nesting. `toolsWithin` says
what an action finds when a run is followed `depth` levels down: a call of `run-actions` below
them is refused in place of being followed. A run in which there is no such call is the same
at every greater depth, so the depth is not a part of what a batch does.
-/

namespace ScriptRunner

/-- How a batch runs. -/
structure BatchConfig where
  directory : Path
  /-- Whether the directory is to be emptied before its first use. -/
  clean : Bool
  /-- Whether commands are shown in place of running them. -/
  dryRun : Bool
  /-- Whether scripts have `run-actions`. -/
  interactive : Bool
  term : Terminal
  deriving DecidableEq, Repr

/-- What a batch remembers. -/
structure BatchState where
  registry : Option Registry
  directory : BuildDirectory
  /-- The state that the last successful action left. -/
  lastState : Option SessionState
  /-- The names of the actions that have started and not ended. -/
  running : List String

/-- The state of a batch at its start. -/
def BatchState.start (config : BatchConfig) : BatchState :=
  ⟨none, BuildDirectory.ofPath config.directory, none, []⟩

/-- A world with the state of a batch in it. -/
structure BatchWorld (σ : Type) where
  world : σ
  batch : BatchState

/-- A batch: its configuration, its environment, and its way into the world. -/
structure Batch (σ : Type) where
  config : BatchConfig
  env : Env
  host : Host σ

/-- An action that has been given its session. -/
structure Job where
  name : String
  script : Script
  session : Session
  deriving DecidableEq

/-- How an action ended. -/
structure Outcome where
  name : String
  failure : Option Failure

/-- Whether the action succeeded. -/
def Outcome.isOk (o : Outcome) : Bool := o.failure.isNone

namespace Batch

variable {σ : Type}

/-! ## The world of a batch -/

/-- Something done to the world around the batch. -/
def outside {α : Type} (m : Effect σ α) : Effect (BatchWorld σ) α :=
  Effect.within BatchWorld.world (fun w bw => { bw with world := w }) m

/-- The state of the batch. -/
def state : Effect (BatchWorld σ) BatchState := do return (← Effect.get).batch

/-- Changes the state of the batch. -/
def update (f : BatchState → BatchState) : Effect (BatchWorld σ) Unit :=
  Effect.modifyGet (fun bw => ((), { bw with batch := f bw.batch }))

/-- Reports an event of the batch. -/
def announce (event : BatchEvent) : Effect (BatchWorld σ) Unit := Effect.notify (.batch event)

/-- How sessions of the batch start programs. -/
def launcher (b : Batch σ) : Launcher (BatchWorld σ) :=
  (if b.config.dryRun then b.host.toLauncher.dry else b.host.toLauncher).within
    BatchWorld.world (fun w bw => { bw with world := w })

/-- The session that those of all actions are copies of. -/
def template (b : Batch σ) : Session :=
  ⟨b.config.directory, SessionState.ofEnv b.env, b.config.term⟩

/-- Something done with the batch from its start, and what was noticed of it. -/
def fromStart {α : Type} (b : Batch σ) (m : Effect (BatchWorld σ) α) :
    Effect σ (Done (BatchWorld σ) α) := fun w =>
  let done := m ⟨w, BatchState.start b.config⟩
  ⟨done, done.world.world, done.notices⟩

/-! ## The registry -/

/-- What a registry that has no file is reported as. -/
def unnamedSource : String := "<registry>"

/-- Takes a registry, unless there is one already. -/
def install (source : String) (registry : Registry) :
    Effect (BatchWorld σ) (Except Failure Unit) := do
  match (← state).registry with
  | some _ => pure (.error .alreadyLoaded)
  | none =>
    update (fun s => { s with registry := some registry })
    announce (.loaded source)
    pure (.ok ())

/-- Takes a registry. -/
def load (registry : Registry) : Effect (BatchWorld σ) (Except Failure Unit) :=
  install unnamedSource registry

/-- Takes the registry of a file. -/
def loadFrom (b : Batch σ) (path : Path) : Effect (BatchWorld σ) (Except Failure Unit) := do
  match (← state).registry with
  | some _ => pure (.error .alreadyLoaded)
  | none =>
    match ← outside (b.host.readText path) with
    | .error fault => pure (.error (.file fault))
    | .ok text =>
      match Registry.parse (DocumentFormat.ofPath path) text with
      | .error failure => pure (.error failure)
      | .ok registry => install path registry

/-- The actions that selectors stand for in a state. -/
def actionsOf (s : BatchState) (selectors : List String) : Except Failure (List String) :=
  match s.registry with
  | some registry => select registry.names selectors
  | none => if selectors.isEmpty then .error .nothingLoaded else select [] selectors

/-- The actions that selectors stand for. -/
def parseActions (selectors : List String) :
    Effect (BatchWorld σ) (Except Failure (List String)) := do
  return actionsOf (← state) selectors

/-! ## Jobs -/

/-- A session for the next action. The first call prepares the directory. -/
def createSession (b : Batch σ) : Effect (BatchWorld σ) (Except Failure Session) := do
  let prepared ← outside ((← state).directory.prepare b.host b.config.clean)
  match prepared.2 with
  | .error failure => pure (.error failure)
  | .ok () =>
    update (fun s => { s with directory := prepared.1 })
    return .ok (b.template.fork (← state).lastState)

/-- The state after an action has ended, or has been given up. -/
def release (name : String) (s : BatchState) : BatchState :=
  { s with running := s.running.filter (· != name) }

/-- Gives an action its session. -/
def startJob (b : Batch σ) (action : String) : Effect (BatchWorld σ) (Except Failure Job) := do
  let s ← state
  if s.running.contains action then pure (.error (.actionRunning action))
  else
    update (fun s => { s with running := action :: s.running })
    match ← b.createSession with
    | .error failure =>
      update (release action)
      pure (.error failure)
    | .ok session =>
      announce (.started action)
      pure (.ok ⟨action, (s.registry.getD Registry.empty).script action, session⟩)

/-- Gives up an action that has not run. -/
def dropJob (job : Job) : Effect (BatchWorld σ) Unit := update (release job.name)

/-- What is said about an action that failed. -/
def failureWarning (name : String) (failure : Failure) : String :=
  "'" ++ name ++ "' failed: " ++ failure.message

/-- Ends an action: a successful one leaves the state of its session. -/
def finish (name : String) (final : Session) (result : Except Failure Unit) :
    Effect (BatchWorld σ) Outcome := do
  let failure :=
    match result with
    | .ok () => none
    | .error failure => some failure
  match failure with
  | none => update (fun s => { s with lastState := some final.state })
  | some failure => Effect.warn (failureWarning name failure)
  announce (.ended name (failure.map Failure.message))
  update (release name)
  pure ⟨name, failure⟩

/-- Runs a job with these tools. -/
def runJobWith (tools : Tools (BatchWorld σ)) (job : Job) : Effect (BatchWorld σ) Outcome := do
  let ended ← job.session.runScript tools job.script
  finish job.name ended.1 ended.2

/-- Runs actions with these tools, up to the first that fails. -/
def runActionsWith (b : Batch σ) (tools : Tools (BatchWorld σ)) :
    List String → Effect (BatchWorld σ) (Except Failure (List Outcome))
  | [] => pure (.ok [])
  | action :: rest => do
    match ← b.startJob action with
    | .error failure => pure (.error failure)
    | .ok job =>
      let outcome ← runJobWith tools job
      if outcome.isOk then
        match ← b.runActionsWith tools rest with
        | .ok outcomes => pure (.ok (outcome :: outcomes))
        | .error failure => pure (.error failure)
      else pure (.ok [outcome])

/-! ## Actions that run actions -/

/-- The exit of `run-actions` after these outcomes. -/
def nestedResult (outcomes : List Outcome) : Except Failure Exit :=
  match outcomes.find? (fun o => !o.isOk) with
  | some failed => .error (.builtin (.actionFailed failed.name))
  | none => .ok Exit.success

/-- The builtin `run-actions`, where `run` runs actions. -/
def runActionsBuiltin
    (run : List String → Effect (BatchWorld σ) (Except Failure (List Outcome))) :
    Builtin (BatchWorld σ) where
  name := runActionsName
  invoke selectors := do
    match ← parseActions selectors with
    | .error failure => pure (.error failure)
    | .ok actions =>
      match ← run actions with
      | .error failure => pure (.error failure)
      | .ok outcomes => pure (nestedResult outcomes)

/-- What actions find in a run that is followed `depth` levels down from them. -/
def toolsWithin (b : Batch σ) : Nat → Tools (BatchWorld σ)
  | 0 =>
    ⟨b.launcher,
      if b.config.interactive then
        [⟨runActionsName, fun _ => pure (.error (.builtin .nestedTooDeep))⟩]
      else []⟩
  | depth + 1 =>
    ⟨b.launcher,
      if b.config.interactive then
        [runActionsBuiltin (b.runActionsWith (b.toolsWithin depth))]
      else []⟩

/-- How many levels down a run is followed where nothing else is said. -/
def nestingDepth : Nat := 10000

/-- Runs a job, and what is nested in it up to `depth` levels down. -/
def runJob (b : Batch σ) (job : Job) (depth : Nat := nestingDepth) :
    Effect (BatchWorld σ) Outcome :=
  runJobWith (b.toolsWithin depth) job

/-- Runs actions, up to the first that fails, and what is nested in them up to `depth` levels
down. -/
def runActions (b : Batch σ) (actions : List String) (depth : Nat := nestingDepth) :
    Effect (BatchWorld σ) (Except Failure (List Outcome)) :=
  b.runActionsWith (b.toolsWithin depth) actions

end Batch

end ScriptRunner
