import ScriptRunner.Batch.Event
import ScriptRunner.Bindings
import ScriptRunner.Failure
import ScriptRunner.Path
import ScriptRunner.ShellEvent
import ScriptRunner.Terminal

/-!
# ScriptRunner.Effect

What running does besides giving a result: it changes the world, and it gives notice.

An `Effect σ α` takes a world of type `σ` to a result, the world afterwards, and the
notices given on the way, in order. Sessions do not know what a world is. They reach it
only through a `Launcher`, so that the same session can be run over any world, and two
runs over different worlds can be compared.
-/

namespace ScriptRunner

/-- A program to be started: its words, its whole environment, and its directory. -/
structure Invocation where
  program : String
  args : List String
  env : Env
  cwd : Path
  deriving DecidableEq

/-- The program's name followed by its arguments. -/
def Invocation.argv (i : Invocation) : List String :=
  i.program :: i.args

/-- A program to be started by a script entry: with a terminal, or with an input. -/
structure Launch extends Invocation where
  term : Terminal
  input : Option String
  deriving DecidableEq

/-- What a run lets others know, in order. -/
inductive Notice
  /-- Something that the user should know about. -/
  | warning (text : String)
  /-- A script entry asks for a program to be started. -/
  | launch (request : Launch)
  /-- A command substitution asks for a program to be started. -/
  | substitute (request : Invocation)
  /-- A batch asks for its directory to be removed. -/
  | removal (directory : Path)
  /-- A batch asks for its directory to be made. -/
  | creation (directory : Path)
  /-- A session reports. -/
  | shell (event : ShellEvent)
  /-- A batch reports. -/
  | batch (event : BatchEvent)
  deriving DecidableEq

/-- The result of an effect, the world after it, and its notices. -/
structure Done (σ α : Type) where
  value : α
  world : σ
  notices : List Notice

/-- A computation that changes a world and gives notice. -/
def Effect (σ α : Type) : Type := σ → Done σ α

namespace Effect

variable {σ α β : Type}

/-- No change and no notice. -/
protected def pure (a : α) : Effect σ α := fun w => ⟨a, w, []⟩

/-- One effect after the other. -/
protected def bind (m : Effect σ α) (f : α → Effect σ β) : Effect σ β := fun w =>
  let first := m w
  let second := f first.value first.world
  ⟨second.value, second.world, first.notices ++ second.notices⟩

instance : Monad (Effect σ) where
  pure := Effect.pure
  bind := Effect.bind

/-- Gives notice. -/
def notify (n : Notice) : Effect σ Unit := fun w => ⟨(), w, [n]⟩

/-- Gives a warning. -/
def warn (text : String) : Effect σ Unit := notify (.warning text)

/-- Reports an event of a session. -/
def report (event : ShellEvent) : Effect σ Unit := notify (.shell event)

/-- The world as it is. -/
def get : Effect σ σ := fun w => ⟨w, w, []⟩

/-- Another world in place of this one. -/
def set (w : σ) : Effect σ Unit := fun _ => ⟨(), w, []⟩

/-- Changes the world and gives a result. -/
def modifyGet (f : σ → α × σ) : Effect σ α := fun w => ⟨(f w).1, (f w).2, []⟩

/-- An effect on a part of a larger world. -/
def within {τ : Type} (view : τ → σ) (put : σ → τ → τ) (m : Effect σ α) : Effect τ α := fun w =>
  let done := m (view w)
  ⟨done.value, put done.world w, done.notices⟩

@[simp] theorem pure_apply (a : α) (w : σ) : (pure a : Effect σ α) w = ⟨a, w, []⟩ := rfl

@[simp] theorem bind_apply (m : Effect σ α) (f : α → Effect σ β) (w : σ) :
    (m >>= f) w =
      ⟨(f (m w).value (m w).world).value, (f (m w).value (m w).world).world,
        (m w).notices ++ (f (m w).value (m w).world).notices⟩ := rfl

@[simp] theorem notify_apply (n : Notice) (w : σ) :
    (notify n : Effect σ Unit) w = ⟨(), w, [n]⟩ := rfl

theorem id_map (m : Effect σ α) : id <$> m = m := by
  funext w
  simp [Functor.map, Effect.bind, Effect.pure]

instance : LawfulMonad (Effect σ) :=
  LawfulMonad.mk' (Effect σ) (fun m => id_map m) (fun _ _ => rfl)
    (fun x f g => funext fun w => by simp [List.append_assoc])

end Effect

/-- What a program printed, and whether it succeeded. -/
structure Printed where
  output : Bytes
  errors : Bytes
  exit : Exit
  deriving DecidableEq

/-- The way of a session into the world: starting a program for a script entry, and
running one to its end for the sake of what it prints. -/
structure Launcher (σ : Type) where
  start : Launch → Effect σ (Except Failure Exit)
  capture : Invocation → Effect σ (Except LaunchFault Printed)

/-- The way of a batch into the world: that of its sessions, and the files and directories
that it reads, writes, removes and makes itself. -/
structure Host (σ : Type) extends Launcher σ where
  readText : Path → Effect σ (Except FileFault String)
  /-- Writes at the end of a file, which is made if it is missing. -/
  appendText : Path → String → Effect σ (Except FileFault Unit)
  removeTree : Path → Effect σ (Except FileFault Unit)
  makeDirectories : Path → Effect σ (Except FileFault Unit)

/-- The same way, from a larger world. -/
def Launcher.within {σ τ : Type} (view : τ → σ) (put : σ → τ → τ) (l : Launcher σ) :
    Launcher τ where
  start request := Effect.within view put (l.start request)
  capture request := Effect.within view put (l.capture request)

/-- A command that is handled without starting a program. -/
structure Builtin (σ : Type) where
  name : String
  invoke : List String → Effect σ (Except Failure Exit)

end ScriptRunner
