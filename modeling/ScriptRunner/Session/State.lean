import ScriptRunner.Bindings
import ScriptRunner.Script

/-!
# ScriptRunner.Session.State

The part of a session that carries over from one action to the next: the environment of
its programs, its own variables, and how firmly each variable is bound.

A binding at `Precedence.pinned` holds against every later one that is not pinned itself
(`SessionState.refuses`).
-/

namespace ScriptRunner

/-- What a session remembers. -/
structure SessionState where
  /-- The environment of programs. -/
  env : Env
  /-- The variables that entries have bound. -/
  vars : Env
  /-- How firmly each of them is bound. -/
  precedence : Bindings Precedence
  deriving DecidableEq

namespace SessionState

/-- The state of a session that has bound nothing. -/
def ofEnv (env : Env) : SessionState := ⟨env, Bindings.empty, Bindings.empty⟩

instance : Inhabited SessionState := ⟨ofEnv Bindings.empty⟩

/-- Whether a binding of `name` at `level` is refused. -/
def refuses (s : SessionState) (level : Precedence) (name : String) : Bool :=
  s.precedence.lookup name == some .pinned && level != .pinned

/-- The state after one binding. -/
def assignOne (level : Precedence) (s : SessionState) (name value : String) : SessionState :=
  if s.refuses level name then s
  else
    { env := if level = .localOnly then s.env else s.env.bind name value
      vars := s.vars.bind name value
      precedence := s.precedence.bind name level }

/-- The state after the bindings of an entry. -/
def assign (s : SessionState) (delta : Env) (level : Precedence) : SessionState :=
  delta.toList.foldl (fun acc b => acc.assignOne level b.1 b.2) s

/-- The names whose bindings `assign` refuses. -/
def refused (s : SessionState) (delta : Env) (level : Precedence) : List String :=
  (delta.toList.map Prod.fst).filter (s.refuses level)

end SessionState

end ScriptRunner
