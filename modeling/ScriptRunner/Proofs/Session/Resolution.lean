import ScriptRunner.Proofs.Session.Substitution
import ScriptRunner.Session.Basic

/-!
# ScriptRunner.Proofs.Session.Resolution

Running an entry in two steps: finding out what it asks for, and doing it.

`Session.resolve` reads the entry and expands its statement; nothing in the session changes.
`Session.settle` takes the `Resolution` and changes the session, or runs a command.
`Session.run` is the one after the other (`run_eq`), so what an entry does to a session is a
case distinction over the resolutions. Only one of them runs anything.
-/

namespace ScriptRunner

/-- What an entry asks for. -/
inductive Resolution
  /-- The entry is no text of at most one statement. -/
  | refused (reason : Failure)
  /-- There is no statement. -/
  | nothing
  /-- No program is left after expansion: the names are bound in the session. -/
  | bindings (delta : Env)
  | command (program : String) (resolved : Resolved)

/-- The bindings that are made in the session. -/
def Resolution.delta : Resolution → Env
  | .bindings delta => delta
  | _ => Bindings.empty

namespace Session

variable {σ : Type}

/-- What the statement of an entry asks for. -/
def resolveStatement (launcher : Launcher σ) (s : Session) (statement : Statement) :
    Effect σ Resolution := do
  let resolved ← Expansion.expand (s.oracle launcher) s.state.vars s.state.env statement
  match resolved.program with
  | none => pure (.bindings resolved.env)
  | some program => pure (.command program resolved)

/-- What an entry asks for. -/
def resolve (launcher : Launcher σ) (s : Session) (entry : Entry) : Effect σ Resolution := do
  let text := EntryText.ofLines entry.lines
  let reading := readStatements text.command
  warnIgnored reading.ignored
  match reading.result with
  | .error (.refused reason) => pure (.refused (.unreadable reason))
  | .error .stalled => pure (.refused .stalled)
  | .ok [] => pure .nothing
  | .ok [statement] => s.resolveStatement launcher statement
  | .ok _ => pure (.refused (.severalStatements text.command))

/-- Does what an entry asks for. -/
def settle (tools : Tools σ) (s : Session) (entry : Entry) :
    Resolution → Effect σ (Session × Except Failure Exit)
  | .refused reason => pure (s, .error reason)
  | .nothing => pure (s, .ok Exit.success)
  | .bindings delta =>
    pure (s.withState (s.state.assign delta entry.precedence), .ok Exit.success)
  | .command program resolved =>
    s.runCommand tools entry (EntryText.ofLines entry.lines) program resolved

variable (tools : Tools σ) (s : Session) (entry : Entry)

theorem runStatement_eq (statement : Statement) :
    s.runStatement tools entry (EntryText.ofLines entry.lines) statement =
      s.resolveStatement tools.launcher statement >>= s.settle tools entry := by
  rw [runStatement, resolveStatement, bind_assoc]
  refine bind_congr (fun resolved => ?_)
  cases resolved.program with
  | none => exact (pure_bind (Resolution.bindings _) (s.settle tools entry)).symm
  | some program => exact (pure_bind (Resolution.command _ _) (s.settle tools entry)).symm

/-- Running an entry is finding out what it asks for, and doing it. -/
theorem run_eq :
    s.run tools entry =
      s.withPwd.resolve tools.launcher entry >>= s.withPwd.settle tools entry := by
  rw [run, resolve, bind_assoc]
  refine bind_congr (fun _ => ?_)
  -- Only a single statement is expanded; every other reading is settled at once.
  generalize (readStatements (EntryText.ofLines entry.lines).command).result = result
  match result with
  | .error (.refused _) =>
      exact (pure_bind (Resolution.refused _) (s.withPwd.settle tools entry)).symm
  | .error .stalled =>
      exact (pure_bind (Resolution.refused _) (s.withPwd.settle tools entry)).symm
  | .ok [] =>
      exact (pure_bind Resolution.nothing (s.withPwd.settle tools entry)).symm
  | .ok [statement] =>
      exact runStatement_eq tools s.withPwd entry statement
  | .ok (_ :: _ :: _) =>
      exact (pure_bind (Resolution.refused _) (s.withPwd.settle tools entry)).symm

variable {s entry} in
/-- An entry whose text is a single statement asks for what the statement asks for. -/
theorem resolve_single {text : EntryText} {statement : Statement}
    (htext : EntryText.ofLines entry.lines = text)
    (hread : readStatements text.command = ⟨.ok [statement], []⟩) (launcher : Launcher σ) :
    s.resolve launcher entry = s.resolveStatement launcher statement := by
  simp only [resolve, htext, hread]
  exact pure_bind () _

/-! ## Over two launchers -/

section Related

open Effect

variable {τ : Type} {R : Correspondence σ τ} {first : Launcher σ} {second : Launcher τ} {s}

theorem warnIgnored_related (hwarn : ∀ text, R.notices [.warning text] [.warning text])
    (ignored : List IgnoredSubstitution) :
    Related R Eq (warnIgnored ignored) (warnIgnored ignored) := by
  induction ignored with
  | nil => exact Related.pure rfl
  | cons i rest ih => exact (Related.notify (hwarn _)).bindEq (fun _ => ih)

/-- What an entry asks for depends on the world through the session's oracle alone. -/
theorem resolve_related (h : Expansion.Alike R (s.oracle first) (s.oracle second)) :
    Related R Eq (s.resolve first entry) (s.resolve second entry) := by
  refine (warnIgnored_related h.warnings _).bindEq (fun _ => ?_)
  split
  · exact Related.pure rfl
  · exact Related.pure rfl
  · exact Related.pure rfl
  · refine (Expansion.expand_related h _ _ _).bindEq (fun resolved => ?_)
    cases resolved.program with
    | none => exact Related.pure rfl
    | some program => exact Related.pure rfl
  · exact Related.pure rfl

end Related

/-! ## What changes -/

/-- `cd` moves a session and leaves its state alone. -/
theorem cd_state (args : List String) : (s.cd args).1.state = s.state := by
  rw [cd]
  split <;> rfl

variable (w : σ)

/-- Running a command leaves the state of the session alone, whatever the command does. -/
theorem dispatch_state (program : String) (resolved : Resolved) (input : Option String) :
    (s.dispatch tools program resolved input w).value.1.state = s.state := by
  rw [dispatch, runBuiltin?]
  -- A builtin and a program give back the session that they were handed.
  by_cases hcd : program = changeDirectoryName
  · rw [if_pos hcd]
    exact cd_state s resolved.args
  · rw [if_neg hcd]
    cases tools.builtin? program with
    | none => rfl
    | some builtin => rfl

theorem settle_state (resolution : Resolution) :
    (s.settle tools entry resolution w).value.1.state =
      s.state.assign resolution.delta entry.precedence := by
  cases resolution with
  | refused reason => rfl
  | nothing => rfl
  | bindings delta => rfl
  | command program resolved => exact dispatch_state tools s _ program resolved _

/-- An entry changes the state of a session by the bindings that it asks for, and in no other
way. -/
theorem run_state :
    (s.run tools entry w).value.1.state =
      s.withPwd.state.assign (s.withPwd.resolve tools.launcher entry w).value.delta
        entry.precedence := by
  rw [run_eq, Effect.bind_apply, settle_state]

/-! ## Conclusions -/

/-- What an answer means for the script. -/
theorem value_conclude (policy : FailPolicy) (answer : Except Failure Exit) :
    (conclude policy answer w).value =
      match answer with
      | .ok exit => .ok exit
      | .error failure => if policy = .carryOn then .ok failure.exit else .error failure := by
  cases answer with
  | ok exit => rfl
  | error failure => cases policy <;> rfl

theorem conclude_stop (failure : Failure) :
    (conclude .stop (.error failure) : Effect σ _) =
      sayFailure failure >>= fun _ => pure (.error failure) := rfl

theorem conclude_carryOn (failure : Failure) :
    (conclude .carryOn (.error failure) : Effect σ _) =
      sayFailure failure >>= fun _ => say carryOnMessage >>= fun _ => pure (.ok failure.exit) :=
  rfl

theorem world_sayFailure (failure : Failure) : (sayFailure failure w).world = w := by
  rw [sayFailure]
  cases ran failure with
  | false => rfl
  | true => rfl

/-- Reporting an answer leaves the world alone. -/
theorem world_conclude (policy : FailPolicy) (answer : Except Failure Exit) :
    (conclude policy answer w).world = w := by
  cases answer with
  | ok exit => rfl
  | error failure =>
      cases policy with
      | stop => exact world_sayFailure w failure
      | carryOn => exact world_sayFailure w failure

/-! ## A script -/

variable {s entry w}

/-- The first entry that fails ends the script. -/
theorem runScript_stop {failure : Failure} (h : (s.run tools entry w).value.2 = .error failure)
    (rest : Script) :
    s.runScript tools (entry :: rest) w =
      ⟨((s.run tools entry w).value.1, .error failure), (s.run tools entry w).world,
        (s.run tools entry w).notices⟩ := by
  rw [runScript, Effect.bind_apply]
  simp only [h, Effect.pure_apply, List.append_nil]

/-- After an entry that did not fail, the script goes on from where it left the session. -/
theorem runScript_next {exit : Exit} (h : (s.run tools entry w).value.2 = .ok exit)
    (rest : Script) :
    s.runScript tools (entry :: rest) w =
      let first := s.run tools entry w
      let later := first.value.1.runScript tools rest first.world
      ⟨later.value, later.world, first.notices ++ later.notices⟩ := by
  rw [runScript, Effect.bind_apply]
  simp only [h]

end Session

end ScriptRunner
