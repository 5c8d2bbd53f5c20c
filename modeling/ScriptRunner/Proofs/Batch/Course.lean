import ScriptRunner.Proofs.Batch.Fold
import ScriptRunner.Proofs.Batch.Nesting
import ScriptRunner.Proofs.Session.Reports

/-!
# ScriptRunner.Proofs.Batch.Course

Who reports what in a run of actions.

The notices of a run are one list. A `Turn` is the run of one action as a tree: the `Part`s of what
its session does are events that the session emits itself, and commands that run actions, with the
turns of these. `Batch.course` follows a run, call by call to any depth, and gives its turns; an
action that is refused, or cannot start, has none.

What listeners get in a run is what its turns report, in order (`Batch.reports_runActions`). By the
definition of `Part.reports` and `Turn.reports`, the reports of the actions that a command runs are
between its command line and its end, and those of a session between the start of its action and
the end.
-/

namespace ScriptRunner

open Session

/-! ## Reports -/

/-- Whether there are listeners for the notice: those of a session, or those of the batch. -/
def Notice.isReport : Notice → Bool
  | .shell _ => true
  | .batch _ => true
  | _ => false

/-- What listeners get, in order. -/
def reports (notices : List Notice) : List Notice := notices.filter Notice.isReport

@[simp] theorem reports_append (a c : List Notice) : reports (a ++ c) = reports a ++ reports c :=
  List.filter_append a c

theorem reports_eq_nil_iff {notices : List Notice} :
    reports notices = [] ↔ ∀ n ∈ notices, n.isReport = false := by
  simp [reports, List.filter_eq_nil_iff]

theorem reports_shell (events : List ShellEvent) :
    reports (events.map .shell) = events.map .shell := by
  simp [reports, Notice.isReport]

theorem batchEvents_reports (notices : List Notice) :
    batchEvents (reports notices) = batchEvents notices := by
  induction notices with
  | nil => rfl
  | cons n rest ih =>
      cases n with
      | batch event => exact congrArg (event :: ·) ih
      | _ => exact ih

theorem batchEvents_shell (events : List ShellEvent) : batchEvents (events.map .shell) = [] := by
  simp [batchEvents, Notice.batch?]

theorem events_reports (notices : List Notice) :
    Notice.events (reports notices) = Notice.events notices := by
  induction notices with
  | nil => rfl
  | cons n rest ih =>
      cases n with
      | shell event => exact congrArg (event :: ·) ih
      | _ => exact ih

/-- Where no batch reports, only sessions do. -/
theorem reports_of_batchEvents {notices : List Notice} (h : batchEvents notices = []) :
    reports notices = (Notice.events notices).map .shell := by
  induction notices with
  | nil => rfl
  | cons n rest ih =>
      cases n with
      | shell event => exact congrArg (.shell event :: ·) (ih h)
      | batch event => cases h
      | _ => exact ih h

/-- A host that does not speak for a batch, and that is silent but for the programs of script
entries. -/
structure Host.Discreet {σ : Type} (host : Host σ) : Prop where
  start : ∀ request w, batchEvents (host.start request w).notices = []
  capture : ∀ request w, reports (host.capture request w).notices = []
  removeTree : ∀ path w, reports (host.removeTree path w).notices = []
  makeDirectories : ∀ path w, reports (host.makeDirectories path w).notices = []

/-! ## What happens in a run, by who reports it -/

mutual

/-- The run of an action: what its session does, and how it fails, if it does. -/
inductive Turn
  | ran (name : String) (parts : List Part) (failure : Option String)

/-- A part of what a session does. -/
inductive Part
  /-- An event of its own. -/
  | own (event : ShellEvent)
  /-- A command that runs actions, with its answer, and what it means for the script. -/
  | call (command : String) (turns : List Turn) (answer : Except Failure Exit)
    (policy : FailPolicy)

end

/-- What a session says after a command with this answer. -/
def endText (answer : Except Failure Exit) (policy : FailPolicy) : List ShellEvent :=
  failureText answer ++ [.message (endMessage (exitOf answer))] ++ carryOnText policy answer

mutual

/-- The reports of an action: between its start and its end, those of its session. -/
def Turn.reports : Turn → List Notice
  | .ran name parts failure =>
    .batch (.started name) :: (Part.reportsAll parts ++ [.batch (.ended name failure)])

/-- The reports of several actions, one after the other. -/
def Turn.reportsAll : List Turn → List Notice
  | [] => []
  | turn :: rest => turn.reports ++ Turn.reportsAll rest

/-- The reports of a part. Those of the actions that a command runs are between the command line
and the command's end. -/
def Part.reports : Part → List Notice
  | .own event => [.shell event]
  | .call command turns answer policy =>
    .shell (.message (startMessage command)) ::
      (Turn.reportsAll turns ++ (endText answer policy).map .shell)

/-- The reports of all parts of a script. -/
def Part.reportsAll : List Part → List Notice
  | [] => []
  | part :: rest => part.reports ++ Part.reportsAll rest

end

theorem Part.reportsAll_append (parts others : List Part) :
    reportsAll (parts ++ others) = reportsAll parts ++ reportsAll others := by
  induction parts with
  | nil => rfl
  | cons part rest ih => simp [reportsAll, ih]

theorem Turn.reportsAll_append (turns others : List Turn) :
    reportsAll (turns ++ others) = reportsAll turns ++ reportsAll others := by
  induction turns with
  | nil => rfl
  | cons turn rest ih => simp [reportsAll, ih]

theorem Part.reportsAll_own (events : List ShellEvent) :
    reportsAll (events.map .own) = events.map .shell := by
  induction events with
  | nil => rfl
  | cons event rest ih => simp [reportsAll, Part.reports, ih]

/-! ## Following a run -/

namespace Session

variable {σ : Type} {tools : Tools σ} (s : Session) (entry : Entry) (w : σ)

/-- What a session does in an entry, where `inner` is what happens in a call. -/
def parts (inner : BuiltinCall σ → List Turn) (tools : Tools σ) : List Part :=
  match s.call? tools entry w with
  | some c =>
    [.call (EntryText.ofLines entry.lines).command (inner c) c.done.value entry.failPolicy]
  | none => (Notice.events (s.run tools entry w).notices).map .own

/-- Finding out what an entry asks for gives warnings, and the notices of captures. -/
theorem gives_resolve {P : Notice → Prop} (hwarning : ∀ text, P (.warning text))
    (hsubstitute : ∀ request, P (.substitute request))
    (hcapture : ∀ request, Effect.Gives P (tools.launcher.capture request)) :
    Effect.Gives P (s.resolve tools.launcher entry) := by
  have hcaptures : Subshell.Alike (Effect.onlyGives P) tools.launcher tools.launcher :=
    { warnings := fun text => Effect.onlyGives_singleton (hwarning text)
      requests := fun request => Effect.onlyGives_singleton (hsubstitute request)
      captures := fun request => Effect.related_onlyGives_iff.2 (hcapture request) }
  have horacle := hcaptures.oracles (Subshell.capture_related hcaptures s.cwd s.state.env)
  exact Effect.related_onlyGives_iff.1 (resolve_related entry horacle)

/-- The notices of a command, around those that it is handed over with. -/
theorem notices_runCommand (text : EntryText) (program : String) (resolved : Resolved) :
    (s.runCommand tools entry text program resolved w).notices =
      .shell (.message (startMessage text.command)) ::
        ((s.dispatch tools program resolved text.input w).notices ++
          (endText (s.dispatch tools program resolved text.input w).value.2
            entry.failPolicy).map .shell) := by
  simp only [runCommand, Effect.bind_apply, Effect.pure_apply, notices_conclude, endText, say,
    Effect.report, Effect.notify_apply, List.append_nil, List.singleton_append]

/-- Tools whose captures are silent, and whose programs do not speak for a batch. -/
structure Discreet (tools : Tools σ) : Prop where
  start : ∀ request w, batchEvents (tools.launcher.start request w).notices = []
  capture : ∀ request w, reports (tools.launcher.capture request w).notices = []

/-- The tools of a session whose builtins report what `inner` says. -/
structure Follows (tools : Tools σ) (inner : BuiltinCall σ → List Turn) : Prop where
  discreet : Discreet tools
  calls : ∀ c : BuiltinCall σ, c.builtin ∈ tools.builtins →
    reports c.done.notices = Turn.reportsAll (inner c)

variable {inner : BuiltinCall σ → List Turn} {asked : Done σ Resolution}

theorem Discreet.reports_resolve (h : Discreet tools) :
    reports (s.resolve tools.launcher entry w).notices = [] := by
  refine reports_eq_nil_iff.2 (gives_resolve s entry (fun _ => rfl) (fun _ => rfl) ?_ w)
  exact fun request x => reports_eq_nil_iff.1 (h.capture request x)

/-- A command that is no call does not speak for a batch. -/
theorem Discreet.batchEvents_dispatch (h : Discreet tools) {program : String}
    {resolved : Resolved} {input : Option String}
    (hnone : program = changeDirectoryName ∨ tools.builtin? program = none) :
    batchEvents (s.dispatch tools program resolved input w).notices = [] := by
  rw [dispatch, runBuiltin?]
  by_cases hcd : program = changeDirectoryName
  · rw [if_pos hcd]
    rfl
  · rw [if_neg hcd, hnone.resolve_left hcd]
    simp only [Effect.bind_apply, Effect.notify_apply, Effect.pure_apply, List.append_nil,
      batchEvents_append, h.start, List.append_nil]
    rfl

/-- What is settled after an entry was found to be no call is reported by the session alone. -/
theorem Discreet.batchEvents_settle (h : Discreet tools)
    (hnone : callFor tools asked = none) :
    batchEvents (s.settle tools entry asked.value asked.world).notices = [] := by
  rw [callFor] at hnone
  cases hasked : asked.value with
  | refused reason => rfl
  | nothing => rfl
  | bindings delta => rfl
  | command program resolved =>
      simp only [hasked] at hnone
      have hprogram : program = changeDirectoryName ∨ tools.builtin? program = none := by
        split at hnone
        · next hcd => exact Or.inl hcd
        · exact Or.inr (Option.map_eq_none_iff.1 hnone)
      rw [settle, notices_runCommand]
      change batchEvents (_ ++ _) = []
      rw [batchEvents_append, h.batchEvents_dispatch s asked.world hprogram, batchEvents_shell]
      rfl

/-- A call is a command that is no `cd`, and the builtin of its name. -/
theorem command_of_callFor {c : BuiltinCall σ} (h : callFor tools asked = some c) :
    ∃ program resolved, asked.value = .command program resolved ∧
      program ≠ changeDirectoryName ∧ tools.builtin? program = some c.builtin ∧
      c = ⟨c.builtin, resolved.args, asked.world⟩ := by
  rw [callFor] at h
  cases hasked : asked.value with
  | command program resolved =>
      simp only [hasked] at h
      split at h
      · cases h
      · next hcd =>
          obtain ⟨b, hb, rfl⟩ := Option.map_eq_some_iff.1 h
          exact ⟨program, resolved, rfl, hcd, hb, rfl⟩
  | _ => simp [hasked] at h

/-- What a call reports is between the command line and the command's end. -/
theorem reports_settle {c : BuiltinCall σ} (h : callFor tools asked = some c) :
    reports (s.settle tools entry asked.value asked.world).notices =
      .shell (.message (startMessage (EntryText.ofLines entry.lines).command)) ::
        (reports c.done.notices ++ (endText c.done.value entry.failPolicy).map .shell) := by
  obtain ⟨program, resolved, hasked, hcd, hbuiltin, hc⟩ := command_of_callFor h
  have hdispatch : s.dispatch tools program resolved (EntryText.ofLines entry.lines).input
      asked.world = ⟨(s, c.done.value), c.done.world, c.done.notices⟩ := by
    rw [dispatch, runBuiltin?, if_neg hcd, hbuiltin]
    simp only [Effect.bind_apply, Effect.pure_apply, List.append_nil, BuiltinCall.done]
    rw [hc]
  rw [hasked, settle, notices_runCommand, hdispatch]
  change _ :: reports (_ ++ _) = _
  rw [reports_append, reports_shell]

/-- The reports of an entry. -/
theorem Follows.reports_run (h : Follows tools inner) :
    reports (s.run tools entry w).notices = Part.reportsAll (s.parts entry w inner tools) := by
  have hrun : (s.run tools entry w).notices =
      (s.withPwd.resolve tools.launcher entry w).notices ++
        (s.withPwd.settle tools entry (s.withPwd.resolve tools.launcher entry w).value
          (s.withPwd.resolve tools.launcher entry w).world).notices := by
    rw [run_eq, Effect.bind_apply]
  have hasked := h.discreet.reports_resolve s.withPwd entry w
  rw [parts, call?]
  cases hcall : callFor tools (s.withPwd.resolve tools.launcher entry w) with
  | none =>
      have hbatch : batchEvents (s.run tools entry w).notices = [] := by
        rw [hrun, batchEvents_append, h.discreet.batchEvents_settle s.withPwd entry hcall,
          List.append_nil, ← batchEvents_reports, hasked]
        rfl
      -- Whatever else the entry reports, it is its session that does.
      rw [reports_of_batchEvents hbatch, Part.reportsAll_own]
  | some c =>
      have hmem := (callFor_eq_some hcall).1
      rw [hrun, reports_append, hasked, List.nil_append, reports_settle s.withPwd entry hcall,
        h.calls c hmem]
      simp only [Part.reportsAll, Part.reports, List.append_nil]

/-- What a script reports is what its entries do, one after the other. -/
theorem Follows.reports_runScript (h : Follows tools inner) (script : Script) :
    reports (s.runScript tools script w).notices =
      Part.reportsAll
        (s.gather tools (fun s entry w => s.parts entry w inner tools) script w) := by
  induction script generalizing s w with
  | nil => rfl
  | cons entry rest ih =>
      rw [gather, Part.reportsAll_append, ← h.reports_run]
      cases hresult : (s.run tools entry w).value.2 with
      | error failure => simp [runScript_stop tools hresult, Part.reportsAll]
      | ok exit => simp [runScript_next tools hresult, ih]

end Session

namespace Batch

variable {σ : Type}

/-! ## Courses -/

/-- What happens in the run of a job, where `inner` is what happens in a call. -/
def jobTurn (inner : BuiltinCall (BatchWorld σ) → List Turn) (tools : Tools (BatchWorld σ))
    (job : Job) (w : BatchWorld σ) : Turn :=
  .ran job.name
    (job.session.gather tools (fun s entry w => s.parts entry w inner tools) job.script w)
    (match (job.session.runScript tools job.script w).value.2 with
    | .ok () => none
    | .error failure => some failure.message)

/-- What happens in the turn of an action. One that cannot start reports nothing. -/
def turnCourse (b : Batch σ) (inner : BuiltinCall (BatchWorld σ) → List Turn)
    (tools : Tools (BatchWorld σ)) (turn : String × BatchWorld σ) : List Turn :=
  let start := b.startJob turn.1 turn.2
  match start.value with
  | .ok job => [jobTurn inner tools job start.world]
  | .error _ => []

/-- What happens in a run of actions with these tools. -/
def courseWith (b : Batch σ) (inner : BuiltinCall (BatchWorld σ) → List Turn)
    (tools : Tools (BatchWorld σ)) (actions : List String) (w : BatchWorld σ) : List Turn :=
  (b.turns tools actions w).flatMap (b.turnCourse inner tools)

/-- What happens in a call, with others nested `depth` deep in it. -/
def callCourse (b : Batch σ) : Nat → BuiltinCall (BatchWorld σ) → List Turn
  | 0, _ => []
  | depth + 1, c =>
    match actionsOf c.world.batch c.args with
    | .ok actions => b.courseWith (b.callCourse depth) (b.toolsWithin depth) actions c.world
    | .error _ => []

/-- What happens in a run of actions, with others nested in it up to `depth` levels down. -/
def course (b : Batch σ) (depth : Nat) (actions : List String) (w : BatchWorld σ) : List Turn :=
  b.courseWith (b.callCourse depth) (b.toolsWithin depth) actions w

variable {b : Batch σ} {tools : Tools (BatchWorld σ)} {action : String} {w : BatchWorld σ}
  {inner : BuiltinCall (BatchWorld σ) → List Turn}

/-- Preparing the directory is not reported. -/
theorem reports_prepared (h : b.host.Discreet) (w : BatchWorld σ) :
    reports (b.prepared w).notices = [] := by
  have hallows : BuildDirectory.Allows (fun n => n.isReport = false) b.host :=
    ⟨fun _ => rfl, fun _ => rfl, fun path x => reports_eq_nil_iff.1 (h.removeTree path x),
      fun path x => reports_eq_nil_iff.1 (h.makeDirectories path x)⟩
  exact reports_eq_nil_iff.2 (BuildDirectory.gives_prepare hallows _ _ _)

/-- An action that starts is reported with its name, and one that does not is not. -/
theorem reports_startJob (h : b.host.Discreet) (action : String) (w : BatchWorld σ) :
    reports (b.startJob action w).notices =
      match (b.startJob action w).value with
      | .ok job => [.batch (.started job.name)]
      | .error _ => [] := by
  have hprepared := reports_prepared h w
  obtain ⟨-, hdone⟩ | ⟨-, fault, -, hdone⟩ | ⟨-, -, -, hdone⟩ := b.startJob_cases action w
  · rw [hdone]
    rfl
  · rw [hdone]
    exact hprepared
  · rw [hdone]
    dsimp only
    rw [reports_append, hprepared]
    rfl

/-- The reports of a job, from its start on. -/
theorem reports_runJobWith (h : Follows tools inner) (job : Job) (w : BatchWorld σ) :
    .batch (.started job.name) :: reports (runJobWith tools job w).notices =
      (jobTurn inner tools job w).reports := by
  rw [runJobWith_apply, jobTurn, Turn.reports]
  dsimp only
  rw [reports_append, h.reports_runScript]
  cases (job.session.runScript tools job.script w).value.2 with
  | ok _ => rfl
  | error failure => rfl

/-- A run of actions reports what happens in it. -/
theorem reports_runActionsWith (hhost : b.host.Discreet) (h : Follows tools inner)
    (actions : List String) (w : BatchWorld σ) :
    reports (b.runActionsWith tools actions w).notices =
      Turn.reportsAll (b.courseWith inner tools actions w) := by
  -- The turns stop where the run does: at an action that is refused, or that fails.
  induction actions generalizing w with
  | nil => rfl
  | cons action rest ih =>
      have hstarted := reports_startJob hhost action w
      rw [courseWith, turns, List.flatMap_cons, Turn.reportsAll_append, turnCourse]
      cases hstart : (b.startJob action w).value with
      | error failure =>
          rw [hstart] at hstarted
          rw [runActionsWith_refused hstart]
          simp [goesOn, hstart, hstarted, Turn.reportsAll]
      | ok job =>
          rw [hstart] at hstarted
          have hran := reports_runJobWith h job (b.startJob action w).world
          cases hok : (runJobWith tools job (b.startJob action w).world).value.isOk with
          | false =>
              rw [runActionsWith_failed hstart hok]
              simp [goesOn, hstart, hok, hstarted, ← hran, Turn.reportsAll]
          | true =>
              rw [runActionsWith_next hstart hok]
              have hrest := ih (runJobWith tools job (b.startJob action w).world).world
              rw [courseWith] at hrest
              simp [goesOn, afterTurn, hstart, hok, hstarted, ← hran, hrest, Turn.reportsAll]

theorem discreet_toolsWithin (h : b.host.Discreet) (depth : Nat) :
    Discreet (b.toolsWithin depth) where
  start request w := by
    rw [launcher_toolsWithin, launcher]
    split
    · rfl
    · exact h.start request w.world
  capture request w := by
    rw [launcher_toolsWithin, launcher]
    split <;> exact h.capture request w.world

/-- A call reports what the actions report that are selected where it is made. -/
theorem notices_runActionsBuiltin
    (run : List String → Effect (BatchWorld σ) (Except Failure (List Outcome)))
    (selectors : List String) (w : BatchWorld σ) :
    ((runActionsBuiltin run).invoke selectors w).notices =
      match actionsOf w.batch selectors with
      | .ok actions => (run actions w).notices
      | .error _ => [] := by
  simp only [runActionsBuiltin, parseActions, Effect.bind_apply, state_apply, Effect.pure_apply]
  cases actionsOf w.batch selectors with
  | error failure => rfl
  | ok actions =>
      simp only [Effect.bind_apply]
      cases (run actions w).value <;> simp

/-- At every depth, calls report what happens in them. -/
theorem follows_toolsWithin (h : b.host.Discreet) (depth : Nat) :
    Follows (b.toolsWithin depth) (b.callCourse depth) := by
  induction depth with
  | zero =>
      -- With no depth left a call is refused, and reports nothing itself.
      refine ⟨discreet_toolsWithin h 0, fun c hc => ?_⟩
      rw [toolsWithin] at hc
      cases hinteractive : b.config.interactive with
      | false => simp [hinteractive] at hc
      | true =>
          simp only [hinteractive, if_true, List.mem_singleton] at hc
          rw [BuiltinCall.done, hc]
          rfl
  | succ depth ih =>
      refine ⟨discreet_toolsWithin h (depth + 1), fun c hc => ?_⟩
      rw [BuiltinCall.done, eq_runActionsBuiltin hc, notices_runActionsBuiltin, callCourse]
      cases actionsOf c.world.batch c.args with
      | error failure => rfl
      | ok actions => exact reports_runActionsWith h ih actions c.world

/-- At every depth, a run of actions reports what happens in it. -/
theorem reports_runActions (h : b.host.Discreet) (depth : Nat) (actions : List String)
    (w : BatchWorld σ) :
    reports (b.runActions actions depth w).notices =
      Turn.reportsAll (b.course depth actions w) :=
  reports_runActionsWith h (follows_toolsWithin h depth) actions w

end Batch

end ScriptRunner
