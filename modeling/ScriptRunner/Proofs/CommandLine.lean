import ScriptRunner.CommandLine
import ScriptRunner.Proofs.Host

/-!
# ScriptRunner.Proofs.CommandLine

What a run of the program comes to.

The exit code says how the selected actions went (`CommandLine.exits_runBatch`). With what a run of
actions is, as a fold, this says what the whole program does with them
(`CommandLine.actions_and_code`).
-/

namespace ScriptRunner

open Effect

namespace CommandLine

variable {σ : Type} {depth : Nat} {b : Batch σ} {args : Arguments} {w : BatchWorld σ}
  {actions : List String} {outcomes : List Outcome}

/-! ## The exit code -/

/-- The registry loads, the selectors stand for these actions, and running them comes to these
outcomes. -/
structure Ran (depth : Nat) (b : Batch σ) (args : Arguments) (w : BatchWorld σ)
    (actions : List String) (outcomes : List Outcome) : Prop where
  loads : (b.loadFrom args.file w).value = .ok ()
  selects : Batch.actionsOf (b.loadFrom args.file w).world.batch args.selectors = .ok actions
  runs : (b.runActions actions depth (b.loadFrom args.file w).world).value = .ok outcomes

/-- A code that says how the selected actions went. -/
structure Exits (depth : Nat) (b : Batch σ) (args : Arguments) (w : BatchWorld σ) (code : Nat) :
    Prop where
  /-- All of them ran and succeeded. -/
  zero : code = 0 ↔ ∃ actions, Ran depth b args w actions (actions.map .succeeded)
  /-- One of them ran and failed. -/
  one : code = 1 ↔ ∃ actions outcomes, Ran depth b args w actions outcomes ∧
    ∃ action ∈ actions, ∃ failure, Outcome.failed action failure ∈ outcomes
  two : code ≠ 0 → code ≠ 1 → code = 2

theorem Ran.value (h : Ran depth b args w actions outcomes) :
    (runBatch depth b args w).value =
      .ok (outcomes.length == actions.length && outcomes.all Outcome.isOk) := by
  simp only [runBatch, bind_apply, h.loads, Batch.parseActions, Batch.state_apply, pure_apply,
    h.selects, h.runs]

/-- A run comes to outcomes, or to no result. -/
theorem ran_or_error (depth : Nat) (b : Batch σ) (args : Arguments) (w : BatchWorld σ) :
    (∃ actions outcomes, Ran depth b args w actions outcomes) ∨
      ∃ failure, (runBatch depth b args w).value = .error failure := by
  cases hloads : (b.loadFrom args.file w).value with
  | error failure => exact Or.inr ⟨failure, by simp only [runBatch, bind_apply, hloads, pure_apply]⟩
  | ok _ =>
      cases hselects : Batch.actionsOf (b.loadFrom args.file w).world.batch args.selectors with
      | error failure =>
          exact Or.inr ⟨failure, by simp only [runBatch, bind_apply, hloads, Batch.parseActions,
            Batch.state_apply, pure_apply, hselects]⟩
      | ok actions =>
          cases hruns : (b.runActions actions depth (b.loadFrom args.file w).world).value with
          | error failure =>
              exact Or.inr ⟨failure, by simp only [runBatch, bind_apply, hloads,
                Batch.parseActions, Batch.state_apply, pure_apply, hselects, hruns]⟩
          | ok outcomes => exact Or.inl ⟨actions, outcomes, hloads, hselects, hruns⟩

theorem Ran.unique {others : List String} {results : List Outcome}
    (h : Ran depth b args w actions outcomes) (h' : Ran depth b args w others results) :
    others = actions ∧ results = outcomes := by
  obtain rfl : others = actions := Except.ok.inj (h'.selects.symm.trans h.selects)
  exact ⟨rfl, Except.ok.inj (h'.runs.symm.trans h.runs)⟩

/-- Either all of the selected actions succeeded, or one has failed. -/
theorem Ran.cases (h : Ran depth b args w actions outcomes) :
    (outcomes = actions.map .succeeded ∧ (runBatch depth b args w).value = .ok true) ∨
      ((∃ action ∈ actions, ∃ failure, Outcome.failed action failure ∈ outcomes) ∧
        (runBatch depth b args w).value = .ok false) := by
  rw [h.value]
  obtain rfl | ⟨before, action, after, failure, rfl, rfl, -⟩ := Batch.runActionsWith_outcomes h.runs
  · refine Or.inl ⟨rfl, ?_⟩
    simp [Outcome.succeeded, Outcome.isOk]
  · refine Or.inr ⟨⟨action, by simp, failure, by simp⟩, ?_⟩
    simp [Outcome.failed, Outcome.isOk]

theorem succeeded_ne_failed (names : List String) (name : String) (failure : Failure) :
    Outcome.failed name failure ∉ names.map Outcome.succeeded := by
  simp [Outcome.failed, Outcome.succeeded]

theorem exits_runBatch (depth : Nat) (b : Batch σ) (args : Arguments) (w : BatchWorld σ) :
    Exits depth b args w (exitCode (runBatch depth b args w).value) := by
  obtain ⟨actions, outcomes, hran⟩ | ⟨failure, hfailure⟩ := ran_or_error depth b args w
  · obtain ⟨rfl, hvalue⟩ | ⟨⟨action, haction, failure, hfailed⟩, hvalue⟩ := hran.cases
    · rw [hvalue]
      refine ⟨iff_of_true rfl ⟨actions, hran⟩, iff_of_false nofun ?_, fun h _ => absurd rfl h⟩
      rintro ⟨others, results, hother, action, -, failure, hfailed⟩
      obtain ⟨rfl, rfl⟩ := hran.unique hother
      exact succeeded_ne_failed _ action failure hfailed
    · rw [hvalue]
      refine ⟨iff_of_false nofun ?_,
        iff_of_true rfl ⟨actions, outcomes, hran, action, haction, failure, hfailed⟩,
        fun _ h => absurd rfl h⟩
      rintro ⟨others, hother⟩
      obtain ⟨rfl, hall⟩ := hran.unique hother
      rw [← hall] at hfailed
      exact succeeded_ne_failed _ action failure hfailed
  · have hnone : ∀ actions outcomes, ¬ Ran depth b args w actions outcomes := by
      intro actions outcomes hran
      cases hran.value.symm.trans hfailure
    rw [hfailure]
    refine ⟨iff_of_false nofun ?_, iff_of_false nofun ?_, fun _ _ => rfl⟩
    · rintro ⟨actions, hran⟩
      exact hnone _ _ hran
    · rintro ⟨actions, outcomes, hran, -⟩
      exact hnone _ _ hran

/-- The batch of a run with these arguments, and the world that it begins in: the settings have
been read, and the log is open. -/
def begin (onTerminal : Bool) (host : Host σ) (env : Env) (args : Arguments) (v : σ) :
    Batch σ × BatchWorld σ :=
  let settings := Settings.load host env v
  let opened := Settings.openLog host (settings.value.logPath? env) settings.world
  let config := configOf onTerminal settings.value env args
  (⟨config, env, host⟩, ⟨opened.world, BatchState.start config⟩)

theorem code_program {onTerminal : Bool} {host : Host σ} {env : Env} {words : List String}
    (hargs : Arguments.parse words = .ok args) (v : σ) :
    let start := begin onTerminal host env args v
    (program depth onTerminal host env words v).value.code =
      exitCode (runBatch depth start.1 args start.2).value := by
  rw [program, hargs]
  rfl

end CommandLine

/-! ## The whole program -/

namespace CommandLine

variable {σ : Type} {b : Batch σ} {w : BatchWorld σ}

/-- What becomes of the selected actions.

Where scripts have no `run-actions`, no action is running and the directory can be prepared, a run
of actions is the fold over them that stops at the first failure. Its outcomes are those of actions
that succeeded, and perhaps that of one that failed; what comes after that one might as well not
have been selected. The batch reports the start and the end of each action that ran, in order, and
nothing else.

The exit code of a batch, whatever its scripts have, is 0 if the registry loads, the selectors stand
for actions, and all of them run and succeed; 1 if one of them fails; and 2 otherwise. The program
exits with the code of its batch, be its output a terminal or not. -/
theorem actions_and_code (hplain : b.config.interactive = false) (hidle : w.batch.running = [])
    (hok : (w.batch.directory.prepare b.host b.config.clean w.world).value.2 = .ok ())
    (depth : Nat) (actions : List String) :
    (b.runActions actions depth w = b.foldBatch actions w ∧
      ∃ outcomes, (b.runActions actions depth w).value = .ok outcomes ∧
        (outcomes = actions.map .succeeded ∨
          ∃ before action after failure, actions = before ++ action :: after ∧
            outcomes = before.map .succeeded ++ [.failed action failure] ∧
            b.runActions actions depth w = b.runActions (before ++ [action]) depth w) ∧
        (b.host.Quiet →
          batchEvents (b.runActions actions depth w).notices = outcomes.flatMap Outcome.events)) ∧
    (∀ depth (b : Batch σ) args w,
      Exits depth b args w (exitCode (runBatch depth b args w).value)) ∧
    (∀ depth onTerminal (host : Host σ) env words args v, Arguments.parse words = .ok args →
      let start := begin onTerminal host env args v
      (program depth onTerminal host env words v).value.code =
        exitCode (runBatch depth start.1 args start.2).value) := by
  have hfold : b.runActions actions depth w = b.foldBatch actions w :=
    Batch.runActionsWith_eq_foldBatch hplain depth hidle hok actions
  refine ⟨⟨hfold, ?_⟩, exits_runBatch,
    fun depth onTerminal host env words args v hargs => code_program hargs v⟩
  obtain ⟨outcomes, hvalue⟩ : ∃ outcomes, (b.runActions actions depth w).value = .ok outcomes := by
    rw [hfold]
    exact ⟨_, rfl⟩
  refine ⟨outcomes, hvalue, Batch.runActionsWith_outcomes hvalue, fun hquiet => ?_⟩
  rw [hfold] at hvalue ⊢
  exact Batch.batchEvents_foldBatch hquiet hvalue

/-- A batch on a machine without files. -/
def bare : Batch Machine :=
  ⟨⟨"/build", false, false, false, default⟩, Bindings.empty, Machine.host⟩

/-- An action that binds a name, one that asks for the program that it is bound to, and one that is
left. -/
def bareActions : Registry :=
  Registry.ofPrimary (Section.ofDefinitions
    [("first", [.plain (.line "A=nosuch")]), ("second", [.plain (.line "$A")]), ("third", [])])

/-- The batch when it has its registry. -/
def bareWorld : BatchWorld Machine :=
  ⟨⟨⟨[]⟩, []⟩, { BatchState.start bare.config with registry := some bareActions }⟩

/-- The second action finds what the first one bound, and fails for it, and the third one does not
run. -/
theorem actions_and_code_sample :
    let run := bare.runActions ["first", "second", "third"] 0 bareWorld
    bare.config.interactive = false ∧ bareWorld.batch.running = [] ∧
    (bareWorld.batch.directory.prepare bare.host bare.config.clean bareWorld.world).value.2 =
      .ok () ∧
    bare.host.Quiet ∧
    (∃ failure, run.value = .ok [.succeeded "first", .failed "second" failure]) ∧
    run = bare.runActions ["first", "second"] 0 bareWorld ∧
    batchEvents run.notices = [.started "first", .ended "first" none, .started "second",
      .ended "second" (some "nosuch: command not found")] := by
  intro run
  have hseen : run.value.toOption.map (fun outcomes =>
        outcomes.map (fun o => (o.name, o.failure.map Failure.message))) =
      some [("first", none), ("second", some "nosuch: command not found")] := by decide +kernel
  have hprepared : (bareWorld.batch.directory.prepare bare.host bare.config.clean
      bareWorld.world).value.2 = .ok () := by
    have hdone : (bareWorld.batch.directory.prepare bare.host bare.config.clean
        bareWorld.world).value.2.toOption.isSome := by decide +kernel
    revert hdone
    cases (bareWorld.batch.directory.prepare bare.host bare.config.clean bareWorld.world).value.2
    · exact nofun
    · exact fun _ => rfl
  obtain ⟨⟨-, outcomes, hvalue, hshape, hevents⟩, -⟩ :=
    actions_and_code (b := bare) (w := bareWorld) rfl rfl hprepared 0 ["first", "second", "third"]
  have hquiet : bare.host.Quiet := Machine.quiet_host
  have hall := hevents hquiet
  change run.value = _ at hvalue
  rw [hvalue] at hseen
  have hnames := Option.some.inj hseen
  obtain rfl | ⟨before, action, after, failure, hactions, rfl, hsame⟩ := hshape
  · simp at hnames
  · obtain ⟨first, rfl⟩ : ∃ first, before = [first] := by
      have hlength := congrArg List.length hnames
      simp only [List.length_map, List.length_append, List.length_cons, List.length_nil] at hlength
      exact List.length_eq_one_iff.1 (by omega)
    simp only [List.cons_append, List.nil_append, List.cons.injEq] at hactions
    obtain ⟨rfl, rfl, -⟩ := hactions
    refine ⟨rfl, rfl, hprepared, hquiet, ⟨failure, hvalue⟩, hsame, ?_⟩
    simp only [Outcome.failed, Outcome.succeeded, List.map_cons, List.map_nil,
      List.cons_append, List.nil_append, List.cons.injEq, Prod.mk.injEq, true_and, and_true,
      Option.map_some, Option.some.injEq] at hnames
    rw [hall, ← hnames.2]
    rfl

end CommandLine

end ScriptRunner
