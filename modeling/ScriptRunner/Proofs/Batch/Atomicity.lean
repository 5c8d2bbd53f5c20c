import ScriptRunner.Proofs.Batch.Fold
import ScriptRunner.Proofs.Batch.Preparation

/-!
# ScriptRunner.Proofs.Batch.Atomicity

An operation of a batch that fails has changed nothing.

`Batch.Operation.refusal?` says which operations fail in which worlds, and why. Some fail before
anything has happened, and some half-way: a file was read but holds no registry, a name was taken
but there is no directory for the action. In either case the batch is what it was, and has reported
nothing (`Batch.perform_error`).

So a registry appears only when it is loaded, and then for good. Along a trail from the start of a
batch this is reported once, where it happens (`Batch.Trail.registry`).
-/

namespace ScriptRunner

theorem Effect.Reserved.batchEvents_eq {σ α : Type} {m : Effect σ α} (h : m.Reserved) (w : σ) :
    batchEvents (m w).notices = [] := by
  rw [← batchEvents_ownNotices, h.ownNotices_eq]
  rfl

/-- The source of a registry that is reported as loaded. -/
def BatchEvent.source? : BatchEvent → Option String
  | .loaded source => some source
  | _ => none

/-- The sources of the registries that are reported as loaded. -/
def loadings (notices : List Notice) : List String :=
  (batchEvents notices).filterMap BatchEvent.source?

@[simp] theorem loadings_append (a c : List Notice) :
    loadings (a ++ c) = loadings a ++ loadings c := by
  simp [loadings]

theorem loadings_ownNotices (notices : List Notice) :
    loadings (ownNotices notices) = loadings notices := by
  rw [loadings, batchEvents_ownNotices, loadings]

theorem loadings_eq_nil {notices : List Notice} (h : batchEvents notices = []) :
    loadings notices = [] := by
  rw [loadings, h]
  rfl

/-- Why an attempt has failed, if it has. -/
def Failure.of? {α : Type} : Except Failure α → Option Failure
  | .ok _ => none
  | .error failure => some failure

namespace Batch

variable {σ : Type} {b : Batch σ}

/-! ## Failures -/

/-- Why the directory cannot be used, if it cannot: it is not prepared, and its preparation
fails. -/
def unprepared? (b : Batch σ) (w : BatchWorld σ) : Option Failure :=
  let directory := w.batch.directory
  if directory.started then none
  else Failure.of? (BuildDirectory.fromScratch b.host b.config.clean directory.path w.world).value

/-- Why an operation fails, if it does: there is a registry already, or none in the file; a selector
is bad, or there are no actions to select from; an action is running already; the directory cannot
be removed or made. Jobs can always be given up, and always end. -/
def Operation.refusal? (b : Batch σ) (w : BatchWorld σ) : Operation → Option Failure
  | .load _ => if w.batch.registry.isSome then some .alreadyLoaded else none
  | .loadFrom path =>
    if w.batch.registry.isSome then some .alreadyLoaded
    else Failure.of? (registryIn path (b.host.readText path w.world).value)
  | .parse selectors => Failure.of? (actionsOf w.batch selectors)
  | .create => b.unprepared? w
  | .start action =>
    if action ∈ w.batch.running then some (.actionRunning action) else b.unprepared? w
  | .drop _ => none
  | .finish _ _ _ => none

theorem unprepared?_eq (hhost : b.host.Reserved) (w : BatchWorld σ) :
    b.unprepared? w = Failure.of? (b.prepared w).value.2 := by
  rw [unprepared?, prepared]
  cases hstarted : w.batch.directory.started with
  | true =>
      rw [if_pos rfl, BuildDirectory.prepare_of_started b.host w.world hstarted]
      rfl
  | false =>
      have hamounts :=
        BuildDirectory.amountsTo_prepare hhost hstarted b.config.clean w.world
      rw [if_neg Bool.false_ne_true, hamounts.answer]

variable {op : Operation} {w : BatchWorld σ} {failure : Failure}

/-- The registry of a batch is not changed, and no registry is reported; or there was none, and one
is taken and reported. -/
def KeepsOrLoads (before after : BatchState) (notices : List Notice) : Prop :=
  (after.registry = before.registry ∧ loadings notices = []) ∨
    (before.registry = none ∧ after.registry.isSome = true ∧ ∃ source, loadings notices = [source])

/-- The operation fails for its reason and does nothing with the batch, or there is no reason and it
succeeds. -/
def Settles (b : Batch σ) (op : Operation) (w : BatchWorld σ) : Prop :=
  let done := b.perform op w
  (∃ failure, op.refusal? b w = some failure ∧ done.value = .error failure ∧
    done.world.batch = w.batch ∧ batchEvents done.notices = []) ∨
  (op.refusal? b w = none ∧ (∃ session, done.value = .ok session) ∧
    KeepsOrLoads w.batch done.world.batch done.notices)

theorem settles_load (b : Batch σ) (registry : Registry) (w : BatchWorld σ) :
    b.Settles (.load registry) w := by
  simp only [Settles, perform, Effect.giving, Batch.load, Operation.refusal?]
  obtain ⟨hloaded, hdone⟩ | ⟨hnone, hdone⟩ := install_cases unnamedSource registry w
  · left
    simp [hdone, hloaded, Except.map]
  · right
    rw [hdone]
    exact ⟨by simp [hnone], ⟨none, rfl⟩, Or.inr ⟨hnone, rfl, unnamedSource, rfl⟩⟩

theorem settles_loadFrom (hhost : b.host.Reserved) (path : Path) (w : BatchWorld σ) :
    b.Settles (.loadFrom path) w := by
  have hread := (hhost.readText path).batchEvents_eq w.world
  simp only [Settles, perform, Effect.giving, Operation.refusal?]
  obtain ⟨hloaded, hdone⟩ | ⟨hnone, fault, hfound, hdone⟩ | ⟨hnone, registry, hfound, hdone⟩ :=
    b.loadFrom_cases path w
  · left
    simp [hdone, hloaded, Except.map]
  · left
    simp [hdone, hnone, hfound, hread, Failure.of?, Except.map]
  · right
    rw [hdone]
    refine ⟨by simp [hnone, hfound, Failure.of?], ⟨none, rfl⟩, Or.inr ⟨hnone, rfl, path, ?_⟩⟩
    rw [loadings_append, loadings_eq_nil hread]
    rfl

theorem settles_parse (b : Batch σ) (selectors : List String) (w : BatchWorld σ) :
    b.Settles (.parse selectors) w := by
  simp only [Settles, perform, Effect.giving, parseActions_apply, Operation.refusal?]
  cases actionsOf w.batch selectors with
  | error failure =>
      left
      simp [Failure.of?, Except.map]
  | ok actions => exact Or.inr ⟨rfl, ⟨none, rfl⟩, Or.inl ⟨rfl, rfl⟩⟩

theorem settles_create (hhost : b.host.Reserved) (w : BatchWorld σ) : b.Settles .create w := by
  have hprepared := batchEvents_prepared hhost.quiet w
  simp only [Settles, perform, Effect.giving, Operation.refusal?, unprepared?_eq hhost]
  cases hanswer : (b.prepared w).value.2 with
  | error failure =>
      left
      simp [createSession_error hanswer, hprepared, Failure.of?, Except.map]
  | ok _ =>
      right
      rw [createSession_ok hanswer]
      exact ⟨rfl, ⟨_, rfl⟩, Or.inl ⟨rfl, loadings_eq_nil hprepared⟩⟩

theorem settles_start (hhost : b.host.Reserved) (action : String) (w : BatchWorld σ) :
    b.Settles (.start action) w := by
  have hprepared := batchEvents_prepared hhost.quiet w
  simp only [Settles, perform, Effect.giving, Operation.refusal?, unprepared?_eq hhost]
  obtain ⟨hrunning, hdone⟩ | ⟨hfree, fault, hanswer, hdone⟩ | ⟨hfree, hanswer, -, hdone⟩ :=
    b.startJob_cases action w
  · left
    simp [hdone, hrunning, Except.map]
  · left
    simp [hdone, hfree, hanswer, hprepared, Failure.of?, Except.map]
  · right
    rw [hdone]
    refine ⟨by simp [hfree, hanswer, Failure.of?], ⟨_, rfl⟩, Or.inl ⟨rfl, ?_⟩⟩
    rw [loadings_append, loadings_eq_nil hprepared]
    rfl

/-- All that an operation can do. -/
theorem settles (hhost : b.host.Reserved) (op : Operation) (w : BatchWorld σ) : b.Settles op w := by
  cases op with
  | load registry => exact b.settles_load registry w
  | loadFrom path => exact settles_loadFrom hhost path w
  | parse selectors => exact b.settles_parse selectors w
  | create => exact settles_create hhost w
  | start action => exact settles_start hhost action w
  | drop job => exact Or.inr ⟨rfl, ⟨none, rfl⟩, Or.inl ⟨rfl, rfl⟩⟩
  | finish job final result =>
      cases result <;> exact Or.inr ⟨rfl, ⟨none, rfl⟩, Or.inl ⟨rfl, rfl⟩⟩

/-- Operations fail for these reasons, and for no others. -/
theorem perform_error_iff (hhost : b.host.Reserved) :
    (b.perform op w).value = .error failure ↔ op.refusal? b w = some failure := by
  obtain ⟨other, hrefusal, hvalue, -⟩ | ⟨hnone, ⟨session, hvalue⟩, -⟩ := settles hhost op w
  · rw [hrefusal, hvalue, Except.error.injEq, Option.some.injEq]
  · simp [hnone, hvalue]

/-- An operation that fails leaves the batch as it was, and reports nothing. -/
theorem perform_error (hhost : b.host.Reserved) (h : (b.perform op w).value = .error failure) :
    (b.perform op w).world.batch = w.batch ∧ batchEvents (b.perform op w).notices = [] := by
  obtain ⟨_, -, -, hbatch, hevents⟩ | ⟨-, ⟨session, hvalue⟩, -⟩ := settles hhost op w
  · exact ⟨hbatch, hevents⟩
  · simp [hvalue] at h

/-! ## The registry -/

variable {step : Step σ} {steps : List (Step σ)} {s t : BatchState}

theorem Step.keepsOrLoads (hhost : b.host.Reserved) (step : Step σ) :
    KeepsOrLoads step.world.batch (step.done b).world.batch (step.done b).notices := by
  obtain ⟨_, -, -, hbatch, hevents⟩ | ⟨-, -, hkeeps⟩ :=
    settles hhost step.operation step.world
  · exact Or.inl ⟨congrArg BatchState.registry hbatch, loadings_eq_nil hevents⟩
  · exact hkeeps

/-- Whether there is a registry, as a number. -/
def registryCount (s : BatchState) : Nat := if s.registry.isSome then 1 else 0

/-- Along a trail a registry is kept, and there is one more report of a registry than there was one
before, if there is one in the end. -/
theorem Trail.registry (hhost : b.host.Reserved) (h : Trail b s steps t) :
    (s.registry.isSome = true → t.registry = s.registry) ∧
      registryCount s + (loadings (b.told steps)).length = registryCount t := by
  induction h with
  | nil => simp [loadings]
  | @cons s last step rest hfinds _ ih =>
      obtain ⟨hkeeps, hcount⟩ := ih
      have hstep := step.keepsOrLoads hhost
      rw [hfinds] at hstep
      rw [told_cons, loadings_append, loadings_ownNotices, List.length_append]
      obtain ⟨hsame, hnone⟩ | ⟨hbefore, hafter, source, hsource⟩ := hstep
      · rw [hsame] at hkeeps
        rw [registryCount, hsame] at hcount
        rw [hnone]
        exact ⟨hkeeps, by rw [← hcount, registryCount]; simp⟩
      · rw [registryCount, if_pos hafter] at hcount
        rw [hsource, registryCount, hbefore]
        exact ⟨nofun, by simpa using hcount⟩

/-- Failed operations leave the batch as it was.

An operation fails for the reasons that there are for it, and for no others. Then the registry, the
state that the last action left, the running names and the directory are what they were, and nothing
has been reported. So, whatever is done with a batch, a registry is reported as loaded once, if
there is one in the end, and by the step that takes it; from there on it stays the same. Runs go on
in the same way, with all that is nested in them to any depth. -/
theorem failure_changes_nothing (hhost : b.host.Reserved)
    (h : Trail b (BatchState.start b.config) steps s) :
    (∀ (op : Operation) (w : BatchWorld σ) (failure : Failure),
      ((b.perform op w).value = .error failure ↔ op.refusal? b w = some failure) ∧
      ((b.perform op w).value = .error failure →
        (b.perform op w).world.batch = w.batch ∧ batchEvents (b.perform op w).notices = [])) ∧
    (loadings (b.told steps)).length = (if s.registry.isSome then 1 else 0) ∧
    (∀ past step rest, steps = past ++ step :: rest →
      (loadings (step.done b).notices ≠ [] ↔
        step.world.batch.registry = none ∧ (step.done b).world.batch.registry.isSome = true) ∧
      ∀ registry, (step.done b).world.batch.registry = some registry →
        s.registry = some registry) ∧
    (∀ (job : Job) (depth : Nat) (w : BatchWorld σ), w.batch = s →
      b.Continues steps w (b.runJob job depth w)) ∧
    ∀ (actions : List String) (depth : Nat) (w : BatchWorld σ), w.batch = s →
      b.Continues steps w (b.runActions actions depth w) := by
  refine ⟨fun op w failure => ⟨perform_error_iff hhost, perform_error hhost⟩, ?_, ?_, ?_, ?_⟩
  · have hcount := (h.registry hhost).2
    rw [← registryCount, ← hcount, registryCount, BatchState.start]
    simp
  · rintro past step rest rfl
    have hlater := (h.split.2.registry hhost).1
    refine ⟨?_, fun registry hregistry => ?_⟩
    · obtain ⟨hsame, hnone⟩ | ⟨hbefore, hafter, source, hsource⟩ := step.keepsOrLoads hhost
      · rw [hsame, hnone]
        simp +contextual
      · exact iff_of_true (by simp [hsource]) ⟨hbefore, hafter⟩
    · rw [hlater (by rw [hregistry]; rfl), hregistry]
  · rintro job depth w rfl
    exact h.continues (Tracks.runJob hhost job depth)
  · rintro actions depth w rfl
    exact h.continues (Tracks.runActions hhost actions depth)

theorem reserved_blank : blank.Reserved := by
  constructor <;> intro _ _ _ hn <;> cases hn

/-- A file cannot be read, then a registry is loaded, and another one is refused; no action has the
name that is selected; and an action starts, and cannot start again. -/
def loadedSteps : List (Step Unit) :=
  let fresh := BatchState.start composite.config
  let loaded := { fresh with registry := some compositeActions }
  let started := acquire "inner" { loaded with directory := ⟨"/build", true⟩ }
  [⟨.loadFrom "scripts.yaml", ⟨(), fresh⟩⟩, ⟨.load compositeActions, ⟨(), fresh⟩⟩,
    ⟨.load Registry.empty, ⟨(), loaded⟩⟩, ⟨.parse ["nosuch"], ⟨(), loaded⟩⟩,
    ⟨.start "inner", ⟨(), loaded⟩⟩, ⟨.start "inner", ⟨(), started⟩⟩]

theorem failure_changes_nothing_sample :
    let started := acquire "inner"
      { BatchState.start composite.config with
        registry := some compositeActions, directory := ⟨"/build", true⟩ }
    blank.Reserved ∧ Trail composite (BatchState.start composite.config) loadedSteps started ∧
    (composite.perform (.start "inner") ⟨(), started⟩).value = .error (.actionRunning "inner") ∧
    (composite.perform (.start "inner") ⟨(), started⟩).world.batch = started ∧
    loadings (composite.told loadedSteps) = ["<registry>"] := by
  intro started
  have htrail : Trail composite (BatchState.start composite.config) loadedSteps started :=
    .cons rfl (.cons rfl (.cons rfl (.cons rfl (.cons rfl (.cons rfl (.nil _))))))
  obtain ⟨hfails, -⟩ := failure_changes_nothing reserved_blank htrail
  have hrefused : (composite.perform (.start "inner") ⟨(), started⟩).value =
      .error (.actionRunning "inner") :=
    (hfails _ _ _).1.2 (by simp [Operation.refusal?, started, acquire])
  have hsource : loadings (composite.told loadedSteps) = ["<registry>"] := by
    decide +kernel
  exact ⟨reserved_blank, htrail, hrefused, ((hfails _ _ _).2 hrefused).1, hsource⟩

end Batch

end ScriptRunner
