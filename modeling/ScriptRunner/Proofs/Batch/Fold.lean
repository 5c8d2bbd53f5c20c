import ScriptRunner.Proofs.Batch.Operations
import ScriptRunner.Proofs.Session.Simulation

/-!
# ScriptRunner.Proofs.Batch.Fold

A run of actions as a fold.

`Batch.foldActions` runs one script after the other over the world itself. It carries a state from
each to the next, and stops at the first failure. Where scripts have no `run-actions`, a batch does
just this: its directory is prepared before the first action, and then neither the directory nor
the names of running actions make a difference (`runActions_eq_fold`).

What the outcomes of a run are does not depend on what scripts have (`runActionsWith_outcomes`).
-/

namespace ScriptRunner

open Effect

/-- The outcome of an action that succeeded. -/
def Outcome.succeeded (name : String) : Outcome := ⟨name, none⟩

/-- The outcome of an action that failed. -/
def Outcome.failed (name : String) (failure : Failure) : Outcome := ⟨name, some failure⟩

theorem Outcome.eq_succeeded {o : Outcome} (h : o.isOk = true) : o = .succeeded o.name := by
  obtain ⟨name, _ | failure⟩ := o
  · rfl
  · cases h

theorem Outcome.eq_failed {o : Outcome} (h : o.isOk = false) :
    ∃ failure, o = .failed o.name failure := by
  obtain ⟨name, _ | failure⟩ := o
  · cases h
  · exact ⟨failure, rfl⟩

/-- The events of a batch about an action with this outcome. -/
def Outcome.events (o : Outcome) : List BatchEvent :=
  [.started o.name, .ended o.name (o.failure.map Failure.message)]

/-- The event of a batch in a notice, if it is one. -/
def Notice.batch? : Notice → Option BatchEvent
  | .batch event => some event
  | _ => none

/-- The events of batches among notices. -/
def batchEvents (notices : List Notice) : List BatchEvent := notices.filterMap Notice.batch?

@[simp] theorem batchEvents_nil : batchEvents [] = [] := rfl

@[simp] theorem batchEvents_batch (event : BatchEvent) (rest : List Notice) :
    batchEvents (.batch event :: rest) = event :: batchEvents rest := rfl

@[simp] theorem batchEvents_warning (text : String) (rest : List Notice) :
    batchEvents (.warning text :: rest) = batchEvents rest := rfl

@[simp] theorem batchEvents_append (a c : List Notice) :
    batchEvents (a ++ c) = batchEvents a ++ batchEvents c :=
  List.filterMap_append

theorem batchEvents_eq_nil {notices : List Notice} (h : ∀ n ∈ notices, n.batch? = none) :
    batchEvents notices = [] :=
  List.filterMap_eq_nil_iff.2 h

/-- A host that does not speak for a batch. -/
structure Host.Quiet {σ : Type} (host : Host σ) : Prop where
  start : ∀ request, Gives (fun n => n.batch? = none) (host.start request)
  capture : ∀ request, Gives (fun n => n.batch? = none) (host.capture request)
  removeTree : ∀ path, Gives (fun n => n.batch? = none) (host.removeTree path)
  makeDirectories : ∀ path, Gives (fun n => n.batch? = none) (host.makeDirectories path)

namespace Batch

variable {σ : Type}

/-! ## The fold -/

/-- The tools of scripts that have no `run-actions`. -/
def plainTools (b : Batch σ) : Tools σ :=
  ⟨if b.config.dryRun then b.host.toLauncher.dry else b.host.toLauncher, []⟩

/-- A new session in the directory of the batch, and with its terminal. It has the state that is
carried, or else the environment of the batch and no bindings. -/
def nextSession (b : Batch σ) (carried : Option SessionState) : Session where
  cwd := b.config.directory
  state := carried.getD { env := b.env, vars := Bindings.empty, precedence := Bindings.empty }
  term := b.config.term

/-- Runs actions one after the other, up to the first that fails. Each one runs in a new session,
in the state that is carried; one that succeeds leaves its own. -/
def foldActions (b : Batch σ) (script : String → Script) :
    Option SessionState → List String → Effect σ (Option SessionState × List Outcome)
  | carried, [] => pure (carried, [])
  | carried, action :: rest => do
    notify (.batch (.started action))
    let ended ← (b.nextSession carried).runScript b.plainTools (script action)
    match ended.2 with
    | .ok () =>
      notify (.batch (.ended action none))
      let later ← b.foldActions script (some ended.1.state) rest
      pure (later.1, .succeeded action :: later.2)
    | .error failure =>
      warn (failureWarning action failure)
      notify (.batch (.ended action (some failure.message)))
      pure (carried, [.failed action failure])

/-- A run of actions by the fold: the directory is prepared before the first action, and the state
that is carried in the end is what the batch remembers. -/
def foldBatch (b : Batch σ) (actions : List String) (w : BatchWorld σ) :
    Done (BatchWorld σ) (Except Failure (List Outcome)) :=
  let ready :=
    if actions.isEmpty then ⟨(w.batch.directory, .ok ()), w.world, []⟩
    else w.batch.directory.prepare b.host b.config.clean w.world
  let done := b.foldActions (w.batch.registry.getD Registry.empty).script w.batch.lastState actions
    ready.world
  ⟨.ok done.value.2,
    ⟨done.world, { w.batch with directory := ready.value.1, lastState := done.value.1 }⟩,
    ready.notices ++ done.notices⟩

variable {b : Batch σ} {script : String → Script} {carried : Option SessionState} {action : String}
  {rest : List String} {v : σ}

theorem foldActions_failed {ran : Done σ (Session × Except Failure Unit)}
    (hran : (b.nextSession carried).runScript b.plainTools (script action) v = ran)
    {failure : Failure} (hfailure : ran.value.2 = .error failure) :
    b.foldActions script carried (action :: rest) v =
      ⟨(carried, [.failed action failure]), ran.world,
        .batch (.started action) :: (ran.notices ++ [.warning (failureWarning action failure),
          .batch (.ended action (some failure.message))])⟩ := by
  simp only [foldActions, bind_apply, notify_apply, warn, hran, hfailure, pure_apply,
    List.append_nil, List.singleton_append]

theorem foldActions_next {ran : Done σ (Session × Except Failure Unit)}
    (hran : (b.nextSession carried).runScript b.plainTools (script action) v = ran)
    (hok : ran.value.2 = .ok ()) :
    b.foldActions script carried (action :: rest) v =
      let later := b.foldActions script (some ran.value.1.state) rest ran.world
      ⟨(later.value.1, .succeeded action :: later.value.2), later.world,
        .batch (.started action) ::
          (ran.notices ++ .batch (.ended action none) :: later.notices)⟩ := by
  simp only [foldActions, bind_apply, notify_apply, hran, hok, pure_apply, List.append_nil,
    List.singleton_append]

/-! ## Scripts without a batch -/

/-- A world in a batch with this state, and the world by itself. -/
def around (s : BatchState) : Correspondence (BatchWorld σ) σ where
  worlds w v := w = ⟨v, s⟩
  notices := Eq
  nil := nil_notices
  append := @append_notices

theorem within_related {α : Type} (s : BatchState) (m : Effect σ α) :
    Related (around s) Eq (within BatchWorld.world (fun w bw => { bw with world := w }) m) m := by
  rintro _ v rfl
  exact ⟨rfl, rfl, rfl⟩

/-- Where scripts have no `run-actions`, the batch is out of their reach. -/
theorem simulation_plainTools (hplain : b.config.interactive = false) (depth : Nat)
    (s : BatchState) : Simulation (around s) Eq (b.toolsWithin depth) b.plainTools := by
  have hbuiltins : (b.toolsWithin depth).builtins = [] := by
    cases depth <;> simp [toolsWithin, hplain]
  have hlauncher : (b.toolsWithin depth).launcher = b.launcher := b.launcher_toolsWithin depth
  refine
    { refl := fun _ => rfl
      warnings := fun _ => rfl
      messages := fun _ => rfl
      launches := fun _ => rfl
      captures := fun cwd env => Subshell.capture_related ⟨fun _ => rfl, fun _ => rfl, ?_⟩ cwd env
      programs := ?_
      builtins := ?_
      conclusions := ?_ }
  · intro request
    rw [hlauncher]
    exact within_related s _
  · intro request
    rw [hlauncher]
    exact within_related s _
  · intro name
    rw [Tools.builtin?, Tools.builtin?, hbuiltins]
    exact .none
  · rintro policy answer _ rfl
    exact conclude_related (fun _ => rfl) policy answer

theorem runScript_plain (hplain : b.config.interactive = false) (depth : Nat) (session : Session)
    (script : Script) (v : σ) (s : BatchState) :
    session.runScript (b.toolsWithin depth) script ⟨v, s⟩ =
      let ran := session.runScript b.plainTools script v
      ⟨ran.value, ⟨ran.world, s⟩, ran.notices⟩ := by
  obtain ⟨hvalue, hworld, hnotices⟩ :=
    (simulation_plainTools hplain depth s).runScript_related script session ⟨v, s⟩ v rfl
  generalize session.runScript (b.toolsWithin depth) script ⟨v, s⟩ = done at hvalue hworld hnotices
  obtain ⟨value, world, notices⟩ := done
  obtain rfl := hvalue
  obtain rfl := hworld
  obtain rfl := hnotices
  rfl

/-! ## A batch that is prepared -/

section Prepared

variable {s : BatchState} {ran : Done σ (Session × Except Failure Unit)}

theorem runScript_jobOf (hplain : b.config.interactive = false) (depth : Nat)
    (hran : (b.nextSession s.lastState).runScript b.plainTools
      ((s.registry.getD Registry.empty).script action) v = ran) :
    (b.jobOf s action).session.runScript (b.toolsWithin depth) (b.jobOf s action).script
        ⟨v, acquire action s⟩ =
      ⟨ran.value, ⟨ran.world, acquire action s⟩, ran.notices⟩ := by
  rw [runScript_plain hplain, ← hran]
  rfl

/-- A job that fails leaves the state of the batch as it was before it started. -/
theorem runJobWith_failed (hplain : b.config.interactive = false) (depth : Nat)
    (hfree : action ∉ s.running)
    (hran : (b.nextSession s.lastState).runScript b.plainTools
      ((s.registry.getD Registry.empty).script action) v = ran)
    {failure : Failure} (hfailure : ran.value.2 = .error failure) :
    runJobWith (b.toolsWithin depth) (b.jobOf s action) ⟨v, acquire action s⟩ =
      ⟨.failed action failure, ⟨ran.world, s⟩,
        ran.notices ++ [.warning (failureWarning action failure),
          .batch (.ended action (some failure.message))]⟩ := by
  rw [runJobWith_apply, runScript_jobOf hplain depth hran]
  dsimp only
  rw [hfailure, finish_error]
  dsimp only [jobOf]
  rw [release_acquire hfree]
  rfl

/-- A job that succeeds leaves its state in the batch. -/
theorem runJobWith_succeeded (hplain : b.config.interactive = false) (depth : Nat)
    (hfree : action ∉ s.running)
    (hran : (b.nextSession s.lastState).runScript b.plainTools
      ((s.registry.getD Registry.empty).script action) v = ran)
    (hok : ran.value.2 = .ok ()) :
    runJobWith (b.toolsWithin depth) (b.jobOf s action) ⟨v, acquire action s⟩ =
      ⟨.succeeded action, ⟨ran.world, { s with lastState := some ran.value.1.state }⟩,
        ran.notices ++ [.batch (.ended action none)]⟩ := by
  rw [runJobWith_apply, runScript_jobOf hplain depth hran]
  dsimp only
  rw [hok, finish_ok]
  have hrelease := release_acquire (s := { s with lastState := some ran.value.1.state }) hfree
  dsimp only [jobOf, acquire] at hrelease ⊢
  rw [hrelease]
  rfl

/-- With a prepared directory and no running action, a run of actions is the fold. -/
theorem runActionsWith_eq_fold (hplain : b.config.interactive = false) (depth : Nat)
    (hidle : s.running = []) (hstarted : s.directory.started = true) (actions : List String)
    (v : σ) :
    b.runActionsWith (b.toolsWithin depth) actions ⟨v, s⟩ =
      let done := b.foldActions (s.registry.getD Registry.empty).script s.lastState actions v
      ⟨.ok done.value.2, ⟨done.world, { s with lastState := done.value.1 }⟩, done.notices⟩ := by
  induction actions generalizing s v with
  | nil => rfl
  | cons action rest ih =>
      have hprepared : b.prepared ⟨v, s⟩ = ⟨(s.directory, .ok ()), v, []⟩ :=
        BuildDirectory.prepare_of_started b.host v hstarted b.config.clean
      have hfree : action ∉ s.running := by simp [hidle]
      have hstart : b.startJob action ⟨v, s⟩ =
          ⟨.ok (b.jobOf s action), ⟨v, acquire action s⟩, [.batch (.started action)]⟩ := by
        rw [startJob_ok hfree (by rw [hprepared]), hprepared]
        rfl
      generalize hran : (b.nextSession s.lastState).runScript b.plainTools
        ((s.registry.getD Registry.empty).script action) v = ran
      cases hresult : ran.value.2 with
      | error failure =>
          have hjob := runJobWith_failed hplain depth hfree hran hresult
          rw [runActionsWith_failed (by rw [hstart]) (by rw [hstart, hjob]; rfl), hstart,
            foldActions_failed hran hresult]
          dsimp only
          rw [hjob]
          rfl
      | ok _ =>
          have hjob := runJobWith_succeeded hplain depth hfree hran hresult
          have hrest := ih (s := { s with lastState := some ran.value.1.state }) hidle hstarted
            ran.world
          rw [runActionsWith_next (by rw [hstart]) (by rw [hstart, hjob]; rfl), hstart,
            foldActions_next hran hresult]
          dsimp only
          rw [hjob]
          dsimp only
          rw [hrest]
          simp [Except.map]

end Prepared

/-! ## The first action -/

variable {w : BatchWorld σ}

theorem prepared_started (hok : (b.prepared w).value.2 = .ok ()) :
    (b.prepared w).value.1.started = true := by
  obtain ⟨-, hstarted⟩ | ⟨fault, hfault⟩ :=
    w.batch.directory.prepare_cases b.host w.world b.config.clean
  · exact hstarted
  · cases hok.symm.trans hfault

/-- The world with a prepared directory. -/
def ready (b : Batch σ) (w : BatchWorld σ) : BatchWorld σ :=
  ⟨(b.prepared w).world, { w.batch with directory := (b.prepared w).value.1 }⟩

theorem prepared_ready (hok : (b.prepared w).value.2 = .ok ()) :
    b.prepared (b.ready w) = ⟨((b.prepared w).value.1, .ok ()), (b.prepared w).world, []⟩ :=
  BuildDirectory.prepare_of_started b.host _ (prepared_started hok) b.config.clean

theorem startJob_ready (hfree : action ∉ w.batch.running) (hok : (b.prepared w).value.2 = .ok ()) :
    b.startJob action w =
      let done := b.startJob action (b.ready w)
      ⟨done.value, done.world, (b.prepared w).notices ++ done.notices⟩ := by
  have hready := prepared_ready hok
  have hsecond : action ∉ (b.ready w).batch.running := hfree
  rw [startJob_ok hfree hok, startJob_ok hsecond (by rw [hready]), hready]
  rfl

/-- The first action prepares the directory, and nothing else is different. -/
theorem runActionsWith_ready {tools : Tools (BatchWorld σ)} (hfree : action ∉ w.batch.running)
    (hok : (b.prepared w).value.2 = .ok ()) (rest : List String) :
    b.runActionsWith tools (action :: rest) w =
      let done := b.runActionsWith tools (action :: rest) (b.ready w)
      ⟨done.value, done.world, (b.prepared w).notices ++ done.notices⟩ := by
  simp only [runActionsWith, bind_apply, startJob_ready hfree hok, List.append_assoc]

/-- Without running actions and with a directory that can be prepared, a run of actions is the
fold. -/
theorem runActionsWith_eq_foldBatch (hplain : b.config.interactive = false) (depth : Nat)
    (hidle : w.batch.running = []) (hok : (b.prepared w).value.2 = .ok ())
    (actions : List String) :
    b.runActionsWith (b.toolsWithin depth) actions w = b.foldBatch actions w := by
  cases actions with
  | nil => rfl
  | cons action rest =>
      have hfree : action ∉ w.batch.running := by simp [hidle]
      have hfold := runActionsWith_eq_fold (s := (b.ready w).batch) hplain depth hidle
        (prepared_started hok) (action :: rest) (b.prepared w).world
      rw [runActionsWith_ready hfree hok]
      dsimp only
      rw [ready] at hfold ⊢
      rw [hfold]
      rfl

/-! ## Outcomes -/

/-- All actions have succeeded, or some have and then one has failed. It was the last one to run:
without those after it the run would have been the same. -/
theorem runActionsWith_outcomes {tools : Tools (BatchWorld σ)} {actions : List String}
    {outcomes : List Outcome} (h : (b.runActionsWith tools actions w).value = .ok outcomes) :
    outcomes = actions.map .succeeded ∨
      ∃ before action after failure, actions = before ++ action :: after ∧
        outcomes = before.map .succeeded ++ [.failed action failure] ∧
        b.runActionsWith tools actions w = b.runActionsWith tools (before ++ [action]) w := by
  induction actions generalizing w outcomes with
  | nil =>
      rw [runActionsWith_nil, Except.ok.injEq] at h
      exact Or.inl h.symm
  | cons action rest ih =>
      cases hstart : (b.startJob action w).value with
      | error failure =>
          rw [runActionsWith_refused hstart] at h
          cases h
      | ok job =>
          have hname := (name_runJobWith tools job (b.startJob action w).world).trans
            (name_startJob hstart)
          cases hran : (runJobWith tools job (b.startJob action w).world).value.isOk with
          | false =>
              have hfirst := runActionsWith_failed hstart hran
              obtain ⟨failure, hfailed⟩ := Outcome.eq_failed hran
              rw [hfirst, Except.ok.injEq, hfailed, hname] at h
              exact Or.inr ⟨[], action, rest, failure, rfl, h.symm,
                (hfirst rest).trans (hfirst []).symm⟩
          | true =>
              have hfirst := runActionsWith_next hstart hran
              rw [hfirst] at h
              dsimp only at h
              rw [Outcome.eq_succeeded hran, hname] at h
              cases hlater : (b.runActionsWith tools rest
                  (runJobWith tools job (b.startJob action w).world).world).value with
              | error failure =>
                  rw [hlater] at h
                  cases h
              | ok others =>
                  rw [hlater, Except.map, Except.ok.injEq] at h
                  subst h
                  obtain rfl | ⟨before, last, after, failure, rfl, rfl, hsame⟩ := ih hlater
                  · exact Or.inl rfl
                  · refine Or.inr ⟨action :: before, last, after, failure, rfl, rfl, ?_⟩
                    rw [hfirst, List.cons_append, hfirst]
                    dsimp only
                    rw [hsame]

/-! ## Events -/

/-- Nothing that a batch reports itself. -/
def silent : Correspondence σ σ := onlyGives (fun n => n.batch? = none)

theorem silent_singleton {n : Notice} (h : n.batch? = none) : (silent (σ := σ)).notices [n] [n] :=
  onlyGives_singleton h

theorem batchEvents_prepared (h : b.host.Quiet) (w : BatchWorld σ) :
    batchEvents (b.prepared w).notices = [] := by
  have hallows : BuildDirectory.Allows (fun n => n.batch? = none) b.host :=
    ⟨fun _ => rfl, fun _ => rfl, h.removeTree, h.makeDirectories⟩
  exact batchEvents_eq_nil (BuildDirectory.gives_prepare hallows _ _ _)

/-- A script without `run-actions` does not speak for the batch. -/
theorem silent_runScript (hquiet : b.host.Quiet) (session : Session) (script : Script) :
    Related silent Eq (session.runScript b.plainTools script)
      (session.runScript b.plainTools script) := by
  have hstart : ∀ request, Related silent Eq (b.plainTools.launcher.start request)
      (b.plainTools.launcher.start request) := by
    intro request
    rw [plainTools]
    dsimp only
    split
    · exact (Related.notify (silent_singleton rfl)).bindEq (fun _ => Related.pure rfl)
    · exact related_onlyGives_iff.2 (hquiet.start request)
  have hcapture : ∀ request, Related silent Eq (b.plainTools.launcher.capture request)
      (b.plainTools.launcher.capture request) := by
    intro request
    rw [plainTools]
    dsimp only
    split <;> exact related_onlyGives_iff.2 (hquiet.capture request)
  have htools : Simulation silent Eq b.plainTools b.plainTools :=
    { refl := fun _ => rfl
      warnings := fun _ => silent_singleton rfl
      messages := fun _ => silent_singleton rfl
      launches := fun _ => silent_singleton rfl
      captures := fun cwd env => Subshell.capture_related
        ⟨fun _ => silent_singleton rfl, fun _ => silent_singleton rfl, hcapture⟩ cwd env
      programs := hstart
      builtins := fun _ => .none
      conclusions := by
        rintro policy answer _ rfl
        exact conclude_related (fun _ => silent_singleton rfl) policy answer }
  exact htools.runScript_related script session

theorem batchEvents_of_silent {α : Type} {m : Effect σ α} (h : Related silent Eq m m) (v : σ) :
    batchEvents (m v).notices = [] :=
  batchEvents_eq_nil ((h v v rfl).2.2)

/-- One event for the start of each action, and one for its end. -/
theorem batchEvents_foldActions (hquiet : b.host.Quiet) (actions : List String) (v : σ) :
    batchEvents (b.foldActions script carried actions v).notices =
      (b.foldActions script carried actions v).value.2.flatMap Outcome.events := by
  induction actions generalizing carried v with
  | nil => rfl
  | cons action rest ih =>
      have hsilent := batchEvents_of_silent
        (silent_runScript hquiet (b.nextSession carried) (script action)) v
      generalize hran : (b.nextSession carried).runScript b.plainTools (script action) v = ran
        at hsilent
      cases hresult : ran.value.2 with
      | error failure =>
          simp [foldActions_failed hran hresult, hsilent, Outcome.events, Outcome.failed]
      | ok _ =>
          simp [foldActions_next hran hresult, hsilent, ih, Outcome.events, Outcome.succeeded]

theorem batchEvents_foldBatch (hquiet : b.host.Quiet) {actions : List String}
    {outcomes : List Outcome} (h : (b.foldBatch actions w).value = .ok outcomes) :
    batchEvents (b.foldBatch actions w).notices = outcomes.flatMap Outcome.events := by
  rw [foldBatch, Except.ok.injEq] at h
  rw [← h, foldBatch]
  dsimp only
  rw [batchEvents_append, batchEvents_foldActions hquiet]
  split
  · rfl
  · have hprepared := batchEvents_prepared hquiet w
    rw [prepared] at hprepared
    rw [hprepared, List.nil_append]

end Batch

end ScriptRunner
