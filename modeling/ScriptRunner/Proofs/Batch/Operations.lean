import ScriptRunner.Batch.Basic
import ScriptRunner.Proofs.Session.Calls

/-!
# ScriptRunner.Proofs.Batch.Operations

What each operation of a batch does: its result, the world it leaves, and its notices.

An operation that can go several ways has one equation for each of them, and later proofs read
these equations and not the programs:

- `install` finds a registry, or takes one, and `loadFrom` may also fail on the file;
- `startJob` is refused, or cannot prepare the directory, or gives a job;
- `finish` ends an action that succeeded, or one that failed;
- `runActionsWith` is refused an action, or stops after it, or goes on after it.
-/

namespace ScriptRunner

/-! ## The directory -/

namespace BuildDirectory

variable {σ : Type} (host : Host σ) (d : BuildDirectory) (w : σ)

theorem clean_cases :
    (d.clean host w).value.2 = .ok () ∨
      ∃ fault, (d.clean host w).value.2 = .error (.file fault) := by
  simp only [clean, Effect.bind_apply, Effect.notify_apply]
  generalize (host.removeTree d.path w).value = answer
  match answer with
  | .ok () => exact Or.inl rfl
  | .error (.refused reason) =>
      -- A directory that is missing counts as removed.
      cases reason with
      | noEntry => exact Or.inl rfl
      | _ => exact Or.inr ⟨_, rfl⟩
  | .error .notText => exact Or.inr ⟨_, rfl⟩
  | .error .nulInName => exact Or.inr ⟨_, rfl⟩
  | .error (.other text) => exact Or.inr ⟨_, rfl⟩

theorem start_cases :
    ((d.start host w).value.2 = .ok () ∧ (d.start host w).value.1.started = true) ∨
      ∃ fault, (d.start host w).value.2 = .error (.file fault) := by
  simp only [start, Effect.bind_apply, Effect.notify_apply]
  generalize (host.makeDirectories d.path w).value = answer
  cases answer with
  | ok _ => exact Or.inl ⟨rfl, rfl⟩
  | error fault => exact Or.inr ⟨fault, rfl⟩

/-- A directory gets prepared, or an operation on files has failed. -/
theorem prepare_cases (cleanFirst : Bool) :
    ((d.prepare host cleanFirst w).value.2 = .ok () ∧
        (d.prepare host cleanFirst w).value.1.started = true) ∨
      ∃ fault, (d.prepare host cleanFirst w).value.2 = .error (.file fault) := by
  rw [prepare]
  cases hstarted : d.started with
  | true => exact Or.inl ⟨rfl, hstarted⟩
  | false =>
      cases cleanFirst with
      | false => exact start_cases host d w
      | true =>
          simp only [Bool.false_eq_true, if_false, if_true, Effect.bind_apply]
          obtain hclean | ⟨fault, hclean⟩ := clean_cases host d w
          · generalize (d.clean host w) = cleaned at hclean
            obtain ⟨⟨e, _⟩, v, _⟩ := cleaned
            obtain rfl := hclean
            exact start_cases host e v
          · generalize (d.clean host w) = kept at hclean
            obtain ⟨⟨e, _⟩, v, _⟩ := kept
            obtain rfl := hclean
            exact Or.inr ⟨fault, rfl⟩

/-- A directory that is prepared stays as it is. -/
theorem prepare_of_started {d : BuildDirectory} (h : d.started = true) (cleanFirst : Bool) :
    d.prepare host cleanFirst w = ⟨(d, .ok ()), w, []⟩ := by
  rw [prepare, if_pos h]
  rfl

open Effect

/-- Notices that do no harm: those about the directory, and those of the host at work on it. -/
structure Allows (P : Notice → Prop) (host : Host σ) : Prop where
  removal : ∀ path, P (.removal path)
  creation : ∀ path, P (.creation path)
  removeTree : ∀ path, Gives P (host.removeTree path)
  makeDirectories : ∀ path, Gives P (host.makeDirectories path)

variable {host} {P : Notice → Prop}

theorem related_start (h : Allows P host) (d : BuildDirectory) :
    Related (onlyGives P) Eq (d.start host) (d.start host) := by
  refine (Related.notify (onlyGives_singleton (h.creation d.path))).bindEq (fun _ => ?_)
  refine (related_onlyGives_iff.2 (h.makeDirectories d.path)).bindEq (fun answer => ?_)
  cases answer <;> exact Related.pure rfl

theorem related_clean (h : Allows P host) (d : BuildDirectory) :
    Related (onlyGives P) Eq (d.clean host) (d.clean host) := by
  refine (Related.notify (onlyGives_singleton (h.removal d.path))).bindEq (fun _ => ?_)
  refine (related_onlyGives_iff.2 (h.removeTree d.path)).bindEq (fun answer => ?_)
  split <;> exact Related.pure rfl

/-- Preparing a directory gives notices about it, and those of the host. -/
theorem gives_prepare (h : Allows P host) (cleanFirst : Bool) (d : BuildDirectory) :
    Gives P (d.prepare host cleanFirst) := by
  rw [← related_onlyGives_iff, prepare]
  split
  · exact Related.pure rfl
  · split
    · refine (related_clean h d).bindEq (fun answer => ?_)
      split
      · exact related_start h _
      · exact Related.pure rfl
    · exact related_start h d

end BuildDirectory

namespace Batch

variable {σ α : Type}

/-! ## The world of a batch -/

@[simp] theorem state_apply (w : BatchWorld σ) : state w = ⟨w.batch, w, []⟩ := rfl

@[simp] theorem update_apply (f : BatchState → BatchState) (w : BatchWorld σ) :
    update f w = ⟨(), { w with batch := f w.batch }, []⟩ := rfl

@[simp] theorem outside_apply (m : Effect σ α) (w : BatchWorld σ) :
    outside m w =
      ⟨(m w.world).value, { w with world := (m w.world).world }, (m w.world).notices⟩ := rfl

@[simp] theorem announce_apply (event : BatchEvent) (w : BatchWorld σ) :
    announce event w = ⟨(), w, [.batch event]⟩ := rfl

/-- Programs have no way to the state of the batch. -/
theorem spares_launcher (b : Batch σ) : b.launcher.Spares BatchWorld.batch :=
  ⟨fun _ _ => rfl, fun _ _ => rfl⟩

/-! ## The registry -/

/-- Taking a registry is refused if there is one already. -/
theorem install_cases (source : String) (registry : Registry) (w : BatchWorld σ) :
    (w.batch.registry.isSome = true ∧
      install source registry w = ⟨.error .alreadyLoaded, w, []⟩) ∨
    (w.batch.registry = none ∧
      install source registry w =
        ⟨.ok (), ⟨w.world, { w.batch with registry := some registry }⟩,
          [.batch (.loaded source)]⟩) := by
  simp only [install, Effect.bind_apply, state_apply]
  cases hregistry : w.batch.registry with
  | some _ => exact Or.inl ⟨rfl, rfl⟩
  | none => exact Or.inr ⟨rfl, rfl⟩

/-- The registry that a file holds, by the answer to reading it. -/
def registryIn (path : Path) : Except FileFault String → Except Failure Registry
  | .error fault => .error (.file fault)
  | .ok text => Registry.parse (DocumentFormat.ofPath path) text

/-- Without a registry, the one in the file is taken, if there is one in it. -/
theorem loadFrom_eq (b : Batch σ) (path : Path) {w : BatchWorld σ} (h : w.batch.registry = none) :
    b.loadFrom path w =
      let read := b.host.readText path w.world
      match registryIn path read.value with
      | .error failure => ⟨.error failure, ⟨read.world, w.batch⟩, read.notices⟩
      | .ok registry =>
        ⟨.ok (), ⟨read.world, { w.batch with registry := some registry }⟩,
          read.notices ++ [.batch (.loaded path)]⟩ := by
  simp only [loadFrom, Effect.bind_apply, state_apply, h, outside_apply, List.nil_append]
  cases (b.host.readText path w.world).value with
  | error fault => simp [registryIn]
  | ok text =>
      simp only [registryIn]
      cases Registry.parse (DocumentFormat.ofPath path) text with
      | error failure => simp
      | ok registry =>
          -- Reading has not changed the batch, so there is still no registry.
          obtain ⟨hloaded, -⟩ | ⟨-, hdone⟩ :=
            install_cases path registry ⟨(b.host.readText path w.world).world, w.batch⟩
          · simp [h] at hloaded
          · simp only [hdone]

/-- If there is a registry already, the file is not even read. -/
theorem loadFrom_cases (b : Batch σ) (path : Path) (w : BatchWorld σ) :
    let read := b.host.readText path w.world
    (w.batch.registry.isSome = true ∧ b.loadFrom path w = ⟨.error .alreadyLoaded, w, []⟩) ∨
    (w.batch.registry = none ∧ ∃ failure, registryIn path read.value = .error failure ∧
      b.loadFrom path w = ⟨.error failure, ⟨read.world, w.batch⟩, read.notices⟩) ∨
    (w.batch.registry = none ∧ ∃ registry, registryIn path read.value = .ok registry ∧
      b.loadFrom path w =
        ⟨.ok (), ⟨read.world, { w.batch with registry := some registry }⟩,
          read.notices ++ [.batch (.loaded path)]⟩) := by
  intro read
  cases hregistry : w.batch.registry with
  | some loaded =>
      refine Or.inl ⟨rfl, ?_⟩
      simp [loadFrom, hregistry]
  | none =>
      have hdone := b.loadFrom_eq path hregistry
      cases hfound : registryIn path (b.host.readText path w.world).value with
      | error failure =>
          exact Or.inr (Or.inl ⟨rfl, failure, rfl, by simp only [hdone, hfound, read]⟩)
      | ok registry =>
          exact Or.inr (Or.inr ⟨rfl, registry, rfl, by simp only [hdone, hfound, read]⟩)

theorem parseActions_apply (selectors : List String) (w : BatchWorld σ) :
    parseActions selectors w = ⟨actionsOf w.batch selectors, w, []⟩ := by
  simp [parseActions]

/-! ## Sessions -/

/-- The session that an action gets when the batch is in this state. -/
def freshSession (b : Batch σ) (s : BatchState) : Session := b.template.fork s.lastState

/-- What comes of preparing the directory. -/
def prepared (b : Batch σ) (w : BatchWorld σ) : Done σ (BuildDirectory × Except Failure Unit) :=
  w.batch.directory.prepare b.host b.config.clean w.world

variable {b : Batch σ} {w : BatchWorld σ} {failure : Failure}

theorem createSession_error (h : (b.prepared w).value.2 = .error failure) :
    b.createSession w =
      ⟨.error failure, ⟨(b.prepared w).world, w.batch⟩, (b.prepared w).notices⟩ := by
  rw [prepared] at h ⊢
  simp only [createSession, Effect.bind_apply, state_apply, outside_apply, h, Effect.pure_apply,
    List.nil_append, List.append_nil]

theorem createSession_ok (h : (b.prepared w).value.2 = .ok ()) :
    b.createSession w =
      ⟨.ok (b.freshSession w.batch),
        ⟨(b.prepared w).world, { w.batch with directory := (b.prepared w).value.1 }⟩,
        (b.prepared w).notices⟩ := by
  rw [prepared] at h ⊢
  simp only [createSession, Effect.bind_apply, state_apply, outside_apply, h, Effect.pure_apply,
    update_apply, List.nil_append, List.append_nil, freshSession]

/-! ## Jobs -/

/-- The state in which an action of this name is running. -/
def acquire (name : String) (s : BatchState) : BatchState :=
  { s with running := name :: s.running }

/-- The job of an action when the batch is in this state. -/
def jobOf (b : Batch σ) (s : BatchState) (action : String) : Job :=
  ⟨action, (s.registry.getD Registry.empty).script action, b.freshSession s⟩

variable {action : String}

theorem startJob_running (h : action ∈ w.batch.running) :
    b.startJob action w = ⟨.error (.actionRunning action), w, []⟩ := by
  simp [startJob, h]

/-- A name that was not taken before is as free afterwards. -/
theorem release_acquire {s : BatchState} (h : action ∉ s.running) :
    release action (acquire action s) = s := by
  have hothers : s.running.filter (· != action) = s.running := by
    rw [List.filter_eq_self]
    intro name hname
    simpa using ne_of_mem_of_not_mem hname h
  simp [release, acquire, hothers]

theorem startJob_error (hfree : action ∉ w.batch.running)
    (h : (b.prepared w).value.2 = .error failure) :
    b.startJob action w =
      ⟨.error failure, ⟨(b.prepared w).world, w.batch⟩, (b.prepared w).notices⟩ := by
  have hcreate : b.createSession ⟨w.world, acquire action w.batch⟩ =
      ⟨.error failure, ⟨(b.prepared w).world, acquire action w.batch⟩, (b.prepared w).notices⟩ :=
    createSession_error h
  rw [acquire] at hcreate
  have hrelease := release_acquire hfree
  rw [acquire] at hrelease
  rw [startJob, Effect.bind_apply, state_apply]
  dsimp only
  rw [if_neg (by simpa using hfree)]
  simp only [Effect.bind_apply, update_apply, hcreate, Effect.pure_apply, List.nil_append,
    List.append_nil, hrelease]

theorem startJob_ok (hfree : action ∉ w.batch.running) (h : (b.prepared w).value.2 = .ok ()) :
    b.startJob action w =
      ⟨.ok (b.jobOf w.batch action),
        ⟨(b.prepared w).world,
          { acquire action w.batch with directory := (b.prepared w).value.1 }⟩,
        (b.prepared w).notices ++ [.batch (.started action)]⟩ := by
  have hcreate : b.createSession ⟨w.world, acquire action w.batch⟩ =
      ⟨.ok (b.freshSession w.batch),
        ⟨(b.prepared w).world,
          { acquire action w.batch with directory := (b.prepared w).value.1 }⟩,
        (b.prepared w).notices⟩ :=
    createSession_ok h
  rw [acquire] at hcreate
  rw [startJob, Effect.bind_apply, state_apply]
  dsimp only
  rw [if_neg (by simpa using hfree)]
  simp only [Effect.bind_apply, update_apply, hcreate, Effect.pure_apply, announce_apply,
    List.nil_append, List.append_nil, acquire, jobOf]

/-- Starting an action is refused, or fails for want of a directory, or gives a job. -/
theorem startJob_cases (b : Batch σ) (action : String) (w : BatchWorld σ) :
    (action ∈ w.batch.running ∧
      b.startJob action w = ⟨.error (.actionRunning action), w, []⟩) ∨
    (action ∉ w.batch.running ∧ ∃ fault, (b.prepared w).value.2 = .error (.file fault) ∧
      b.startJob action w =
        ⟨.error (.file fault), ⟨(b.prepared w).world, w.batch⟩, (b.prepared w).notices⟩) ∨
    (action ∉ w.batch.running ∧ (b.prepared w).value.2 = .ok () ∧
      (b.prepared w).value.1.started = true ∧
      b.startJob action w =
        ⟨.ok (b.jobOf w.batch action),
          ⟨(b.prepared w).world,
            { acquire action w.batch with directory := (b.prepared w).value.1 }⟩,
          (b.prepared w).notices ++ [.batch (.started action)]⟩) := by
  by_cases hrunning : action ∈ w.batch.running
  · exact Or.inl ⟨hrunning, startJob_running hrunning⟩
  · obtain ⟨hok, hstarted⟩ | ⟨fault, hfault⟩ :=
      w.batch.directory.prepare_cases b.host w.world b.config.clean
    · exact Or.inr (Or.inr ⟨hrunning, hok, hstarted, startJob_ok hrunning hok⟩)
    · exact Or.inr (Or.inl ⟨hrunning, fault, hfault, startJob_error hrunning hfault⟩)

/-- An action is refused as running exactly where its name is taken. -/
theorem startJob_running_iff :
    (b.startJob action w).value = .error (.actionRunning action) ↔ action ∈ w.batch.running := by
  obtain ⟨hrunning, hdone⟩ | ⟨hfree, fault, -, hdone⟩ | ⟨hfree, -, -, hdone⟩ :=
    b.startJob_cases action w
  · exact iff_of_true (by rw [hdone]) hrunning
  · exact iff_of_false (by simp [hdone]) hfree
  · exact iff_of_false (by simp [hdone]) hfree

/-- Starting an action does not load a registry. -/
theorem registry_startJob (b : Batch σ) (action : String) (w : BatchWorld σ) :
    (b.startJob action w).world.batch.registry = w.batch.registry := by
  obtain ⟨-, hdone⟩ | ⟨-, fault, -, hdone⟩ | ⟨-, -, -, hdone⟩ := b.startJob_cases action w
  · rw [hdone]
  · rw [hdone]
  · rw [hdone]
    rfl

theorem finish_ok (name : String) (final : Session) (w : BatchWorld σ) :
    finish name final (.ok ()) w =
      ⟨⟨name, none⟩, ⟨w.world, release name { w.batch with lastState := some final.state }⟩,
        [.batch (.ended name none)]⟩ := rfl

theorem finish_error (name : String) (final : Session) (failure : Failure) (w : BatchWorld σ) :
    finish name final (.error failure) w =
      ⟨⟨name, some failure⟩, ⟨w.world, release name w.batch⟩,
        [.warning (failureWarning name failure), .batch (.ended name (some failure.message))]⟩ :=
  rfl

/-- Running a job is running its script, and ending the action. -/
theorem runJobWith_apply (tools : Tools (BatchWorld σ)) (job : Job) (w : BatchWorld σ) :
    runJobWith tools job w =
      let ended := job.session.runScript tools job.script w
      let last := finish job.name ended.value.1 ended.value.2 ended.world
      ⟨last.value, last.world, ended.notices ++ last.notices⟩ := rfl

theorem name_finish (name : String) (final : Session) (result : Except Failure Unit)
    (w : BatchWorld σ) : (finish name final result w).value.name = name := by
  cases result with
  | ok _ => rfl
  | error failure => rfl

/-- The outcome of a job has its name. -/
theorem name_runJobWith (tools : Tools (BatchWorld σ)) (job : Job) (w : BatchWorld σ) :
    (runJobWith tools job w).value.name = job.name := by
  rw [runJobWith_apply]
  exact name_finish job.name _ _ _

theorem name_startJob {job : Job} (h : (b.startJob action w).value = .ok job) :
    job.name = action := by
  obtain ⟨-, hdone⟩ | ⟨-, fault, -, hdone⟩ | ⟨-, -, -, hdone⟩ := b.startJob_cases action w
  · simp [hdone] at h
  · simp [hdone] at h
  · rw [hdone, Except.ok.injEq] at h
    rw [← h]
    rfl

/-! ## Several actions -/

variable {tools : Tools (BatchWorld σ)} {job : Job}

theorem runActionsWith_nil (b : Batch σ) (tools : Tools (BatchWorld σ)) (w : BatchWorld σ) :
    b.runActionsWith tools [] w = ⟨.ok [], w, []⟩ := rfl

/-- An action that cannot start ends the run without outcomes. -/
theorem runActionsWith_refused (h : (b.startJob action w).value = .error failure)
    (rest : List String) :
    b.runActionsWith tools (action :: rest) w =
      ⟨.error failure, (b.startJob action w).world, (b.startJob action w).notices⟩ := by
  simp only [runActionsWith, Effect.bind_apply, h, Effect.pure_apply, List.append_nil]

/-- An action that fails is the last one. -/
theorem runActionsWith_failed (h : (b.startJob action w).value = .ok job)
    (hran : (runJobWith tools job (b.startJob action w).world).value.isOk = false)
    (rest : List String) :
    b.runActionsWith tools (action :: rest) w =
      let ran := runJobWith tools job (b.startJob action w).world
      ⟨.ok [ran.value], ran.world, (b.startJob action w).notices ++ ran.notices⟩ := by
  simp only [runActionsWith, Effect.bind_apply, h, hran, Bool.false_eq_true, if_false,
    Effect.pure_apply, List.append_nil]

/-- After an action that succeeded the others follow. -/
theorem runActionsWith_next (h : (b.startJob action w).value = .ok job)
    (hran : (runJobWith tools job (b.startJob action w).world).value.isOk = true)
    (rest : List String) :
    b.runActionsWith tools (action :: rest) w =
      let ran := runJobWith tools job (b.startJob action w).world
      let later := b.runActionsWith tools rest ran.world
      ⟨later.value.map (ran.value :: ·), later.world,
        (b.startJob action w).notices ++ (ran.notices ++ later.notices)⟩ := by
  simp only [runActionsWith, Effect.bind_apply, h, hran, if_true]
  cases (b.runActionsWith tools rest
    (runJobWith tools job (b.startJob action w).world).world).value with
  | ok outcomes => simp only [Effect.pure_apply, List.append_nil, Except.map]
  | error failure => simp only [Effect.pure_apply, List.append_nil, Except.map]

/-! ## Actions that run actions -/

/-- The builtin runs the actions that are selected where it is invoked. -/
theorem world_runActionsBuiltin
    (run : List String → Effect (BatchWorld σ) (Except Failure (List Outcome)))
    (selectors : List String) (w : BatchWorld σ) :
    ((runActionsBuiltin run).invoke selectors w).world =
      match actionsOf w.batch selectors with
      | .ok actions => (run actions w).world
      | .error _ => w := by
  simp only [runActionsBuiltin, parseActions, Effect.bind_apply, state_apply, Effect.pure_apply]
  cases actionsOf w.batch selectors with
  | error failure => rfl
  | ok actions =>
      simp only [Effect.bind_apply]
      cases (run actions w).value with
      | ok outcomes => rfl
      | error failure => rfl

theorem launcher_toolsWithin (b : Batch σ) (depth : Nat) :
    (b.toolsWithin depth).launcher = b.launcher := by
  cases depth <;> rfl

theorem spares_toolsWithin (b : Batch σ) (depth : Nat) :
    (b.toolsWithin depth).launcher.Spares BatchWorld.batch := by
  rw [launcher_toolsWithin]
  exact b.spares_launcher

/-- At the limit of nesting, a builtin fails and does nothing. -/
theorem invoke_toolsWithin_zero {builtin : Builtin (BatchWorld σ)}
    (h : builtin ∈ (b.toolsWithin 0).builtins) (args : List String) (w : BatchWorld σ) :
    (builtin.invoke args w).world = w := by
  rw [toolsWithin] at h
  cases hinteractive : b.config.interactive with
  | false => simp [hinteractive] at h
  | true =>
      simp only [hinteractive, if_true, List.mem_singleton] at h
      subst h
      rfl

/-- Below the limit, every builtin runs actions. -/
theorem eq_runActionsBuiltin {depth : Nat} {builtin : Builtin (BatchWorld σ)}
    (h : builtin ∈ (b.toolsWithin (depth + 1)).builtins) :
    builtin = runActionsBuiltin (b.runActionsWith (b.toolsWithin depth)) := by
  rw [toolsWithin] at h
  cases hinteractive : b.config.interactive with
  | false => simp [hinteractive] at h
  | true => simpa [hinteractive] using h

end Batch

end ScriptRunner
