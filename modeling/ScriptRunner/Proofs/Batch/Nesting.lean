import ScriptRunner.Proofs.Batch.History

/-!
# ScriptRunner.Proofs.Batch.Nesting

Actions that run actions, as part of what happens with a batch.

A run of actions gives each of them its turn, up to the first that fails (`Batch.turns`), and the
script of an action may call `run-actions` any number of times. `momentsOfJob` and
`momentsOfActions` are all that happens with the batch in such a run, in order, to any depth. They
go on from any log of the batch, and lead to the state that the run leaves (`Reached.runs`), so what
holds along every log holds inside every run.

`Batch.Chain` are the jobs that are open inside one another at some point of a run.

A run is followed to a depth, and all this is said of every depth. Where no call of a run is refused
for its depth (`Batch.fits`), the depth makes no difference (`runActions_deeper`).
-/

namespace ScriptRunner

namespace Batch

variable {σ κ : Type}

/-! ## Turns -/

/-- The world after the turn of an action. -/
def afterTurn (b : Batch σ) (tools : Tools (BatchWorld σ)) (action : String) (w : BatchWorld σ) :
    BatchWorld σ :=
  let start := b.startJob action w
  match start.value with
  | .ok job => (runJobWith tools job start.world).world
  | .error _ => start.world

/-- Whether the others follow after the turn of an action. -/
def goesOn (b : Batch σ) (tools : Tools (BatchWorld σ)) (action : String) (w : BatchWorld σ) :
    Bool :=
  let start := b.startJob action w
  match start.value with
  | .ok job => (runJobWith tools job start.world).value.isOk
  | .error _ => false

/-- The actions whose turn comes, each with the world that it finds. -/
def turns (b : Batch σ) (tools : Tools (BatchWorld σ)) :
    List String → BatchWorld σ → List (String × BatchWorld σ)
  | [], _ => []
  | action :: rest, w =>
    (action, w) ::
      if b.goesOn tools action w then b.turns tools rest (b.afterTurn tools action w) else []

variable {b : Batch σ} {tools : Tools (BatchWorld σ)} {w : BatchWorld σ}

theorem world_runActionsWith_cons (action : String) (rest : List String) :
    (b.runActionsWith tools (action :: rest) w).world =
      if b.goesOn tools action w then
        (b.runActionsWith tools rest (b.afterTurn tools action w)).world
      else b.afterTurn tools action w := by
  cases hstart : (b.startJob action w).value with
  | error failure => simp [runActionsWith_refused hstart, goesOn, afterTurn, hstart]
  | ok job =>
      cases hran : (runJobWith tools job (b.startJob action w).world).value.isOk with
      | false => simp [runActionsWith_failed hstart hran, goesOn, afterTurn, hstart, hran]
      | true => simp [runActionsWith_next hstart hran, goesOn, afterTurn, hstart, hran]

/-- What every turn keeps, while it adds to a list, a run of actions keeps. -/
theorem runActionsWith_turns {I : BatchWorld σ → List κ → Prop}
    {f : String × BatchWorld σ → List κ}
    (hturn : ∀ action w log, I w log → I (b.afterTurn tools action w) (log ++ f (action, w)))
    (actions : List String) {log : List κ} (h : I w log) :
    I (b.runActionsWith tools actions w).world (log ++ (b.turns tools actions w).flatMap f) := by
  induction actions generalizing w log with
  | nil =>
      rw [runActionsWith_nil, turns, List.flatMap_nil, List.append_nil]
      exact h
  | cons action rest ih =>
      have hfirst := hturn action w log h
      rw [world_runActionsWith_cons, turns, List.flatMap_cons, ← List.append_assoc]
      cases b.goesOn tools action w with
      | false => simpa using hfirst
      | true => exact ih hfirst

/-- What every turn keeps holds where an action's turn comes. -/
theorem forall_turns {I : BatchWorld σ → Prop}
    (hturn : ∀ action w, I w → I (b.afterTurn tools action w)) (actions : List String) (h : I w) :
    ∀ turn ∈ b.turns tools actions w, I turn.2 := by
  induction actions generalizing w with
  | nil => simp [turns]
  | cons action rest ih =>
      intro turn hmem
      rw [turns] at hmem
      rcases List.mem_cons.1 hmem with rfl | hmem
      · exact h
      · split at hmem
        · exact ih (hturn action w h) turn hmem
        · cases hmem

/-- Tools that run the scripts of all turns in the same way run the actions in the same way. -/
theorem runActionsWith_congr {other : Tools (BatchWorld σ)} {actions : List String}
    (h : ∀ turn ∈ b.turns tools actions w, ∀ job, (b.startJob turn.1 turn.2).value = .ok job →
      job.session.runScript other job.script (b.startJob turn.1 turn.2).world =
        job.session.runScript tools job.script (b.startJob turn.1 turn.2).world) :
    b.runActionsWith other actions w = b.runActionsWith tools actions w := by
  induction actions generalizing w with
  | nil => rfl
  | cons action rest ih =>
      rw [turns] at h
      cases hstart : (b.startJob action w).value with
      | error failure => rw [runActionsWith_refused hstart, runActionsWith_refused hstart]
      | ok job =>
          have hjob : runJobWith other job (b.startJob action w).world =
              runJobWith tools job (b.startJob action w).world := by
            rw [runJobWith_apply, runJobWith_apply, h _ List.mem_cons_self job hstart]
          cases hran : (runJobWith tools job (b.startJob action w).world).value.isOk with
          | false =>
              rw [runActionsWith_failed hstart hran, runActionsWith_failed hstart (hjob ▸ hran),
                hjob]
          | true =>
              have hgoes : b.goesOn tools action w = true := by simp [goesOn, hstart, hran]
              have hafter : b.afterTurn tools action w =
                  (runJobWith tools job (b.startJob action w).world).world := by
                simp [afterTurn, hstart]
              rw [hgoes, if_pos rfl, hafter] at h
              have hrest := ih (fun turn hturn => h turn (List.mem_cons_of_mem _ hturn))
              rw [runActionsWith_next hstart hran, runActionsWith_next hstart (hjob ▸ hran), hjob]
              dsimp only
              rw [hrest]

/-! ## Depth -/

/-- Whether all calls in the scripts of a run of actions have the property. -/
def allCalls (b : Batch σ) (p : BuiltinCall (BatchWorld σ) → Bool)
    (tools : Tools (BatchWorld σ)) (actions : List String) (w : BatchWorld σ) : Bool :=
  (b.turns tools actions w).all (fun turn =>
    let start := b.startJob turn.1 turn.2
    match start.value with
    | .ok job => (job.session.calls tools job.script start.world).all p
    | .error _ => true)

/-- Whether a call is followed to its end, `depth` levels down. -/
def callFits (b : Batch σ) : Nat → BuiltinCall (BatchWorld σ) → Bool
  | 0, _ => false
  | depth + 1, c =>
    match actionsOf c.world.batch c.args with
    | .ok actions => b.allCalls (b.callFits depth) (b.toolsWithin depth) actions c.world
    | .error _ => true

/-- Whether a run of actions is followed to its end, so that no call is refused for its depth. -/
def fits (b : Batch σ) (depth : Nat) (actions : List String) (w : BatchWorld σ) : Bool :=
  b.allCalls (b.callFits depth) (b.toolsWithin depth) actions w

theorem forall_of_allCalls {p : BuiltinCall (BatchWorld σ) → Bool} {actions : List String}
    (h : b.allCalls p tools actions w = true) :
    ∀ turn ∈ b.turns tools actions w, ∀ job, (b.startJob turn.1 turn.2).value = .ok job →
      ∀ c ∈ job.session.calls tools job.script (b.startJob turn.1 turn.2).world, p c = true := by
  intro turn hturn job hstart
  have hcalls := List.all_eq_true.1 h turn hturn
  simp only [hstart] at hcalls
  exact List.all_eq_true.1 hcalls

/-- A run whose calls are answered in the same way is the same. -/
theorem runActionsWith_of_allCalls {other : Tools (BatchWorld σ)}
    {p : BuiltinCall (BatchWorld σ) → Bool} (h : tools.Answers (fun c => p c = true) other)
    {actions : List String} (hcalls : b.allCalls p tools actions w = true) :
    b.runActionsWith other actions w = b.runActionsWith tools actions w :=
  runActionsWith_congr (fun turn hturn job hstart =>
    Session.runScript_congr h job.script (forall_of_allCalls hcalls turn hturn job hstart))

/-- The builtin does the same where the actions that are selected do. -/
theorem runActionsBuiltin_congr
    {run other : List String → Effect (BatchWorld σ) (Except Failure (List Outcome))}
    {selectors : List String}
    (h : ∀ actions, actionsOf w.batch selectors = .ok actions → other actions w = run actions w) :
    (runActionsBuiltin other).invoke selectors w = (runActionsBuiltin run).invoke selectors w := by
  simp only [runActionsBuiltin, parseActions, Effect.bind_apply, state_apply, Effect.pure_apply]
  cases hactions : actionsOf w.batch selectors with
  | error failure => rfl
  | ok actions => simp only [Effect.bind_apply, h actions hactions]

/-- A name is a builtin at every depth, or at none. -/
theorem builtin?_toolsWithin_eq_none (depth : Nat) (name : String) :
    (b.toolsWithin depth).builtin? name = none ↔
      b.config.interactive = false ∨ runActionsName ≠ name := by
  cases depth <;> cases hinteractive : b.config.interactive <;>
    simp [Tools.builtin?, toolsWithin, hinteractive, runActionsBuiltin]

/-- At a greater depth, the calls that are followed to their ends are answered in the same way. -/
theorem answers_toolsWithin {depth deeper : Nat} (h : depth ≤ deeper) :
    (b.toolsWithin depth).Answers (fun c => b.callFits depth c = true) (b.toolsWithin deeper) := by
  induction depth generalizing deeper with
  | zero =>
      refine ⟨by rw [launcher_toolsWithin, launcher_toolsWithin], fun name hnone => ?_, nofun⟩
      rwa [builtin?_toolsWithin_eq_none] at hnone ⊢
  | succ depth ih =>
      refine ⟨by rw [launcher_toolsWithin, launcher_toolsWithin], fun name hnone => ?_,
        fun name c hfits hcall => ?_⟩
      · rwa [builtin?_toolsWithin_eq_none] at hnone ⊢
      · obtain ⟨more, rfl⟩ : ∃ more, deeper = more + 1 := ⟨deeper - 1, by omega⟩
        have hsome : (b.toolsWithin (more + 1)).builtin? name ≠ none := by
          rw [Ne, builtin?_toolsWithin_eq_none, ← builtin?_toolsWithin_eq_none (depth + 1), hcall]
          exact nofun
        obtain ⟨twin, htwin⟩ := Option.ne_none_iff_exists'.1 hsome
        refine ⟨twin, htwin, ?_⟩
        rw [eq_runActionsBuiltin (List.mem_of_find?_eq_some htwin), BuiltinCall.done,
          eq_runActionsBuiltin (List.mem_of_find?_eq_some hcall)]
        refine runActionsBuiltin_congr (fun actions hactions => ?_)
        rw [callFits, hactions] at hfits
        exact runActionsWith_of_allCalls (ih (by omega)) hfits

/-- A run that is followed to its end is the same at every greater depth. -/
theorem runActions_deeper {depth deeper : Nat} {actions : List String}
    (hfits : b.fits depth actions w = true) (h : depth ≤ deeper) :
    b.runActions actions deeper w = b.runActions actions depth w :=
  runActionsWith_of_allCalls (answers_toolsWithin h) hfits

/-! ## Moments -/

/-- What happens with the batch in the run of a job, where `inner` is what happens in a call. -/
def jobMoments (inner : BuiltinCall (BatchWorld σ) → List Moment) (tools : Tools (BatchWorld σ))
    (job : Job) (w : BatchWorld σ) : List Moment :=
  (job.session.calls tools job.script w).flatMap inner ++
    [ending tools job w (job.session.runScript tools job.script w).world]

/-- What happens with the batch in the turn of an action. -/
def turnMoments (b : Batch σ) (inner : BuiltinCall (BatchWorld σ) → List Moment)
    (tools : Tools (BatchWorld σ)) (turn : String × BatchWorld σ) : List Moment :=
  let start := b.startJob turn.1 turn.2
  b.starting turn.1 turn.2 ::
    match start.value with
    | .ok job => jobMoments inner tools job start.world
    | .error _ => []

/-- What happens with the batch in a run of actions with these tools. -/
def actionMoments (b : Batch σ) (inner : BuiltinCall (BatchWorld σ) → List Moment)
    (tools : Tools (BatchWorld σ)) (actions : List String) (w : BatchWorld σ) : List Moment :=
  (b.turns tools actions w).flatMap (b.turnMoments inner tools)

/-- What happens with the batch in a call, with others nested `depth` deep in it. -/
def callMoments (b : Batch σ) : Nat → BuiltinCall (BatchWorld σ) → List Moment
  | 0, _ => []
  | depth + 1, c =>
    match actionsOf c.world.batch c.args with
    | .ok actions => b.actionMoments (b.callMoments depth) (b.toolsWithin depth) actions c.world
    | .error _ => []

/-- What happens with the batch in the run of a job. -/
def momentsOfJob (b : Batch σ) (depth : Nat) (job : Job) (w : BatchWorld σ) : List Moment :=
  jobMoments (b.callMoments depth) (b.toolsWithin depth) job w

/-- What happens with the batch in a run of actions. -/
def momentsOfActions (b : Batch σ) (depth : Nat) (actions : List String) (w : BatchWorld σ) :
    List Moment :=
  b.actionMoments (b.callMoments depth) (b.toolsWithin depth) actions w

/-- The log leads to this state, with these jobs open and with this registry. -/
structure Stage (b : Batch σ) (registry : Option Registry) (jobs : List Job) (log : List Moment)
    (s : BatchState) : Prop where
  reached : Reached b log
  state : b.stateAfter log = s
  jobs : openJobs log = jobs
  registry : s.registry = registry

/-- Every call leads from a stage to one with the same jobs. -/
def Keeps (b : Batch σ) (tools : Tools (BatchWorld σ))
    (inner : BuiltinCall (BatchWorld σ) → List Moment) : Prop :=
  ∀ c : BuiltinCall (BatchWorld σ), c.builtin ∈ tools.builtins → ∀ registry jobs log,
    Stage b registry jobs log c.world.batch →
      Stage b registry jobs (log ++ inner c) c.done.world.batch

variable {registry : Option Registry} {jobs : List Job} {log : List Moment} {job : Job}
  {action : String} {inner : BuiltinCall (BatchWorld σ) → List Moment}

theorem Stage.starting_ok (h : Stage b registry jobs log w.batch)
    (hstart : (b.startJob action w).value = .ok job) :
    Stage b registry (job :: jobs) (log ++ [b.starting action w])
      (b.startJob action w).world.batch := by
  have hmoment : b.starting action w = ⟨.started job, (b.startJob action w).world.batch⟩ := by
    simp only [starting, hstart]
  refine ⟨h.reached.next (.start action h.state.symm), ?_, ?_, ?_⟩
  · rw [stateAfter_concat, hmoment]
  · rw [openJobs_concat, hmoment, h.jobs]
    rfl
  · exact (registry_startJob b action w).trans h.registry

theorem Stage.starting_error (h : Stage b registry jobs log w.batch) {failure : Failure}
    (hstart : (b.startJob action w).value = .error failure) :
    Stage b registry jobs (log ++ [b.starting action w]) (b.startJob action w).world.batch := by
  have hmoment :
      b.starting action w = ⟨.refused action failure, (b.startJob action w).world.batch⟩ := by
    simp only [starting, hstart]
  refine ⟨h.reached.next (.start action h.state.symm), ?_, ?_, ?_⟩
  · rw [stateAfter_concat, hmoment]
  · rw [openJobs_concat, hmoment, h.jobs]
    rfl
  · exact (registry_startJob b action w).trans h.registry

/-- The end of a job, after what was called in its script. -/
theorem Stage.run (h : Stage b registry jobs log w.batch) (hopen : job ∈ jobs)
    (hspares : tools.launcher.Spares BatchWorld.batch) (hinner : Keeps b tools inner) :
    Stage b registry (jobs.erase job) (log ++ jobMoments inner tools job w)
      (runJobWith tools job w).world.batch := by
  have hscript := job.session.runScript_calls hspares
    (I := fun s log => Stage b registry jobs log s)
    (fun c hc log hbefore => hinner c hc registry jobs log hbefore) job.script h
  rw [jobMoments, ← List.append_assoc, runJobWith_apply]
  refine ⟨hscript.reached.next ?_, ?_, ?_, ?_⟩
  · exact .finish (by rw [hscript.jobs]; exact hopen) tools w hscript.state.symm
  · rw [stateAfter_concat]
    rfl
  · rw [openJobs_concat, hscript.jobs]
    rfl
  · dsimp only
    rw [finish_state]
    split <;> exact hscript.registry

/-- The turn of an action leaves the open jobs as they were. -/
theorem Stage.turn (h : Stage b registry jobs log w.batch)
    (hspares : tools.launcher.Spares BatchWorld.batch) (hinner : Keeps b tools inner)
    (action : String) :
    Stage b registry jobs (log ++ b.turnMoments inner tools (action, w))
      (b.afterTurn tools action w).batch := by
  rw [turnMoments, afterTurn, List.append_cons]
  cases hstart : (b.startJob action w).value with
  | error failure => simpa [hstart] using h.starting_error hstart
  | ok job =>
      have hran := (h.starting_ok hstart).run List.mem_cons_self hspares hinner
      simpa [hstart] using hran

theorem Stage.actions (h : Stage b registry jobs log w.batch)
    (hspares : tools.launcher.Spares BatchWorld.batch) (hinner : Keeps b tools inner)
    (actions : List String) :
    Stage b registry jobs (log ++ b.actionMoments inner tools actions w)
      (b.runActionsWith tools actions w).world.batch :=
  runActionsWith_turns (I := fun w log => Stage b registry jobs log w.batch)
    (fun action _ _ hbefore => hbefore.turn hspares hinner action) actions h

/-- At every depth, calls keep the open jobs. -/
theorem keeps_callMoments (b : Batch σ) (depth : Nat) :
    Keeps b (b.toolsWithin depth) (b.callMoments depth) := by
  induction depth with
  | zero =>
      intro c hc registry jobs log h
      rw [callMoments, List.append_nil, BuiltinCall.done, invoke_toolsWithin_zero hc]
      exact h
  | succ depth ih =>
      intro c hc registry jobs log h
      rw [callMoments, BuiltinCall.done, eq_runActionsBuiltin hc, world_runActionsBuiltin]
      cases hactions : actionsOf c.world.batch c.args with
      | error failure => simpa [hactions] using h
      | ok actions => exact h.actions (b.spares_toolsWithin depth) ih actions

/-- A run of a job goes on from any log in which the job is open. -/
theorem Stage.momentsOfJob (h : Stage b registry jobs log w.batch) (hopen : job ∈ jobs)
    (depth : Nat) :
    Stage b registry (jobs.erase job) (log ++ b.momentsOfJob depth job w)
      (runJobWith (b.toolsWithin depth) job w).world.batch :=
  h.run hopen (b.spares_toolsWithin depth) (b.keeps_callMoments depth)

/-- A run of actions goes on from any log, and leaves the open jobs as they were. -/
theorem Stage.momentsOfActions (h : Stage b registry jobs log w.batch) (depth : Nat)
    (actions : List String) :
    Stage b registry jobs (log ++ b.momentsOfActions depth actions w)
      (b.runActionsWith (b.toolsWithin depth) actions w).world.batch :=
  h.actions (b.spares_toolsWithin depth) (b.keeps_callMoments depth) actions

theorem Reached.stage (h : Reached b log) :
    Stage b (b.stateAfter log).registry (openJobs log) log (b.stateAfter log) :=
  ⟨h, rfl, rfl, rfl⟩

/-- Runs of jobs and of actions go on from the log, with all that happens inside them, to any
depth. -/
structure Extends (b : Batch σ) (log : List Moment) : Prop where
  job : ∀ job ∈ openJobs log, ∀ depth, ∀ w : BatchWorld σ, w.batch = b.stateAfter log →
    let later := log ++ b.momentsOfJob depth job w
    Reached b later ∧ b.stateAfter later = (b.runJob job depth w).world.batch ∧
      openJobs later = (openJobs log).erase job
  actions : ∀ actions depth, ∀ w : BatchWorld σ, w.batch = b.stateAfter log →
    let later := log ++ b.momentsOfActions depth actions w
    Reached b later ∧ b.stateAfter later = (b.runActions actions depth w).world.batch ∧
      openJobs later = openJobs log

theorem Reached.runs (h : Reached b log) : b.Extends log := by
  refine ⟨fun job hopen depth w hw => ?_, fun actions depth w hw => ?_⟩
  · have hstage := h.stage
    rw [← hw] at hstage
    have hran := hstage.momentsOfJob hopen depth
    exact ⟨hran.reached, hran.state, hran.jobs⟩
  · have hstage := h.stage
    rw [← hw] at hstage
    have hran := hstage.momentsOfActions depth actions
    exact ⟨hran.reached, hran.state, hran.jobs⟩

/-! ## Chains -/

/-- The jobs that are open inside one another at a point of the run of `outermost` that begins in
the world `start`: those inside it, the innermost first, and the world in which the innermost
begins to run. Each was started by a call in the script of the one around it. Others may be nested
`depth` deep in the innermost. -/
inductive Chain (b : Batch σ) (limit : Nat) (outermost : Job) (start : BatchWorld σ) :
    Nat → List Job → BatchWorld σ → Prop
  | start : Chain b limit outermost start limit [] start
  | call {depth : Nat} {nested : List Job} {w : BatchWorld σ} {c : BuiltinCall (BatchWorld σ)}
    {actions : List String} {turn : String × BatchWorld σ} {inner : Job}
    (hchain : Chain b limit outermost start (depth + 1) nested w)
    (hcall : c ∈ (nested.headD outermost).session.calls (b.toolsWithin (depth + 1))
      (nested.headD outermost).script w)
    (hactions : actionsOf c.world.batch c.args = .ok actions)
    (hturn : turn ∈ b.turns (b.toolsWithin depth) actions c.world)
    (hstart : (b.startJob turn.1 turn.2).value = .ok inner) :
    Chain b limit outermost start depth (inner :: nested) (b.startJob turn.1 turn.2).world

variable {limit depth : Nat} {outermost : Job} {start : BatchWorld σ} {nested : List Job}

/-- The jobs of a chain are open, before those that were open at its start. -/
theorem Chain.stage (h : Chain b limit outermost start depth nested w)
    (hstart : Stage b registry jobs log start.batch) :
    ∃ log, Stage b registry (nested ++ jobs) log w.batch := by
  induction h with
  | start => exact ⟨log, hstart⟩
  | @call depth nested w c actions turn inner _ hcall hactions hturn hjob ih =>
      -- Both the calls before `c` and the turns before `turn` leave the chain as it was.
      have hcalls := Session.forall_calls (b.spares_toolsWithin (depth + 1))
        (I := fun s => ∃ log, Stage b registry (nested ++ jobs) log s)
        (fun c hc hbefore => by
          obtain ⟨log, hlog⟩ := hbefore
          exact ⟨_, b.keeps_callMoments (depth + 1) c hc _ _ log hlog⟩)
        _ _ ih c hcall
      have hturns := forall_turns
        (I := fun w => ∃ log, Stage b registry (nested ++ jobs) log w.batch)
        (fun action w hbefore => by
          obtain ⟨log, hlog⟩ := hbefore
          exact ⟨_, hlog.turn (b.spares_toolsWithin depth) (b.keeps_callMoments depth) action⟩)
        actions hcalls.2 turn hturn
      obtain ⟨log, hlog⟩ := hturns
      exact ⟨_, hlog.starting_ok hjob⟩

/-! ## An inner action, and an outer one -/

/-- A host without programs and files. -/
def blank : Host Unit where
  start _ := pure (.ok Exit.success)
  capture _ := pure (.error .commandNotFound)
  readText _ := pure (.error .notText)
  appendText _ _ := pure (.ok ())
  removeTree _ := pure (.ok ())
  makeDirectories _ := pure (.ok ())

/-- A batch of actions that may run others. -/
def composite : Batch Unit := ⟨⟨"/build", false, false, true, default⟩, Bindings.empty, blank⟩

/-- An action that binds a name, one that runs it, and one that comes after. -/
def compositeActions : Registry :=
  Registry.ofPrimary (Section.ofDefinitions
    [("inner", [.plain (.line "FOO=1")]), ("outer", [.plain (.line "run-actions inner")]),
      ("last", [.plain (.line "true")])])

/-- The batch when it has its registry. -/
def compositeLog : List Moment :=
  [loading unnamedSource compositeActions ⟨(), BatchState.start composite.config⟩]

/-- The world in which its actions run. -/
def compositeWorld : BatchWorld Unit := ⟨(), composite.stateAfter compositeLog⟩

theorem reached_compositeLog : Reached composite compositeLog :=
  Reached.start.next (.load unnamedSource compositeActions rfl)

/-- The log of a run of its actions. Its actions run others, which run none. -/
def compositeRun (actions : List String) : List Moment :=
  compositeLog ++ composite.momentsOfActions 1 actions compositeWorld

theorem reached_compositeRun (actions : List String) : Reached composite (compositeRun actions) :=
  (reached_compositeLog.runs.actions actions 1 compositeWorld rfl).1

end Batch

end ScriptRunner
