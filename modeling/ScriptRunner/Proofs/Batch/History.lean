import Mathlib.Data.List.Induction
import Mathlib.Data.List.Nodup
import ScriptRunner.Proofs.Batch.Operations

/-!
# ScriptRunner.Proofs.Batch.History

What happens with a batch, in any order.

A log has one `Moment` for each thing that is done with a batch: the `Deed`, and the state after
it. `Batch.Reached` are the logs that a batch can have. Any number of jobs may be open at a time,
and anything may happen between the start of a job and its end:

- a step is tied to the one before it by the state of the batch alone, and the world may be any
  other by then;
- the session of a job may run its script with any tools over any world, while other jobs start
  and end.

The log says what the state is (`BatchState.Follows`). One step keeps this (`Next.follows`), and so
does a whole log (`Reached.follows`).
-/

namespace ScriptRunner

/-! ## Logs -/

/-- What is done with a batch, and what comes of it. -/
inductive Deed
  | loaded (answer : Except Failure Unit)
  | started (job : Job)
  /-- An action that did not start. -/
  | refused (action : String) (failure : Failure)
  /-- A session that is made for no action. -/
  | made (session : Session)
  | unmade (failure : Failure)
  /-- A job that is given up before it ran. -/
  | dropped (job : Job)
  /-- A job that has run: its session at the end, the bindings that its script made, and its
  result. -/
  | ended (job : Job) (final : Session) (bound : List Binding) (result : Except Failure Unit)

namespace Deed

/-- The job that starts. -/
def started? : Deed → Option Job
  | started job => some job
  | _ => none

/-- The session that is new. -/
def session? : Deed → Option Session
  | started job => some job.session
  | made session => some session
  | _ => none

/-- The state that is left to later actions. -/
def left? : Deed → Option SessionState
  | ended _ final _ (.ok ()) => some final.state
  | _ => none

/-- The bindings that a script has made. -/
def bound : Deed → List Binding
  | ended _ _ bound _ => bound
  | _ => []

theorem started?_eq_some {deed : Deed} {job : Job} (h : deed.started? = some job) :
    deed = started job := by
  cases deed with
  | started other => exact congrArg started (Option.some.inj h)
  | _ => cases h

theorem left?_eq_some {deed : Deed} {s : SessionState} (h : deed.left? = some s) :
    ∃ job final, deed = ended job final deed.bound (.ok ()) ∧ final.state = s := by
  cases deed with
  | ended job final bound result =>
      cases result with
      | ok _ => exact ⟨job, final, rfl, Option.some.inj h⟩
      | error failure => cases h
  | _ => cases h

/-- The open jobs afterwards. -/
def openAfter (jobs : List Job) : Deed → List Job
  | started job => job :: jobs
  | dropped job => jobs.erase job
  | ended job _ _ _ => jobs.erase job
  | _ => jobs

/-- The names of running actions afterwards. -/
def runningAfter (names : List String) : Deed → List String
  | started job => job.name :: names
  | dropped job => names.filter (· != job.name)
  | ended job _ _ _ => names.filter (· != job.name)
  | _ => names

/-- The job that has to be open before. -/
def closes? : Deed → Option Job
  | dropped job => some job
  | ended job _ _ _ => some job
  | _ => none

theorem runningAfter_closes {deed : Deed} {job : Job} (h : deed.closes? = some job)
    (names : List String) : deed.runningAfter names = names.filter (· != job.name) := by
  cases deed with
  | dropped other => rw [← Option.some.inj h, runningAfter]
  | ended other _ _ _ => rw [← Option.some.inj h, runningAfter]
  | _ => cases h

end Deed

/-- Something done with a batch, and the state that the batch is in afterwards. -/
structure Moment where
  deed : Deed
  state : BatchState

/-- The jobs that have started, and have neither ended nor been dropped. -/
def openJobs (log : List Moment) : List Job := log.foldl (fun jobs m => m.deed.openAfter jobs) []

/-- The state that the last successful action left. -/
def lastLeft (log : List Moment) : Option SessionState :=
  (log.filterMap (fun m => m.deed.left?)).getLast?

@[simp] theorem openJobs_nil : openJobs [] = [] := rfl

@[simp] theorem openJobs_concat (log : List Moment) (m : Moment) :
    openJobs (log ++ [m]) = m.deed.openAfter (openJobs log) := by
  simp [openJobs]

@[simp] theorem lastLeft_nil : lastLeft [] = none := rfl

/-- What is left in the end is what was left last. -/
theorem lastLeft_append (log later : List Moment) :
    lastLeft (log ++ later) = (lastLeft later).or (lastLeft log) := by
  rw [lastLeft, List.filterMap_append, List.getLast?_append, lastLeft, lastLeft]

@[simp] theorem lastLeft_concat (log : List Moment) (m : Moment) :
    lastLeft (log ++ [m]) = m.deed.left?.or (lastLeft log) := by
  rw [lastLeft_append]
  cases hleft : m.deed.left? <;> simp [lastLeft, hleft]

/-- Of jobs with different names, taking one away is taking its name away. -/
theorem names_erase {jobs : List Job} (hnames : (jobs.map Job.name).Nodup) {job : Job}
    (hmem : job ∈ jobs) :
    (jobs.erase job).map Job.name = (jobs.map Job.name).filter (· != job.name) := by
  rw [(List.Nodup.of_map _ hnames).erase_eq_filter, List.filter_map]
  congr 1
  refine List.filter_congr fun other hother => ?_
  by_cases hsame : other = job
  · simp [hsame]
  · have hname : other.name ≠ job.name :=
      fun heq => hsame (List.inj_on_of_nodup_map hnames hother hmem heq)
    rw [bne_iff_ne.2 hsame]
    exact (bne_iff_ne.2 hname).symm

namespace Batch

variable {σ : Type} (b : Batch σ)

/-- The state of a batch after what is in the log. -/
def stateAfter (log : List Moment) : BatchState :=
  (log.getLast?.map Moment.state).getD (BatchState.start b.config)

@[simp] theorem stateAfter_nil : b.stateAfter [] = BatchState.start b.config := rfl

@[simp] theorem stateAfter_concat (log : List Moment) (m : Moment) :
    b.stateAfter (log ++ [m]) = m.state := by
  simp [stateAfter]

/-! ## What can be done -/

/-- Taking a registry. A registry that is read from a file is taken in the same way. -/
def loading (source : String) (registry : Registry) (w : BatchWorld σ) : Moment :=
  let done := install source registry w
  ⟨.loaded done.value, done.world.batch⟩

/-- Starting an action. -/
def starting (action : String) (w : BatchWorld σ) : Moment :=
  let done := b.startJob action w
  match done.value with
  | .ok job => ⟨.started job, done.world.batch⟩
  | .error failure => ⟨.refused action failure, done.world.batch⟩

/-- Making a session for no action. -/
def creating (w : BatchWorld σ) : Moment :=
  let done := b.createSession w
  match done.value with
  | .ok session => ⟨.made session, done.world.batch⟩
  | .error failure => ⟨.unmade failure, done.world.batch⟩

/-- Giving up a job. -/
def dropping (job : Job) (w : BatchWorld σ) : Moment := ⟨.dropped job, (dropJob job w).world.batch⟩

/-- The end of a job whose script is run in the world `v` and whose action ends in the world `w`. -/
def ending (tools : Tools (BatchWorld σ)) (job : Job) (v w : BatchWorld σ) : Moment :=
  let ran := job.session.runScript tools job.script v
  ⟨.ended job ran.value.1 (job.session.bindings tools job.script v) ran.value.2,
    (finish job.name ran.value.1 ran.value.2 w).world.batch⟩

/-- What may be done next. -/
inductive Next (b : Batch σ) (log : List Moment) : Moment → Prop
  | load (source : String) (registry : Registry) {w : BatchWorld σ}
    (hw : w.batch = b.stateAfter log) : Next b log (loading source registry w)
  | start (action : String) {w : BatchWorld σ} (hw : w.batch = b.stateAfter log) :
    Next b log (b.starting action w)
  | create {w : BatchWorld σ} (hw : w.batch = b.stateAfter log) : Next b log (b.creating w)
  | drop {job : Job} (hopen : job ∈ openJobs log) {w : BatchWorld σ}
    (hw : w.batch = b.stateAfter log) : Next b log (dropping job w)
  /-- The script may have been run at any time and with any tools. -/
  | finish {job : Job} (hopen : job ∈ openJobs log) (tools : Tools (BatchWorld σ))
    (v : BatchWorld σ) {w : BatchWorld σ} (hw : w.batch = b.stateAfter log) :
    Next b log (ending tools job v w)

/-- The logs that a batch can have. -/
inductive Reached (b : Batch σ) : List Moment → Prop
  | start : Reached b []
  | next {log : List Moment} {m : Moment} : Reached b log → Next b log m → Reached b (log ++ [m])

variable {b : Batch σ} {log past mid rest : List Moment} {m next : Moment} {w : BatchWorld σ}

theorem Reached.of_concat (h : Reached b (log ++ [m])) : Reached b log ∧ Next b log m := by
  generalize hlog : log ++ [m] = later at h
  cases h with
  | start => simp at hlog
  | next hreached hnext =>
      obtain ⟨rfl, hlast⟩ := List.append_inj' hlog rfl
      obtain rfl := List.singleton_inj.1 hlast
      exact ⟨hreached, hnext⟩

/-- The beginning of a log is a log. -/
theorem Reached.of_append (h : Reached b (past ++ rest)) : Reached b past := by
  induction rest using List.reverseRecOn with
  | nil => simpa using h
  | append_singleton rest m ih =>
      rw [← List.append_assoc] at h
      exact ih h.of_concat.1

/-- Every moment of a log is a step from what was before it. -/
theorem Reached.split (h : Reached b (past ++ m :: rest)) : Reached b past ∧ Next b past m := by
  rw [List.append_cons] at h
  exact h.of_append.of_concat

theorem Reached.split_after (h : Reached b (past ++ m :: (mid ++ next :: rest))) :
    Reached b (past ++ m :: mid) ∧ Next b (past ++ m :: mid) next := by
  rw [← List.cons_append, ← List.append_assoc] at h
  exact h.split

/-! ## What a step does -/

theorem loading_state (source : String) (registry : Registry) (w : BatchWorld σ) :
    (loading source registry w).state = w.batch ∨
      (loading source registry w).state = { w.batch with registry := some registry } := by
  rw [loading, install, Effect.bind_apply, state_apply]
  dsimp only
  cases w.batch.registry with
  | some _ => exact Or.inl rfl
  | none => exact Or.inr rfl

theorem starting_cases (b : Batch σ) (action : String) (w : BatchWorld σ) :
    (action ∈ w.batch.running ∧
      b.starting action w = ⟨.refused action (.actionRunning action), w.batch⟩) ∨
    (action ∉ w.batch.running ∧ ∃ fault,
      b.starting action w = ⟨.refused action (.file fault), w.batch⟩) ∨
    (action ∉ w.batch.running ∧ ∃ directory,
      b.starting action w =
        ⟨.started (b.jobOf w.batch action),
          { acquire action w.batch with directory := directory }⟩) := by
  rw [starting]
  obtain ⟨hrunning, hdone⟩ | ⟨hfree, fault, -, hdone⟩ | ⟨hfree, -, -, hdone⟩ :=
    b.startJob_cases action w
  · exact Or.inl ⟨hrunning, by rw [hdone]⟩
  · exact Or.inr (Or.inl ⟨hfree, fault, by rw [hdone]⟩)
  · exact Or.inr (Or.inr ⟨hfree, (b.prepared w).value.1, by rw [hdone]⟩)

theorem creating_cases (b : Batch σ) (w : BatchWorld σ) :
    (∃ failure, b.creating w = ⟨.unmade failure, w.batch⟩) ∨
      ∃ directory, b.creating w =
        ⟨.made (b.freshSession w.batch), { w.batch with directory := directory }⟩ := by
  rw [creating]
  cases hprepared : (b.prepared w).value.2 with
  | error failure => exact Or.inl ⟨failure, by rw [createSession_error hprepared]⟩
  | ok _ => exact Or.inr ⟨(b.prepared w).value.1, by rw [createSession_ok hprepared]⟩

/-- What the end of an action does to the state of the batch. -/
theorem finish_state (name : String) (final : Session) (result : Except Failure Unit)
    (w : BatchWorld σ) :
    (finish name final result w).world.batch =
      match result with
      | .ok () => release name { w.batch with lastState := some final.state }
      | .error _ => release name w.batch := by
  cases result with
  | ok _ => rw [finish_ok]
  | error failure => rw [finish_error]

/-- What a moment can be, after a state with these open jobs. -/
structure Lawful (b : Batch σ) (jobs : List Job) (s : BatchState) (m : Moment) : Prop where
  /-- Only an action that ends well leaves a state. -/
  lastState : m.state.lastState = m.deed.left?.or s.lastState
  /-- A name is taken when its action starts, and freed when the action ends or is dropped. -/
  running : m.state.running = m.deed.runningAfter s.running
  /-- A new session starts from what the batch remembers. -/
  session : ∀ t, m.deed.session? = some t → t = b.freshSession s
  /-- A job that starts has a name that was free. -/
  free : ∀ job, m.deed = .started job → job.name ∉ s.running
  /-- An action is refused as running exactly where it is. -/
  refused : ∀ action failure, m.deed = .refused action failure →
    (failure = .actionRunning action ↔ action ∈ s.running)
  /-- A job that is closed was open. -/
  closes : ∀ job, m.deed.closes? = some job → job ∈ jobs
  /-- A job that has ended has run its script. -/
  ended : ∀ job final bound result, m.deed = .ended job final bound result →
    ∃ (tools : Tools (BatchWorld σ)) (v : BatchWorld σ),
      (job.session.runScript tools job.script v).value = (final, result) ∧
        job.session.bindings tools job.script v = bound

variable {jobs : List Job}

theorem lawful_loading (b : Batch σ) (source : String) (registry : Registry) (w : BatchWorld σ) :
    b.Lawful jobs w.batch (loading source registry w) := by
  obtain hstate | hstate := loading_state source registry w
  · exact ⟨by rw [hstate]; rfl, by rw [hstate]; rfl, nofun, nofun, nofun, nofun, nofun⟩
  · exact ⟨by rw [hstate]; rfl, by rw [hstate]; rfl, nofun, nofun, nofun, nofun, nofun⟩

theorem lawful_starting (b : Batch σ) (action : String) (w : BatchWorld σ) :
    b.Lawful jobs w.batch (b.starting action w) := by
  obtain ⟨hrunning, hm⟩ | ⟨hfree, fault, hm⟩ | ⟨hfree, directory, hm⟩ := b.starting_cases action w
  · rw [hm]
    refine ⟨rfl, rfl, nofun, nofun, ?_, nofun, nofun⟩
    rintro _ _ ⟨⟩
    exact iff_of_true rfl hrunning
  · rw [hm]
    refine ⟨rfl, rfl, nofun, nofun, ?_, nofun, nofun⟩
    rintro _ _ ⟨⟩
    exact iff_of_false nofun hfree
  · rw [hm]
    refine ⟨rfl, rfl, ?_, ?_, nofun, nofun, nofun⟩
    · rintro _ ⟨⟩
      rfl
    · rintro _ ⟨⟩
      exact hfree

theorem lawful_creating (b : Batch σ) (w : BatchWorld σ) :
    b.Lawful jobs w.batch (b.creating w) := by
  obtain ⟨failure, hm⟩ | ⟨directory, hm⟩ := b.creating_cases w
  · rw [hm]
    exact ⟨rfl, rfl, nofun, nofun, nofun, nofun, nofun⟩
  · rw [hm]
    refine ⟨rfl, rfl, ?_, nofun, nofun, nofun, nofun⟩
    rintro _ ⟨⟩
    rfl

theorem lawful_dropping (b : Batch σ) {job : Job} (hopen : job ∈ jobs) (w : BatchWorld σ) :
    b.Lawful jobs w.batch (dropping job w) := by
  refine ⟨rfl, rfl, nofun, nofun, nofun, ?_, nofun⟩
  rintro _ ⟨⟩
  exact hopen

theorem lawful_ending (b : Batch σ) {job : Job} (hopen : job ∈ jobs)
    (tools : Tools (BatchWorld σ)) (v w : BatchWorld σ) :
    b.Lawful jobs w.batch (ending tools job v w) := by
  refine ⟨?_, ?_, nofun, nofun, nofun, ?_, ?_⟩
  · rw [ending, finish_state]
    cases (job.session.runScript tools job.script v).value.2 <;> rfl
  · rw [ending, finish_state]
    cases (job.session.runScript tools job.script v).value.2 <;> rfl
  · rintro _ ⟨⟩
    exact hopen
  · rintro _ _ _ _ ⟨⟩
    exact ⟨tools, v, rfl, rfl⟩

theorem Next.lawful (h : Next b log m) : b.Lawful (openJobs log) (b.stateAfter log) m := by
  cases h with
  | load source registry hw => exact hw ▸ b.lawful_loading source registry _
  | start action hw => exact hw ▸ b.lawful_starting action _
  | create hw => exact hw ▸ b.lawful_creating _
  | drop hopen hw => exact hw ▸ b.lawful_dropping hopen _
  | finish hopen tools v hw => exact hw ▸ b.lawful_ending hopen tools v _

end Batch

/-! ## What the log says -/

/-- The state is what the log says. -/
structure BatchState.Follows (log : List Moment) (s : BatchState) : Prop where
  running : s.running = (openJobs log).map Job.name
  distinct : s.running.Nodup
  lastState : s.lastState = lastLeft log

namespace Batch

variable {σ : Type} {b : Batch σ} {log : List Moment} {m : Moment}

/-- Names of open jobs stay different, and stay the running ones. -/
theorem Lawful.names {jobs : List Job} {s : BatchState} (h : b.Lawful jobs s m)
    (hrunning : s.running = jobs.map Job.name) (hdistinct : s.running.Nodup) :
    m.state.running = (m.deed.openAfter jobs).map Job.name ∧ m.state.running.Nodup := by
  rw [h.running]
  rw [hrunning] at hdistinct ⊢
  cases hdeed : m.deed with
  | started job =>
      have hfree := h.free job hdeed
      rw [hrunning] at hfree
      exact ⟨rfl, List.nodup_cons.2 ⟨hfree, hdistinct⟩⟩
  | dropped job =>
      have hopen := h.closes job (by rw [hdeed]; rfl)
      exact ⟨(names_erase hdistinct hopen).symm, hdistinct.filter _⟩
  | ended job _ _ _ =>
      have hopen := h.closes job (by rw [hdeed]; rfl)
      exact ⟨(names_erase hdistinct hopen).symm, hdistinct.filter _⟩
  | _ => exact ⟨rfl, hdistinct⟩

/-- One step more. -/
theorem Next.follows (h : Next b log m) (hbefore : (b.stateAfter log).Follows log) :
    m.state.Follows (log ++ [m]) := by
  obtain ⟨hrunning, hdistinct⟩ := h.lawful.names hbefore.running hbefore.distinct
  refine ⟨?_, hdistinct, ?_⟩
  · rw [openJobs_concat]
    exact hrunning
  · rw [h.lawful.lastState, hbefore.lastState, lastLeft_concat]

/-- The state of a batch is what its log says. -/
theorem Reached.follows (h : Reached b log) : (b.stateAfter log).Follows log := by
  induction h with
  | start => exact ⟨rfl, List.nodup_nil, rfl⟩
  | next _ hnext ih =>
      rw [stateAfter_concat]
      exact hnext.follows ih

end Batch

end ScriptRunner
