import ScriptRunner.Proofs.Batch.Course

/-!
# ScriptRunner.Proofs.Batch.Trail

What is done with a batch from outside, one operation after the other.

A `Trail` is a list of operations, each with the world that it finds, from one state of a batch to
another. Operations are tied together by the state of the batch alone: between two of them the
files, and whatever else is in the world, may change in any way, so every pattern of failures of the
host is part of some trail. Some notices are the batch's own: its reports, and what it asks for its
directory. Unless the host gives such notices too (`Host.Reserved`), those of a trail are those of
its operations (`Batch.told`).

Runs are no operations. A `Passage` is a trail on which nothing happens to the world between the
operations but what programs do. What a run of a job or of actions does, with all runs that are
nested in it, is a passage of starts and ends of actions (`Batch.Tracks`). This goes through `pure`
and `>>=`, and so through the text of the programs that run scripts. A law of trails is thereby a
law of runs (`Batch.Trail.continues`).
-/

namespace ScriptRunner

/-! ## The notices of a batch -/

/-- Whether a notice is what a batch asks for its directory. -/
def Notice.isRequest : Notice → Bool
  | .removal _ => true
  | .creation _ => true
  | _ => false

/-- Whether a notice is a batch's own. -/
def Notice.isOwn (n : Notice) : Bool := n.isRequest || n.batch?.isSome

/-- What a batch asks for its directory, in order. -/
def directoryRequests (notices : List Notice) : List Notice := notices.filter Notice.isRequest

/-- The notices that are a batch's own, in order. -/
def ownNotices (notices : List Notice) : List Notice := notices.filter Notice.isOwn

@[simp] theorem directoryRequests_nil : directoryRequests [] = [] := rfl

@[simp] theorem directoryRequests_append (a c : List Notice) :
    directoryRequests (a ++ c) = directoryRequests a ++ directoryRequests c :=
  List.filter_append a c

@[simp] theorem directoryRequests_removal (path : Path) (rest : List Notice) :
    directoryRequests (.removal path :: rest) = .removal path :: directoryRequests rest := rfl

@[simp] theorem directoryRequests_creation (path : Path) (rest : List Notice) :
    directoryRequests (.creation path :: rest) = .creation path :: directoryRequests rest := rfl

@[simp] theorem directoryRequests_batch (event : BatchEvent) (rest : List Notice) :
    directoryRequests (.batch event :: rest) = directoryRequests rest := rfl

@[simp] theorem ownNotices_nil : ownNotices [] = [] := rfl

@[simp] theorem ownNotices_append (a c : List Notice) :
    ownNotices (a ++ c) = ownNotices a ++ ownNotices c :=
  List.filter_append a c

/-- What a batch asks for and what it reports is among its own notices. -/
theorem directoryRequests_ownNotices (notices : List Notice) :
    directoryRequests (ownNotices notices) = directoryRequests notices := by
  rw [directoryRequests, ownNotices, List.filter_filter]
  refine List.filter_congr (fun n _ => ?_)
  cases hrequest : n.isRequest <;> simp [Notice.isOwn, hrequest]

theorem batchEvents_ownNotices (notices : List Notice) :
    batchEvents (ownNotices notices) = batchEvents notices := by
  induction notices with
  | nil => rfl
  | cons n rest ih =>
      cases n with
      | batch event => exact congrArg (event :: ·) ih
      | _ => exact ih

/-- No notice of the effect is a batch's own. -/
def Effect.Reserved {σ α : Type} (m : Effect σ α) : Prop :=
  Effect.Gives (fun n => n.isOwn = false) m

theorem Effect.Reserved.ownNotices_eq {σ α : Type} {m : Effect σ α} (h : m.Reserved) (w : σ) :
    ownNotices (m w).notices = [] :=
  List.filter_eq_nil_iff.2 (fun n hn => by simp [h w n hn])

theorem Effect.Reserved.directoryRequests_eq {σ α : Type} {m : Effect σ α} (h : m.Reserved)
    (w : σ) : directoryRequests (m w).notices = [] := by
  rw [← directoryRequests_ownNotices, h.ownNotices_eq]
  rfl

/-- The effect with another value in place of its own. -/
def Effect.giving {σ α β : Type} (m : Effect σ α) (f : α → β) : Effect σ β :=
  fun w => ⟨f (m w).value, (m w).world, (m w).notices⟩

/-- A host that leaves it to a batch to give the notices that are a batch's own. -/
structure Host.Reserved {σ : Type} (host : Host σ) : Prop where
  start : ∀ request, (host.start request).Reserved
  capture : ∀ request, (host.capture request).Reserved
  readText : ∀ path, (host.readText path).Reserved
  removeTree : ∀ path, (host.removeTree path).Reserved
  makeDirectories : ∀ path, (host.makeDirectories path).Reserved

theorem Notice.batch?_of_isOwn {n : Notice} (h : n.isOwn = false) : n.batch? = none := by
  rw [isOwn, Bool.or_eq_false_iff] at h
  exact Option.isSome_eq_false_iff.1 h.2 |> Option.isNone_iff_eq_none.1

theorem Host.Reserved.quiet {σ : Type} {host : Host σ} (h : host.Reserved) : host.Quiet where
  start request w n hn := Notice.batch?_of_isOwn (h.start request w n hn)
  capture request w n hn := Notice.batch?_of_isOwn (h.capture request w n hn)
  removeTree path w n hn := Notice.batch?_of_isOwn (h.removeTree path w n hn)
  makeDirectories path w n hn := Notice.batch?_of_isOwn (h.makeDirectories path w n hn)

namespace Batch

variable {σ α β : Type}

/-! ## Operations -/

/-- What can be asked of a batch, runs apart. -/
inductive Operation
  | load (registry : Registry)
  | loadFrom (path : Path)
  | parse (selectors : List String)
  | create
  | start (action : String)
  /-- A job is given up. -/
  | drop (job : Job)
  /-- The script of a job has run, with this session in the end and with this result. -/
  | finish (job : Job) (final : Session) (result : Except Failure Unit)

/-- Whether the operation is part of a run. -/
def Operation.isOfRun : Operation → Bool
  | .start _ => true
  | .finish _ _ _ => true
  | _ => false

/-- An operation, with the session that it makes, if it makes one. -/
def perform (b : Batch σ) : Operation → Effect (BatchWorld σ) (Except Failure (Option Session))
  | .load registry => (Batch.load registry).giving (Except.map (fun _ => none))
  | .loadFrom path => (b.loadFrom path).giving (Except.map (fun _ => none))
  | .parse selectors => (parseActions selectors).giving (Except.map (fun _ => none))
  | .create => b.createSession.giving (Except.map some)
  | .start action => (b.startJob action).giving (Except.map (fun job => some job.session))
  | .drop job => (dropJob job).giving (fun _ => .ok none)
  | .finish job final result => (Batch.finish job.name final result).giving (fun _ => .ok none)

/-- An operation in the world that it finds. -/
structure Step (σ : Type) where
  operation : Operation
  world : BatchWorld σ

namespace Step

/-- What comes of a step. -/
def done (b : Batch σ) (step : Step σ) : Done (BatchWorld σ) (Except Failure (Option Session)) :=
  b.perform step.operation step.world

/-- The session that a step makes, if it makes one. -/
def session? (b : Batch σ) (step : Step σ) : Option Session :=
  match (step.done b).value with
  | .ok session => session
  | .error _ => none

end Step

/-- The steps lead from one state of the batch to the other. -/
inductive Trail (b : Batch σ) : BatchState → List (Step σ) → BatchState → Prop
  | nil (s : BatchState) : Trail b s [] s
  | cons {s last : BatchState} {step : Step σ} {rest : List (Step σ)}
    (hfinds : step.world.batch = s) (hrest : Trail b (step.done b).world.batch rest last) :
    Trail b s (step :: rest) last

/-- The batch's own notices in these steps. -/
def told (b : Batch σ) (steps : List (Step σ)) : List Notice :=
  steps.flatMap (fun step => ownNotices (step.done b).notices)

variable {b : Batch σ} {s t u : BatchState} {past steps rest : List (Step σ)} {step : Step σ}

@[simp] theorem told_nil (b : Batch σ) : b.told [] = [] := rfl

@[simp] theorem told_append (b : Batch σ) (past rest : List (Step σ)) :
    b.told (past ++ rest) = b.told past ++ b.told rest :=
  List.flatMap_append

theorem told_cons (b : Batch σ) (step : Step σ) (rest : List (Step σ)) :
    b.told (step :: rest) = ownNotices (step.done b).notices ++ b.told rest :=
  List.flatMap_cons

theorem Trail.append (h : Trail b s past t) (hrest : Trail b t rest u) :
    Trail b s (past ++ rest) u := by
  induction h with
  | nil => exact hrest
  | cons hfinds _ ih => exact .cons hfinds (ih hrest)

theorem Trail.of_append (h : Trail b s (past ++ rest) u) :
    ∃ t, Trail b s past t ∧ Trail b t rest u := by
  induction past generalizing s with
  | nil => exact ⟨s, .nil s, h⟩
  | cons step past ih =>
      cases h with
      | cons hfinds hrest =>
          obtain ⟨t, hpast, hlater⟩ := ih hrest
          exact ⟨t, .cons hfinds hpast, hlater⟩

/-- A step finds the state that those before it lead to. -/
theorem Trail.split (h : Trail b s (past ++ step :: rest) u) :
    Trail b s past step.world.batch ∧ Trail b (step.done b).world.batch rest u := by
  obtain ⟨t, hpast, hlater⟩ := h.of_append
  cases hlater with
  | cons hfinds hrest => exact ⟨hfinds ▸ hpast, hrest⟩

/-! ## Following an effect -/

/-- From one world to another, there are these steps, and between them nothing but the programs that
the host starts. -/
inductive Passage (b : Batch σ) : BatchWorld σ → List (Step σ) → BatchWorld σ → Prop
  | nil (w : BatchWorld σ) : Passage b w [] w
  | start (request : Launch) {w last : BatchWorld σ} {steps : List (Step σ)}
    (hrest : Passage b ⟨(b.host.start request w.world).world, w.batch⟩ steps last) :
    Passage b w steps last
  | capture (request : Invocation) {w last : BatchWorld σ} {steps : List (Step σ)}
    (hrest : Passage b ⟨(b.host.capture request w.world).world, w.batch⟩ steps last) :
    Passage b w steps last
  | cons {step : Step σ} {rest : List (Step σ)} {last : BatchWorld σ}
    (hrest : Passage b (step.done b).world rest last) : Passage b step.world (step :: rest) last

variable {v w x : BatchWorld σ}

theorem Passage.append (h : Passage b v past w) (hrest : Passage b w rest x) :
    Passage b v (past ++ rest) x := by
  induction h with
  | nil => exact hrest
  | start request _ ih => exact .start request (ih hrest)
  | capture request _ ih => exact .capture request (ih hrest)
  | cons _ ih => exact .cons (ih hrest)

theorem Passage.single (b : Batch σ) (step : Step σ) :
    Passage b step.world [step] (step.done b).world :=
  .cons (.nil _)

/-- Programs have no way to the state of the batch. -/
theorem Passage.trail (h : Passage b w steps x) : Trail b w.batch steps x.batch := by
  induction h with
  | nil => exact .nil _
  | start _ _ ih => exact ih
  | capture _ _ ih => exact ih
  | cons _ ih => exact .cons rfl ih

/-- A dry run starts no programs. -/
theorem passage_start (b : Batch σ) (request : Launch) (w : BatchWorld σ) :
    Passage b w [] (b.launcher.start request w).world := by
  rw [launcher]
  cases b.config.dryRun with
  | true => exact .nil w
  | false => exact .start request (.nil _)

theorem passage_capture (b : Batch σ) (request : Invocation) (w : BatchWorld σ) :
    Passage b w [] (b.launcher.capture request w).world := by
  rw [launcher]
  cases b.config.dryRun with
  | true => exact .capture request (.nil _)
  | false => exact .capture request (.nil _)

/-- Programs have nothing to report about the batch, nor has the line that a dry run shows in place
of one. -/
theorem reserved_launcher (h : b.host.Reserved) :
    (∀ request, (b.launcher.start request).Reserved) ∧
      ∀ request, (b.launcher.capture request).Reserved := by
  rw [launcher]
  cases b.config.dryRun with
  | false =>
      exact ⟨fun request w => h.start request w.world, fun request w => h.capture request w.world⟩
  | true =>
      refine ⟨fun request w n hn => ?_, fun request w => h.capture request w.world⟩
      have hline : n ∈ [Notice.shell (.data request.line)] := hn
      rw [List.mem_singleton.1 hline]
      rfl

/-- What the effect does is what programs do, and some starts and ends of actions, one after the
other. Its own notices are those of these starts and ends. -/
def Tracks (b : Batch σ) (m : Effect (BatchWorld σ) α) : Prop :=
  ∀ w, ∃ steps, Passage b w steps (m w).world ∧ ownNotices (m w).notices = b.told steps ∧
    ∀ step ∈ steps, step.operation.isOfRun = true

namespace Tracks

/-- An effect that has nothing to do with the batch. -/
theorem of_reserved {m : Effect (BatchWorld σ) α} (hworld : ∀ w, Passage b w [] (m w).world)
    (h : m.Reserved) : b.Tracks m :=
  fun w => ⟨[], hworld w, h.ownNotices_eq w, by simp⟩

theorem pure (a : α) : b.Tracks (Pure.pure a) := of_reserved .nil (fun _ => by simp)

theorem bind {m : Effect (BatchWorld σ) α} {f : α → Effect (BatchWorld σ) β} (h : b.Tracks m)
    (hf : ∀ a, b.Tracks (f a)) : b.Tracks (m >>= f) := by
  intro w
  obtain ⟨steps, hpassage, htold, hrun⟩ := h w
  obtain ⟨later, hpassage', htold', hrun'⟩ := hf (m w).value (m w).world
  refine ⟨steps ++ later, hpassage.append hpassage', ?_, List.forall_mem_append.2 ⟨hrun, hrun'⟩⟩
  rw [Effect.bind_apply, told_append, ownNotices_append, htold, htold']

/-- An operation that is part of a run, whatever it gives. -/
theorem of_perform {m : Effect (BatchWorld σ) α} (op : Operation) (hop : op.isOfRun = true)
    (h : ∀ w, (b.perform op w).world = (m w).world ∧ (b.perform op w).notices = (m w).notices) :
    b.Tracks m := by
  intro w
  obtain ⟨hworld, hnotices⟩ := h w
  refine ⟨[⟨op, w⟩], ?_, ?_, by simpa using hop⟩
  · rw [← hworld]
    exact Passage.single b ⟨op, w⟩
  · rw [told_cons, told_nil, List.append_nil, Step.done, hnotices]

theorem startJob (b : Batch σ) (action : String) : b.Tracks (b.startJob action) :=
  of_perform (.start action) rfl (fun _ => ⟨rfl, rfl⟩)

theorem finish (b : Batch σ) (job : Job) (final : Session) (result : Except Failure Unit) :
    b.Tracks (Batch.finish job.name final result) :=
  of_perform (.finish job final result) rfl (fun _ => ⟨rfl, rfl⟩)

/-! ### Scripts -/

/-- Tools of the batch, whose builtins start and end actions and do nothing else. -/
structure Along (b : Batch σ) (tools : Tools (BatchWorld σ)) : Prop where
  launcher : tools.launcher = b.launcher
  builtins : ∀ builtin ∈ tools.builtins, ∀ args, b.Tracks (builtin.invoke args)

variable {tools : Tools (BatchWorld σ)}

theorem say (text : String) : b.Tracks (Session.say text) :=
  of_reserved .nil (fun _ => by simp [Session.say, Effect.report, Notice.isOwn, Notice.isRequest,
    Notice.batch?])

theorem conclude (policy : FailPolicy) (answer : Except Failure Exit) :
    b.Tracks (Session.conclude policy answer) := by
  refine of_reserved (fun w => ?_) (fun w n hn => ?_)
  · rw [Session.world_conclude]
    exact .nil w
  · rw [Session.notices_conclude] at hn
    obtain ⟨event, -, rfl⟩ := List.mem_map.1 hn
    rfl

variable (hhost : b.host.Reserved)

include hhost

theorem resolve (h : Along b tools) (s : Session) (entry : Entry) :
    b.Tracks (s.resolve tools.launcher entry) := by
  have hcapture : ∀ request, (tools.launcher.capture request).Reserved := by
    rw [h.launcher]
    exact (reserved_launcher hhost).2
  refine of_reserved (fun w => ?_) ?_
  · refine Session.resolve_keeps (fun request x hbefore => ?_) s entry (.nil w)
    rw [h.launcher]
    exact hbefore.append (b.passage_capture request x)
  · exact Session.gives_resolve s entry (fun _ => rfl) (fun _ => rfl) hcapture

theorem dispatch (h : Along b tools) (s : Session) (program : String) (resolved : Resolved)
    (input : Option String) : b.Tracks (s.dispatch tools program resolved input) := by
  rw [Session.dispatch, Session.runBuiltin?]
  by_cases hcd : program = changeDirectoryName
  · rw [if_pos hcd]
    exact pure _
  · rw [if_neg hcd]
    cases hbuiltin : tools.builtin? program with
    | some builtin =>
        have hmem : builtin ∈ tools.builtins := List.mem_of_find?_eq_some hbuiltin
        exact (h.builtins builtin hmem _).bind (fun _ => pure _)
    | none =>
        have hlaunch : b.Tracks (Effect.notify (.launch (s.launchOf program resolved input))) :=
          of_reserved .nil (fun _ => by simp [Notice.isOwn, Notice.isRequest, Notice.batch?])
        have hstart : b.Tracks (b.launcher.start (s.launchOf program resolved input)) :=
          of_reserved (b.passage_start _) ((reserved_launcher hhost).1 _)
        rw [h.launcher]
        exact hlaunch.bind (fun _ => hstart.bind (fun _ => pure _))

theorem run (h : Along b tools) (s : Session) (entry : Entry) : b.Tracks (s.run tools entry) := by
  rw [Session.run_eq]
  refine (resolve hhost h s.withPwd entry).bind (fun resolution => ?_)
  cases resolution with
  | command program resolved =>
      refine (say _).bind (fun _ => (dispatch hhost h _ program resolved _).bind (fun ended => ?_))
      exact (conclude _ ended.2).bind (fun _ => pure _)
  | _ => exact pure _

/-- What the entries of a script do, one after the other. -/
theorem runScript (h : Along b tools) (s : Session) (script : Script) :
    b.Tracks (s.runScript tools script) := by
  induction script generalizing s with
  | nil => exact pure _
  | cons entry rest ih =>
      refine (run hhost h s entry).bind (fun first => ?_)
      obtain ⟨session, result⟩ := first
      cases result with
      | ok exit => exact ih session
      | error failure => exact pure _

/-! ### Runs -/

theorem runJobWith (h : Along b tools) (job : Job) : b.Tracks (Batch.runJobWith tools job) :=
  (runScript hhost h job.session job.script).bind (fun ended => finish b job ended.1 ended.2)

/-- What the turns of the actions do, one after the other. -/
theorem runActionsWith (h : Along b tools) (actions : List String) :
    b.Tracks (b.runActionsWith tools actions) := by
  induction actions with
  | nil => exact pure _
  | cons action rest ih =>
      refine (startJob b action).bind (fun started => ?_)
      cases started with
      | error failure => exact pure _
      | ok job =>
          refine (runJobWith hhost h job).bind (fun outcome => ?_)
          by_cases hok : outcome.isOk = true
          · rw [if_pos hok]
            refine ih.bind (fun others => ?_)
            cases others <;> exact pure _
          · rw [if_neg hok]
            exact pure _

omit hhost in
theorem runActionsBuiltin
    {run : List String → Effect (BatchWorld σ) (Except Failure (List Outcome))}
    (h : ∀ actions, b.Tracks (run actions)) (selectors : List String) :
    b.Tracks ((Batch.runActionsBuiltin run).invoke selectors) := by
  have hparse : b.Tracks (parseActions selectors) :=
    of_reserved .nil (fun w => by simp [parseActions_apply])
  refine hparse.bind (fun parsed => ?_)
  cases parsed with
  | error failure => exact pure _
  | ok actions =>
      refine (h actions).bind (fun answer => ?_)
      cases answer <;> exact pure _

/-- At every depth, what is nested in a run is part of its passage. -/
theorem along_toolsWithin (depth : Nat) : Along b (b.toolsWithin depth) := by
  induction depth with
  | zero =>
      refine ⟨rfl, fun builtin hbuiltin args => ?_⟩
      -- With no depth left a call is refused, and does nothing.
      rw [toolsWithin] at hbuiltin
      cases hinteractive : b.config.interactive with
      | false => simp [hinteractive] at hbuiltin
      | true =>
          simp only [hinteractive, if_true, List.mem_singleton] at hbuiltin
          rw [hbuiltin]
          exact pure _
  | succ depth ih =>
      refine ⟨rfl, fun builtin hbuiltin args => ?_⟩
      rw [eq_runActionsBuiltin hbuiltin]
      exact runActionsBuiltin (fun actions => runActionsWith hhost ih actions) args

theorem runJob (job : Job) (depth : Nat) : b.Tracks (b.runJob job depth) :=
  runJobWith hhost (along_toolsWithin hhost depth) job

theorem runActions (actions : List String) (depth : Nat) :
    b.Tracks (b.runActions actions depth) :=
  runActionsWith hhost (along_toolsWithin hhost depth) actions

end Tracks

/-- After these steps, what is done goes on from the world `w` with starts and ends of actions, and
with nothing between them but programs. The notices that are the batch's own are those of these
starts and ends. -/
def Continues (b : Batch σ) (steps : List (Step σ)) (w : BatchWorld σ)
    (done : Done (BatchWorld σ) α) : Prop :=
  ∃ inside, Trail b (BatchState.start b.config) (steps ++ inside) done.world.batch ∧
    Passage b w inside done.world ∧ ownNotices done.notices = b.told inside ∧
    ∀ step ∈ inside, step.operation.isOfRun = true

theorem Trail.continues (h : Trail b (BatchState.start b.config) steps w.batch)
    {m : Effect (BatchWorld σ) α} (hm : b.Tracks m) : b.Continues steps w (m w) := by
  obtain ⟨inside, hpassage, htold, hrun⟩ := hm w
  exact ⟨inside, h.append hpassage.trail, hpassage, htold, hrun⟩

end Batch

end ScriptRunner
