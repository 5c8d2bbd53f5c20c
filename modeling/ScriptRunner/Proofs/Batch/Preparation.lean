import ScriptRunner.Proofs.Batch.Trail

/-!
# ScriptRunner.Proofs.Batch.Preparation

The directory of a batch is prepared before its first use, and left alone afterwards.

`BuildDirectory.fromScratch` says what the whole preparation is: the removal, if the directory is to
be clean, and then the creation, as far as the host lets it come. On a trail from the start of a
batch, the directory is prepared exactly if some step has made a session (`Trail.directory`). So
each step that asks for a session has either the whole preparation to do, if no session has been
made before, or nothing (`Trail.prepares`).
-/

namespace ScriptRunner

/-! ## The whole preparation -/

namespace BuildDirectory

variable {σ : Type} {host : Host σ}

/-- What is wrong after this answer to a removal. That nothing was there is fine. -/
def removalFault? : Except FileFault Unit → Option FileFault
  | .ok () => none
  | .error (.refused .noEntry) => none
  | .error fault => some fault

/-- A directory is made: the answer, the world after it, and what is asked for. -/
def making (host : Host σ) (path : Path) (w : σ) : Done σ (Except Failure Unit) :=
  let made := host.makeDirectories path w
  ⟨made.value.mapError .file, made.world, [.creation path]⟩

/-- A directory is prepared as if nothing had been done for it yet. -/
def fromScratch (host : Host σ) (cleanFirst : Bool) (path : Path) (w : σ) :
    Done σ (Except Failure Unit) :=
  if cleanFirst then
    let removed := host.removeTree path w
    match removalFault? removed.value with
    | some fault => ⟨.error (.file fault), removed.world, [.removal path]⟩
    | none =>
      let made := making host path removed.world
      ⟨made.value, made.world, .removal path :: made.notices⟩
  else making host path w

/-- A directory is removed only if it is to be clean, and no other is. -/
theorem eq_of_removal_mem {cleanFirst : Bool} {path other : Path} {w : σ}
    (h : .removal other ∈ (fromScratch host cleanFirst path w).notices) :
    other = path ∧ cleanFirst = true := by
  cases cleanFirst with
  | false => simp [fromScratch, making] at h
  | true =>
      rw [fromScratch, if_pos rfl] at h
      dsimp only at h
      split at h
      · exact ⟨by simpa using h, rfl⟩
      · exact ⟨by simpa [making] using h, rfl⟩

/-- A directory that was to be clean is gone, or was missing, before it is made. -/
theorem fromScratch_clean_ok {path : Path} {w : σ}
    (h : (fromScratch host true path w).value = .ok ()) :
    removalFault? (host.removeTree path w).value = none ∧
      (fromScratch host true path w).notices = [.removal path, .creation path] := by
  rw [fromScratch, if_pos rfl] at h ⊢
  dsimp only at h ⊢
  cases hfault : removalFault? (host.removeTree path w).value with
  | some fault => simp [hfault] at h
  | none => exact ⟨rfl, rfl⟩

/-- What is done for a directory of this path comes to `whole`. -/
structure AmountsTo (path : Path) (done : Done σ (BuildDirectory × Except Failure Unit))
    (whole : Done σ (Except Failure Unit)) : Prop where
  answer : done.value.2 = whole.value
  world : done.world = whole.world
  asked : directoryRequests done.notices = whole.notices
  started : whole.value = .ok () → done.value.1 = ⟨path, true⟩

theorem amountsTo_start (h : host.Reserved) (d : BuildDirectory) (w : σ) :
    AmountsTo d.path (d.start host w) (making host d.path w) := by
  have hsilent := (h.makeDirectories d.path).directoryRequests_eq w
  simp only [start, making, Effect.bind_apply, Effect.notify_apply]
  cases (host.makeDirectories d.path w).value with
  | ok _ => exact ⟨rfl, rfl, by simp [hsilent], fun _ => rfl⟩
  | error fault => exact ⟨rfl, rfl, by simp [hsilent], fun hok => by cases hok⟩

theorem clean_eq (host : Host σ) (d : BuildDirectory) (w : σ) :
    d.clean host w =
      let removed := host.removeTree d.path w
      ⟨match removalFault? removed.value with
        | none => (⟨d.path, false⟩, .ok ())
        | some fault => (d, .error (.file fault)),
        removed.world, .removal d.path :: removed.notices⟩ := by
  simp only [clean, Effect.bind_apply, Effect.notify_apply]
  cases (host.removeTree d.path w).value with
  | ok _ => simp [removalFault?]
  | error fault =>
      cases fault with
      | refused reason => cases reason <;> simp [removalFault?]
      | _ => simp [removalFault?]

/-- A directory that is not prepared gets the whole preparation. -/
theorem amountsTo_prepare (h : host.Reserved) {d : BuildDirectory} (hd : d.started = false)
    (cleanFirst : Bool) (w : σ) :
    AmountsTo d.path (d.prepare host cleanFirst w) (fromScratch host cleanFirst d.path w) := by
  rw [prepare, if_neg (by simp [hd]), fromScratch]
  cases cleanFirst with
  | false => exact amountsTo_start h d w
  | true =>
      have hsilent := (h.removeTree d.path).directoryRequests_eq w
      simp only [if_true, Effect.bind_apply, clean_eq]
      cases removalFault? (host.removeTree d.path w).value with
      | some fault => exact ⟨rfl, rfl, by simp [hsilent], fun hok => by cases hok⟩
      | none =>
          have hmade := amountsTo_start h ⟨d.path, false⟩ (host.removeTree d.path w).world
          exact ⟨hmade.answer, hmade.world, by simp [hsilent, hmade.asked], hmade.started⟩

end BuildDirectory

/-- Programs may have led from one world to another. -/
inductive Launcher.Leads {σ : Type} (l : Launcher σ) : σ → σ → Prop
  | refl (w : σ) : Leads l w w
  | start (request : Launch) {v w : σ} (h : Leads l (l.start request v).world w) : Leads l v w
  | capture (request : Invocation) {v w : σ} (h : Leads l (l.capture request v).world w) :
    Leads l v w

namespace Batch

open BuildDirectory

variable {σ : Type} {b : Batch σ} {step : Step σ} {past steps rest : List (Step σ)}
  {s t : BatchState}

/-! ## One step -/

/-- The step asks for a session, for an action that is not running or for none. -/
def Step.Asks (step : Step σ) : Prop :=
  match step.operation with
  | .create => True
  | .start action => action ∉ step.world.batch.running
  | _ => False

/-- A step that asks for a session prepares the directory, and makes the session if that can be
done. -/
theorem Step.Asks.cases (h : step.Asks) (b : Batch σ) :
    let done := step.done b
    let prepared := b.prepared step.world
    done.world.world = prepared.world ∧
    directoryRequests done.notices = directoryRequests prepared.notices ∧
    ((∃ failure, prepared.value.2 = .error failure ∧ step.session? b = none ∧
        done.world.batch = step.world.batch) ∨
      (prepared.value.2 = .ok () ∧ step.session? b = some (b.freshSession step.world.batch) ∧
        done.world.batch.directory = prepared.value.1)) := by
  obtain ⟨op, w⟩ := step
  cases op with
  | create =>
      cases hprepared : (b.prepared w).value.2 with
      | error failure =>
          simp [Step.session?, Step.done, perform, Effect.giving, createSession_error hprepared,
            Except.map, hprepared]
      | ok _ =>
          simp [Step.session?, Step.done, perform, Effect.giving, createSession_ok hprepared,
            Except.map, hprepared]
  | start action =>
      obtain ⟨hrunning, -⟩ | ⟨-, fault, hprepared, hdone⟩ | ⟨-, hprepared, -, hdone⟩ :=
        b.startJob_cases action w
      · exact absurd hrunning h
      · simp [Step.session?, Step.done, perform, Effect.giving, hdone, Except.map, hprepared]
      · simp [Step.session?, Step.done, perform, Effect.giving, hdone, Except.map, hprepared, jobOf]
  | _ => exact h.elim

/-- Any other step has nothing to do with the directory. -/
theorem Step.done_of_not_asks (hhost : b.host.Reserved) (h : ¬ step.Asks) :
    step.session? b = none ∧ (step.done b).world.batch.directory = step.world.batch.directory ∧
      directoryRequests (step.done b).notices = [] := by
  obtain ⟨op, w⟩ := step
  cases op with
  | load registry =>
      obtain ⟨-, hdone⟩ | ⟨-, hdone⟩ := install_cases unnamedSource registry w
      · simp [Step.session?, Step.done, perform, Effect.giving, Batch.load, hdone, Except.map]
      · simp [Step.session?, Step.done, perform, Effect.giving, Batch.load, hdone, Except.map]
  | loadFrom path =>
      have hread := (hhost.readText path).directoryRequests_eq w.world
      obtain ⟨-, hdone⟩ | ⟨-, failure, -, hdone⟩ | ⟨-, registry, -, hdone⟩ :=
        b.loadFrom_cases path w
      · simp [Step.session?, Step.done, perform, Effect.giving, hdone, Except.map]
      · simp [Step.session?, Step.done, perform, Effect.giving, hdone, Except.map, hread]
      · simp [Step.session?, Step.done, perform, Effect.giving, hdone, Except.map, hread]
  | parse selectors =>
      have hdone := parseActions_apply selectors w
      cases hselected : actionsOf w.batch selectors with
      | error failure =>
          simp [Step.session?, Step.done, perform, Effect.giving, hdone, hselected, Except.map]
      | ok actions =>
          simp [Step.session?, Step.done, perform, Effect.giving, hdone, hselected, Except.map]
  | create => exact absurd True.intro h
  | start action =>
      have hdone := startJob_running (b := b) (not_not.1 h)
      simp [Step.session?, Step.done, perform, Effect.giving, hdone, Except.map]
  | drop job => exact ⟨rfl, rfl, rfl⟩
  | finish job final result => cases result <;> exact ⟨rfl, rfl, rfl⟩

theorem Step.asks_of_session (hhost : b.host.Reserved) (h : (step.session? b).isSome = true) :
    step.Asks := by
  by_contra hasks
  simp [(Step.done_of_not_asks hhost hasks).1] at h

theorem Step.asks_of_request (hhost : b.host.Reserved) {n : Notice}
    (h : n ∈ directoryRequests (step.done b).notices) : step.Asks := by
  by_contra hasks
  simp [(Step.done_of_not_asks hhost hasks).2.2] at h

/-- The directory is prepared by a step that makes a session, and by no other. -/
theorem Step.directory_done (hhost : b.host.Reserved) (step : Step σ) :
    (step.done b).world.batch.directory =
      if (step.session? b).isSome then ⟨step.world.batch.directory.path, true⟩
      else step.world.batch.directory := by
  by_cases hasks : step.Asks
  · obtain ⟨-, -, ⟨failure, -, hsession, hbatch⟩ | ⟨hprepared, hsession, hdirectory⟩⟩ :=
      hasks.cases b
    · simp [hsession, hbatch]
    · rw [hdirectory, hsession, Option.isSome_some, if_pos rfl]
      rw [prepared] at hprepared ⊢
      cases hstarted : step.world.batch.directory.started with
      | true =>
          rw [prepare_of_started b.host step.world.world hstarted, ← hstarted]
      | false =>
          have hamounts := amountsTo_prepare hhost hstarted b.config.clean step.world.world
          exact hamounts.started (hamounts.answer.symm.trans hprepared)
  · obtain ⟨hsession, hdirectory, -⟩ := Step.done_of_not_asks hhost hasks
    simp [hsession, hdirectory]

/-! ## A trail -/

/-- Some step has made a session. -/
def Used (b : Batch σ) (steps : List (Step σ)) : Prop :=
  ∃ step ∈ steps, (step.session? b).isSome = true

/-- After a trail the directory is prepared if it was before, or if a session has been made. -/
theorem Trail.directory (hhost : b.host.Reserved) (h : Trail b s steps t) :
    t.directory.path = s.directory.path ∧
      (t.directory.started = true ↔ s.directory.started = true ∨ Used b steps) := by
  induction h with
  | nil => simp [Used]
  | @cons s last step rest hfinds _ ih =>
      rw [step.directory_done hhost, hfinds] at ih
      cases hsession : (step.session? b).isSome with
      | true => simpa [Used, hsession] using ih
      | false => simpa [Used, hsession] using ih

/-- How a step treats the directory of the batch, where `used` says that some session has been made
before. -/
structure Prepares (b : Batch σ) (used : Prop) (step : Step σ) : Prop where
  /-- It asks for no removal but that of the directory before its first use, if that is to be
  clean. -/
  removal : ∀ path, .removal path ∈ (step.done b).notices →
    path = b.config.directory ∧ b.config.clean = true ∧ step.Asks ∧ ¬ used
  /-- A session is in the directory, which is prepared by then. -/
  prepared : ∀ session, step.session? b = some session →
    session.cwd = b.config.directory ∧
      (step.done b).world.batch.directory = ⟨b.config.directory, true⟩
  /-- The first session has to wait for the removal, if the directory is to be clean. -/
  first : ¬ used → b.config.clean = true → (step.session? b).isSome = true →
    removalFault? (b.host.removeTree b.config.directory step.world.world).value = none ∧
      directoryRequests (step.done b).notices =
        [.removal b.config.directory, .creation b.config.directory]
  /-- Until there is a session, each attempt is the whole preparation. -/
  attempt : ¬ used → step.Asks →
    let whole := fromScratch b.host b.config.clean b.config.directory step.world.world
    directoryRequests (step.done b).notices = whole.notices ∧
      (step.done b).world.world = whole.world ∧
      ((step.session? b).isSome = true ↔ whole.value = .ok ())
  /-- Later sessions are made at once, and leave the world alone. -/
  later : used → step.Asks →
    (step.session? b).isSome = true ∧ directoryRequests (step.done b).notices = [] ∧
      (step.done b).world.world = step.world.world
  /-- No other step asks for anything. -/
  other : ¬ step.Asks → step.session? b = none ∧ directoryRequests (step.done b).notices = []

/-- A step that finds the directory prepared has nothing to do for it. -/
theorem Step.Asks.later (h : step.Asks) (hstarted : step.world.batch.directory.started = true) :
    (step.session? b).isSome = true ∧ directoryRequests (step.done b).notices = [] ∧
      (step.done b).world.world = step.world.world := by
  have hprepared := prepare_of_started b.host step.world.world hstarted b.config.clean
  obtain ⟨hworld, hasked, ⟨failure, hfailed, -, -⟩ | ⟨-, hsession, -⟩⟩ := h.cases b
  · rw [prepared, hprepared] at hfailed
    cases hfailed
  · rw [prepared, hprepared] at hworld hasked
    exact ⟨by rw [hsession]; rfl, hasked, hworld⟩

/-- A step that finds it not prepared prepares it from scratch. -/
theorem Step.Asks.attempt (h : step.Asks) (hhost : b.host.Reserved)
    (hstarted : step.world.batch.directory.started = false) :
    let whole :=
      fromScratch b.host b.config.clean step.world.batch.directory.path step.world.world
    directoryRequests (step.done b).notices = whole.notices ∧
      (step.done b).world.world = whole.world ∧
      ((step.session? b).isSome = true ↔ whole.value = .ok ()) := by
  have hamounts := amountsTo_prepare hhost hstarted b.config.clean step.world.world
  obtain ⟨hworld, hasked, hanswer⟩ := h.cases b
  refine ⟨hasked.trans hamounts.asked, hworld.trans hamounts.world, ?_⟩
  rw [← hamounts.answer]
  obtain ⟨failure, hfailed, hsession, -⟩ | ⟨hprepared, hsession, -⟩ := hanswer
  · rw [prepared] at hfailed
    simp [hsession, hfailed]
  · rw [prepared] at hprepared
    simp [hsession, hprepared]

/-- On a trail from the start of the batch. -/
theorem Trail.prepares (h : Trail b (BatchState.start b.config) past step.world.batch)
    (hhost : b.host.Reserved) : Prepares b (Used b past) step := by
  obtain ⟨hpath, hstarted⟩ := h.directory hhost
  replace hpath : step.world.batch.directory.path = b.config.directory := hpath
  replace hstarted : step.world.batch.directory.started = true ↔ Used b past := by
    simpa [BatchState.start, ofPath] using hstarted
  have hlater := fun (hused : Used b past) (hasks : step.Asks) =>
    hasks.later (b := b) (hstarted.2 hused)
  have hattempt := fun (hunused : ¬ Used b past) (hasks : step.Asks) =>
    hasks.attempt hhost (Bool.eq_false_iff.2 (hunused ∘ hstarted.1))
  rw [hpath] at hattempt
  refine ⟨fun path hremoval => ?_, fun session hsession => ⟨?_, ?_⟩, ?_, hattempt, hlater, ?_⟩
  · have hasked : .removal path ∈ directoryRequests (step.done b).notices :=
      List.mem_filter.2 ⟨hremoval, rfl⟩
    have hasks := Step.asks_of_request hhost hasked
    have hunused : ¬ Used b past := by
      intro hused
      simp [(hlater hused hasks).2.1] at hasked
    rw [(hattempt hunused hasks).1] at hasked
    obtain ⟨heq, hclean⟩ := eq_of_removal_mem hasked
    exact ⟨heq, hclean, hasks, hunused⟩
  · have hasks := Step.asks_of_session hhost (hsession ▸ rfl : (step.session? b).isSome = true)
    obtain ⟨-, -, ⟨failure, -, hnone, -⟩ | ⟨-, hmade, -⟩⟩ := hasks.cases b
    · simp [hnone] at hsession
    · rw [hmade, Option.some.injEq] at hsession
      rw [← hsession]
      rfl
  · rw [step.directory_done hhost, hsession, Option.isSome_some, if_pos rfl, hpath]
  · intro hunused hclean hmade
    obtain ⟨hasked, -, hanswer⟩ := hattempt hunused (Step.asks_of_session hhost hmade)
    rw [hclean] at hasked hanswer
    obtain ⟨hremoved, hwhole⟩ := fromScratch_clean_ok (hanswer.1 hmade)
    exact ⟨hremoved, hasked.trans hwhole⟩
  · intro hasks
    obtain ⟨hsession, -, hasked⟩ := Step.done_of_not_asks hhost hasks
    exact ⟨hsession, hasked⟩

/-! ## Runs -/

/-- In a run, a step that finds the directory prepared leaves the world alone. -/
theorem Step.world_done (hhost : b.host.Reserved) (hrun : step.operation.isOfRun = true)
    (hstarted : step.world.batch.directory.started = true) :
    (step.done b).world.world = step.world.world ∧
      (step.done b).world.batch.directory.started = true := by
  refine ⟨?_, ?_⟩
  · by_cases hasks : step.Asks
    · exact (hasks.later hstarted).2.2
    · obtain ⟨op, w⟩ := step
      cases op with
      | start action =>
          have hdone := startJob_running (b := b) (not_not.1 hasks)
          rw [Step.done, perform, Effect.giving, hdone]
      | finish job final result => cases result <;> rfl
      | _ => cases hrun
  · rw [step.directory_done hhost]
    split
    · rfl
    · exact hstarted

/-- In a run that finds the directory prepared, only programs change the world. -/
theorem Passage.leads {v w : BatchWorld σ} (h : Passage b v steps w) (hhost : b.host.Reserved)
    (hrun : ∀ step ∈ steps, step.operation.isOfRun = true)
    (hstarted : v.batch.directory.started = true) :
    b.host.toLauncher.Leads v.world w.world := by
  induction h with
  | nil => exact .refl _
  | start request _ ih => exact .start request (ih hrun hstarted)
  | capture request _ ih => exact .capture request (ih hrun hstarted)
  | @cons step rest last _ ih =>
      obtain ⟨hworld, hafter⟩ := Step.world_done hhost (hrun step List.mem_cons_self) hstarted
      rw [← hworld]
      exact ih (fun other hother => hrun other (List.mem_cons_of_mem step hother)) hafter

/-- The directory is wiped only before its first use.

Whatever is done with a batch, with any failures of the host: a removal is asked for only if the
directory is to be clean, and by a step that asks for a session when there has been none. Each such
step does the whole preparation again, and a session is made when all of it has succeeded. After the
first session, others are made without any preparation. Runs go on in the same way, with all that is
nested in them; after the first session nothing but programs changes the world in a run. -/
theorem prepared_once (hhost : b.host.Reserved)
    (h : Trail b (BatchState.start b.config) steps s) :
    (∀ past step rest, steps = past ++ step :: rest → Prepares b (Used b past) step) ∧
    (∀ (job : Job) (depth : Nat) (w : BatchWorld σ), w.batch = s →
      b.Continues steps w (b.runJob job depth w) ∧
      (Used b steps → b.host.toLauncher.Leads w.world (b.runJob job depth w).world.world)) ∧
    ∀ (actions : List String) (depth : Nat) (w : BatchWorld σ), w.batch = s →
      b.Continues steps w (b.runActions actions depth w) ∧
      (Used b steps →
        b.host.toLauncher.Leads w.world (b.runActions actions depth w).world.world) := by
  have hprepared := (h.directory hhost).2
  refine ⟨?_, fun job depth w hw => ?_, fun actions depth w hw => ?_⟩
  · rintro past step rest rfl
    exact h.split.1.prepares hhost
  · obtain rfl := hw
    obtain ⟨inside, htrail, hpassage, htold, hrun⟩ := h.continues (Tracks.runJob hhost job depth)
    refine ⟨⟨inside, htrail, hpassage, htold, hrun⟩, fun hused => ?_⟩
    exact hpassage.leads hhost hrun (hprepared.2 (Or.inr hused))
  · obtain rfl := hw
    obtain ⟨inside, htrail, hpassage, htold, hrun⟩ :=
      h.continues (Tracks.runActions hhost actions depth)
    refine ⟨⟨inside, htrail, hpassage, htold, hrun⟩, fun hused => ?_⟩
    exact hpassage.leads hhost hrun (hprepared.2 (Or.inr hused))

/-- A host that answers as it is told beforehand when it is asked for directories, and after that
grants what it is asked. -/
def moody : Host (List (Except FileFault Unit)) where
  start _ := pure (.ok Exit.success)
  capture _ := pure (.error .commandNotFound)
  readText _ := pure (.error .notText)
  appendText _ _ := pure (.ok ())
  removeTree _ := Effect.modifyGet (fun answers => (answers.headD (.ok ()), answers.tail))
  makeDirectories _ := Effect.modifyGet (fun answers => (answers.headD (.ok ()), answers.tail))

/-- A batch whose directory is to be clean. -/
def tidy : Batch (List (Except FileFault Unit)) :=
  ⟨⟨"/build", true, false, true, default⟩, Bindings.empty, moody⟩

/-- The directory is prepared. -/
def tidyStarted : BatchState :=
  { BatchState.start tidy.config with directory := ⟨"/build", true⟩ }

/-- An action starts, where any request would be refused. -/
def tidyLast : Step (List (Except FileFault Unit)) :=
  ⟨.start "first", ⟨[.error (.refused .accessDenied)], tidyStarted⟩⟩

/-- The removal is refused, then there is nothing to remove but the creation is refused, then all
goes well, and then the directory is there. -/
def tidySteps : List (Step (List (Except FileFault Unit))) :=
  let fresh := BatchState.start tidy.config
  [⟨.create, ⟨[.error (.refused .accessDenied)], fresh⟩⟩,
    ⟨.start "first", ⟨[.error (.refused .noEntry), .error (.refused .accessDenied)], fresh⟩⟩,
    ⟨.create, ⟨[], fresh⟩⟩, tidyLast]

/-- Two attempts fail, at different points, and the session of the last step is made without
asking. -/
theorem prepared_once_sample :
    moody.Reserved ∧
    Trail tidy (BatchState.start tidy.config) tidySteps (acquire "first" tidyStarted) ∧
    tidySteps.map (fun step => directoryRequests (step.done tidy).notices) =
      [[.removal "/build"], [.removal "/build", .creation "/build"],
        [.removal "/build", .creation "/build"], []] ∧
    tidySteps.map (fun step => (step.session? tidy).isSome) = [false, false, true, true] ∧
    (tidyLast.done tidy).world.world = tidyLast.world.world := by
  have hreserved : moody.Reserved := by
    constructor <;> intro _ _ _ hn <;> cases hn
  have htrail :
      Trail tidy (BatchState.start tidy.config) tidySteps (acquire "first" tidyStarted) :=
    .cons rfl (.cons rfl (.cons rfl (.cons rfl (.nil _))))
  have hsessions :
      tidySteps.map (fun step => (step.session? tidy).isSome) = [false, false, true, true] := by
    decide
  obtain ⟨hsteps, -, -⟩ := prepared_once hreserved htrail
  have hused : Used tidy (tidySteps.take 3) :=
    ⟨_, List.mem_of_getElem? (show (tidySteps.take 3)[2]? = some _ from rfl), rfl⟩
  have hasks : tidyLast.Asks := List.not_mem_nil
  obtain ⟨-, -, hworld⟩ := (hsteps (tidySteps.take 3) tidyLast [] rfl).later hused hasks
  exact ⟨hreserved, htrail, by decide, hsessions, hworld⟩

end Batch

end ScriptRunner
