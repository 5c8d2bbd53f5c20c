import Mathlib.Data.List.Dedup
import Mathlib.Data.List.Perm.Subperm
import ScriptRunner.Proofs.Batch.Nesting

/-!
# ScriptRunner.Proofs.Batch.Exclusion

An action does not run beside itself.

The running names of a batch are those of its open jobs, and no two are the same
(`Reached.exclusion`). A name is taken when its job starts, and free as soon as the job has ended,
in whatever way, or could not start. So the actions that run inside one another are all different,
and there are at most as many of them as a registry has names, and one more (`Chain.length_le`).
-/

namespace ScriptRunner

theorem Section.lookup_isSome {s : Section} {name : String} :
    (s.lookup name).isSome ↔ name ∈ s.names := by
  obtain ⟨actions⟩ := s
  rw [lookup, names]
  induction actions with
  | nil => simp [lookupIn]
  | cons a rest ih =>
      by_cases hname : a.1 = name
      · simp [lookupIn, hname]
      · simpa [lookupIn, hname, Ne.symm hname] using ih

namespace Registry

/-- The names that have a script, each once. -/
def actionNames (r : Registry) : List String :=
  (r.primary.names ++ (r.optional.names ++ r.recipes.names)).dedup

theorem mem_actionNames {r : Registry} {name : String} :
    name ∈ r.actionNames ↔ (r.lookup name).isSome := by
  rw [actionNames, List.mem_dedup, lookup]
  simp [← Section.lookup_isSome, Option.isSome_or]

end Registry

namespace Batch

variable {σ : Type} {b : Batch σ} {log : List Moment} {start w : BatchWorld σ} {outermost : Job}
  {limit depth : Nat} {nested : List Job}

/-! ## Chains -/

/-- The registry of a batch, which is empty until one is loaded. -/
def registryOf (s : BatchState) : Registry := s.registry.getD Registry.empty

/-- No name occurs twice in a chain, and all its names are running. -/
theorem Chain.names (h : Chain b limit outermost start depth nested w)
    (hreached : Reached b log) (hopen : outermost ∈ openJobs log)
    (hstart : start.batch = b.stateAfter log) :
    ((nested ++ [outermost]).map Job.name).Nodup ∧
      ∀ job ∈ nested ++ [outermost], job.name ∈ w.batch.running := by
  have hstage := hreached.stage
  rw [← hstart] at hstage
  obtain ⟨later, hlater⟩ := h.stage hstage
  have hfollows := hlater.reached.follows
  rw [hlater.state] at hfollows
  have hrunning := hfollows.running
  have hdistinct := hfollows.distinct
  rw [hrunning, hlater.jobs] at hdistinct
  have hsub : (nested ++ [outermost]).Sublist (nested ++ openJobs log) :=
    (List.singleton_sublist.2 hopen).append_left nested
  refine ⟨hdistinct.sublist (hsub.map Job.name), fun job hjob => ?_⟩
  rw [hrunning, hlater.jobs]
  exact List.mem_map_of_mem (hsub.subset hjob)

/-- Registered names alone cannot nest deeper than there are names. -/
theorem Chain.length_le (h : Chain b limit outermost start depth nested w)
    (hreached : Reached b log) (hopen : outermost ∈ openJobs log)
    (hstart : start.batch = b.stateAfter log)
    (hregistered : ∀ job ∈ nested, ((registryOf start.batch).lookup job.name).isSome) :
    nested.length ≤ (registryOf start.batch).actionNames.length := by
  have hdistinct := (h.names hreached hopen hstart).1
  rw [List.map_append] at hdistinct
  have hsub : nested.map Job.name ⊆ (registryOf start.batch).actionNames := by
    intro name hname
    obtain ⟨job, hjob, rfl⟩ := List.mem_map.1 hname
    exact Registry.mem_actionNames.2 (hregistered job hjob)
  have hlength := ((List.subperm_of_subset hdistinct.of_append_left hsub)).length_le
  rwa [List.length_map] at hlength

/-! ## Exclusion -/

/-- At every moment the running names are those of the open jobs, each once, and exactly these
cannot be started. The end of a job frees its name, and so does a start that fails later on. In
every chain of actions that run inside one another the names are different, and if all but the
outermost are registered the chain is not longer than there are registered names, and one more. -/
theorem Reached.exclusion (h : Reached b log) :
    ((b.stateAfter log).running = (openJobs log).map Job.name ∧
      (b.stateAfter log).running.Nodup) ∧
    (∀ action, ∀ w : BatchWorld σ, w.batch = b.stateAfter log →
      ((b.startJob action w).value = .error (.actionRunning action) ↔
        ∃ job ∈ openJobs log, job.name = action)) ∧
    (∀ past m rest, log = past ++ m :: rest →
      (∀ job, m.deed.closes? = some job → job.name ∉ m.state.running) ∧
      ∀ action failure, m.deed = .refused action failure → failure ≠ .actionRunning action →
        action ∉ m.state.running) ∧
    b.Extends log ∧
    (∀ outermost ∈ openJobs log, ∀ limit depth nested, ∀ start w : BatchWorld σ,
      start.batch = b.stateAfter log → Chain b limit outermost start depth nested w →
      ((nested ++ [outermost]).map Job.name).Nodup ∧
      (∀ job ∈ nested ++ [outermost], job.name ∈ w.batch.running) ∧
      ((∀ job ∈ nested, ((registryOf start.batch).lookup job.name).isSome) →
        (nested ++ [outermost]).length ≤ (registryOf start.batch).actionNames.length + 1)) := by
  have hfollows := h.follows
  refine ⟨⟨hfollows.running, hfollows.distinct⟩, ?_, ?_, h.runs, ?_⟩
  · intro action w hw
    rw [startJob_running_iff, hw, hfollows.running, List.mem_map]
  · rintro past m rest rfl
    obtain ⟨hpast, hnext⟩ := h.split
    refine ⟨fun job hcloses => ?_, fun action failure hrefused hother => ?_⟩
    · rw [hnext.lawful.running, Deed.runningAfter_closes hcloses]
      simp
    · rw [hnext.lawful.running, hrefused]
      exact fun hrunning => hother ((hnext.lawful.refused action failure hrefused).2 hrunning)
  · intro outermost hopen limit depth nested start w hstart hchain
    obtain ⟨hdistinct, hrunning⟩ := hchain.names h hopen hstart
    refine ⟨hdistinct, hrunning, fun hregistered => ?_⟩
    rw [List.length_append, List.length_singleton]
    exact Nat.succ_le_succ (hchain.length_le h hopen hstart hregistered)

/-- An action that runs, and inside it another one. -/
theorem Reached.exclusion_sample :
    let outer := composite.jobOf compositeWorld.batch "outer"
    let start := (composite.startJob "outer" compositeWorld).world
    let log := compositeLog ++ [composite.starting "outer" compositeWorld]
    Reached composite log ∧
    (composite.startJob "outer" start).value = .error (.actionRunning "outer") ∧
    ∃ inner w, Chain composite 1 outer start 0 [inner] w ∧
      inner.name ≠ outer.name ∧ inner.name ∈ w.batch.running ∧ outer.name ∈ w.batch.running := by
  intro outer start log
  have hjob : (composite.startJob "outer" compositeWorld).value = .ok outer := by
    rw [startJob_ok (by decide +kernel) rfl]
  have hstage := reached_compositeLog.stage.starting_ok (w := compositeWorld) hjob
  have hopen : outer ∈ openJobs log := by
    rw [hstage.jobs]
    exact List.mem_cons_self
  obtain ⟨-, hrefused, -, -, hchains⟩ := hstage.reached.exclusion
  -- The one call in its script, and the action that it selects.
  have hseen : (outer.session.calls (composite.toolsWithin 1) outer.script start)[0]?.map
      (fun c => ((actionsOf c.world.batch c.args).toOption,
        (composite.startJob "inner" c.world).value.toOption.isSome)) =
      some (some ["inner"], true) := by decide +kernel
  obtain ⟨c, hplace, hcall⟩ := Option.map_eq_some_iff.1 hseen
  obtain ⟨hselected, hstarts⟩ := Prod.mk.inj hcall
  cases hactions : actionsOf c.world.batch c.args with
  | error failure => simp [hactions, Except.toOption] at hselected
  | ok actions =>
      cases hinner : (composite.startJob "inner" c.world).value with
      | error failure => simp [hinner, Except.toOption] at hstarts
      | ok inner =>
          obtain rfl : actions = ["inner"] := by simpa [hactions, Except.toOption] using hselected
          have hturn : ("inner", c.world) ∈
              composite.turns (composite.toolsWithin 0) ["inner"] c.world := by
            rw [turns]
            exact List.mem_cons_self
          have hchain : Chain composite 1 outer start 0 [inner]
              (composite.startJob "inner" c.world).world :=
            .call .start (List.mem_of_getElem? hplace) hactions hturn hinner
          obtain ⟨hdistinct, hrunning, -⟩ :=
            hchains outer hopen _ _ _ start _ hstage.state.symm hchain
          refine ⟨hstage.reached, ?_, inner, _, hchain, ?_, hrunning inner ?_, hrunning outer ?_⟩
          · exact (hrefused "outer" start hstage.state.symm).2 ⟨outer, hopen, rfl⟩
          · simpa using hdistinct
          · simp
          · simp

end Batch

end ScriptRunner
