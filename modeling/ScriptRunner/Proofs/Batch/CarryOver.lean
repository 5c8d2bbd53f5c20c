import ScriptRunner.Proofs.Batch.Nesting

/-!
# ScriptRunner.Proofs.Batch.CarryOver

What one action leaves to the next.

A batch remembers one state: the one that the last successful action left
(`Reached.carry_over`). An action takes a copy of it when it starts and puts its own in its place
when it ends well, so what was left in between is lost. This is of no account as long as actions
run one after the other. It is where actions run actions: an outer action that ends well replaces
what its inner actions left by what it started with itself, apart from its own bindings
(`Reached.continuity`, `not_continuous`).
-/

namespace ScriptRunner

namespace Batch

variable {σ : Type} {b : Batch σ} {log past mid rest : List Moment} {m ended next : Moment}
  {w : BatchWorld σ}

/-! ## What a batch remembers -/

/-- Any jobs may be open, and any may start, run and end inside others. At every moment a batch
remembers the state that the last successful action left, and only the end of a successful action
changes it. Every new session is in the directory of the batch and has the state that the batch
remembers, or the environment alone. -/
theorem Reached.carry_over (h : Reached b log) :
    (b.stateAfter log).lastState = lastLeft log ∧
    (∀ past m rest, log = past ++ m :: rest →
      m.state.lastState = lastLeft (past ++ [m]) ∧
      (m.deed.left? = none → m.state.lastState = (b.stateAfter past).lastState) ∧
      ∀ s, m.deed.session? = some s →
        s = ⟨b.config.directory,
          (b.stateAfter past).lastState.getD ⟨b.env, Bindings.empty, Bindings.empty⟩,
          b.config.term⟩) ∧
    b.Extends log := by
  refine ⟨h.follows.lastState, ?_, h.runs⟩
  rintro past m rest rfl
  obtain ⟨hpast, hnext⟩ := h.split
  have hlast := hnext.lawful.lastState
  refine ⟨?_, ?_, ?_⟩
  · rw [hlast, hpast.follows.lastState, lastLeft_concat]
  · intro hnone
    rw [hlast, hnone, Option.none_or]
  · intro s hs
    rw [hnext.lawful.session s hs]
    rfl

/-- The inner action leaves its state, and then the outer one does. -/
theorem Reached.carry_over_sample :
    let log := compositeRun ["outer"]
    Reached composite log ∧
    (log.map (fun m => (m.state.lastState.map (fun s => s.vars.lookup "FOO")))) =
      [none, none, none, some (some "1"), some none] ∧
    (composite.stateAfter log).lastState = lastLeft log ∧
    ∀ past m rest, log = past ++ m :: rest → ∀ s, m.deed.session? = some s → s.cwd = "/build" := by
  have hreached := reached_compositeRun ["outer"]
  have hseen : (compositeRun ["outer"]).map
        (fun m => m.state.lastState.map (fun s => s.vars.lookup "FOO")) =
      [none, none, none, some (some "1"), some none] := by decide +kernel
  generalize compositeRun ["outer"] = log at hreached hseen ⊢
  obtain ⟨hlast, hmoments, -⟩ := hreached.carry_over
  refine ⟨hreached, hseen, hlast, ?_⟩
  intro past m rest hlog s hs
  rw [(hmoments past m rest hlog).2.2 s hs]
  rfl

/-! ## Continuity -/

/-- Every action that ends well in this part of a log also starts in it. -/
def SelfContained (part : List Moment) : Prop :=
  ∀ before m after, part = before ++ m :: after →
    ∀ job final bound, m.deed = .ended job final bound (.ok ()) →
      ∃ start ∈ before, start.deed = .started job

theorem SelfContained.of_append {part : List Moment} (h : SelfContained (part ++ rest)) :
    SelfContained part := by
  rintro before m after rfl
  exact h before m (after ++ rest) (by simp)

variable {left : SessionState} {name : String}

theorem lastLeft_after (hended : ended.deed.left? = some left) (past mid : List Moment) :
    lastLeft (past ++ ended :: mid) = some ((lastLeft mid).getD left) := by
  rw [List.append_cons, lastLeft_append, lastLeft_concat, hended, Option.some_or]
  cases lastLeft mid <;> rfl

/-- A session that is made later has the state that was left last. -/
theorem Reached.session_state (hended : ended.deed.left? = some left)
    (h : Reached b (past ++ ended :: (mid ++ next :: rest))) {s : Session}
    (hs : next.deed.session? = some s) : s.state = (lastLeft mid).getD left := by
  obtain ⟨hpast, hnext⟩ := h.split_after
  have hlast := hpast.follows.lastState
  rw [lastLeft_after hended] at hlast
  rw [hnext.lawful.session s hs]
  exact congrArg (fun remembered => remembered.getD (SessionState.ofEnv b.env)) hlast

/-- What an action leaves of a name that it does not bind is what it started with. -/
theorem Lawful.sameBinding {jobs : List Job} {s : BatchState} (h : b.Lawful jobs s m) {job : Job}
    {final : Session} {bound : List Binding} {result : Except Failure Unit}
    (hdeed : m.deed = .ended job final bound result) (hfree : ∀ x ∈ bound, x.name ≠ name) :
    final.state.SameBinding name job.session.state := by
  obtain ⟨tools, v, hran, rfl⟩ := h.ended job final bound result hdeed
  have hsame := Session.sameBinding_runScript hfree
  rw [hran] at hsame
  exact hsame

/-- Actions that start and end after a state was left leave what they do not bind. -/
theorem Reached.sameBinding_lastLeft (hended : ended.deed.left? = some left)
    (h : Reached b (past ++ ended :: mid)) (hself : SelfContained mid)
    (hfree : ∀ m ∈ mid, m.deed.left? ≠ none → ∀ x ∈ m.deed.bound, x.name ≠ name) :
    ((lastLeft mid).getD left).SameBinding name left := by
  -- The start of the last action that left a state may be far back, so the induction is on the
  -- length.
  induction hlength : mid.length using Nat.strongRecOn generalizing mid with
  | _ n ih =>
    cases mid using List.reverseRecOn with
    | nil => exact SessionState.SameBinding.refl name left
    | append_singleton part m =>
        obtain ⟨hpart, hstep⟩ := h.split_after
        have hpartFree : ∀ m ∈ part, m.deed.left? ≠ none → ∀ x ∈ m.deed.bound, x.name ≠ name :=
          fun m hm => hfree m (List.mem_append_left _ hm)
        rw [List.length_append, List.length_singleton] at hlength
        rw [lastLeft_concat]
        cases hleft : m.deed.left? with
        | none => exact ih part.length (by omega) hpart hself.of_append hpartFree rfl
        | some s =>
            obtain ⟨job, final, hdeed, rfl⟩ := Deed.left?_eq_some hleft
            obtain ⟨start, hstart, hstarted⟩ := hself part m [] rfl job final _ hdeed
            obtain ⟨before, after, rfl⟩ := List.append_of_mem hstart
            have hmade : job.session.state = (lastLeft before).getD left :=
              Reached.session_state hended hpart (by rw [hstarted]; rfl)
            rw [List.length_append] at hlength
            have hsame := ih before.length (by omega) hpart.split_after.1 hself.of_append.of_append
              (fun m hm => hpartFree m (List.mem_append_left _ hm)) rfl
            rw [← hmade] at hsame
            have hown := hstep.lawful.sameBinding hdeed
              (hfree m List.mem_concat_self (by simp [hleft]))
            exact hown.trans hsame

/-- An action that starts after another one ended well.

It starts with the state that was left last. As long as only such actions have ended well since
that also started since, this has every binding that the ended one left, but for the names that
they bound. Where the action that left it had started before, the binding is the one that it
started with itself. -/
theorem Reached.continuity (h : Reached b log) (hw : w.batch = b.stateAfter log)
    {actions : List String} {depth : Nat}
    (hlog : log ++ b.momentsOfActions depth actions w =
      past ++ ended :: (mid ++ next :: rest))
    {job later : Job} {final : Session} {bound : List Binding}
    (hended : ended.deed = .ended job final bound (.ok ())) (hnext : next.deed = .started later) :
    later.session.state = (lastLeft mid).getD final.state ∧
    (SelfContained mid → ∀ name,
      (∀ m ∈ mid, m.deed.left? ≠ none → ∀ x ∈ m.deed.bound, x.name ≠ name) →
      later.session.state.SameBinding name final.state) ∧
    (∀ before m after outer outerFinal outerBound, mid = before ++ m :: after →
      m.deed = .ended outer outerFinal outerBound (.ok ()) → lastLeft after = none →
      later.session.state = outerFinal.state ∧
      ∀ name, (∀ x ∈ outerBound, x.name ≠ name) →
        later.session.state.SameBinding name outer.session.state) := by
  have hreached := (h.runs.actions actions depth w hw).1
  rw [hlog] at hreached
  have hleft : ended.deed.left? = some final.state := by rw [hended]; rfl
  have hstate : later.session.state = (lastLeft mid).getD final.state :=
    Reached.session_state hleft hreached (by rw [hnext]; rfl)
  have hmid : Reached b (past ++ ended :: mid) := hreached.split_after.1
  refine ⟨hstate, ?_, ?_⟩
  · intro hself name hfree
    rw [hstate]
    exact Reached.sameBinding_lastLeft hleft hmid hself hfree
  · rintro before m after outer outerFinal outerBound rfl hdeed hnone
    have hlast : later.session.state = outerFinal.state := by
      have hm : m.deed.left? = some outerFinal.state := by rw [hdeed]; rfl
      rw [hstate, lastLeft_after hm, hnone]
      rfl
    refine ⟨hlast, fun name hfree => ?_⟩
    rw [hlast]
    exact hmid.split_after.2.lawful.sameBinding hdeed hfree

/-- A list, taken apart at two of its places. -/
theorem split_at_two {α : Type} {l : List α} {i j : Nat} {a c : α} (hij : i < j)
    (ha : l[i]? = some a) (hc : l[j]? = some c) :
    let mid := (l.drop (i + 1)).take (j - (i + 1))
    l = l.take i ++ a :: (mid ++ c :: l.drop (j + 1)) ∧
      l.drop (i + 1) = mid ++ c :: l.drop (j + 1) := by
  intro mid
  obtain ⟨hi, rfl⟩ := List.getElem?_eq_some_iff.1 ha
  obtain ⟨hj, rfl⟩ := List.getElem?_eq_some_iff.1 hc
  have hrest : l.drop (i + 1) = mid ++ l[j] :: l.drop (j + 1) := by
    have hsplit := List.take_append_drop (j - (i + 1)) (l.drop (i + 1))
    rw [List.drop_drop, Nat.add_sub_cancel' hij, List.drop_eq_getElem_cons hj] at hsplit
    exact hsplit.symm
  refine ⟨?_, hrest⟩
  rw [← hrest, ← List.drop_eq_getElem_cons, List.take_append_drop]

/-- The state that is left at a place of a log. -/
def leftAt (log : List Moment) (i : Nat) : Option SessionState :=
  log[i]?.bind (fun m => m.deed.left?)

/-- The job that starts at a place of a log. -/
def startedAt (log : List Moment) (i : Nat) : Option Job :=
  log[i]?.bind (fun m => m.deed.started?)

/-- The job that is closed at a place of a log. -/
def closedAt (log : List Moment) (i : Nat) : Option Job :=
  log[i]?.bind (fun m => m.deed.closes?)

theorem exists_ended {α : Type} {log : List Moment} {i : Nat} {f : SessionState → α} {a : α}
    (h : (leftAt log i).map f = some a) :
    ∃ m job final, log[i]? = some m ∧ m.deed = .ended job final m.deed.bound (.ok ()) ∧
      f final.state = a := by
  obtain ⟨left, hleft, hvalue⟩ := Option.map_eq_some_iff.1 h
  obtain ⟨m, hplace, hleft⟩ := Option.bind_eq_some_iff.1 hleft
  obtain ⟨job, final, hdeed, rfl⟩ := Deed.left?_eq_some hleft
  exact ⟨m, job, final, hplace, hdeed, hvalue⟩

theorem exists_started {α : Type} {log : List Moment} {i : Nat} {f : Job → α} {a : α}
    (h : (startedAt log i).map f = some a) :
    ∃ m job, log[i]? = some m ∧ m.deed = .started job ∧ f job = a := by
  obtain ⟨job, hstarted, hvalue⟩ := Option.map_eq_some_iff.1 h
  obtain ⟨m, hplace, hstarted⟩ := Option.bind_eq_some_iff.1 hstarted
  exact ⟨m, job, hplace, Deed.started?_eq_some hstarted, hvalue⟩

/-- An action that ends right after it started. -/
theorem selfContained_pair {log : List Moment} {i : Nat} {job : Job}
    (hstarts : startedAt log i = some job) (hcloses : closedAt log (i + 1) = some job) :
    SelfContained ((log.drop i).take 2) := by
  obtain ⟨start, hfirst, hstart⟩ := Option.bind_eq_some_iff.1 hstarts
  obtain ⟨finish, hsecond, hfinish⟩ := Option.bind_eq_some_iff.1 hcloses
  obtain ⟨hbound, rfl⟩ := List.getElem?_eq_some_iff.1 hfirst
  obtain ⟨hbound', rfl⟩ := List.getElem?_eq_some_iff.1 hsecond
  have hpair : (log.drop i).take 2 = [log[i], log[i + 1]] := by
    rw [List.drop_eq_getElem_cons hbound, List.drop_eq_getElem_cons hbound']
    rfl
  rw [hpair]
  intro before m after hsplit ended final bound hended
  rcases before with _ | ⟨first, _ | ⟨second, others⟩⟩
  · obtain ⟨rfl, -⟩ := List.cons.inj hsplit
    simp [Deed.started?_eq_some hstart] at hended
  · obtain ⟨rfl, hrest⟩ := List.cons.inj hsplit
    obtain ⟨rfl, -⟩ := List.cons.inj hrest
    rw [hended] at hfinish
    obtain rfl := Option.some.inj hfinish
    exact ⟨_, List.mem_singleton_self _, Deed.started?_eq_some hstart⟩
  · simp at hsplit

/-- An action that binds a name, one that does nothing, and one that finds the binding. -/
theorem Reached.continuity_sample :
    let run := compositeRun ["inner", "last", "last"]
    Reached composite compositeLog ∧
    ∃ ended next mid job final bound later,
      run = run.take 2 ++ ended :: (mid ++ next :: run.drop 6) ∧
      ended.deed = .ended job final bound (.ok ()) ∧ next.deed = .started later ∧
      final.state.vars.lookup "FOO" = some "1" ∧
      later.session.state.SameBinding "FOO" final.state := by
  intro run
  have hseen : (leftAt run 2).map (fun s => s.vars.lookup "FOO") = some (some "1") ∧
      (startedAt run 3).isSome ∧ closedAt run 4 = startedAt run 3 ∧
      (startedAt run 5).map Job.name = some "last" ∧
      ∀ m ∈ run.drop 3, ∀ x ∈ m.deed.bound, x.name ≠ "FOO" := by decide +kernel
  obtain ⟨hfinal, hbetween, hcloses, hlater, hunbound⟩ := hseen
  obtain ⟨ended, job, final, hplace, hended, hvalue⟩ := exists_ended hfinal
  obtain ⟨next, later, hplace', hnext, -⟩ := exists_started hlater
  obtain ⟨between, hstarts⟩ := Option.isSome_iff_exists.1 hbetween
  have hself : SelfContained ((run.drop 3).take 2) :=
    selfContained_pair hstarts (hcloses.trans hstarts)
  obtain ⟨hrun, -⟩ := split_at_two (by decide) hplace hplace'
  obtain ⟨-, hkept, -⟩ :=
    reached_compositeLog.continuity (w := compositeWorld) rfl hrun hended hnext
  exact ⟨reached_compositeLog, ended, next, _, job, final, _, later, hrun, hended, hnext, hvalue,
    hkept hself "FOO" (fun m hm _ => hunbound m (List.mem_of_mem_take hm))⟩

/-- Every action starts with all the bindings of every action that ended well before, unless a
script that has ended since binds the name. -/
def Continuous (log : List Moment) : Prop :=
  ∀ past ended mid next rest job final bound later,
    log = past ++ ended :: (mid ++ next :: rest) →
    ended.deed = .ended job final bound (.ok ()) → next.deed = .started later →
    ∀ name, (∀ m ∈ mid ++ next :: rest, ∀ x ∈ m.deed.bound, x.name ≠ name) →
      later.session.state.SameBinding name final.state

/-- What an inner action left is lost when the outer action ends well. -/
theorem not_continuous : ¬ Continuous (compositeRun ["outer", "last"]) := by
  generalize hrun : compositeRun ["outer", "last"] = run
  have hseen : (leftAt run 3).map (fun s => s.vars.lookup "FOO") = some (some "1") ∧
      (startedAt run 5).map (fun job => job.session.state.vars.lookup "FOO") = some none ∧
      ∀ m ∈ run.drop 4, ∀ x ∈ m.deed.bound, x.name ≠ "FOO" := by
    rw [← hrun]
    decide +kernel
  obtain ⟨hfinal, hlater, hunbound⟩ := hseen
  obtain ⟨ended, job, final, hplace, hended, hvalue⟩ := exists_ended hfinal
  obtain ⟨next, later, hplace', hnext, hnone⟩ := exists_started hlater
  obtain ⟨hsplit, hdrop⟩ := split_at_two (by decide) hplace hplace'
  rw [hdrop] at hunbound
  intro hcontinuous
  have hsame := hcontinuous _ ended _ next _ job final _ later hsplit hended hnext "FOO" hunbound
  have hvars := hsame.vars
  rw [hvalue, hnone] at hvars
  cases hvars

end Batch

end ScriptRunner
