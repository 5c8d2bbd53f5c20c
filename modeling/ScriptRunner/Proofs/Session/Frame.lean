import ScriptRunner.Proofs.Session.Assignments
import ScriptRunner.Proofs.Session.Reports
import ScriptRunner.Proofs.Session.Statements

/-!
# ScriptRunner.Proofs.Session.Frame

What an entry may change, and what it leaves alone.

Every entry begins by setting `PWD`, before anything can fail. What else it changes depends on
what it asks for, and there is one frame for each case. A command may move the session, if it is a
`cd`, and changes nothing else in it (`CommandFrame`). Bindings change the names that are bound, as
far as these are not pinned (`BindingFrame`). An entry that is refused changes nothing.

Only a command can ask for a program. Which one that is, and what the program is handed, is
computed from what the entry asks for (`requestsOf_eq`).

Main statement: `Session.run_frame`.
-/

namespace ScriptRunner

open Effect Notice

namespace Session

variable {σ : Type}

/-! ## The program that an entry asks for -/

/-- The programs that an entry gives the launcher to start. -/
def requestsOf (tools : Tools σ) (s : Session) (entry : Entry) (w : σ) : List Launch :=
  requests (s.run tools.noting entry (w, [])).world.2

/-- The program that is started for what an entry asks for, if one is. -/
def asksFor? (tools : Tools σ) (s : Session) (input : Option String) : Resolution → Option Launch
  | .command program resolved =>
    if program = changeDirectoryName ∨ (tools.builtin? program).isSome then none
    else some (s.launchOf program resolved input)
  | _ => none

section Requests

variable (tools : Tools σ) (s : Session) (entry : Entry) (w : σ) (log : List Attempt)

/-- Finding out what an entry asks for gives the launcher no program to start. -/
theorem resolve_noting :
    (s.resolve tools.noting.launcher entry (w, log)).value =
        (s.resolve tools.launcher entry w).value ∧
      (s.resolve tools.noting.launcher entry (w, log)).world =
        ((s.resolve tools.launcher entry w).world, log) := by
  have horacle : Expansion.Alike (beside log) (s.oracle tools.noting.launcher)
      (s.oracle tools.launcher) :=
    ⟨fun _ => rfl, fun statements => capture_noting tools.launcher _ _ statements log⟩
  obtain ⟨hvalue, hworld, -⟩ := resolve_related entry horacle (w, log) w rfl
  exact ⟨hvalue, hworld⟩

theorem requests_settle_noting (resolution : Resolution) :
    requests (s.settle tools.noting entry resolution (w, log)).world.2 =
      requests log ++
        (s.asksFor? tools (EntryText.ofLines entry.lines).input resolution).toList := by
  cases resolution with
  | command program resolved =>
      rw [settle, world_runCommand, dispatch, runBuiltin?, asksFor?]
      by_cases hcd : program = changeDirectoryName
      · rw [if_pos hcd, if_pos (Or.inl hcd)]
        exact (List.append_nil _).symm
      · rw [if_neg hcd, tools.builtin?_noting]
        cases hbuiltin : tools.builtin? program with
        | none =>
            rw [if_neg (by simp [hcd])]
            exact List.map_append
        | some b =>
            rw [if_pos (show _ ∨ (some b).isSome = true from Or.inr rfl)]
            exact (List.append_nil _).symm
  | _ => exact (List.append_nil _).symm

/-- The launcher is given at most one program: that of a command which is no builtin. -/
theorem requestsOf_eq :
    s.requestsOf tools entry w =
      (s.withPwd.asksFor? tools (EntryText.ofLines entry.lines).input
        (s.withPwd.resolve tools.launcher entry w).value).toList := by
  obtain ⟨hvalue, hworld⟩ := resolve_noting tools s.withPwd entry w []
  rw [requestsOf, run_eq, bind_apply]
  dsimp only
  rw [hvalue, hworld, requests_settle_noting, requests, List.map_nil, List.nil_append]

end Requests

/-! ## Frames -/

/-- What a command with this program and these arguments may change of a session. -/
structure CommandFrame (s after : Session) (program : String) (args : List String) : Prop where
  /-- No binding changes, apart from `PWD`. -/
  bindings : ∀ name, after.state.SameBinding name s.state
  pwd : after.state.env.lookup "PWD" = some s.cwd
  term : after.term = s.term
  /-- Only `cd` with one argument moves the session. -/
  stays : after.cwd ≠ s.cwd → program = changeDirectoryName ∧ ∃ target, args = [target]
  moves : program = changeDirectoryName → ∀ target, args = [target] →
    changeDirectory s.cwd [target] s.withPwd.state.env = .ok after.cwd
  fails : program = changeDirectoryName →
    ∀ fault, changeDirectory s.cwd args s.withPwd.state.env = .error fault → after.cwd = s.cwd

/-- What bindings at this level may change of a session. -/
structure BindingFrame (s after : Session) (delta : Env) (level : Precedence) : Prop where
  cwd : after.cwd = s.cwd
  term : after.term = s.term
  /-- A name that is not bound, or is pinned by an earlier binding, keeps its binding. -/
  others : ∀ name, delta.lookup name = none ∨
      (s.state.precedence.lookup name = some .pinned ∧ level ≠ .pinned) →
    after.state.SameBinding name s.state
  pwd : delta.lookup "PWD" = none ∨
      (s.state.precedence.lookup "PWD" = some .pinned ∧ level ≠ .pinned) →
    after.state.env.lookup "PWD" = some s.cwd
  /-- Every other name is bound. -/
  bound : ∀ name value, delta.lookup name = some value →
    s.state.precedence.lookup name ≠ some .pinned ∨ level = .pinned →
      after.state.vars.lookup name = some value ∧ after.state.precedence.lookup name = some level
  /-- Programs see the bindings, unless they are local. -/
  env : level = .localOnly → after.state.env = s.withPwd.state.env
  seen : level ≠ .localOnly → ∀ name value, delta.lookup name = some value →
    s.state.precedence.lookup name ≠ some .pinned ∨ level = .pinned →
      after.state.env.lookup name = some value

variable {tools : Tools σ} {s : Session} {w : σ}

/-- Only with one argument does `cd` lead anywhere. -/
theorem exists_target_of_ok {cwd destination : Path} {args : List String} {env : Env}
    (h : changeDirectory cwd args env = .ok destination) : ∃ target, args = [target] := by
  unfold changeDirectory at h
  split at h
  · exact ⟨_, rfl⟩
  · cases h

/-- A command that is not `cd` leaves the session as it is. -/
theorem dispatch_session (program : String) (resolved : Resolved) (input : Option String) :
    (s.dispatch tools program resolved input w).value.1 =
      if program = changeDirectoryName then (s.cd resolved.args).1 else s := by
  rw [dispatch, runBuiltin?]
  split
  · rfl
  · cases tools.builtin? program with
    | none => rfl
    | some b => rfl

theorem CommandFrame.of_stays {program : String} {args : List String}
    (h : program = changeDirectoryName →
      ∃ fault, changeDirectory s.cwd args s.withPwd.state.env = .error fault) :
    CommandFrame s s.withPwd program args where
  bindings name := sameBinding_withPwd name s
  pwd := Bindings.lookup_bind_self _ _ _
  term := rfl
  stays hmoved := absurd rfl hmoved
  moves hcd target htarget := by
    obtain ⟨fault, hfault⟩ := h hcd
    rw [htarget] at hfault
    cases hfault
  fails _ _ _ := rfl

theorem commandFrame_dispatch (program : String) (resolved : Resolved) (input : Option String) :
    CommandFrame s (s.withPwd.dispatch tools program resolved input w).value.1 program
      resolved.args := by
  rw [dispatch_session]
  by_cases hcd : program = changeDirectoryName
  · rw [if_pos hcd, cd]
    cases hchange : changeDirectory s.withPwd.cwd resolved.args s.withPwd.state.env with
    | error fault => exact .of_stays (fun _ => ⟨fault, hchange⟩)
    | ok cwd =>
        obtain ⟨target, htarget⟩ := exists_target_of_ok hchange
        exact {
          bindings := fun name => sameBinding_withPwd name s
          pwd := Bindings.lookup_bind_self _ _ _
          term := rfl
          stays := fun _ => ⟨hcd, target, htarget⟩
          moves := fun _ other hother => hother ▸ hchange
          fails := fun _ fault hfault => by cases hchange.symm.trans hfault }
  · rw [if_neg hcd]
    exact .of_stays (fun h => absurd h hcd)

/-- A program sees the same value of a name as before, unless the name is bound. -/
theorem lookup_env_unbound {state : SessionState} {delta : Env} {level : Precedence} {name : String}
    (h : delta.lookup name = none ∨
      (state.precedence.lookup name = some .pinned ∧ level ≠ .pinned)) :
    (state.assign delta level).env.lookup name = state.env.lookup name := by
  refine (SessionState.lookup_env_assign _ _ _ _).trans ?_
  rcases h with hnone | hpinned
  · rw [hnone, Option.none_or, ite_self]
  · exact if_pos (Or.inr ((SessionState.refuses_iff _ _ _).2 hpinned))

theorem bindingFrame_assign (delta : Env) (level : Precedence) :
    BindingFrame s (s.withPwd.withState (s.withPwd.state.assign delta level)) delta level where
  cwd := rfl
  term := rfl
  others name h := by
    -- `PWD` aside, the session has the bindings that it had before `PWD` was set
    refine SessionState.SameBinding.trans ⟨?_, ?_, fun _ => lookup_env_unbound h⟩
      (sameBinding_withPwd name s)
    · refine (SessionState.lookup_vars_assign _ _ _ _).trans ?_
      rcases h with hnone | hpinned
      · rw [hnone, Option.none_or, ite_self]
      · exact if_pos ((SessionState.refuses_iff _ _ _).2 hpinned)
    · refine (SessionState.lookup_precedence_assign _ _ _ _).trans ?_
      rcases h with hnone | hpinned
      · rw [hnone, Option.map_none, Option.none_or, ite_self]
      · exact if_pos ((SessionState.refuses_iff _ _ _).2 hpinned)
  pwd h := by
    have hpwd : s.withPwd.state.env.lookup "PWD" = some s.cwd := Bindings.lookup_bind_self _ _ _
    rw [← hpwd]
    exact lookup_env_unbound h
  bound name value hvalue hfree := by
    have hbinds : ¬ s.withPwd.state.refuses level name = true :=
      (SessionState.not_refuses_iff _ _ _).2 hfree
    refine ⟨(SessionState.lookup_vars_assign _ _ _ _).trans ?_,
      (SessionState.lookup_precedence_assign _ _ _ _).trans ?_⟩
    · rw [if_neg hbinds, hvalue, Option.some_or]
    · rw [if_neg hbinds, hvalue, Option.map_some, Option.some_or]
  env hlocal := by
    refine Bindings.ext_lookup (fun name => ?_)
    exact (SessionState.lookup_env_assign _ _ _ _).trans (if_pos (Or.inl hlocal))
  seen hlevel name value hvalue hfree := by
    have hbinds : ¬ (level = .localOnly ∨ s.withPwd.state.refuses level name = true) :=
      not_or.2 ⟨hlevel, (SessionState.not_refuses_iff _ _ _).2 hfree⟩
    refine (SessionState.lookup_env_assign _ _ _ _).trans ?_
    rw [if_neg hbinds, hvalue, Option.some_or]

/-! ## An entry -/

/-- To find out that an entry is refused, nothing is run. -/
theorem resolve_of_unreadable {launcher : Launcher σ} {entry : Entry} (h : Unreadable entry) :
    ∃ reason, (s.resolve launcher entry w).value = .refused reason ∧
      (s.resolve launcher entry w).world = w := by
  obtain ⟨reason, hreason⟩ := resolve_refused_iff.2 h
  refine ⟨reason, hreason, ?_⟩
  rw [resolve, bind_apply, world_warnIgnored] at hreason ⊢
  generalize (readStatements (EntryText.ofLines entry.lines).command).result = result at hreason ⊢
  -- only a single statement is expanded, and then nothing is refused any more
  rcases result with (_ | _) | (_ | ⟨statement, _ | ⟨second, rest⟩⟩)
  case ok.cons.nil =>
      dsimp only at hreason
      exact absurd hreason (resolveStatement_ne_refused statement reason)
  all_goals rfl

section Run

variable {entry : Entry}
  (hsilent : ∀ request x, events (tools.launcher.capture request x).notices = [])

include hsilent

/-- An entry is a silent question, and then what is done about the answer. -/
theorem run_settled {resolution : Resolution}
    (h : (s.withPwd.resolve tools.launcher entry w).value = resolution) :
    let settled := s.withPwd.settle tools entry resolution
      (s.withPwd.resolve tools.launcher entry w).world
    (s.run tools entry w).value = settled.value ∧ (s.run tools entry w).world = settled.world ∧
      events (s.run tools entry w).notices = events settled.notices ∧
      s.requestsOf tools entry w =
        (s.withPwd.asksFor? tools (EntryText.ofLines entry.lines).input resolution).toList := by
  have hasked : events (s.withPwd.resolve tools.launcher entry w).notices = [] :=
    events_resolve hsilent
  rw [requestsOf_eq, run_eq, bind_apply, events_append, hasked, h]
  exact ⟨rfl, rfl, rfl, rfl⟩

theorem run_of_unreadable (h : Unreadable entry) :
    (s.run tools entry w).value.1 = s.withPwd ∧
      (∃ failure, (s.run tools entry w).value.2 = .error failure) ∧
      (s.run tools entry w).world = w ∧ events (s.run tools entry w).notices = [] ∧
      s.requestsOf tools entry w = [] := by
  obtain ⟨reason, hreason, hfound⟩ :
      ∃ reason, (s.withPwd.resolve tools.launcher entry w).value = .refused reason ∧
        (s.withPwd.resolve tools.launcher entry w).world = w := resolve_of_unreadable h
  obtain ⟨hvalue, hworld, hevents, hrequests⟩ := run_settled hsilent hreason
  rw [hfound] at hvalue hworld hevents
  refine ⟨?_, ⟨reason, ?_⟩, hworld, hevents, hrequests⟩
  · rw [hvalue]
    rfl
  · rw [hvalue]
    rfl

theorem run_of_command {program : String} {resolved : Resolved}
    (h : (s.withPwd.resolve tools.launcher entry w).value = .command program resolved) :
    CommandFrame s (s.run tools entry w).value.1 program resolved.args ∧
      s.requestsOf tools entry w =
        if program = changeDirectoryName ∨ (tools.builtin? program).isSome then []
        else [{ program := program
                args := resolved.args
                env := (s.state.env.bind "PWD" s.cwd).overlay resolved.env
                cwd := s.cwd
                term := s.term
                input := (EntryText.ofLines entry.lines).input }] := by
  obtain ⟨hvalue, -, -, hrequests⟩ := run_settled hsilent h
  constructor
  · rw [hvalue]
    exact commandFrame_dispatch program resolved _
  · rw [hrequests, asksFor?]
    split
    · rfl
    · rfl

theorem run_of_bindings
    (h : (s.withPwd.resolve tools.launcher entry w).value = .nothing ∨
      ∃ delta, (s.withPwd.resolve tools.launcher entry w).value = .bindings delta) :
    BindingFrame s (s.run tools entry w).value.1
        (s.withPwd.resolve tools.launcher entry w).value.delta entry.precedence ∧
      (s.run tools entry w).value.2 = .ok Exit.success ∧
      events (s.run tools entry w).notices = [] ∧ s.requestsOf tools entry w = [] := by
  rcases h with hnothing | ⟨delta, hdelta⟩
  · obtain ⟨hvalue, -, hevents, hrequests⟩ := run_settled hsilent hnothing
    refine ⟨?_, congrArg Prod.snd hvalue, hevents, hrequests⟩
    rw [hvalue, hnothing]
    exact bindingFrame_assign Bindings.empty entry.precedence
  · obtain ⟨hvalue, -, hevents, hrequests⟩ := run_settled hsilent hdelta
    refine ⟨?_, congrArg Prod.snd hvalue, hevents, hrequests⟩
    rw [hvalue, hdelta]
    exact bindingFrame_assign delta entry.precedence

end Run

/-- What an entry may change, in the session and outside of it. An entry that is refused sets `PWD`
and fails. A command may move the session, and is the only one to give the launcher a program. Every
other entry binds names. -/
theorem run_frame (hsilent : ∀ request x, events (tools.launcher.capture request x).notices = [])
    (s : Session) (entry : Entry) (w : σ) :
    let asked := s.withPwd.resolve tools.launcher entry w
    let ended := s.run tools entry w
    (Unreadable entry →
      ended.value.1 = s.withPwd ∧ (∃ failure, ended.value.2 = .error failure) ∧ ended.world = w ∧
        events ended.notices = [] ∧ s.requestsOf tools entry w = []) ∧
    (∀ program resolved, asked.value = .command program resolved →
      CommandFrame s ended.value.1 program resolved.args ∧
        s.requestsOf tools entry w =
          if program = changeDirectoryName ∨ (tools.builtin? program).isSome then []
          else [{ program := program
                  args := resolved.args
                  env := (s.state.env.bind "PWD" s.cwd).overlay resolved.env
                  cwd := s.cwd
                  term := s.term
                  input := (EntryText.ofLines entry.lines).input }]) ∧
    ((asked.value = .nothing ∨ ∃ delta, asked.value = .bindings delta) →
      BindingFrame s ended.value.1 asked.value.delta entry.precedence ∧
        ended.value.2 = .ok Exit.success ∧ events ended.notices = [] ∧
        s.requestsOf tools entry w = []) :=
  ⟨run_of_unreadable hsilent, fun _ _ => run_of_command hsilent, run_of_bindings hsilent⟩

/-- A session with a pinned binding. -/
def pinnedSample : Session :=
  ⟨"/work", (SessionState.ofEnv Bindings.empty).assignOne .pinned "A" "0", default⟩

/-- Bindings at the level that is meant where none is given. -/
def plainSample : Entry := .plain (.line "A=1 B=2")

/-- Bindings that are local. -/
def localSample : Entry := .structured (.line "A=1 B=2") .stop (some .localOnly)

/-- Two statements, a `cd`, a program with an input and a binding of its own, and bindings at two
levels of which one is refused. -/
theorem run_frame_sample :
    (∀ request x, events (idle.launcher.capture request x).notices = []) ∧
    (pinnedSample.run idle (.plain (.line "B=1; cd sub")) ()).value.1 = pinnedSample.withPwd ∧
    (pinnedSample.run idle (.plain (.line "B=1 cd ../sub")) ()).value.1.cwd = "/sub" ∧
    pinnedSample.requestsOf idle (.plain (.lines ["A=1 make all <<", "input"])) () =
      [{ program := "make"
         args := ["all"]
         env := Bindings.ofList [("A", "1"), ("PWD", "/work")]
         cwd := "/work"
         term := default
         input := some "input" }] ∧
    (pinnedSample.run idle plainSample ()).value.1.state.vars.lookup "A" = some "0" ∧
    (pinnedSample.run idle plainSample ()).value.1.state.env.lookup "A" = some "0" ∧
    (pinnedSample.run idle plainSample ()).value.1.state.env.lookup "B" = some "2" ∧
    (pinnedSample.run idle localSample ()).value.1.state.vars.lookup "A" = some "0" ∧
    (pinnedSample.run idle localSample ()).value.1.state.vars.lookup "B" = some "2" ∧
    (pinnedSample.run idle localSample ()).value.1.state.env.lookup "B" = none := by
  have hsilent : ∀ request x, events (idle.launcher.capture request x).notices = [] :=
    fun _ _ => rfl
  have hunreadable : Unreadable (.plain (.line "B=1; cd sub")) := by
    have htext : EntryText.ofLines (Entry.plain (.line "B=1; cd sub")).lines =
        ⟨"B=1; cd sub", none⟩ := by
      decide +kernel
    intro statements h
    rw [htext] at h
    cases h
    decide
  have hcd : (pinnedSample.withPwd.resolve idle.launcher
      (.plain (.line "B=1 cd ../sub")) ()).value =
        .command "cd" ⟨some "cd", ["../sub"], Bindings.ofList [("B", "1")]⟩ := by
    have htext : EntryText.ofLines (Entry.plain (.line "B=1 cd ../sub")).lines =
        ⟨"B=1 cd ../sub", none⟩ := by
      decide +kernel
    have hread : readStatements "B=1 cd ../sub" =
        ⟨.ok [.command (.literal "cd") [.literal "../sub"] [.mk "B" (.literal "1")]], []⟩ := rfl
    rw [resolve_single htext hread]
    rfl
  have hinput : EntryText.ofLines (Entry.plain (.lines ["A=1 make all <<", "input"])).lines =
      ⟨"A=1 make all", some "input"⟩ := by
    decide +kernel
  have hmake : (pinnedSample.withPwd.resolve idle.launcher
      (.plain (.lines ["A=1 make all <<", "input"])) ()).value =
        .command "make" ⟨some "make", ["all"], Bindings.ofList [("A", "1")]⟩ := by
    have hread : readStatements "A=1 make all" =
        ⟨.ok [.command (.literal "make") [.literal "all"] [.mk "A" (.literal "1")]], []⟩ := rfl
    rw [resolve_single hinput hread]
    rfl
  have hread : readStatements "A=1 B=2" =
      ⟨.ok [.assign [.mk "A" (.literal "1"), .mk "B" (.literal "2")]], []⟩ := rfl
  have hplain : (pinnedSample.withPwd.resolve idle.launcher plainSample ()).value =
      .bindings (Bindings.ofList [("A", "1"), ("B", "2")]) := by
    have htext : EntryText.ofLines plainSample.lines = ⟨"A=1 B=2", none⟩ := by
      decide +kernel
    rw [resolve_single htext hread]
    rfl
  have hlocal : (pinnedSample.withPwd.resolve idle.launcher localSample ()).value =
      .bindings (Bindings.ofList [("A", "1"), ("B", "2")]) := by
    have htext : EntryText.ofLines localSample.lines = ⟨"A=1 B=2", none⟩ := by
      decide +kernel
    rw [resolve_single htext hread]
    rfl
  obtain ⟨hrefused, -, -⟩ := run_frame hsilent pinnedSample (.plain (.line "B=1; cd sub")) ()
  obtain ⟨-, hcommand, -⟩ := run_frame hsilent pinnedSample (.plain (.line "B=1 cd ../sub")) ()
  have hmoves := (hcommand _ _ hcd).1.moves rfl "../sub" rfl
  have hdestination : changeDirectory pinnedSample.cwd ["../sub"] pinnedSample.withPwd.state.env =
      .ok "/sub" := by
    rfl
  rw [hdestination] at hmoves
  obtain ⟨-, hcommand', -⟩ :=
    run_frame hsilent pinnedSample (.plain (.lines ["A=1 make all <<", "input"])) ()
  have hrequests := (hcommand' _ _ hmake).2
  obtain ⟨-, -, hbound⟩ := run_frame hsilent pinnedSample plainSample ()
  have hframe := (hbound (Or.inr ⟨_, hplain⟩)).1
  rw [hplain] at hframe
  have hkept := hframe.others "A" (Or.inr (by decide +kernel))
  obtain ⟨-, -, hbound'⟩ := run_frame hsilent pinnedSample localSample ()
  have hframe' := (hbound' (Or.inr ⟨_, hlocal⟩)).1
  rw [hlocal] at hframe'
  have hkept' := hframe'.others "A" (Or.inr (by decide +kernel))
  refine ⟨hsilent, (hrefused hunreadable).1, ?_, ?_, ?_, ?_, ?_, ?_, ?_, ?_⟩
  · exact (Except.ok.inj hmoves).symm
  · rw [hrequests, hinput]
    decide +kernel
  · rw [hkept.vars]
    decide +kernel
  · rw [hkept.env (by decide)]
    decide +kernel
  · exact hframe.seen (by decide) "B" "2" (by decide +kernel) (by decide +kernel)
  · rw [hkept'.vars]
    decide +kernel
  · exact (hframe'.bound "B" "2" (by decide +kernel) (by decide +kernel)).1
  · rw [hframe'.env (by decide)]
    decide +kernel

end Session

end ScriptRunner
