import ScriptRunner.Host.Machine
import ScriptRunner.Proofs.Session.Resolution

/-!
# ScriptRunner.Proofs.Session.Reports

What a session reports about one entry, and what the entry counts as.

Whether a command did its work is decided in three places: by its exit
(`Exit.isSuccess`), by what is said at its end (`Session.endMessage`), and by the exit that a
failure counts as (`Failure.exit`). The three agree as long as those who run commands answer
truthfully (`Truthful`). The session itself does not check this.

`Session.answer` is what a command comes to, apart from the reports around it.

Capturing the output of a substitution has no way to the session's reports. Of a launcher in
general this has to be assumed. A machine has this property (`Machine.events_captured`), and
it answers truthfully (`Machine.truthful_start`).
-/

namespace ScriptRunner

/-- The session's report in a notice, if it is one. -/
def Notice.event? : Notice → Option ShellEvent
  | .shell event => some event
  | _ => none

/-- What the session reported. -/
def Notice.events (notices : List Notice) : List ShellEvent :=
  notices.filterMap Notice.event?

@[simp] theorem Notice.events_append (a b : List Notice) :
    events (a ++ b) = events a ++ events b :=
  List.filterMap_append

@[simp] theorem Notice.events_map_shell (reported : List ShellEvent) :
    events (reported.map .shell) = reported := by
  rw [events, List.filterMap_map]
  exact List.filterMap_some

open Notice

theorem Notice.events_eq_nil_iff {notices : List Notice} :
    events notices = [] ↔ ∀ n ∈ notices, n.event? = none :=
  List.filterMap_eq_nil_iff

/-! ## How a command ended -/

theorem Exit.terminatedBy_eq_some_iff {e : Exit} {name : String} :
    e.terminatedBy = some name ↔ e.signal = some name ∧ name ≠ "" := by
  rw [terminatedBy]
  cases e.signal with
  | none => simp
  | some signal =>
      dsimp only
      by_cases hempty : signal = ""
      · subst hempty
        constructor
        · intro h
          cases h
        · rintro ⟨hname, hne⟩
          exact absurd (Option.some.inj hname).symm hne
      · rw [if_neg (by simpa using hempty)]
        constructor
        · intro hname
          exact ⟨hname, Option.some.inj hname ▸ hempty⟩
        · exact fun h => h.1

theorem Exit.isSuccess_iff {e : Exit} :
    e.isSuccess = true ↔ e.terminatedBy = none ∧ e.code = 0 := by
  rw [isSuccess, isSignaled, Bool.and_eq_true, Bool.not_eq_true', beq_iff_eq]
  cases e.terminatedBy with
  | none => simp
  | some name => simp

/-- An answer whose exit says what the answer says. -/
def Truthful : Except Failure Exit → Prop
  | .ok exit => exit.isSuccess = true
  | .error (.commandFailed exit) => exit.isSuccess = false
  | .error _ => True

/-- The exit that an answer counts as. -/
def exitOf : Except Failure Exit → Exit
  | .ok exit => exit
  | .error failure => failure.exit

/-- No failure counts as a success. -/
theorem Truthful.isSuccess_exit {failure : Failure} (h : Truthful (.error failure)) :
    failure.exit.isSuccess = false := by
  cases failure with
  | commandFailed exit => exact h
  | launch program reason missing => cases missing <;> rfl
  | _ => rfl

theorem truthful_toResult (e : Exit) : Truthful e.toResult := by
  rw [Exit.toResult]
  cases h : e.isSuccess with
  | false => exact h
  | true => exact h

theorem Truthful.isSuccess_iff {answer : Except Failure Exit} (h : Truthful answer) :
    (exitOf answer).isSuccess = true ↔ ∃ exit, answer = .ok exit := by
  cases answer with
  | ok exit =>
      exact ⟨fun _ => ⟨exit, rfl⟩, fun _ => h⟩
  | error failure =>
      rw [exitOf, h.isSuccess_exit]
      constructor
      · intro hfalse
        cases hfalse
      · rintro ⟨exit, hexit⟩
        cases hexit

namespace Session

/-! ## The end message -/

/-- The end message has one of three forms. -/
theorem endMessage_cases (e : Exit) :
    (∃ name, e.terminatedBy = some name ∧ endMessage e = "Signal " ++ name) ∨
    (e.terminatedBy = none ∧ e.code = 0 ∧ endMessage e = successMarker) ∨
    (e.terminatedBy = none ∧ e.code ≠ 0 ∧
      endMessage e = "\nExit " ++ toString e.code ++ ".") := by
  rw [endMessage]
  cases e.terminatedBy with
  | some name => exact Or.inl ⟨name, rfl, rfl⟩
  | none =>
      by_cases hcode : e.code = 0
      · exact Or.inr (Or.inl ⟨rfl, hcode, if_pos hcode⟩)
      · exact Or.inr (Or.inr ⟨rfl, hcode, if_neg hcode⟩)

/-- The first character of an end message tells its form. -/
theorem ne_of_head {a b : String} (h : a.toList.head? ≠ b.toList.head?) : a ≠ b :=
  fun heq => h (congrArg (fun t => t.toList.head?) heq)

theorem head_signal (name : String) : ("Signal " ++ name).toList.head? = some 'S' := by
  rw [String.toList_append]
  rfl

theorem head_code (code : Int) :
    ("\nExit " ++ toString code ++ ".").toList.head? = some '\n' := by
  rw [String.toList_append, String.toList_append]
  rfl

theorem head_successMarker : successMarker.toList.head? = some '\u2756' := rfl

theorem endMessage_eq_successMarker_iff (e : Exit) :
    endMessage e = successMarker ↔ e.isSuccess = true := by
  rw [Exit.isSuccess_iff]
  obtain ⟨name, hsignal, hform⟩ | ⟨hsignal, hcode, hform⟩ | ⟨hsignal, hcode, hform⟩ :=
    endMessage_cases e
  · have hne : "Signal " ++ name ≠ successMarker :=
      ne_of_head (by rw [head_signal, head_successMarker]; decide)
    rw [hform, hsignal]
    exact ⟨fun h => absurd h hne, fun h => by cases h.1⟩
  · exact ⟨fun _ => ⟨hsignal, hcode⟩, fun _ => hform⟩
  · have hne : "\nExit " ++ toString e.code ++ "." ≠ successMarker :=
      ne_of_head (by rw [head_code, head_successMarker]; decide)
    rw [hform]
    exact ⟨fun h => absurd h hne, fun h => absurd h.2 hcode⟩

theorem endMessage_eq_signal_iff (e : Exit) (name : String) :
    endMessage e = "Signal " ++ name ↔ e.terminatedBy = some name := by
  obtain ⟨other, hsignal, hform⟩ | ⟨hsignal, -, hform⟩ | ⟨hsignal, -, hform⟩ :=
    endMessage_cases e
  · rw [hform, hsignal, Option.some.injEq]
    constructor
    · intro h
      have hlists := congrArg String.toList h
      rw [String.toList_append, String.toList_append, List.append_cancel_left_eq] at hlists
      exact String.toList_inj.1 hlists
    · rintro rfl
      rfl
  · have hne : successMarker ≠ "Signal " ++ name :=
      ne_of_head (by rw [head_signal, head_successMarker]; decide)
    rw [hform, hsignal]
    exact ⟨fun h => absurd h hne, fun h => by cases h⟩
  · have hne : "\nExit " ++ toString e.code ++ "." ≠ "Signal " ++ name :=
      ne_of_head (by rw [head_code, head_signal]; decide)
    rw [hform, hsignal]
    exact ⟨fun h => absurd h hne, fun h => by cases h⟩

/-- The form with the code is for the exits that are neither. -/
theorem endMessage_eq_code_iff (e : Exit) :
    endMessage e = "\nExit " ++ toString e.code ++ "." ↔
      e.isSuccess = false ∧ e.terminatedBy = none := by
  rw [Bool.eq_false_iff, Ne, Exit.isSuccess_iff]
  obtain ⟨name, hsignal, hform⟩ | ⟨hsignal, hcode, hform⟩ | ⟨hsignal, hcode, hform⟩ :=
    endMessage_cases e
  · have hne : "Signal " ++ name ≠ "\nExit " ++ toString e.code ++ "." :=
      ne_of_head (by rw [head_code, head_signal]; decide)
    rw [hform, hsignal]
    exact ⟨fun h => absurd h hne, fun h => by cases h.2⟩
  · have hne : successMarker ≠ "\nExit " ++ toString e.code ++ "." :=
      ne_of_head (by rw [head_code, head_successMarker]; decide)
    rw [hform]
    exact ⟨fun h => absurd h hne, fun h => absurd ⟨hsignal, hcode⟩ h.1⟩
  · exact ⟨fun _ => ⟨fun h => hcode h.2, hsignal⟩, fun _ => hform⟩

/-! ## A command -/

variable {σ : Type} (tools : Tools σ) (s : Session)

/-- What a command comes to: for `cd`, for a builtin, or for a program that is launched. -/
def answer (program : String) (resolved : Resolved) (input : Option String) :
    Effect σ (Except Failure Exit) :=
  if program = changeDirectoryName then pure (s.cd resolved.args).2
  else
    match tools.builtin? program with
    | some b => b.invoke resolved.args
    | none => tools.launcher.start (s.launchOf program resolved input)

/-- A command comes to its answer, and nothing but the answer's own events is reported. -/
theorem dispatch_eq_answer (program : String) (resolved : Resolved) (input : Option String)
    (w : σ) :
    (s.dispatch tools program resolved input w).value.2 =
        (s.answer tools program resolved input w).value ∧
      events (s.dispatch tools program resolved input w).notices =
        events (s.answer tools program resolved input w).notices := by
  rw [dispatch, runBuiltin?, answer]
  by_cases hcd : program = changeDirectoryName
  · rw [if_pos hcd, if_pos hcd]
    exact ⟨rfl, rfl⟩
  · rw [if_neg hcd, if_neg hcd]
    cases tools.builtin? program with
    | none =>
        refine ⟨rfl, ?_⟩
        simp only [Effect.bind_apply, Effect.notify_apply, Effect.pure_apply, events_append,
          List.append_nil]
        rfl
    | some b =>
        refine ⟨rfl, ?_⟩
        simp only [Effect.bind_apply, Effect.pure_apply, List.append_nil]

/-- Tools that answer truthfully. -/
structure Honest (tools : Tools σ) : Prop where
  programs : ∀ request w, Truthful (tools.launcher.start request w).value
  builtins : ∀ b ∈ tools.builtins, ∀ args w, Truthful (b.invoke args w).value

variable {tools s}

/-- With honest tools every command is answered truthfully. -/
theorem Honest.answer (h : Honest tools) (program : String) (resolved : Resolved)
    (input : Option String) (w : σ) :
    Truthful (s.answer tools program resolved input w).value := by
  rw [Session.answer]
  split
  · rw [cd, Effect.pure_apply]
    split
    · rfl
    · exact True.intro
  · cases hbuiltin : tools.builtin? program with
    | none => exact h.programs _ w
    | some b => exact h.builtins b (List.mem_of_find?_eq_some hbuiltin) _ w

/-- What is said about a failure: nothing where the command did run, and its end says enough. -/
def failureText : Except Failure Exit → List ShellEvent
  | .ok _ => []
  | .error (.commandFailed _) => []
  | .error failure => [.message failure.message]

/-- What is said when the script goes on. -/
def carryOnText (policy : FailPolicy) : Except Failure Exit → List ShellEvent
  | .ok _ => []
  | .error _ => if policy = .carryOn then [.message carryOnMessage] else []

theorem notices_sayFailure (failure : Failure) (w : σ) :
    (sayFailure failure w).notices =
      (failureText (.error failure) ++ [ShellEvent.message (endMessage failure.exit)]).map
        .shell := by
  cases failure <;> rfl

theorem notices_conclude (policy : FailPolicy) (answer : Except Failure Exit) (w : σ) :
    (conclude policy answer w).notices =
      (failureText answer ++ [ShellEvent.message (endMessage (exitOf answer))] ++
        carryOnText policy answer).map .shell := by
  cases answer with
  | ok exit => rfl
  | error failure =>
      cases policy with
      | stop =>
          rw [conclude_stop, Effect.bind_apply, notices_sayFailure]
          simp [exitOf, carryOnText]
      | carryOn =>
          rw [conclude_carryOn, Effect.bind_apply, notices_sayFailure]
          simp [exitOf, carryOnText, say, Effect.report]

theorem events_conclude (policy : FailPolicy) (answer : Except Failure Exit) (w : σ) :
    events (conclude policy answer w).notices =
      failureText answer ++ [.message (endMessage (exitOf answer))] ++
        carryOnText policy answer := by
  rw [notices_conclude, events_map_shell]

/-! ## An entry -/

/-- The entry is no text of at most one statement. -/
def Unreadable (entry : Entry) : Prop :=
  ∀ statements,
    (readStatements (EntryText.ofLines entry.lines).command).result = .ok statements →
      2 ≤ statements.length

variable {launcher : Launcher σ} {entry : Entry} {w : σ}

/-- A single statement always resolves. -/
theorem resolveStatement_ne_refused (statement : Statement) (reason : Failure) :
    (s.resolveStatement launcher statement w).value ≠ .refused reason := by
  rw [resolveStatement, Effect.bind_apply]
  intro h
  cases hprogram :
      (Expansion.expand (s.oracle launcher) s.state.vars s.state.env statement w).value.program with
  | none =>
      rw [hprogram] at h
      cases h
  | some program =>
      rw [hprogram] at h
      cases h

theorem resolve_refused_iff :
    (∃ reason, (s.resolve launcher entry w).value = .refused reason) ↔ Unreadable entry := by
  rw [resolve, Unreadable, Effect.bind_apply]
  generalize (readStatements (EntryText.ofLines entry.lines).command).result = result
  cases result with
  | error halt =>
      constructor
      · intro _ statements h
        cases h
      · intro _
        cases halt with
        | refused reason => exact ⟨.unreadable reason, rfl⟩
        | stalled => exact ⟨.stalled, rfl⟩
  | ok statements =>
      cases statements with
      | nil =>
          constructor
          · rintro ⟨reason, hreason⟩
            cases hreason
          · intro h
            exact absurd (h [] rfl) (by decide)
      | cons statement rest =>
          cases rest with
          | nil =>
              constructor
              · rintro ⟨reason, hreason⟩
                dsimp only at hreason
                exact absurd hreason (resolveStatement_ne_refused statement reason)
              · intro h
                exact absurd (h [statement] rfl) (by simp)
          | cons second rest =>
              refine ⟨fun _ statements h => ?_, fun _ => ⟨.severalStatements _, rfl⟩⟩
              cases h
              simp

/-- Without a command, an entry fails only where it is refused. -/
theorem settle_error_iff {resolution : Resolution}
    (hnone : ∀ program resolved, resolution ≠ .command program resolved) :
    (∃ failure, (s.settle tools entry resolution w).value.2 = .error failure) ↔
      ∃ reason, resolution = .refused reason := by
  cases resolution with
  | refused reason => exact ⟨fun _ => ⟨reason, rfl⟩, fun _ => ⟨reason, rfl⟩⟩
  | nothing => exact ⟨nofun, nofun⟩
  | bindings delta => exact ⟨nofun, nofun⟩
  | command program resolved => exact absurd rfl (hnone program resolved)

/-- Finding out what an entry asks for is silent, where capturing output is. -/
theorem events_resolve
    (hsilent : ∀ request x, events (launcher.capture request x).notices = []) :
    events (s.resolve launcher entry w).notices = [] := by
  have hcaptures :
      Subshell.Alike (Effect.onlyGives (fun n => n.event? = none)) launcher launcher :=
    { warnings := fun _ => Effect.onlyGives_singleton rfl
      requests := fun _ => Effect.onlyGives_singleton rfl
      captures := fun request => Effect.related_onlyGives_iff.2 (fun x =>
        events_eq_nil_iff.1 (hsilent request x)) }
  have horacle := hcaptures.oracles (Subshell.capture_related hcaptures s.cwd s.state.env)
  exact events_eq_nil_iff.2 (Effect.related_onlyGives_iff.1 (resolve_related entry horacle) w)

/-- What is seen of an entry that ran a command with the answer `done`. -/
structure Reported (entry : Entry) (done : Done σ (Except Failure Exit))
    (ended : Done σ (Session × Except Failure Exit)) : Prop where
  /-- The command line, what the command reported itself, why it failed where it did not run,
  one end message, and that the script goes on. -/
  events : events ended.notices =
    [.message ("$ " ++ (EntryText.ofLines entry.lines).command)] ++ Notice.events done.notices ++
      failureText done.value ++ [.message (endMessage (exitOf done.value))] ++
      carryOnText entry.failPolicy done.value
  success : endMessage (exitOf done.value) = successMarker ↔ ∃ exit, done.value = .ok exit
  signal : ∀ name, endMessage (exitOf done.value) = "Signal " ++ name ↔
    (exitOf done.value).signal = some name ∧ name ≠ ""
  code : endMessage (exitOf done.value) =
      "\nExit " ++ toString (exitOf done.value).code ++ "." ↔
    (∃ failure, done.value = .error failure) ∧
      ¬ ∃ name, (exitOf done.value).signal = some name ∧ name ≠ ""
  ok : ∀ exit, done.value = .ok exit → ended.value.2 = .ok exit
  stop : ∀ failure, done.value = .error failure → entry.failPolicy = .stop →
    ended.value.2 = .error failure
  /-- A failure that the script survives still counts as one. -/
  carryOn : ∀ failure, done.value = .error failure → entry.failPolicy = .carryOn →
    ended.value.2 = .ok failure.exit ∧ failure.exit.isSuccess = false

theorem signal_ne_empty_iff (e : Exit) :
    (¬ ∃ name, e.signal = some name ∧ name ≠ "") ↔ e.terminatedBy = none := by
  rw [Option.eq_none_iff_forall_ne_some, not_exists]
  exact forall_congr' (fun name => not_congr Exit.terminatedBy_eq_some_iff.symm)

/-- A truthful answer, with the reports around it and the conclusion drawn from it. -/
theorem reported_of_truthful {done : Done σ (Except Failure Exit)}
    {ended : Done σ (Session × Except Failure Exit)} (htruth : Truthful done.value)
    (hevents : Notice.events ended.notices =
      [.message ("$ " ++ (EntryText.ofLines entry.lines).command)] ++
        (Notice.events done.notices ++
          Notice.events (conclude entry.failPolicy done.value w).notices))
    (hvalue : ended.value.2 = (conclude entry.failPolicy done.value w).value) :
    Reported entry done ended where
  events := by
    rw [hevents, events_conclude]
    simp only [List.append_assoc]
  success := by
    rw [endMessage_eq_successMarker_iff]
    exact htruth.isSuccess_iff
  signal name := by
    rw [endMessage_eq_signal_iff]
    exact Exit.terminatedBy_eq_some_iff
  code := by
    rw [endMessage_eq_code_iff, signal_ne_empty_iff]
    refine and_congr_left (fun _ => ?_)
    rw [Bool.eq_false_iff, Ne, htruth.isSuccess_iff]
    cases done.value with
    | ok exit => simp
    | error failure => simp
  ok exit hok := by
    rw [hvalue, value_conclude, hok]
  stop failure herror hpolicy := by
    rw [hvalue, value_conclude, herror, hpolicy]
    rfl
  carryOn failure herror hpolicy := by
    rw [herror] at htruth
    rw [hvalue, value_conclude, herror, hpolicy]
    exact ⟨rfl, htruth.isSuccess_exit⟩

theorem runCommand_eq_answer (tools : Tools σ) (s : Session) (entry : Entry) (text : EntryText)
    (program : String) (resolved : Resolved) (w : σ) :
    let done := s.answer tools program resolved text.input w
    let ended := s.runCommand tools entry text program resolved w
    Notice.events ended.notices = [.message ("$ " ++ text.command)] ++
        (Notice.events done.notices ++
          Notice.events (conclude entry.failPolicy done.value w).notices) ∧
      ended.value.2 = (conclude entry.failPolicy done.value w).value := by
  obtain ⟨hvalue, hevents⟩ := dispatch_eq_answer tools s program resolved text.input w
  intro done ended
  have hnotices : ended.notices = [.shell (.message ("$ " ++ text.command))] ++
      ((s.dispatch tools program resolved text.input w).notices ++
        ((conclude entry.failPolicy (s.dispatch tools program resolved text.input w).value.2
          (s.dispatch tools program resolved text.input w).world).notices ++ [])) := rfl
  have hresult : ended.value.2 =
      (conclude entry.failPolicy (s.dispatch tools program resolved text.input w).value.2
        (s.dispatch tools program resolved text.input w).world).value := rfl
  constructor
  · rw [hnotices, List.append_nil, events_append, events_append, hevents, hvalue, events_conclude,
      events_conclude]
    rfl
  · rw [hresult, hvalue, value_conclude, value_conclude]

/-- A command fails its entry where its answer is a failure and the script is to stop. -/
theorem Reported.error_iff {done : Done σ (Except Failure Exit)}
    {ended : Done σ (Session × Except Failure Exit)} (h : Reported entry done ended) :
    (∃ failure, ended.value.2 = .error failure) ↔
      (∃ failure, done.value = .error failure) ∧ entry.failPolicy = .stop := by
  cases hdone : done.value with
  | ok exit =>
      rw [h.ok exit hdone]
      exact ⟨nofun, fun hboth => nomatch hboth.1⟩
  | error failure =>
      cases hpolicy : entry.failPolicy with
      | stop =>
          rw [h.stop failure hdone hpolicy]
          exact ⟨fun herror => ⟨herror, rfl⟩, fun hboth => hboth.1⟩
      | carryOn =>
          rw [(h.carryOn failure hdone hpolicy).1]
          exact ⟨nofun, fun hboth => nomatch hboth.2⟩

end Session

/-! ## On a machine -/

namespace Machine

theorem truthful_onTerminal (l : Launch) (m : Machine) : Truthful (onTerminal l m).value := by
  rw [onTerminal, Effect.bind_apply]
  dsimp only [Effect.get]
  cases m.terminalImage l with
  | error fault => exact True.intro
  | ok found => exact truthful_toResult _

theorem truthful_onPipes (l : Launch) (input : String) (m : Machine) :
    Truthful (onPipes l input m).value := by
  rw [onPipes, Effect.bind_apply]
  dsimp only [Effect.get]
  cases m.imageOf l.toInvocation with
  | error fault => exact True.intro
  | ok found => exact truthful_toResult _

/-- Starts a program that was found. -/
def startFound (l : Launch) : Effect Machine (Except Failure Exit) :=
  match l.input with
  | none => onTerminal l
  | some input => onPipes l input

theorem start_eq (l : Launch) (m : Machine) :
    start l m =
      (if m.finds l.toInvocation then startFound l
      else pure (.error (.launch l.program .commandNotFound true))) m := rfl

/-- A program that is not found is not started. -/
theorem start_of_not_finds {l : Launch} {m : Machine} (h : m.finds l.toInvocation = false) :
    start l m = ⟨.error (.launch l.program .commandNotFound true), m, []⟩ := by
  rw [start_eq, h]
  rfl

/-- A machine answers truthfully. -/
theorem truthful_start (l : Launch) (m : Machine) : Truthful (start l m).value := by
  rw [start_eq, startFound]
  split
  · cases l.input with
    | none => exact truthful_onTerminal l m
    | some input => exact truthful_onPipes l input m
  · exact True.intro

/-- What a machine runs for the sake of its output is not reported. -/
theorem events_captured (i : Invocation) (m : Machine) : events (captured i m).notices = [] := by
  rw [captured, Effect.bind_apply]
  dsimp only [Effect.get]
  cases m.imageOf i with
  | error fault => rfl
  | ok found => rfl

end Machine

/-! ## The protocol -/

namespace Session

variable {σ : Type} {tools : Tools σ}

/-- One entry, from its reports to what it counts as. An entry that asks for no command is
silent. A command is reported with its line, its own reports, and its end, and the end says
how it ended. The entry fails where it cannot be read, and where its command failed and the
script is to stop. -/
theorem run_reports (htools : Honest tools)
    (hsilent : ∀ request x, events (tools.launcher.capture request x).notices = [])
    (s : Session) (entry : Entry) (w : σ) :
    let asked := s.withPwd.resolve tools.launcher entry w
    let ended := s.run tools entry w
    let done := fun program resolved =>
      s.withPwd.answer tools program resolved (EntryText.ofLines entry.lines).input asked.world
    ((∀ program resolved, asked.value ≠ .command program resolved) →
      events ended.notices = []) ∧
    (∀ program resolved, asked.value = .command program resolved →
      Reported entry (done program resolved) ended) ∧
    ((∃ failure, ended.value.2 = .error failure) ↔
      Unreadable entry ∨
        ∃ program resolved, asked.value = .command program resolved ∧
          (∃ failure, (done program resolved).value = .error failure) ∧
          entry.failPolicy = .stop) := by
  intro asked ended done
  -- An entry is a silent question, and then what is done about the answer.
  have hasked : events asked.notices = [] := events_resolve hsilent
  have hrefused : (∃ reason, asked.value = .refused reason) ↔ Unreadable entry :=
    resolve_refused_iff
  have hended : ended =
      (s.withPwd.resolve tools.launcher entry >>= s.withPwd.settle tools entry) w :=
    congrFun (run_eq tools s entry) w
  have hvalue : ended.value = (s.withPwd.settle tools entry asked.value asked.world).value := by
    rw [hended, Effect.bind_apply]
  have hevents : events ended.notices =
      events (s.withPwd.settle tools entry asked.value asked.world).notices := by
    rw [hended, Effect.bind_apply, events_append, hasked, List.nil_append]
  have hcommand : ∀ program resolved, asked.value = .command program resolved →
      Reported entry (done program resolved) ended := by
    intro program resolved hasks
    obtain ⟨hevents', hvalue'⟩ := runCommand_eq_answer tools s.withPwd entry
      (EntryText.ofLines entry.lines) program resolved asked.world
    rw [hasks] at hvalue hevents
    exact reported_of_truthful (htools.answer program resolved _ asked.world)
      (hevents.trans hevents') ((congrArg Prod.snd hvalue).trans hvalue')
  refine ⟨?_, hcommand, ?_⟩
  · intro hnone
    rw [hevents]
    cases hasks : asked.value with
    | refused reason => rfl
    | nothing => rfl
    | bindings delta => rfl
    | command program resolved => exact absurd hasks (hnone program resolved)
  · by_cases hasks : ∃ program resolved, asked.value = .command program resolved
    · obtain ⟨program, resolved, hasks⟩ := hasks
      rw [(hcommand program resolved hasks).error_iff, ← hrefused]
      constructor
      · exact fun h => Or.inr ⟨program, resolved, hasks, h⟩
      · rintro (⟨reason, hreason⟩ | ⟨program', resolved', hasks', h⟩)
        · cases hasks.symm.trans hreason
        · cases hasks.symm.trans hasks'
          exact h
    · -- Without a command only a refusal is left, and `settle` passes it on.
      rw [hvalue, settle_error_iff (fun program resolved h => hasks ⟨program, resolved, h⟩),
        hrefused]
      exact ⟨Or.inl, fun h => h.resolve_right
        (fun ⟨program, resolved, hcommands, _⟩ => hasks ⟨program, resolved, hcommands⟩)⟩

/-- Programs that print a byte and are killed. -/
def killed : Tools Unit where
  launcher := {
    start := fun _ => Effect.report (.data [112]) >>= fun _ =>
      pure (.error (.commandFailed (Exit.ofSignal "KILL")))
    capture := fun _ => pure (.error .commandNotFound) }
  builtins := []

/-- A machine without programs, and a script that goes on; and a program that does run. -/
theorem run_reports_sample :
    let tools : Tools Machine := ⟨Machine.host.toLauncher, []⟩
    let s : Session := ⟨"/", SessionState.ofEnv Bindings.empty, default⟩
    let entry : Entry := .structured (.line "nosuch a") .carryOn none
    let ended := s.run tools entry ⟨⟨[]⟩, []⟩
    let entry' : Entry := .plain (.line "make")
    let ended' := s.run killed entry' ()
    Honest tools ∧
    (∀ request x, events (tools.launcher.capture request x).notices = []) ∧
    events ended.notices = [.message "$ nosuch a", .message "nosuch: command not found",
      .message "\nExit 127.", .message "(continuing anyway)"] ∧
    ended.value.2 = .ok ⟨127, none⟩ ∧
    Honest killed ∧
    (∀ request x, events (killed.launcher.capture request x).notices = []) ∧
    events ended'.notices = [.message "$ make", .data [112], .message "Signal KILL"] ∧
    ended'.value.2 = .error (.commandFailed (Exit.ofSignal "KILL")) := by
  intro tools s entry ended entry' ended'
  have htools : Honest tools := ⟨Machine.truthful_start, nofun⟩
  have htext : EntryText.ofLines entry.lines = ⟨"nosuch a", none⟩ := by
    decide +kernel
  have hasked : s.withPwd.resolve tools.launcher entry ⟨⟨[]⟩, []⟩ =
      ⟨.command "nosuch" ⟨some "nosuch", ["a"], Bindings.empty⟩, ⟨⟨[]⟩, []⟩, []⟩ := by
    have hread : readStatements "nosuch a" =
        ⟨.ok [.command (.literal "nosuch") [.literal "a"] []], []⟩ := rfl
    rw [resolve_single htext hread]
    rfl
  have hanswer : s.withPwd.answer tools "nosuch" ⟨some "nosuch", ["a"], Bindings.empty⟩ none
      ⟨⟨[]⟩, []⟩ = ⟨.error (.launch "nosuch" .commandNotFound true), ⟨⟨[]⟩, []⟩, []⟩ :=
    Machine.start_of_not_finds (by decide)
  obtain ⟨-, hcommand, -⟩ := run_reports htools Machine.events_captured s entry ⟨⟨[]⟩, []⟩
  have hreported := hcommand "nosuch" ⟨some "nosuch", ["a"], Bindings.empty⟩ (by rw [hasked])
  rw [htext, hasked] at hreported
  dsimp only at hreported
  rw [hanswer] at hreported
  have hkilled : Honest killed := ⟨fun _ _ => rfl, nofun⟩
  have hsilent : ∀ request x, events (killed.launcher.capture request x).notices = [] :=
    fun _ _ => rfl
  have htext' : EntryText.ofLines entry'.lines = ⟨"make", none⟩ := by
    decide +kernel
  have hasked' : s.withPwd.resolve killed.launcher entry' () =
      ⟨.command "make" ⟨some "make", [], Bindings.empty⟩, (), []⟩ := by
    have hread : readStatements "make" = ⟨.ok [.command (.literal "make") [] []], []⟩ := rfl
    rw [resolve_single htext' hread]
    rfl
  obtain ⟨-, hcommand', -⟩ := run_reports hkilled hsilent s entry' ()
  have hreported' := hcommand' "make" ⟨some "make", [], Bindings.empty⟩ (by rw [hasked'])
  rw [htext', hasked'] at hreported'
  refine ⟨htools, Machine.events_captured, ?_, ?_, hkilled, hsilent, ?_, ?_⟩
  · have hevents := hreported.events
    rw [htext] at hevents
    exact hevents
  · exact (hreported.carryOn _ rfl rfl).1
  · have hevents' := hreported'.events
    rw [htext'] at hevents'
    exact hevents'
  · exact hreported'.stop _ rfl rfl

end Session

end ScriptRunner
