import ScriptRunner.Proofs.Expansion.Layout
import ScriptRunner.Proofs.Session.Statements

/-!
# ScriptRunner.Proofs.Session.Programs

All programs that a script starts: for its entries, and for their substitutions at any depth.

`Tools.logging` keeps them on record beside the world. It does nothing else to a run
(`Session.logs_runScript`), and what is on record is computed from the statements themselves: each
statement that a substitution runs is a `Subshell.Substep`, and starts the program that it asks for
there; then the entry starts its own.

That an effect has another one's results and adds to a record what is said is a judgment of its own
(`Effect.Logs`). It goes through `pure` and `>>=`, so it is proved by following the text of a
program.
-/

namespace ScriptRunner

open Effect

variable {σ κ α β : Type}

/-! ## Effects beside a record -/

namespace Effect

/-- The effect, beside a record to which it adds. -/
def logged (new : List κ) (m : Effect σ α) : Effect (σ × List κ) α := fun x =>
  let done := m x.1
  ⟨done.value, (done.world, x.2 ++ new), done.notices⟩

/-- The one effect does what the other does, and adds `new` to the record. -/
def Logs (m : Effect (σ × List κ) α) (n : Effect σ α) (new : σ → List κ) : Prop :=
  ∀ w log, m (w, log) = ⟨(n w).value, ((n w).world, log ++ new w), (n w).notices⟩

theorem logs_logged (new : List κ) (m : Effect σ α) : Logs (logged new m) m (fun _ => new) :=
  fun _ _ => rfl

theorem Logs.pure (a : α) : Logs (κ := κ) (Pure.pure a) (Pure.pure a : Effect σ α) (fun _ => []) :=
  fun w log => by rw [pure_apply, pure_apply, List.append_nil]

theorem Logs.notify (n : Notice) :
    Logs (κ := κ) (Effect.notify n) (Effect.notify n : Effect σ Unit) (fun _ => []) :=
  fun w log => by rw [notify_apply, notify_apply, List.append_nil]

theorem Logs.congr {m : Effect (σ × List κ) α} {n : Effect σ α} {new other : σ → List κ}
    (h : Logs m n new) (heq : ∀ w, new w = other w) : Logs m n other :=
  fun w log => by rw [h w log, heq w]

/-- What comes after may depend on the world in which it all began. -/
theorem Logs.bindFrom {m : Effect (σ × List κ) α} {n : Effect σ α} {new : σ → List κ}
    {f : α → Effect (σ × List κ) β} {g : α → Effect σ β} {later : σ → σ → List κ}
    (h : Logs m n new) (hfg : ∀ w, Logs (f (n w).value) (g (n w).value) (later w)) :
    Logs (m >>= f) (n >>= g) (fun w => new w ++ later w (n w).world) := by
  intro w log
  rw [bind_apply, bind_apply, h w log]
  dsimp only
  rw [hfg, List.append_assoc]

theorem Logs.bind {m : Effect (σ × List κ) α} {n : Effect σ α} {new : σ → List κ}
    {f : α → Effect (σ × List κ) β} {g : α → Effect σ β} {later : α → σ → List κ}
    (h : Logs m n new) (hfg : ∀ a, Logs (f a) (g a) (later a)) :
    Logs (m >>= f) (n >>= g) (fun w => new w ++ later (n w).value (n w).world) :=
  h.bindFrom (fun w => hfg (n w).value)

/-- What comes after may add nothing. -/
theorem Logs.bindQuiet {m : Effect (σ × List κ) α} {n : Effect σ α} {new : σ → List κ}
    {f : α → Effect (σ × List κ) β} {g : α → Effect σ β} (h : Logs m n new)
    (hfg : ∀ a, Logs (f a) (g a) (fun _ => [])) : Logs (m >>= f) (n >>= g) new :=
  (h.bind hfg).congr (fun w => List.append_nil (new w))

/-- After a notice the world is still the same. -/
theorem Logs.afterNotify {m : Effect (σ × List κ) α} {n : Effect σ α} {new : σ → List κ}
    (notice : Notice) (h : Logs m n new) :
    Logs (Effect.notify notice >>= fun _ => m) (Effect.notify notice >>= fun _ => n) new :=
  (Logs.notify notice).bind (fun _ => h)

end Effect

/-- The launcher, with all programs on record. -/
def Launcher.logging (l : Launcher σ) : Launcher (σ × List Invocation) where
  start request := Effect.logged [request.toInvocation] (l.start request)
  capture request := Effect.logged [request] (l.capture request)

/-- The builtin, beside a record that it leaves alone. -/
def Builtin.logging (b : Builtin σ) : Builtin (σ × List Invocation) :=
  ⟨b.name, fun args => Effect.logged [] (b.invoke args)⟩

/-- The tools, with all programs on record that the launcher starts. -/
def Tools.logging (t : Tools σ) : Tools (σ × List Invocation) :=
  ⟨t.launcher.logging, t.builtins.map Builtin.logging⟩

theorem Tools.builtin?_logging (t : Tools σ) (name : String) :
    t.logging.builtin? name = (t.builtin? name).map Builtin.logging := by
  rw [builtin?, logging, List.find?_map, builtin?]
  rfl

/-! ## Substitutions -/

namespace Expansion

/-- What `f` collects from questions that are put to the oracle, each in the world that it finds. -/
def collectEach (oracle : Oracle σ) (f : List Statement → σ → List κ) :
    List (List Statement) → σ → List κ
  | [], _ => []
  | question :: rest, w => f question w ++ collectEach oracle f rest (oracle question w).world

theorem filterMap_collectEach {ι : Type} (oracle : Oracle σ) (f : List Statement → σ → List κ)
    (g : κ → Option ι) (questions : List (List Statement)) (w : σ) :
    (collectEach oracle f questions w).filterMap g =
      collectEach oracle (fun question w => (f question w).filterMap g) questions w := by
  induction questions generalizing w with
  | nil => rfl
  | cons question rest ih => rw [collectEach, collectEach, List.filterMap_append, ih]

variable {oracle : Oracle σ} {oracle' : Oracle (σ × List κ)} {f : List Statement → σ → List κ}
  (h : ∀ question, Logs (oracle' question) (oracle question) (f question))

include h

theorem logs_askEach (questions : List (List Statement)) :
    Logs (askEach oracle' questions) (askEach oracle questions)
      (collectEach oracle f questions) := by
  induction questions with
  | nil => exact Logs.pure []
  | cons question rest ih =>
      refine ((h question).bind (fun answer => ih.bind (fun others => Logs.pure _))).congr ?_
      intro w
      rw [collectEach, List.append_nil]

/-- Equal worlds beside any record, and equal notices. -/
def besideLog (σ κ : Type) : Correspondence (σ × List κ) σ where
  worlds x w := x.1 = w
  notices := Eq
  nil := nil_notices
  append := @append_notices

/-- An expansion adds to the record what its questions add. -/
theorem logs_expand (vars env : Env) (statement : Statement) :
    Logs (expand oracle' vars env statement) (expand oracle vars env statement)
      (collectEach oracle f statement.questions) := by
  intro w log
  have halike : Alike (besideLog σ κ) oracle' oracle := by
    refine ⟨fun _ => rfl, ?_⟩
    rintro question ⟨w, log⟩ _ rfl
    rw [h question w log]
    exact ⟨rfl, rfl, rfl⟩
  obtain ⟨hvalue, hfirst, hnotices⟩ :=
    expand_related halike vars env statement (w, log) w rfl
  have hworld : (expand oracle' vars env statement (w, log)).world =
      ((expand oracle vars env statement w).world,
        log ++ collectEach oracle f statement.questions w) := by
    rw [world_expand, world_expand, logs_askEach h]
  rw [← hvalue, ← hnotices, ← hworld]

end Expansion

namespace Subshell

open Expansion

/-- A statement that a substitution runs: the subshell in which it is run, what it expands to there,
and whether a `cd` has moved the subshell by then, or one that it stands in. -/
structure Substep where
  subshell : Subshell
  resolved : Resolved
  moved : Bool

/-- The program that is started, if one is. -/
def Substep.asks? (t : Substep) : Option Invocation := t.subshell.asks? t.resolved

/-- Whether a statement with these words is a `cd` that leads somewhere. -/
def moves (s : Subshell) (r : Resolved) : Bool :=
  r.program == some changeDirectoryName && (changeDirectory s.cwd r.args s.env).isOk

/-- The steps of a statement: those of its substitutions, and its own. -/
def substepsOf (inner : Path → Env → Oracle σ)
    (below : Bool → Path → Env → List Statement → σ → List Substep) (moved : Bool) (s : Subshell)
    (statement : Statement) (w : σ) : List Substep :=
  collectEach (inner s.cwd s.env) (below moved s.cwd s.env) statement.questions w ++
    [⟨s, s.expanded inner statement w, moved⟩]

/-- The steps of statements, from left to right. -/
def substepsEach (l : Launcher σ) (inner : Path → Env → Oracle σ)
    (below : Bool → Path → Env → List Statement → σ → List Substep) (moved : Bool) (s : Subshell) :
    List Statement → σ → List Substep
  | [], _ => []
  | statement :: rest, w =>
    let first := runStatement l inner s statement w
    let movedThen := moved || s.moves (s.expanded inner statement w)
    substepsOf inner below moved s statement w ++
      substepsEach l inner below movedThen first.value.1 rest first.world

/-- The steps of a substitution that has others in it at most `depth` deep. -/
def substepsWithin (l : Launcher σ) : Nat → Bool → Path → Env → List Statement → σ → List Substep
  | 0, _, _, _ => fun _ _ => []
  | depth + 1, moved, cwd, env =>
    substepsEach l (captureWithin l depth) (substepsWithin l depth) moved (start cwd env)

/-- The steps of a substitution. -/
def substeps (l : Launcher σ) (cwd : Path) (env : Env) (statements : List Statement) :
    σ → List Substep :=
  substepsWithin l (Statement.nestingAll statements + 1) false cwd env statements

variable (l : Launcher σ) (s : Subshell)

theorem logs_printed (request : Invocation) :
    Logs (printed l.logging request) (printed l request) (fun _ => [request]) := by
  have hcapture : Logs (l.logging.capture request) (l.capture request) (fun _ => [request]) :=
    logs_logged _ _
  refine Logs.afterNotify _ (hcapture.bindQuiet (fun captured => ?_))
  cases captured with
  | error fault => exact Logs.afterNotify _ (Logs.pure _)
  | ok result =>
      dsimp only
      cases errorsWarning? request.program result.errors with
      | none => exact Logs.pure _
      | some text => exact Logs.afterNotify _ (Logs.pure _)

/-- What is on record of a statement is the program that it asks for. -/
theorem logs_carryOut (r : Resolved) :
    Logs (s.carryOut l.logging r) (s.carryOut l r) (fun _ => (s.asks? r).toList) := by
  rw [carryOut, carryOut, asks?]
  cases r.program with
  | none => exact Logs.pure _
  | some program =>
      dsimp only
      by_cases hcd : program = changeDirectoryName
      · rw [if_pos hcd, if_pos hcd, if_pos hcd]
        cases changeDirectory s.cwd r.args s.env with
        | ok cwd => exact Logs.pure _
        | error fault => exact Logs.afterNotify _ (Logs.pure _)
      · rw [if_neg hcd, if_neg hcd, if_neg hcd]
        exact (logs_printed l _).bindQuiet (fun _ => Logs.pure _)

section Inner

variable {l} {inner : Path → Env → Oracle σ} {inner' : Path → Env → Oracle (σ × List Invocation)}
  {below : Bool → Path → Env → List Statement → σ → List Substep}
  (h : ∀ moved cwd env question, Logs (inner' cwd env question) (inner cwd env question)
    (fun w => (below moved cwd env question w).filterMap Substep.asks?))

include h

/-- Of a statement, the record has the programs of its steps. -/
theorem logs_runStatement (moved : Bool) (statement : Statement) :
    Logs (runStatement l.logging inner' s statement) (runStatement l inner s statement)
      (fun w => (substepsOf inner below moved s statement w).filterMap Substep.asks?) := by
  rw [runStatement_eq, runStatement_eq]
  refine ((logs_expand (h moved s.cwd s.env) s.vars s.env statement).bind
    (fun resolved => logs_carryOut l s resolved)).congr (fun w => ?_)
  rw [substepsOf, List.filterMap_append, filterMap_collectEach, List.filterMap_cons,
    List.filterMap_nil, Substep.asks?, expanded]
  cases s.asks? (expand (inner s.cwd s.env) s.vars s.env statement w).value with
  | none => rfl
  | some request => rfl

theorem logs_runEach (statements : List Statement) (moved : Bool) :
    Logs (runEach l.logging inner' s statements) (runEach l inner s statements)
      (fun w => (substepsEach l inner below moved s statements w).filterMap Substep.asks?) := by
  induction statements generalizing moved s with
  | nil => exact Logs.pure _
  | cons statement rest ih =>
      rw [runEach, runEach]
      refine Logs.congr (Logs.bindFrom (logs_runStatement s h moved statement) (fun w =>
        (ih (runStatement l inner s statement w).value.1
          (moved || s.moves (s.expanded inner statement w))).bindQuiet (fun _ => Logs.pure _)))
        (fun w => ?_)
      rw [substepsEach, List.filterMap_append]

end Inner

/-- Of a substitution, the record has the programs of its steps. -/
theorem logs_captureWithin (depth : Nat) (moved : Bool) (cwd : Path) (env : Env)
    (question : List Statement) :
    Logs (captureWithin l.logging depth cwd env question) (captureWithin l depth cwd env question)
      (fun w => (substepsWithin l depth moved cwd env question w).filterMap Substep.asks?) := by
  induction depth generalizing moved cwd env question with
  | zero => exact Logs.pure _
  | succ depth ih => exact logs_runEach (start cwd env) ih question moved

theorem logs_capture (cwd : Path) (env : Env) (question : List Statement) :
    Logs (capture l.logging cwd env question) (capture l cwd env question)
      (fun w => (substeps l cwd env question w).filterMap Substep.asks?) :=
  logs_captureWithin l _ false cwd env question

end Subshell

/-! ## Entries -/

namespace Session

open Expansion
open Subshell (Substep)

variable (tools : Tools σ) (s : Session) (entry : Entry)

/-- The steps of the substitutions in an entry. -/
def substepsOf (l : Launcher σ) (s : Session) (entry : Entry) (w : σ) : List Substep :=
  match (readStatements (EntryText.ofLines entry.lines).command).result with
  | .ok [statement] =>
    let t := s.withPwd
    collectEach (t.oracle l) (Subshell.substeps l t.cwd t.state.env) statement.questions w
  | _ => []

/-- The program that the session starts for what an entry asks for, if it starts one. -/
def launchFor? (tools : Tools σ) (s : Session) : Resolution → Option Invocation
  | .command program resolved =>
    if program = changeDirectoryName then none
    else if (tools.builtin? program).isSome then none
    else some (s.launchOf program resolved none).toInvocation
  | _ => none

/-- The programs that are started for an entry. -/
def programsOf (tools : Tools σ) (s : Session) (entry : Entry) (w : σ) : List Invocation :=
  (s.substepsOf tools.launcher entry w).filterMap Substep.asks? ++
    (s.withPwd.launchFor? tools (s.withPwd.resolve tools.launcher entry w).value).toList

theorem logs_warnIgnored (ignored : List IgnoredSubstitution) :
    Logs (κ := κ) (warnIgnored ignored) (warnIgnored ignored : Effect σ Unit) (fun _ => []) := by
  induction ignored with
  | nil => exact Logs.pure ()
  | cons i rest ih => exact Logs.afterNotify _ ih

/-- Finding out what an entry asks for adds the programs of its substitutions to the record. -/
theorem logs_resolve (l : Launcher σ) :
    Logs (s.withPwd.resolve l.logging entry) (s.withPwd.resolve l entry)
      (fun w => (s.substepsOf l entry w).filterMap Substep.asks?) := by
  have hcapture : ∀ question, Logs (s.withPwd.oracle l.logging question)
      (s.withPwd.oracle l question)
      (fun w => (Subshell.substeps l s.withPwd.cwd s.withPwd.state.env question w).filterMap
        Substep.asks?) :=
    Subshell.logs_capture l _ _
  have hexpand := logs_expand hcapture s.withPwd.state.vars s.withPwd.state.env
  rw [resolve, resolve]
  simp only [substepsOf]
  obtain ⟨result, ignored⟩ := readStatements (EntryText.ofLines entry.lines).command
  have hwarn := logs_warnIgnored (σ := σ) (κ := Invocation) ignored
  cases result with
  | error halt =>
      cases halt with
      | refused reason => exact hwarn.bind (fun _ => Logs.pure _)
      | stalled => exact hwarn.bind (fun _ => Logs.pure _)
  | ok statements =>
      rcases statements with _ | ⟨statement, _ | ⟨second, rest⟩⟩
      · exact hwarn.bind (fun _ => Logs.pure _)
      · have hstatement : Logs (s.withPwd.resolveStatement l.logging statement)
            (s.withPwd.resolveStatement l statement)
            (fun w => (collectEach (s.withPwd.oracle l)
              (Subshell.substeps l s.withPwd.cwd s.withPwd.state.env) statement.questions
              w).filterMap Substep.asks?) := by
          refine Logs.congr (Logs.bindQuiet (hexpand statement) (fun resolved => ?_))
            (fun w => (filterMap_collectEach _ _ _ _ w).symm)
          cases resolved.program with
          | none => exact Logs.pure _
          | some program => exact Logs.pure _
        refine Logs.congr (Logs.bind hwarn (fun _ => hstatement)) (fun w => ?_)
        rw [world_warnIgnored, List.nil_append]
      · exact hwarn.bind (fun _ => Logs.pure _)

theorem logs_sayFailure (failure : Failure) :
    Logs (κ := κ) (sayFailure failure) (sayFailure failure : Effect σ Unit) (fun _ => []) := by
  rw [sayFailure, sayFailure]
  cases ran failure with
  | false => exact Logs.afterNotify _ (Logs.notify _)
  | true => exact Logs.notify _

theorem logs_conclude (policy : FailPolicy) (answer : Except Failure Exit) :
    Logs (κ := κ) (conclude policy answer) (conclude policy answer : Effect σ _)
      (fun _ => []) := by
  cases answer with
  | ok exit => exact Logs.afterNotify _ (Logs.pure _)
  | error failure =>
      cases policy with
      | stop => exact (logs_sayFailure failure).bindQuiet (fun _ => Logs.pure _)
      | carryOn =>
          exact (logs_sayFailure failure).bindQuiet (fun _ => Logs.afterNotify _ (Logs.pure _))

/-- The only program that is started for what an entry asks for is the one that it names. -/
theorem logs_dispatch (program : String) (resolved : Resolved) (input : Option String) :
    Logs (s.dispatch tools.logging program resolved input) (s.dispatch tools program resolved input)
      (fun _ => (s.launchFor? tools (.command program resolved)).toList) := by
  rw [dispatch, dispatch, runBuiltin?, runBuiltin?, launchFor?]
  by_cases hcd : program = changeDirectoryName
  · rw [if_pos hcd, if_pos hcd, if_pos hcd]
    exact Logs.pure _
  · rw [if_neg hcd, if_neg hcd, if_neg hcd, Tools.builtin?_logging]
    cases tools.builtin? program with
    | none =>
        exact Logs.afterNotify _ (Logs.bindQuiet (logs_logged _ _) (fun _ => Logs.pure _))
    | some b => exact Logs.bindQuiet (logs_logged _ _) (fun _ => Logs.pure _)

theorem logs_settle (resolution : Resolution) :
    Logs (s.settle tools.logging entry resolution) (s.settle tools entry resolution)
      (fun _ => (s.launchFor? tools resolution).toList) := by
  cases resolution with
  | refused reason => exact Logs.pure _
  | nothing => exact Logs.pure _
  | bindings delta => exact Logs.pure _
  | command program resolved =>
      exact Logs.afterNotify _ ((logs_dispatch tools s program resolved _).bindQuiet (fun _ =>
        (logs_conclude _ _).bindQuiet (fun _ => Logs.pure _)))

/-- Of an entry, the record has the programs that are started for it. -/
theorem logs_run :
    Logs (s.run tools.logging entry) (s.run tools entry) (s.programsOf tools entry) := by
  have hresolve : Logs (s.withPwd.resolve tools.logging.launcher entry)
      (s.withPwd.resolve tools.launcher entry) _ := logs_resolve s entry tools.launcher
  rw [run_eq, run_eq]
  refine (hresolve.bind (fun resolution => logs_settle tools s.withPwd entry resolution)).congr ?_
  intro w
  rw [programsOf]

/-- The programs that are started for the entries of a script. -/
def programs (tools : Tools σ) (s : Session) (script : Script) (w : σ) : List Invocation :=
  s.gather tools (programsOf tools) script w

/-- Of a script, the record has the programs that are started for its entries. Otherwise the record
changes nothing. -/
theorem logs_runScript (script : Script) :
    Logs (s.runScript tools.logging script) (s.runScript tools script)
      (s.programs tools script) := by
  induction script generalizing s with
  | nil => exact Logs.pure _
  | cons entry rest ih =>
      intro w log
      have hfirst := logs_run tools s entry w log
      have hanswer : (s.run tools.logging entry (w, log)).value.2 =
          (s.run tools entry w).value.2 := by rw [hfirst]
      cases hresult : (s.run tools entry w).value.2 with
      | error failure =>
          rw [runScript_stop _ (hanswer.trans hresult), runScript_stop _ hresult, hfirst, programs,
            gather, hresult]
          dsimp only
          rw [List.append_nil]
      | ok exit =>
          rw [runScript_next _ (hanswer.trans hresult), runScript_next _ hresult, hfirst, programs,
            gather, hresult]
          dsimp only
          rw [ih, List.append_assoc]
          rfl

/-! ## The course of a script -/

end Session

/-- An entry that is run, with the session and the world that it finds. -/
structure Visit (σ : Type) where
  session : Session
  entry : Entry
  world : σ

namespace Session

variable (tools : Tools σ) (s : Session)

/-- The entries of a script that are run. -/
def visits (tools : Tools σ) (s : Session) (script : Script) (w : σ) : List (Visit σ) :=
  s.gather tools (fun s entry w => [⟨s, entry, w⟩]) script w

theorem gather_eq_flatMap (f : Session → Entry → σ → List κ) (script : Script) (w : σ) :
    s.gather tools f script w =
      (s.visits tools script w).flatMap (fun v => f v.session v.entry v.world) := by
  induction script generalizing s w with
  | nil => rfl
  | cons entry rest ih =>
      rw [visits, gather, gather]
      cases (s.run tools entry w).value.2 with
      | ok exit =>
          dsimp only
          rw [ih, List.flatMap_append, List.flatMap_singleton]
          rfl
      | error failure =>
          dsimp only
          rw [List.append_nil, List.append_nil, List.flatMap_singleton]

theorem entry_mem_of_mem_visits {script : Script} {w : σ} {v : Visit σ}
    (h : v ∈ s.visits tools script w) : v.entry ∈ script := by
  induction script generalizing s w with
  | nil => cases h
  | cons entry rest ih =>
      rw [visits, gather, List.mem_append, List.mem_singleton] at h
      rcases h with rfl | h
      · exact List.mem_cons_self
      · cases hresult : (s.run tools entry w).value.2 with
        | ok exit =>
            rw [hresult] at h
            exact List.mem_cons_of_mem _ (ih _ h)
        | error failure =>
            rw [hresult] at h
            cases h

end Session

end ScriptRunner
