import ScriptRunner.Proofs.Session.Calls
import ScriptRunner.Proofs.Session.DryRun

/-!
# ScriptRunner.Proofs.Session.Statements

What one statement does in a subshell, and what an entry with this statement does in a session.

Sessions and subshells run statements each in their own way. What they do is the same: once a
statement is expanded, the next state (`Subshell.after`) and the program that is asked for
(`Subshell.asks?`) depend on the words and on the directory, the environment and the variables
alone. A subshell is just these three, and of a session they are its `Session.view`.

There is one step lemma for each: a subshell does exactly this (`Subshell.runStatement_steps`),
and so does a session (`Session.run_steps`). What is asked for is read off a record that the
launcher keeps. Of a session it is true as long as nothing in it is pinned, and for an entry
that goes on after a failure and binds names for programs to see (`Entry.ReadsAs`).
-/

namespace ScriptRunner

open Effect

variable {σ : Type}

/-! ## The abstract step -/

namespace Subshell

/-- The subshell after a statement that expands to these words. -/
def after (s : Subshell) (r : Resolved) : Subshell :=
  match r.program with
  | none => s.assign r.env
  | some program =>
    if program = changeDirectoryName then
      match changeDirectory s.cwd r.args s.env with
      | .ok cwd => s.moveTo cwd
      | .error _ => s
    else s

/-- The program that a statement with these words asks for, if it asks for one. -/
def asks? (s : Subshell) (r : Resolved) : Option Invocation :=
  match r.program with
  | none => none
  | some program =>
    if program = changeDirectoryName then none
    else some ⟨program, r.args, s.env.overlay r.env, s.cwd⟩

end Subshell

/-! ## Subshells -/

/-- A program that a subshell tried to run, and what came of it. -/
structure Trial where
  request : Invocation
  answer : Except LaunchFault Printed

/-- What the program printed, if it could be started. -/
def Trial.output? (t : Trial) : Option String :=
  match t.answer with
  | .ok printed => some (Utf8.decodeLossy printed.output)
  | .error _ => none

/-- The launcher, with the programs that it captures on record. -/
def Launcher.trying (l : Launcher σ) : Launcher (σ × List Trial) where
  start request := Effect.within Prod.fst (fun w x => (w, x.2)) (l.start request)
  capture request := fun x =>
    let done := l.capture request x.1
    ⟨done.value, (done.world, x.2 ++ [⟨request, done.value⟩]), done.notices⟩

namespace Subshell

/-- The oracles, beside a record that they leave alone. -/
def unnoted (inner : Path → Env → Expansion.Oracle σ) :
    Path → Env → Expansion.Oracle (σ × List Trial) := fun cwd env statements =>
  Effect.within Prod.fst (fun w x => (w, x.2)) (inner cwd env statements)

variable (l : Launcher σ) (inner : Path → Env → Expansion.Oracle σ) (s : Subshell)
  (statement : Statement) (w : σ)

/-- What a statement expands to. -/
def expanded : Resolved :=
  (Expansion.expand (inner s.cwd s.env) s.vars s.env statement w).value

/-- The programs that a statement tries to run itself, without those of its substitutions. -/
def trialsOf : List Trial :=
  (runStatement l.trying (unnoted inner) s statement (w, [])).world.2

/-- The record does not change what the statement does. -/
theorem runStatement_trying :
    (runStatement l.trying (unnoted inner) s statement (w, [])).value =
      (runStatement l inner s statement w).value := by
  have halike : Alike (alongside (fun _ => True)) l.trying l := by
    refine ⟨fun _ => True.intro, fun _ => True.intro, ?_⟩
    rintro request ⟨w, tried⟩ _ ⟨rfl, -⟩
    exact ⟨rfl, ⟨rfl, True.intro⟩, True.intro⟩
  refine (runStatement_related halike ?_ s statement (w, []) w ⟨rfl, True.intro⟩).1
  rintro cwd env statements ⟨w, tried⟩ _ ⟨rfl, -⟩
  exact ⟨rfl, ⟨rfl, True.intro⟩, True.intro⟩

/-- Expansion is not on record. -/
theorem expand_unnoted :
    let done := Expansion.expand (unnoted inner s.cwd s.env) s.vars s.env statement (w, [])
    done.value = s.expanded inner statement w ∧ done.world.2 = [] := by
  have halike : Expansion.Alike (alongside (fun tried : List Trial => tried = []))
      (unnoted inner s.cwd s.env) (inner s.cwd s.env) := by
    refine ⟨fun _ => True.intro, ?_⟩
    rintro statements ⟨w, tried⟩ _ ⟨rfl, htried⟩
    exact ⟨rfl, ⟨rfl, htried⟩, True.intro⟩
  obtain ⟨hvalue, ⟨-, hworld⟩, -⟩ :=
    Expansion.expand_related halike s.vars s.env statement (w, []) w ⟨rfl, rfl⟩
  exact ⟨hvalue, hworld⟩

/-- A program is tried once, and its output is kept if it could be started. -/
theorem printed_trying (request : Invocation) (x : σ × List Trial) :
    ∃ trial : Trial, trial.request = request ∧
      (printed l.trying request x).value = trial.output?.getD "" ∧
      (printed l.trying request x).world.2 = x.2 ++ [trial] := by
  refine ⟨⟨request, (l.capture request x.1).value⟩, rfl, ?_⟩
  rw [printed, bind_apply, bind_apply]
  dsimp only [notify_apply, Launcher.trying, Trial.output?]
  cases (l.capture request x.1).value with
  | error fault => exact ⟨rfl, rfl⟩
  | ok result =>
      dsimp only
      cases errorsWarning? request.program result.errors with
      | none => exact ⟨rfl, rfl⟩
      | some text => exact ⟨rfl, rfl⟩

/-- Does what an expanded statement asks for. -/
def carryOut (r : Resolved) : Effect σ (Subshell × String) :=
  match r.program with
  | none => pure (s.assign r.env, "")
  | some program =>
    if program = changeDirectoryName then
      match changeDirectory s.cwd r.args s.env with
      | .ok cwd => pure (s.moveTo cwd, "")
      | .error fault => do
        Effect.warn (directoryWarning fault)
        pure (s, "")
    else do
      let output ← printed l ⟨program, r.args, s.env.overlay r.env, s.cwd⟩
      pure (s, output)

theorem runStatement_eq :
    runStatement l inner s statement =
      Expansion.expand (inner s.cwd s.env) s.vars s.env statement >>= s.carryOut l := rfl

/-- What is done is one step, with one trial of the program that is asked for. -/
theorem carryOut_trying (r : Resolved) (x : σ × List Trial) :
    let done := s.carryOut l.trying r x
    ∃ tried, done.world.2 = x.2 ++ tried ∧ tried.map Trial.request = (s.asks? r).toList ∧
      done.value = (s.after r, String.join (tried.filterMap Trial.output?)) := by
  rw [carryOut, after, asks?]
  cases r.program with
  | none => exact ⟨[], (List.append_nil x.2).symm, rfl, rfl⟩
  | some program =>
      dsimp only
      by_cases hcd : program = changeDirectoryName
      · rw [if_pos hcd, if_pos hcd, if_pos hcd]
        -- `cd` tries no program, also where it fails.
        refine ⟨[], ?_⟩
        cases changeDirectory s.cwd r.args s.env with
        | ok cwd => exact ⟨(List.append_nil x.2).symm, rfl, rfl⟩
        | error fault => exact ⟨(List.append_nil x.2).symm, rfl, rfl⟩
      · rw [if_neg hcd, if_neg hcd, if_neg hcd]
        obtain ⟨trial, hrequest, hvalue, hworld⟩ :=
          printed_trying l ⟨program, r.args, s.env.overlay r.env, s.cwd⟩ x
        refine ⟨[trial], hworld, congrArg (fun i => [i]) hrequest, ?_⟩
        rw [bind_apply, hvalue]
        cases houtput : trial.output? with
        | none => simp [houtput]
        | some output => simp [houtput]

/-- A statement takes the subshell one step, tries the program that it asks for, and has the
output of that. -/
theorem runStatement_steps :
    (trialsOf l inner s statement w).map Trial.request =
        (s.asks? (s.expanded inner statement w)).toList ∧
      (runStatement l inner s statement w).value =
        (s.after (s.expanded inner statement w),
          String.join ((trialsOf l inner s statement w).filterMap Trial.output?)) := by
  obtain ⟨hresolved, hempty⟩ := expand_unnoted inner s statement w
  rw [← runStatement_trying, trialsOf, runStatement_eq, bind_apply, hresolved]
  obtain ⟨tried, hworld, hrequests, hvalue⟩ := carryOut_trying l s (s.expanded inner statement w)
    (Expansion.expand (unnoted inner s.cwd s.env) s.vars s.env statement (w, [])).world
  rw [hempty, List.nil_append] at hworld
  rw [hworld]
  exact ⟨hrequests, hvalue⟩

end Subshell

/-! ## Sessions -/

/-- The entry is one statement without input. It goes on after a failure, and it binds names for
programs to see. -/
structure Entry.ReadsAs (entry : Entry) (statement : Statement) : Prop where
  reading : (readStatements (EntryText.ofLines entry.lines).command).result = .ok [statement]
  input : (EntryText.ofLines entry.lines).input = none
  policy : entry.failPolicy = .carryOn
  precedence : entry.precedence = .exported

/-- A line reads as its statement, if it is nothing but a command. -/
theorem Entry.readsAs_line {text : String} {statement : Statement}
    (htext : EntryText.ofLines [text] = ⟨text, none⟩)
    (hread : (readStatements text).result = .ok [statement]) :
    (Entry.structured (.line text) .carryOn none).ReadsAs statement := by
  have hlines : (Entry.structured (.line text) .carryOn none).lines = [text] := rfl
  refine ⟨?_, ?_, rfl, rfl⟩
  · rw [hlines, htext]
    exact hread
  · rw [hlines, htext]

namespace SessionState

/-- No name is pinned. -/
def Unpinned (s : SessionState) : Prop :=
  ∀ name, s.precedence.lookup name ≠ some .pinned

variable {s : SessionState}

theorem unpinned_ofEnv (env : Env) : (ofEnv env).Unpinned := by
  intro name
  simp [ofEnv]

theorem assignOne_exported (h : s.Unpinned) (name value : String) :
    s.assignOne .exported name value =
      ⟨s.env.bind name value, s.vars.bind name value, s.precedence.bind name .exported⟩ := by
  have hrefuses : s.refuses .exported name = false := by
    simp [refuses, h name]
  rw [assignOne, hrefuses]
  rfl

theorem Unpinned.assignOne (h : s.Unpinned) (name value : String) :
    (s.assignOne .exported name value).Unpinned := by
  intro other
  rw [assignOne_exported h, Bindings.lookup_bind]
  split
  · simp
  · exact h other

/-- Where nothing is pinned nothing is refused, and bindings are for programs and for the
session alike. -/
theorem assign_exported (h : s.Unpinned) (delta : Env) :
    (s.assign delta .exported).env = s.env.overlay delta ∧
      (s.assign delta .exported).vars = s.vars.overlay delta ∧
      (s.assign delta .exported).Unpinned := by
  rw [assign, Bindings.overlay, Bindings.overlay, Bindings.toList]
  generalize delta.entries = entries
  induction entries generalizing s with
  | nil => exact ⟨rfl, rfl, h⟩
  | cons e rest ih =>
      have hrest := ih (h.assignOne e.1 e.2)
      rw [assignOne_exported h] at hrest
      rw [List.foldl_cons, assignOne_exported h]
      exact hrest

end SessionState

/-- Tools without builtins. -/
def Tools.plain (l : Launcher σ) : Tools σ := ⟨l, []⟩

/-- What an entry asks for, by what its statement expands to. -/
def Resolved.resolution (r : Resolved) : Resolution :=
  match r.program with
  | none => .bindings r.env
  | some program => .command program r

namespace Session

variable {l : Launcher σ} {s : Session} {entry : Entry} {statement : Statement}

/-- The directory, the environment and the variables of a session. -/
def view (s : Session) : Subshell := ⟨s.cwd, s.state.env, s.state.vars⟩

/-- What a statement expands to. -/
def expanded (l : Launcher σ) (s : Session) (statement : Statement) (w : σ) : Resolved :=
  (Expansion.expand (s.oracle l) s.state.vars s.state.env statement w).value

theorem world_warnIgnored (ignored : List IgnoredSubstitution) (w : σ) :
    (warnIgnored ignored w).world = w := by
  induction ignored with
  | nil => rfl
  | cons i rest ih => exact ih

/-- Reading an entry gives its statement, and warnings at most. -/
theorem resolve_readsAs (h : entry.ReadsAs statement) (w : σ) :
    (s.resolve l entry w).value = (s.expanded l statement w).resolution := by
  have hresolve : s.resolve l entry =
      warnIgnored (readStatements (EntryText.ofLines entry.lines).command).ignored >>=
        fun _ => s.resolveStatement l statement := by
    rw [resolve, h.reading]
  rw [hresolve, bind_apply, world_warnIgnored, resolveStatement, bind_apply,
    Resolved.resolution, expanded]
  cases (Expansion.expand (s.oracle l) s.state.vars s.state.env statement w).value.program with
  | none => rfl
  | some program => rfl

theorem view_cd (args : List String) :
    (s.cd args).1.view =
      match changeDirectory s.cwd args s.state.env with
      | .ok cwd => s.view.moveTo cwd
      | .error _ => s.view := by
  rw [cd]
  cases changeDirectory s.cwd args s.state.env with
  | ok cwd => rfl
  | error fault => rfl

/-- The program as the session asks for it when there is no input. -/
def launching (s : Session) (request : Invocation) : Launch :=
  { toInvocation := request, term := s.term, input := none }

/-- Handing a command on takes the session one step, with one attempt at the program that is
asked for. -/
theorem dispatch_steps {program : String} {r : Resolved} (hprogram : r.program = some program)
    {input : Option String} (hinput : input = none) (x : σ × List Attempt) :
    let done := s.dispatch (Tools.plain l).noting program r input x
    done.value.1.view = s.view.after r ∧
      ∃ new, done.world.2 = x.2 ++ new ∧
        requests new = ((s.view.asks? r).map s.launching).toList := by
  rw [dispatch, runBuiltin?, Subshell.after, Subshell.asks?, hprogram, hinput]
  dsimp only
  by_cases hcd : program = changeDirectoryName
  · rw [if_pos hcd, if_pos hcd, if_pos hcd]
    exact ⟨view_cd r.args, [], (List.append_nil x.2).symm, rfl⟩
  · rw [if_neg hcd, if_neg hcd, if_neg hcd]
    exact ⟨rfl, [⟨s.launchOf program r none, _⟩], rfl, rfl⟩

/-- After a failure the script goes on. -/
theorem value_conclude_readsAs (h : entry.ReadsAs statement) (answer : Except Failure Exit)
    (w : σ) : ∃ exit, (conclude entry.failPolicy answer w).value = .ok exit := by
  rw [value_conclude, h.policy]
  cases answer with
  | ok exit => exact ⟨exit, rfl⟩
  | error failure => exact ⟨failure.exit, rfl⟩

/-- One step of a session: the view goes on, still nothing is pinned, the script goes on, and
what is asked for is on record. -/
structure Stepped (s : Session) (r : Resolved) (log : List Attempt)
    (ended : Session × Except Failure Exit) (record : List Attempt) : Prop where
  view : ended.1.view = s.view.after r
  unpinned : ended.1.state.Unpinned
  goesOn : ∃ exit, ended.2 = .ok exit
  record : ∃ new, record = log ++ new ∧
    requests new = ((s.view.asks? r).map s.launching).toList

/-- Doing what a statement asks for is one step. -/
theorem settle_steps (h : entry.ReadsAs statement) (hunpinned : s.state.Unpinned) (r : Resolved)
    (x : σ × List Attempt) :
    s.Stepped r x.2 (s.settle (Tools.plain l).noting entry r.resolution x).value
      (s.settle (Tools.plain l).noting entry r.resolution x).world.2 := by
  rw [Resolved.resolution]
  cases hprogram : r.program with
  | none =>
      obtain ⟨henv, hvars, hafter⟩ := SessionState.assign_exported hunpinned r.env
      rw [settle, h.precedence]
      refine ⟨?_, hafter, ⟨Exit.success, rfl⟩, [], (List.append_nil x.2).symm, ?_⟩
      · rw [Subshell.after, hprogram]
        exact congr (congrArg (Subshell.mk s.cwd) henv) hvars
      · rw [Subshell.asks?, hprogram]
        rfl
  | some program =>
      dsimp only
      obtain ⟨hview, hrecord⟩ := dispatch_steps (l := l) (s := s) hprogram h.input x
      refine ⟨hview, ?_, value_conclude_readsAs h _ _, ?_⟩
      · -- A command leaves the state alone, whatever comes of it.
        rw [settle, runCommand]
        exact (dispatch_state _ s x program r _).symm ▸ hunpinned
      · rw [settle, world_runCommand]
        exact hrecord

/-- Running an entry is one step of the session that has `PWD` in its environment. -/
theorem run_steps (h : entry.ReadsAs statement) (hunpinned : s.state.Unpinned) (w : σ)
    (log : List Attempt) :
    s.withPwd.Stepped (s.withPwd.expanded l statement w) log
      (s.run (Tools.plain l).noting entry (w, log)).value
      (s.run (Tools.plain l).noting entry (w, log)).world.2 := by
  have halike : Expansion.Alike (beside log) (s.withPwd.oracle l.noting) (s.withPwd.oracle l) :=
    ⟨fun _ => rfl, fun statements => capture_noting l _ _ statements log⟩
  obtain ⟨hvalue, hworld, -⟩ := resolve_related entry halike (w, log) w rfl
  have hrecord : (s.withPwd.resolve l.noting entry (w, log)).world.2 = log :=
    congrArg Prod.snd hworld
  have hsettle := settle_steps (l := l) (s := s.withPwd) h hunpinned
    (s.withPwd.expanded l statement w) (s.withPwd.resolve l.noting entry (w, log)).world
  rw [← resolve_readsAs h, ← hvalue, hrecord] at hsettle
  rw [run_eq, bind_apply]
  exact hsettle

end Session

end ScriptRunner
