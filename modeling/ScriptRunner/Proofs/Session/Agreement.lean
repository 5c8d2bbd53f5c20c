import Mathlib.Data.List.Forall2
import ScriptRunner.Proofs.Session.Statements

/-!
# ScriptRunner.Proofs.Session.Agreement

A substitution is run by a subshell. Were its statements the entries of a script, a session
would run them. The two agree.

A session and a subshell are compared by what they have in common: the directory, the variables,
and the environment but for `PWD`, which a session sets to its directory and a subshell leaves
alone (`Subshell.AgreesWith`). The same words keep the agreement and ask for the same program
(`AgreesWith.after`, `AgreesWith.asks`). The words are the same as long as the substitutions in
them print the same. How a run goes can otherwise not depend on what programs do: a subshell
does not look at it, and a session goes on after failures.

The answers of all substitutions of a run are one list, on either side. Two such lists that are
equal split at the same place after the first statement, because a statement takes as many
answers as it needs whatever comes later. So the agreement of one step (`Session.Stepped.agrees`)
carries over to all statements (`Session.runScript_agrees`).

Main statement: `Subshell.capture_agrees`.
-/

namespace ScriptRunner

open Effect

variable {σ τ : Type}

/-! ## The same but for one name -/

theorem changeDirectory_sameApart {env env' : Env} (h : env.SameApart "PWD" env') (cwd : Path)
    (args : List String) : changeDirectory cwd args env = changeDirectory cwd args env' := by
  have hhome : env.lookup "HOME" = env'.lookup "HOME" := h "HOME" (by decide)
  simp only [changeDirectory, hhome]

/-- A session asks for the program that a subshell tries to run. Only the value of `PWD` may
differ, and there is no input. -/
structure Launch.AgreesWith (request : Launch) (other : Invocation) : Prop where
  argv : request.argv = other.argv
  cwd : request.cwd = other.cwd
  env : request.env.SameApart "PWD" other.env
  input : request.input = none

namespace Subshell

/-- The subshells agree but for the value of `PWD` that programs see. -/
structure AgreesWith (s t : Subshell) : Prop where
  cwd : s.cwd = t.cwd
  vars : s.vars = t.vars
  env : s.env.SameApart "PWD" t.env

namespace AgreesWith

variable {s t : Subshell} (h : s.AgreesWith t)

include h

/-- The same words keep the agreement. -/
theorem after (r : Resolved) : (s.after r).AgreesWith (t.after r) := by
  rw [Subshell.after, Subshell.after, h.cwd, changeDirectory_sameApart h.env]
  cases r.program with
  | none => exact ⟨h.cwd, congrArg (fun vars => vars.overlay r.env) h.vars, h.env.overlay r.env⟩
  | some program =>
      dsimp only
      split
      · split
        · exact ⟨rfl, h.vars, h.env⟩
        · exact h
      · exact h

theorem asks (r : Resolved) (session : Session) :
    List.Forall₂ Launch.AgreesWith ((s.asks? r).map session.launching).toList
      (t.asks? r).toList := by
  rw [asks?, asks?]
  cases r.program with
  | none => exact .nil
  | some program =>
      dsimp only
      split
      · exact .nil
      · exact .cons ⟨rfl, h.cwd, h.env.overlay r.env, rfl⟩ .nil

end AgreesWith

/-! ## The course of a subshell -/

/-- What `f` collects from the statements of a substitution, each in the subshell and the world
that it finds. -/
def gather {κ : Type} (l : Launcher σ) (inner : Path → Env → Expansion.Oracle σ)
    (f : Subshell → Statement → σ → List κ) (s : Subshell) : List Statement → σ → List κ
  | [], _ => []
  | statement :: rest, w =>
    let first := runStatement l inner s statement w
    f s statement w ++ gather l inner f first.value.1 rest first.world

variable (l : Launcher σ) (inner : Path → Env → Expansion.Oracle σ)

/-- What is printed is what the programs printed that could be started. -/
theorem value_runEach (statements : List Statement) (s : Subshell) (w : σ) :
    (runEach l inner s statements w).value =
      String.join ((s.gather l inner (trialsOf l inner) statements w).filterMap Trial.output?) := by
  induction statements generalizing s w with
  | nil => rfl
  | cons statement rest ih =>
      obtain ⟨-, hvalue⟩ := runStatement_steps l inner s statement w
      rw [runEach, bind_apply, bind_apply, gather, List.filterMap_append, String.join_append,
        ← ih, hvalue]
      rfl

/-- The programs that the statements of a substitution try to run themselves. -/
def trials (cwd : Path) (env : Env) (statements : List Statement) (w : σ) : List Trial :=
  let inner := captureWithin l (Statement.nestingAll statements)
  (start cwd env).gather l inner (trialsOf l inner) statements w

/-- What the substitutions in a statement print. -/
def answersOf (s : Subshell) (statement : Statement) (w : σ) : List String :=
  Expansion.answers (inner s.cwd s.env) s.vars s.env statement w

/-- What the substitutions in the statements of a substitution print. -/
def answers (cwd : Path) (env : Env) (statements : List Statement) (w : σ) : List String :=
  let inner := captureWithin l (Statement.nestingAll statements)
  (start cwd env).gather l inner (answersOf inner) statements w

end Subshell

namespace Session

/-- What the substitutions in an entry print. -/
def answersOf (l : Launcher σ) (s : Session) (entry : Entry) (w : σ) : List String :=
  match (readStatements (EntryText.ofLines entry.lines).command).result with
  | .ok [statement] =>
    let t := s.withPwd
    Expansion.answers (t.oracle l) t.state.vars t.state.env statement w
  | _ => []

/-- What the substitutions in the entries of a script print. -/
def answers (tools : Tools σ) (s : Session) (script : Script) (w : σ) : List String :=
  s.gather tools (answersOf tools.launcher) script w

theorem answersOf_readsAs {entry : Entry} {statement : Statement} (h : entry.ReadsAs statement)
    (l : Launcher σ) (s : Session) (w : σ) :
    s.answersOf l entry w =
      Expansion.answers (s.withPwd.oracle l) s.withPwd.state.vars s.withPwd.state.env statement
        w := by
  rw [answersOf, h.reading]

theorem answers_next {tools : Tools σ} {s : Session} {entry : Entry} {w : σ} {exit : Exit}
    (h : (s.run tools entry w).value.2 = .ok exit) (rest : Script) :
    s.answers tools (entry :: rest) w =
      s.answersOf tools.launcher entry w ++
        (s.run tools entry w).value.1.answers tools rest (s.run tools entry w).world := by
  rw [answers, gather, h]
  rfl

/-! ## One statement -/

/-- Setting `PWD` keeps the agreement. -/
theorem agreesWith_withPwd {s : Session} {t : Subshell} (h : s.view.AgreesWith t) :
    s.withPwd.view.AgreesWith t :=
  ⟨h.cwd, h.vars, h.env.bind_left s.cwd⟩

variable {l : Launcher σ} {m : Launcher τ} {inner : Path → Env → Expansion.Oracle τ}
  {s : Session} {t : Subshell} {w : σ} {x : τ}

/-- Where an entry and its statement were given the same answers, they expand to the same. -/
theorem expanded_eq {entry : Entry} {statement : Statement} (h : entry.ReadsAs statement)
    (hname : "PWD" ∉ statement.names) (hagree : s.view.AgreesWith t)
    {later later' : List String}
    (hanswers : s.answersOf l entry w ++ later = t.answersOf inner statement x ++ later') :
    s.withPwd.expanded l statement w = t.expanded inner statement x ∧ later = later' := by
  have hview := agreesWith_withPwd hagree
  rw [answersOf_readsAs h, Subshell.answersOf, ← hview.vars] at hanswers
  rw [expanded, Subshell.expanded, ← hview.vars]
  refine Expansion.expand_agree ?_ hanswers
  intro name hmem
  exact hview.env name (fun heq => hname (heq ▸ hmem))

/-- A step of the session and a step of the subshell with the same words keep the agreement, and
what is asked for agrees. -/
theorem Stepped.agrees {statement : Statement} {log record : List Attempt}
    {ended : Session × Except Failure Exit}
    (h : s.Stepped (t.expanded inner statement x) log ended record)
    (hagree : s.view.AgreesWith t) :
    ended.1.view.AgreesWith (t.runStatement m inner statement x).value.1 ∧
      ∃ new, record = log ++ new ∧ List.Forall₂ Launch.AgreesWith (requests new)
        ((t.trialsOf m inner statement x).map Trial.request) := by
  obtain ⟨htried, hvalue⟩ := Subshell.runStatement_steps m inner t statement x
  obtain ⟨new, hrecord, hrequests⟩ := h.record
  rw [h.view, hvalue, htried]
  refine ⟨hagree.after _, new, hrecord, ?_⟩
  rw [hrequests]
  exact hagree.asks _ s

/-! ## All statements -/

/-- With the same answers, a session asks for the programs that a subshell tries to run. -/
theorem runScript_agrees {script : Script} {statements : List Statement}
    (hreads : List.Forall₂ Entry.ReadsAs script statements)
    (hnames : ∀ statement ∈ statements, "PWD" ∉ statement.names)
    (hunpinned : s.state.Unpinned) (hagree : s.view.AgreesWith t)
    (hanswers : s.answers (Tools.plain l) script w =
      t.gather m inner (Subshell.answersOf inner) statements x) (log : List Attempt) :
    ∃ new, (s.runScript (Tools.plain l).noting script (w, log)).world.2 = log ++ new ∧
      List.Forall₂ Launch.AgreesWith (requests new)
        ((t.gather m inner (Subshell.trialsOf m inner) statements x).map Trial.request) := by
  induction hreads generalizing s t w x log with
  | nil => exact ⟨[], (List.append_nil log).symm, .nil⟩
  | @cons entry statement script statements hfirst hrest ih =>
      obtain ⟨hstatement, hnames⟩ := List.forall_mem_cons.1 hnames
      obtain ⟨hended, hworld⟩ := run_noting (Tools.plain l) s entry w log
      have hstep := run_steps (l := l) hfirst hunpinned w log
      obtain ⟨exit, hok⟩ := hstep.goesOn
      -- The answers split after the first statement, which so comes to the same on both sides.
      rw [answers_next (hended ▸ hok), Subshell.gather, ← hended] at hanswers
      obtain ⟨hexpanded, hlater⟩ := expanded_eq (l := l) hfirst hstatement hagree hanswers
      rw [hexpanded] at hstep
      obtain ⟨hnext, new, hrecord, hforall⟩ :=
        hstep.agrees (m := m) (agreesWith_withPwd hagree)
      obtain ⟨more, hmore, hforall'⟩ := ih hnames hstep.unpinned hnext hlater (log ++ new)
      refine ⟨new ++ more, ?_, ?_⟩
      · have hafter : (s.run (Tools.plain l).noting entry (w, log)).world =
            ((s.run (Tools.plain l) entry w).world, log ++ new) := by
          rw [← hworld, ← hrecord]
        rw [← hafter] at hmore
        rw [runScript_next _ hok, ← List.append_assoc]
        exact hmore
      · rw [Subshell.gather, List.map_append, requests, List.map_append]
        exact List.rel_append hforall hforall'

end Session

/-! ## The agreement -/

namespace Subshell

/-- The subshell agrees with the session. A session that has no builtins is forked without a
state, and runs entries of one statement each that go on after failures and do not ask for
`PWD`. A subshell of the session runs the statements. If the substitutions in them print the
same, then the session asks for exactly the programs that the subshell tries to run: the same
words, in the same directory, and in the same environment but for `PWD`. What the subshell
prints is what those of them printed that could be started, whatever their exit.

The launchers and the worlds may differ, and so may the output of programs. That `PWD` is the
directory at the start need not be assumed, nor that no statement binds it. -/
theorem capture_agrees {l : Launcher σ} {m : Launcher τ} {s : Session} {script : Script}
    {statements : List Statement} (hreads : List.Forall₂ Entry.ReadsAs script statements)
    (hnames : ∀ statement ∈ statements, "PWD" ∉ statement.names) {w : σ} {x : τ}
    (hanswers : (s.fork none).answers (Tools.plain l) script w =
      answers m s.cwd s.state.env statements x) :
    let asked := requests ((s.fork none).runScript (Tools.plain l).noting script (w, [])).world.2
    let tried := trials m s.cwd s.state.env statements x
    List.Forall₂ Launch.AgreesWith asked (tried.map Trial.request) ∧
      (capture m s.cwd s.state.env statements x).value =
        String.join (tried.filterMap Trial.output?) := by
  refine ⟨?_, value_runEach m _ statements (start s.cwd s.state.env) x⟩
  have hagree : (s.fork none).view.AgreesWith (start s.cwd s.state.env) :=
    ⟨rfl, rfl, Bindings.SameApart.refl _ _⟩
  obtain ⟨new, hrecord, hforall⟩ := Session.runScript_agrees hreads hnames
    (SessionState.unpinned_ofEnv s.state.env) hagree hanswers []
  rw [hrecord]
  exact hforall

/-- Programs that print their arguments. Still, `false` fails, and `absent` is not there. -/
def printing : Launcher Unit where
  start request :=
    pure (if request.program = "absent" then .error (.launch "absent" .commandNotFound true)
      else if request.program = "false" then .error (.commandFailed (Exit.ofCode 1))
      else .ok Exit.success)
  capture request :=
    pure (if request.program = "absent" then .error .commandNotFound
      else .ok ⟨Utf8.encode (joinWords request.args ++ "\n"), [],
        Exit.ofCode (if request.program = "false" then 1 else 0)⟩)

/-- A change of the directory, a binding, and three programs of which two fail. -/
theorem capture_agrees_sample :
    let s : Session := ⟨"/", SessionState.ofEnv (Bindings.ofList [("PWD", "/")]), default⟩
    let script : Script :=
      ["cd src", "DIR=$(echo lib)", "false $DIR/a", "absent", "CC=gcc make $(echo all)"].map
        (fun text => .structured (.line text) .carryOn none)
    let echo (text : String) : Word :=
      .substitution [.command (.literal "echo") [.literal text] []]
    let statements : List Statement :=
      [.command (.literal "cd") [.literal "src"] [],
        .assign [.mk "DIR" (echo "lib")],
        .command (.literal "false") [.concat [.variable "DIR", .literal "/a"]] [],
        .command (.literal "absent") [] [],
        .command (.literal "make") [echo "all"] [.mk "CC" (.literal "gcc")]]
    let asked := requests
      ((s.fork none).runScript (Tools.plain printing).noting script ((), [])).world.2
    List.Forall₂ Entry.ReadsAs script statements ∧
    (∀ statement ∈ statements, "PWD" ∉ statement.names) ∧
    (s.fork none).answers (Tools.plain printing) script () = ["lib\n", "all\n"] ∧
    answers printing s.cwd s.state.env statements () = ["lib\n", "all\n"] ∧
    asked.map (fun r => (r.argv, r.cwd)) =
      [(["false", "lib/a"], "/src"), (["absent"], "/src"), (["make", "all"], "/src")] ∧
    List.Forall₂ Launch.AgreesWith asked
      ((trials printing s.cwd s.state.env statements ()).map Trial.request) ∧
    (capture printing s.cwd s.state.env statements ()).value = "lib/a\nall\n" := by
  intro s script echo statements asked
  have hreads : List.Forall₂ Entry.ReadsAs script statements := by
    refine .cons ?_ (.cons ?_ (.cons ?_ (.cons ?_ (.cons ?_ .nil))))
    all_goals exact Entry.readsAs_line (by decide +kernel) rfl
  have hnames : ∀ statement ∈ statements, "PWD" ∉ statement.names := by decide +kernel
  have hanswers : (s.fork none).answers (Tools.plain printing) script () = ["lib\n", "all\n"] := by
    decide +kernel
  have hanswers' : answers printing s.cwd s.state.env statements () = ["lib\n", "all\n"] := by
    decide +kernel
  obtain ⟨hagree, hprinted⟩ := capture_agrees hreads hnames (hanswers.trans hanswers'.symm)
  refine ⟨hreads, hnames, hanswers, hanswers', by decide +kernel, hagree, ?_⟩
  rw [hprinted]
  decide +kernel

end Subshell

end ScriptRunner
