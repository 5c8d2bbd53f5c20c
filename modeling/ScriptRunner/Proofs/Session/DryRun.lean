import ScriptRunner.Proofs.Session.Attempts
import ScriptRunner.Session.DryRun

/-!
# ScriptRunner.Proofs.Session.DryRun

A session does not depend on what programs do.

Two sets of tools with builtins of the same names, and the same output of command
substitutions, lead a session through the same states and ask for the same programs, entry by
entry. All that the answers decide is how far a script gets: a failure can end it. So the
requests of the run that ends earlier are the first requests of the other one
(`Session.runs_agree`).

A dry run is such a run. What it reports in place of its programs are the command lines that
the other run asks for.
-/

namespace ScriptRunner

open Effect

variable {σ τ : Type}

/-- The programs that were asked for. -/
def requests (log : List Attempt) : List Launch :=
  log.map Attempt.request

/-- The data in a notice, if it is a report of data. -/
def Notice.data? : Notice → Option Bytes
  | .shell (.data bytes) => some bytes
  | _ => none

/-- The data reported while the program was started and ran. -/
def Attempt.data (a : Attempt) : List Bytes :=
  a.notices.filterMap Notice.data?

/-- The output of command substitutions is a function of the directory, the environment and
the statements. -/
def PrintsAs (output : Path → Env → List Statement → String) (l : Launcher σ) : Prop :=
  ∀ cwd env statements w, (Subshell.capture l cwd env statements w).value =
    output cwd env statements

/-- A dry run prints in its command substitutions what the other run prints. -/
theorem PrintsAs.dry {output : Path → Env → List Statement → String} {l : Launcher σ}
    (h : PrintsAs output l) : PrintsAs output l.dry := by
  intro cwd env statements w
  have halike : Subshell.Alike (onlyGives (fun _ => True)) l.dry l :=
    { warnings := fun _ => onlyGives_singleton True.intro
      requests := fun _ => onlyGives_singleton True.intro
      captures := fun _ => related_onlyGives_iff.2 (fun _ _ _ => True.intro) }
  obtain ⟨hvalue, -⟩ := Subshell.capture_related halike cwd env statements w w rfl
  rw [hvalue]
  exact h cwd env statements w

theorem Tools.isSome_builtin?_iff (t : Tools σ) (name : String) :
    (t.builtin? name).isSome ↔ name ∈ t.builtins.map Builtin.name := by
  rw [builtin?, List.find?_isSome, List.mem_map]
  simp only [beq_iff_eq]

/-! ## The same requests -/

/-- The same programs were asked for. -/
def sameRequests : Correspondence (σ × List Attempt) (τ × List Attempt) where
  worlds x y := requests x.2 = requests y.2
  notices _ _ := True
  nil := True.intro
  append _ _ := True.intro

theorem sameRequests_start (w : σ) (x : τ) :
    (sameRequests (σ := σ) (τ := τ)).worlds (w, []) (x, []) := rfl

section Agreement

variable {t : Tools σ} {u : Tools τ} {output : Path → Env → List Statement → String}
  {Q : Except Failure Exit → Except Failure Exit → Prop}
  (hnames : ∀ name, name ∈ t.builtins.map Builtin.name ↔ name ∈ u.builtins.map Builtin.name)
  (ht : PrintsAs output t.launcher) (hu : PrintsAs output u.launcher)

include ht hu in
theorem captures_agree (cwd : Path) (env : Env) (statements : List Statement) :
    Related sameRequests Eq (Subshell.capture t.noting.launcher cwd env statements)
      (Subshell.capture u.noting.launcher cwd env statements) := by
  rintro ⟨w, log⟩ ⟨x, log'⟩ hrequests
  obtain ⟨hvalue, hworld, -⟩ :=
    capture_noting t.launcher cwd env statements log (w, log) w rfl
  obtain ⟨hvalue', hworld', -⟩ :=
    capture_noting u.launcher cwd env statements log' (x, log') x rfl
  refine ⟨?_, ?_, True.intro⟩
  · rw [Tools.noting, Tools.noting, hvalue, hvalue', ht, hu]
  · rw [Tools.noting, Tools.noting, hworld, hworld']
    exact hrequests

include hnames in
/-- Builtins are found under the same names, and leave the requests alone. -/
theorem builtins_agree
    (hanswers : ∀ name b c, t.builtin? name = some b → u.builtin? name = some c →
      ∀ args w x, Q (b.invoke args w).value (c.invoke args x).value) (name : String) :
    Option.Rel (fun b c => ∀ args, Related sameRequests Q (b.invoke args) (c.invoke args))
      (t.noting.builtin? name) (u.noting.builtin? name) := by
  have hfound : (t.builtin? name).isSome ↔ (u.builtin? name).isSome := by
    rw [t.isSome_builtin?_iff, u.isSome_builtin?_iff]
    exact hnames name
  rw [t.builtin?_noting, u.builtin?_noting]
  cases hb : t.builtin? name with
  | none =>
      cases hc : u.builtin? name with
      | none => exact .none
      | some c =>
          rw [hb, hc] at hfound
          cases hfound.2 rfl
  | some b =>
      cases hc : u.builtin? name with
      | none =>
          rw [hb, hc] at hfound
          cases hfound.1 rfl
      | some c =>
          refine .some (fun args => ?_)
          rintro ⟨w, log⟩ ⟨x, log'⟩ hrequests
          exact ⟨hanswers name b c hb hc args w x, hrequests, True.intro⟩

include hnames ht hu in
/-- Whatever is to be said about the answers, the requests are the same. -/
theorem agreement (hrefl : ∀ answer, Q answer answer)
    (hprograms : ∀ request w x,
      Q (t.launcher.start request w).value (u.launcher.start request x).value)
    (hbuiltins : ∀ name b c, t.builtin? name = some b → u.builtin? name = some c →
      ∀ args w x, Q (b.invoke args w).value (c.invoke args x).value)
    (hconclusions : ∀ policy a b (w : σ × List Attempt) (x : τ × List Attempt), Q a b →
      Q (Session.conclude policy a w).value (Session.conclude policy b x).value) :
    Simulation sameRequests Q t.noting u.noting where
  refl := hrefl
  warnings _ := True.intro
  messages _ := True.intro
  launches _ := True.intro
  captures := captures_agree ht hu
  programs request := by
    rintro ⟨w, log⟩ ⟨x, log'⟩ hrequests
    refine ⟨hprograms request w x, ?_, True.intro⟩
    have hsame : requests log = requests log' := hrequests
    show requests (log ++ [_]) = requests (log' ++ [_])
    rw [requests, requests, List.map_append, List.map_append]
    exact congrArg (· ++ [request]) hsame
  builtins := builtins_agree hnames hbuiltins
  conclusions policy a b hab := by
    intro w x hrequests
    refine ⟨hconclusions policy a b w x hab, ?_, True.intro⟩
    rw [Session.world_conclude, Session.world_conclude]
    exact hrequests

include hnames ht hu in
/-- Nothing has to be said about them. -/
theorem agreement_any : Simulation sameRequests (fun _ _ => True) t.noting u.noting :=
  agreement hnames ht hu (fun _ => True.intro) (fun _ _ _ => True.intro)
    (fun _ _ _ _ _ _ _ _ => True.intro) (fun _ _ _ _ _ _ => True.intro)

include hnames ht hu in
/-- A run that takes no more steps asks for the first of the other's programs. -/
theorem requests_prefix (s : Session) (script : Script) (w : σ) (x : τ)
    (hlength : (s.steps t.noting script (w, [])).length ≤
      (s.steps u.noting script (x, [])).length) :
    requests (s.runScript t.noting script (w, [])).world.2 <+:
      requests (s.runScript u.noting script (x, [])).world.2 := by
  have hlast := congrArg Prod.snd (Session.getLast?_steps t.noting s script (w, []))
  dsimp only at hlast
  cases hfirst : (s.steps t.noting script (w, [])).getLast? with
  | none =>
      rw [hfirst, Option.getD_none] at hlast
      rw [← hlast]
      exact List.nil_prefix
  | some a =>
      -- The last step of the shorter run has its counterpart within the longer one.
      rw [hfirst, Option.getD_some] at hlast
      rw [← hlast]
      rw [List.getLast?_eq_getElem?] at hfirst
      obtain ⟨hbound, -⟩ := List.getElem?_eq_some_iff.1 hfirst
      have hsecond := List.getElem?_eq_getElem (Nat.lt_of_lt_of_le hbound hlength)
      have hsame : requests a.2.2 = requests _ :=
        ((agreement_any hnames ht hu).steps_related script s (sameRequests_start w x) _ hfirst
          hsecond).2
      rw [hsame]
      exact (Session.steps_prefix u s script (x, []) hsecond).map Attempt.request

end Agreement

/-! ## The requests of a dry run -/

/-- A failure on the right has one on the left. -/
def FailsWith (a b : Except Failure Exit) : Prop :=
  (∃ failure, b = .error failure) → ∃ failure, a = .error failure

theorem FailsWith.conclude {a b : Except Failure Exit} (h : FailsWith a b) (policy : FailPolicy)
    (w : σ) (x : τ) :
    FailsWith (Session.conclude policy a w).value (Session.conclude policy b x).value := by
  rw [Session.value_conclude, Session.value_conclude]
  intro hfails
  cases b with
  | ok exit =>
      obtain ⟨failure, hfailure⟩ := hfails
      cases hfailure
  | error failure =>
      obtain ⟨other, rfl⟩ := h ⟨failure, rfl⟩
      cases policy with
      | stop => exact ⟨other, rfl⟩
      | carryOn =>
          obtain ⟨failure, hfailure⟩ := hfails
          cases hfailure

/-- What a dry run reports are the command lines of its requests. -/
theorem data_eq_lines {log : List Attempt} (h : ∀ a ∈ log, a.data = [a.request.line]) :
    log.flatMap Attempt.data = (requests log).map (fun r => r.line) := by
  induction log with
  | nil => rfl
  | cons a rest ih =>
      rw [List.flatMap_cons, h a List.mem_cons_self,
        ih (fun b hb => h b (List.mem_cons_of_mem a hb))]
      rfl

/-- Two runs of a script in one session, with tools that have the same builtins and print the
same in command substitutions. After as many entries the sessions are equal and the same
programs were asked for, whatever programs and builtins do. In a dry run the reports are the
command lines of what the other run asks for; and the dry run gets as far, if its builtins
succeed where those of the other run do. That the programs are on record makes no difference to
either run. -/
theorem runs_agree {t : Tools σ} {u : Tools τ} {output : Path → Env → List Statement → String}
    (hnames : ∀ name, name ∈ t.builtins.map Builtin.name ↔ name ∈ u.builtins.map Builtin.name)
    (ht : PrintsAs output t.launcher) (hu : PrintsAs output u.launcher) (s : Session)
    (script : Script) (w : σ) (x : τ) :
    let first := s.steps t.noting script (w, [])
    let second := s.steps u.noting script (x, [])
    let asked := requests (s.runScript t.noting script (w, [])).world.2
    let asked' := requests (s.runScript u.noting script (x, [])).world.2
    s.OnRecord t script w [] ∧ s.OnRecord u script x [] ∧
    (∀ (n : Nat) (a : Session × σ × List Attempt) (b : Session × τ × List Attempt),
      first[n]? = some a → second[n]? = some b →
        a.1 = b.1 ∧ requests a.2.2 = requests b.2.2) ∧
    (first.length ≤ second.length → asked <+: asked') ∧
    (second.length ≤ first.length → asked' <+: asked) ∧
    (∀ l : Launcher τ, u.launcher = l.dry →
      (∀ (n : Nat) (a : Session × σ × List Attempt) (b : Session × τ × List Attempt),
        first[n]? = some a → second[n]? = some b →
          b.2.2.flatMap Attempt.data =
            (requests a.2.2).map (fun r => Utf8.encode (joinWords r.argv) ++ [13, 10])) ∧
      ((∀ name b c, t.builtin? name = some b → u.builtin? name = some c →
          ∀ args v y, FailsWith (b.invoke args v).value (c.invoke args y).value) →
        first.length ≤ second.length)) := by
  intro first second asked asked'
  have hsteps : ∀ (n : Nat) (a : Session × σ × List Attempt) (b : Session × τ × List Attempt),
      first[n]? = some a → second[n]? = some b →
        a.1 = b.1 ∧ requests a.2.2 = requests b.2.2 :=
    fun n a b ha hb =>
      (agreement_any hnames ht hu).steps_related script s (sameRequests_start w x) n ha hb
  refine ⟨s.onRecord t script w [], s.onRecord u script x [], hsteps,
    requests_prefix hnames ht hu s script w x,
    requests_prefix (fun name => (hnames name).symm) hu ht s script x w, fun l hdry => ⟨?_, ?_⟩⟩
  · intro n a b ha hb
    have hline : ∀ request y, (⟨request, (u.launcher.start request y).notices⟩ : Attempt).data =
        [request.line] := by
      intro request y
      rw [hdry]
      rfl
    obtain ⟨new, hnew, hlines⟩ := Session.steps_extends (P := fun a => a.data = [a.request.line])
      hline s script x [] hb
    rw [hnew, List.nil_append, data_eq_lines hlines, (hsteps n a b ha hb).2, hnew]
    rfl
  · -- Programs of a dry run succeed, so only builtins could end it earlier.
    intro hbuiltins
    have hdries : Simulation sameRequests FailsWith t.noting u.noting := by
      refine agreement hnames ht hu (fun _ => id) ?_ hbuiltins
        (fun policy a b w x hab => hab.conclude policy w x)
      intro request v y
      rw [hdry]
      rintro ⟨failure, hfailure⟩
      cases hfailure
    exact hdries.length_steps_le
      (fun a b hab failure hb => hab ⟨failure, hb⟩) script s (sameRequests_start w x)

/-- Over a world that does not change, output is a function of the call. -/
theorem printsAs_unit (l : Launcher Unit) :
    PrintsAs (fun cwd env statements => (Subshell.capture l cwd env statements ()).value) l :=
  fun _ _ _ _ => rfl

/-- Tools whose programs all fail. -/
def failing : Tools Unit where
  launcher := {
    start := fun _ => pure (.error (.commandFailed (Exit.ofCode 2)))
    capture := fun _ => pure (.error .commandNotFound) }
  builtins := []

/-- A script with a failure that it survives and one that ends it, where programs do run. -/
def courseSample : Script :=
  [.plain (.line "cd sub"), .structured (.line "make 'a b'") .carryOn none, .plain (.line "A=1"),
    .plain (.line "make $A"), .plain (.line "echo done")]

/-- The dry run gets one entry further, and asks for one program more. -/
theorem runs_agree_sample :
    let dry : Tools Unit := ⟨failing.launcher.dry, []⟩
    let output := fun cwd env statements =>
      (Subshell.capture failing.launcher cwd env statements ()).value
    let s : Session := ⟨"/", SessionState.ofEnv Bindings.empty, default⟩
    let first := s.steps failing.noting courseSample ((), [])
    let second := s.steps dry.noting courseSample ((), [])
    let asked := requests (s.runScript failing.noting courseSample ((), [])).world.2
    let asked' := requests (s.runScript dry.noting courseSample ((), [])).world.2
    (∀ name, name ∈ failing.builtins.map Builtin.name ↔ name ∈ dry.builtins.map Builtin.name) ∧
    PrintsAs output failing.launcher ∧ PrintsAs output dry.launcher ∧
    first.length = 4 ∧ second.length = 5 ∧ asked <+: asked' ∧
    asked.map (fun r => r.argv) = [["make", "a b"], ["make", "1"]] ∧
    asked'.map (fun r => r.argv) = [["make", "a b"], ["make", "1"], ["echo", "done"]] ∧
    ∃ a b, first[3]? = some a ∧ second[3]? = some b ∧ a.1 = b.1 ∧ a.1.cwd = "/sub" ∧
      b.2.2.flatMap Attempt.data =
        [Utf8.encode "make 'a b'" ++ [13, 10], Utf8.encode "make 1" ++ [13, 10]] := by
  intro dry output s first second asked asked'
  have hnames : ∀ name, name ∈ failing.builtins.map Builtin.name ↔
      name ∈ dry.builtins.map Builtin.name := fun _ => Iff.rfl
  have hprints : PrintsAs output failing.launcher := printsAs_unit failing.launcher
  have hprints' : PrintsAs output dry.launcher := hprints.dry
  obtain ⟨-, -, hsteps, hprefix, -, hdry⟩ := runs_agree (t := failing) (u := dry) hnames hprints
    hprints' s courseSample () ()
  obtain ⟨hdata, hlonger⟩ := hdry failing.launcher rfl
  have hlength : first.length = 4 := by decide +kernel
  have hlength' : second.length = 5 := by decide +kernel
  have hcourse : first[3]?.map (fun a => (a.1.cwd, (requests a.2.2).map (fun r => r.argv))) =
      some ("/sub", [["make", "a b"], ["make", "1"]]) := by
    decide +kernel
  have hfourth : second[3]?.isSome = true := by decide +kernel
  obtain ⟨a, ha, hasked⟩ := Option.map_eq_some_iff.1 hcourse
  obtain ⟨b, hb⟩ := Option.isSome_iff_exists.1 hfourth
  obtain ⟨hcwd, hargv⟩ := Prod.mk.inj hasked
  refine ⟨hnames, hprints, hprints', hlength, hlength', hprefix (hlonger nofun), by decide +kernel,
    by decide +kernel, a, b, ha, hb, (hsteps 3 a b ha hb).1, hcwd, ?_⟩
  have hlines := List.map_map (l := requests a.2.2) (f := fun r => r.argv)
    (g := fun argv => Utf8.encode (joinWords argv) ++ [13, 10])
  rw [hargv] at hlines
  exact (hdata 3 a b ha hb).trans (hlines.symm.trans (by decide +kernel))

end ScriptRunner
