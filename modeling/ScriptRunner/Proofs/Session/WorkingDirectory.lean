import ScriptRunner.Proofs.Session.Agreement
import ScriptRunner.Proofs.Session.Programs

/-!
# ScriptRunner.Proofs.Session.WorkingDirectory

`PWD`, and the directory in which a program is started.

A session sets `PWD` to its directory before every entry. As long as no text binds the name
(`Entry.boundNames`), nothing between there and the start of a program changes it, at any depth of
substitutions (`Subshell.Substep.Inherits`). So a program of an entry finds its own directory in
`PWD`, and so does a program of a substitution, unless a `cd` has moved the subshell: that changes
the directory alone (`not_everyProgram_findsPwd`).

Main statement: `Session.runScript_pwd`.
-/

namespace ScriptRunner

open Effect

variable {σ : Type}

/-! ## The names that a text binds -/

mutual

/-- The names that the substitutions in a word bind. -/
def Word.boundNames : Word → List String
  | .literal _ => []
  | .variable _ => []
  | .parameter _ => []
  | .substitution statements => Statement.boundNamesAll statements
  | .concat pieces => Word.boundNamesAll pieces
  | .array elements => Word.boundNamesAll elements

/-- The names that the substitutions in several words bind. -/
def Word.boundNamesAll : List Word → List String
  | [] => []
  | w :: rest => w.boundNames ++ Word.boundNamesAll rest

/-- The name that an assignment binds, and those in its value. -/
def Assignment.boundNames : Assignment → List String
  | .mk name value => name :: value.boundNames

/-- The names that several assignments bind. -/
def Assignment.boundNamesAll : List Assignment → List String
  | [] => []
  | a :: rest => a.boundNames ++ Assignment.boundNamesAll rest

/-- The names that a statement binds, for itself or for the session, with those that its
substitutions bind. -/
def Statement.boundNames : Statement → List String
  | .command name args inline =>
    name.boundNames ++ (Word.boundNamesAll args ++ Assignment.boundNamesAll inline)
  | .assign assignments => Assignment.boundNamesAll assignments

/-- The names that several statements bind. -/
def Statement.boundNamesAll : List Statement → List String
  | [] => []
  | s :: rest => s.boundNames ++ Statement.boundNamesAll rest

end

/-- The names that the text of an entry binds. -/
def Entry.boundNames (entry : Entry) : List String :=
  match (readStatements (EntryText.ofLines entry.lines).command).result with
  | .ok statements => Statement.boundNamesAll statements
  | .error _ => []

theorem Entry.boundNames_eq {entry : Entry} {statements : List Statement}
    (h : (readStatements (EntryText.ofLines entry.lines).command).result = .ok statements) :
    entry.boundNames = Statement.boundNamesAll statements := by
  rw [boundNames, h]

/-- The assignments of a statement. -/
def Statement.assignments : Statement → List Assignment
  | .command _ _ inline => inline
  | .assign assignments => assignments

variable {name : String}

mutual

/-- What a substitution binds, the word around it binds. -/
theorem Word.mem_boundNames : ∀ (word : Word) {question : List Statement},
    question ∈ word.questions → name ∈ Statement.boundNamesAll question → name ∈ word.boundNames
  | .literal _, _, hquestion, _ => by simp [Word.questions] at hquestion
  | .variable _, _, hquestion, _ => by simp [Word.questions] at hquestion
  | .parameter _, _, hquestion, _ => by simp [Word.questions] at hquestion
  | .substitution [], _, hquestion, _ => by simp [Word.questions] at hquestion
  | .substitution (s :: rest), question, hquestion, hname => by
      rw [Word.questions, List.mem_singleton] at hquestion
      rw [Word.boundNames, ← hquestion]
      exact hname
  | .concat pieces, _, hquestion, hname => by
      rw [Word.questions] at hquestion
      rw [Word.boundNames]
      exact Word.mem_boundNamesAll pieces hquestion hname
  | .array elements, _, hquestion, hname => by
      rw [Word.questions] at hquestion
      rw [Word.boundNames]
      exact Word.mem_boundNamesAll elements hquestion hname

theorem Word.mem_boundNamesAll : ∀ (words : List Word) {question : List Statement},
    question ∈ Word.questionsEach words → name ∈ Statement.boundNamesAll question →
      name ∈ Word.boundNamesAll words
  | [], _, hquestion, _ => by simp [Word.questionsEach] at hquestion
  | w :: rest, _, hquestion, hname => by
      rw [Word.questionsEach, List.mem_append] at hquestion
      rw [Word.boundNamesAll, List.mem_append]
      exact hquestion.imp (fun h => Word.mem_boundNames w h hname)
        (fun h => Word.mem_boundNamesAll rest h hname)

end

theorem Assignment.mem_boundNamesAll {assignments : List Assignment} {a : Assignment}
    (ha : a ∈ assignments) (hname : name = a.name ∨ name ∈ a.value.boundNames) :
    name ∈ Assignment.boundNamesAll assignments := by
  induction assignments with
  | nil => cases ha
  | cons b rest ih =>
      rw [Assignment.boundNamesAll, List.mem_append]
      rcases List.mem_cons.1 ha with rfl | ha
      · obtain ⟨other, value⟩ := a
        rw [Assignment.boundNames, List.mem_cons]
        exact Or.inl hname
      · exact Or.inr (ih ha)

namespace Statement

/-- What a substitution binds, the statement around it binds. -/
theorem mem_boundNames (statement : Statement) {question : List Statement}
    (hquestion : question ∈ statement.questions) (hname : name ∈ boundNamesAll question) :
    name ∈ statement.boundNames := by
  have hvalues : ∀ assignments : List Assignment,
      question ∈ assignments.flatMap (fun a => a.value.questions) →
        name ∈ Assignment.boundNamesAll assignments := by
    intro assignments hmem
    obtain ⟨a, ha, hvalue⟩ := List.mem_flatMap.1 hmem
    exact Assignment.mem_boundNamesAll ha (Or.inr (Word.mem_boundNames a.value hvalue hname))
  cases statement with
  | assign assignments =>
      rw [boundNames]
      exact hvalues assignments hquestion
  | command program args inline =>
      rw [questions, List.mem_append, List.mem_append] at hquestion
      rw [boundNames, List.mem_append, List.mem_append]
      exact hquestion.imp (fun h => Word.mem_boundNames program h hname)
        (Or.imp (fun h => Word.mem_boundNamesAll args h hname) (hvalues inline))

theorem mem_boundNames_of_assignments (statement : Statement) {a : Assignment}
    (ha : a ∈ statement.assignments) : a.name ∈ statement.boundNames := by
  have hname := Assignment.mem_boundNamesAll ha (Or.inl rfl)
  cases statement with
  | assign assignments =>
      rw [boundNames]
      exact hname
  | command program args inline =>
      rw [boundNames]
      exact List.mem_append_right _ (List.mem_append_right _ hname)

end Statement

namespace Expansion

variable (oracle : Oracle σ)

/-- Only assignments bind. -/
theorem lookup_bindEach (scope : Scope) {assignments : List Assignment}
    (h : ∀ a ∈ assignments, a.name ≠ name) (w : σ) :
    (bindEach oracle scope assignments w).value.lookup name = scope.pending.lookup name := by
  induction assignments generalizing scope w with
  | nil => rfl
  | cons a rest ih =>
      obtain ⟨hfirst, hrest⟩ := List.forall_mem_cons.1 h
      rw [bindEach, bind_apply]
      dsimp only
      rw [ih _ hrest, Bindings.lookup_bind_of_ne _ _ hfirst]

/-- A statement that does not bind a name expands to words and values without it. -/
theorem lookup_expand (vars env : Env) {statement : Statement} (h : name ∉ statement.boundNames)
    (w : σ) : (expand oracle vars env statement w).value.env.lookup name = none := by
  have hnames : ∀ a ∈ statement.assignments, a.name ≠ name := by
    rintro a ha rfl
    exact h (statement.mem_boundNames_of_assignments ha)
  cases statement with
  | assign assignments => exact lookup_bindEach oracle (Scope.start vars env) hnames w
  | command program args inline => exact lookup_bindEach oracle (Scope.start vars env) hnames _

theorem mem_collectEach {κ : Type} {oracle : Oracle σ} {f : List Statement → σ → List κ}
    {questions : List (List Statement)} {w : σ} {a : κ}
    (h : a ∈ collectEach oracle f questions w) : ∃ question ∈ questions, ∃ v, a ∈ f question v := by
  induction questions generalizing w with
  | nil => cases h
  | cons question rest ih =>
      rw [collectEach, List.mem_append] at h
      rcases h with h | h
      · exact ⟨question, List.mem_cons_self, w, h⟩
      · obtain ⟨other, hother, v, hv⟩ := ih h
        exact ⟨other, List.mem_cons_of_mem _ hother, v, hv⟩

end Expansion

theorem Bindings.lookup_overlay_of_none {env delta : Env} (h : delta.lookup name = none) :
    (env.overlay delta).lookup name = env.lookup name := by
  rw [lookup_overlay, h, Option.none_or]

/-! ## What a subshell hands down -/

namespace Subshell

/-- The subshell has this `PWD`, and as long as nothing has moved it, it is in that directory. -/
structure Inherits (directory : Path) (moved : Bool) (s : Subshell) : Prop where
  pwd : s.env.lookup "PWD" = some directory
  cwd : moved = false → s.cwd = directory

/-- The step finds such a subshell, and its statement does not bind `PWD`. -/
structure Substep.Inherits (directory : Path) (t : Substep) : Prop where
  subshell : t.subshell.Inherits directory t.moved
  unbound : t.resolved.env.lookup "PWD" = none

variable {directory : Path} {moved : Bool} {s : Subshell}

/-- A statement that does not bind `PWD` hands the subshell on. -/
theorem Inherits.after (h : s.Inherits directory moved) {r : Resolved}
    (hr : r.env.lookup "PWD" = none) : (s.after r).Inherits directory (moved || s.moves r) := by
  rw [Subshell.after, moves]
  cases hprogram : r.program with
  | none =>
      refine ⟨(Bindings.lookup_overlay_of_none hr).trans h.pwd, fun hmoved => h.cwd ?_⟩
      exact (Bool.or_eq_false_iff.1 hmoved).1
  | some program =>
      dsimp only
      by_cases hcd : program = changeDirectoryName
      · rw [if_pos hcd]
        cases hchange : changeDirectory s.cwd r.args s.env with
        | ok cwd =>
            refine ⟨h.pwd, fun hmoved => ?_⟩
            simp [hcd, Except.isOk, Except.toBool] at hmoved
        | error fault => exact ⟨h.pwd, fun hmoved => h.cwd (Bool.or_eq_false_iff.1 hmoved).1⟩
      · rw [if_neg hcd]
        exact ⟨h.pwd, fun hmoved => h.cwd (Bool.or_eq_false_iff.1 hmoved).1⟩

section Each

variable (l : Launcher σ) {inner : Path → Env → Expansion.Oracle σ}
  {below : Bool → Path → Env → List Statement → σ → List Substep}
  (hbelow : ∀ (s : Subshell) (moved : Bool) (question : List Statement) (w : σ),
    s.Inherits directory moved → "PWD" ∉ Statement.boundNamesAll question →
      ∀ t ∈ below moved s.cwd s.env question w, t.Inherits directory)

include hbelow

theorem substepsOf_inherits (h : s.Inherits directory moved) {statement : Statement}
    (hnames : "PWD" ∉ statement.boundNames) (w : σ) :
    ∀ t ∈ substepsOf inner below moved s statement w, t.Inherits directory := by
  intro t ht
  rw [substepsOf, List.mem_append, List.mem_singleton] at ht
  rcases ht with ht | rfl
  · obtain ⟨question, hquestion, v, hv⟩ := Expansion.mem_collectEach ht
    exact hbelow s moved question v h
      (fun hname => hnames (statement.mem_boundNames hquestion hname)) t hv
  · exact ⟨h, Expansion.lookup_expand _ _ _ hnames w⟩

theorem substepsEach_inherits {statements : List Statement}
    (hnames : "PWD" ∉ Statement.boundNamesAll statements) (h : s.Inherits directory moved)
    (w : σ) : ∀ t ∈ substepsEach l inner below moved s statements w, t.Inherits directory := by
  induction statements generalizing s moved w with
  | nil => nofun
  | cons statement rest ih =>
      rw [Statement.boundNamesAll, List.mem_append, not_or] at hnames
      intro t ht
      rw [substepsEach, List.mem_append] at ht
      rcases ht with ht | ht
      · exact substepsOf_inherits hbelow h hnames.1 w t ht
      · rw [(runStatement_steps l inner s statement w).2] at ht
        exact ih hnames.2 (h.after (Expansion.lookup_expand _ _ _ hnames.1 w)) _ t ht

end Each

theorem substepsWithin_inherits (l : Launcher σ) (depth : Nat) {cwd : Path} {env : Env}
    {question : List Statement} (h : (start cwd env).Inherits directory moved)
    (hnames : "PWD" ∉ Statement.boundNamesAll question) (w : σ) :
    ∀ t ∈ substepsWithin l depth moved cwd env question w, t.Inherits directory := by
  -- A substitution one level less deep starts in the subshell as it is.
  induction depth generalizing moved cwd env question w with
  | zero => nofun
  | succ depth ih =>
      refine substepsEach_inherits l (fun s moved question w hs hquestion => ?_) hnames h w
      exact ih ⟨hs.pwd, hs.cwd⟩ hquestion w

/-- A program finds what its step inherits. -/
theorem Substep.Inherits.asks {directory : Path} {t : Substep} (h : t.Inherits directory)
    {request : Invocation} (hasks : t.asks? = some request) :
    request.env.lookup "PWD" = some directory ∧ (t.moved = false → request.cwd = directory) := by
  rw [Substep.asks?, Subshell.asks?] at hasks
  cases hprogram : t.resolved.program with
  | none => simp [hprogram] at hasks
  | some program =>
      simp only [hprogram] at hasks
      split at hasks
      · cases hasks
      · cases hasks
        exact ⟨(Bindings.lookup_overlay_of_none h.unbound).trans h.subshell.pwd, h.subshell.cwd⟩

end Subshell

/-! ## Sessions -/

namespace Session

variable (tools : Tools σ) (s : Session)

theorem pwd_withPwd : s.withPwd.state.env.lookup "PWD" = some s.cwd :=
  Bindings.lookup_bind_self _ _ _

/-- The substitutions of an entry start in the session as it is. -/
theorem substepsOf_inherits (l : Launcher σ) {entry : Entry} (hnames : "PWD" ∉ entry.boundNames)
    (w : σ) : ∀ t ∈ s.substepsOf l entry w, t.Inherits s.cwd := by
  intro t ht
  rw [substepsOf] at ht
  split at ht
  · next statement hreading =>
      rw [Entry.boundNames_eq hreading, Statement.boundNamesAll, List.mem_append, not_or] at hnames
      obtain ⟨question, hquestion, v, hv⟩ := Expansion.mem_collectEach ht
      exact Subshell.substepsWithin_inherits l _ ⟨s.pwd_withPwd, fun _ => rfl⟩
        (fun hname => hnames.1 (statement.mem_boundNames hquestion hname)) v t hv
  · cases ht

/-- The bindings of a command do not have a name that the entry does not bind. -/
theorem lookup_resolve (l : Launcher σ) {name : String} {entry : Entry}
    (hname : name ∉ entry.boundNames) {w : σ} {program : String} {resolved : Resolved}
    (h : (s.resolve l entry w).value = .command program resolved) :
    resolved.env.lookup name = none := by
  cases hreading : (readStatements (EntryText.ofLines entry.lines).command).result with
  | error halt =>
      rw [resolve, hreading] at h
      cases halt <;> cases h
  | ok statements =>
      rw [Entry.boundNames_eq hreading] at hname
      rw [resolve, hreading] at h
      rcases statements with _ | ⟨statement, _ | ⟨second, rest⟩⟩
      · cases h
      · rw [Statement.boundNamesAll, List.mem_append, not_or] at hname
        -- Reading gives warnings at most, and then the statement is expanded.
        have hasked : (s.resolveStatement l statement
            (warnIgnored (readStatements (EntryText.ofLines entry.lines).command).ignored
              w).world).value = .command program resolved := h
        rw [world_warnIgnored, resolveStatement, bind_apply] at hasked
        have hunbound := Expansion.lookup_expand (s.oracle l) s.state.vars s.state.env hname.1 w
        generalize Expansion.expand (s.oracle l) s.state.vars s.state.env statement w = done
          at hasked hunbound
        cases hprogram : done.value.program with
        | none =>
            rw [hprogram] at hasked
            cases hasked
        | some other =>
            rw [hprogram] at hasked
            cases hasked
            exact hunbound
      · cases h

/-- A program that is started for an entry finds the directory of the session in `PWD`. It is
started there, unless a `cd` has moved the subshell of its substitution. -/
theorem programsOf_pwd {entry : Entry} (hnames : "PWD" ∉ entry.boundNames) (w : σ) :
    ∀ p ∈ s.programsOf tools entry w,
      p.env.lookup "PWD" = some s.cwd ∧
        (p.cwd = s.cwd ∨
          ∃ t ∈ s.substepsOf tools.launcher entry w, t.moved = true ∧ t.asks? = some p) := by
  intro p hp
  rw [programsOf, List.mem_append, List.mem_filterMap] at hp
  rcases hp with ⟨t, ht, hasks⟩ | hp
  · obtain ⟨hpwd, hcwd⟩ := (s.substepsOf_inherits tools.launcher hnames w t ht).asks hasks
    refine ⟨hpwd, ?_⟩
    cases hmoved : t.moved with
    | false => exact Or.inl (hcwd hmoved)
    | true => exact Or.inr ⟨t, ht, hmoved, hasks⟩
  · cases hresolution : (s.withPwd.resolve tools.launcher entry w).value with
    | command program resolved =>
        rw [hresolution, launchFor?] at hp
        split at hp
        · cases hp
        · split at hp
          · cases hp
          · rw [Option.toList_some, List.mem_singleton] at hp
            have hunbound := lookup_resolve s.withPwd tools.launcher hnames hresolution
            rw [hp]
            exact ⟨(Bindings.lookup_overlay_of_none hunbound).trans s.pwd_withPwd, Or.inl rfl⟩
    | _ => simp [hresolution, launchFor?] at hp

/-- Every program that a script starts finds in `PWD` the directory in which the session is at that
entry, as long as the script does not bind the name. That is the directory in which the program is
started, unless it belongs to a substitution and a `cd` there came before it. -/
theorem runScript_pwd {script : Script} (hnames : ∀ entry ∈ script, "PWD" ∉ entry.boundNames)
    (w : σ) :
    ∀ p ∈ (s.runScript tools.logging script (w, [])).world.2,
      ∃ v ∈ s.visits tools script w,
        p.env.lookup "PWD" = some v.session.cwd ∧
          (p.cwd = v.session.cwd ∨
            ∃ t ∈ v.session.substepsOf tools.launcher v.entry v.world,
              t.moved = true ∧ t.asks? = some p) := by
  intro p hp
  rw [logs_runScript, List.nil_append, programs, gather_eq_flatMap, List.mem_flatMap] at hp
  obtain ⟨v, hv, hmem⟩ := hp
  have hentry := hnames v.entry (entry_mem_of_mem_visits tools s hv)
  exact ⟨v, hv, programsOf_pwd tools v.session hentry v.world p hmem⟩

/-- A session in a directory, with nothing but a path in its environment. -/
def workSample : Session :=
  ⟨"/work", SessionState.ofEnv (Bindings.ofList [("PATH", "/bin")]), default⟩

/-- A change of the directory by an entry, programs of nested substitutions, and one that a `cd`
comes before. -/
theorem runScript_pwd_sample :
    let tools := Tools.plain Subshell.printing
    let script : Script := [.plain (.line "cd sub"),
      .plain (.line "X=1 ls $(echo $(pwd) $X; absent)"),
      .plain (.line "make $(Y=2; cd lib; echo $Y)")]
    let record := (workSample.runScript tools.logging script ((), [])).world.2
    (∀ entry ∈ script, "PWD" ∉ entry.boundNames) ∧
    record.map (fun p => (p.program, p.cwd, p.env.lookup "PWD")) =
      [("pwd", "/work/sub", some "/work/sub"), ("echo", "/work/sub", some "/work/sub"),
        ("absent", "/work/sub", some "/work/sub"), ("ls", "/work/sub", some "/work/sub"),
        ("echo", "/work/sub/lib", some "/work/sub"), ("make", "/work/sub", some "/work/sub")] ∧
    ∀ p ∈ record, ∃ v ∈ workSample.visits tools script (),
      p.env.lookup "PWD" = some v.session.cwd ∧
        (p.cwd = v.session.cwd ∨
          ∃ t ∈ v.session.substepsOf tools.launcher v.entry v.world,
            t.moved = true ∧ t.asks? = some p) := by
  intro tools script record
  have hnames : ∀ entry ∈ script, "PWD" ∉ entry.boundNames := by decide +kernel
  exact ⟨hnames, by decide +kernel, runScript_pwd tools workSample hnames ()⟩

/-- After a `cd` in a substitution, `PWD` is not the directory in which a program is started. -/
theorem not_everyProgram_findsPwd :
    let script : Script := [.plain (.line "echo $(cd /; printenv PWD)")]
    let record :=
      (workSample.runScript (Tools.plain Subshell.printing).logging script ((), [])).world.2
    (∀ entry ∈ script, "PWD" ∉ entry.boundNames) ∧
      ¬ ∀ p ∈ record, p.env.lookup "PWD" = some p.cwd := by
  intro script record
  exact ⟨by decide +kernel, by decide +kernel⟩

end Session

end ScriptRunner
