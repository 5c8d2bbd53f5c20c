import ScriptRunner.Proofs.Bindings
import ScriptRunner.Proofs.Session.Resolution

/-!
# ScriptRunner.Proofs.Session.History

What a session remembers, as a function of the bindings that were made in it.

The history of a session (`Session.Reached`) has one `Binding` for each name that an entry
without a program bound, in order. Commands, failures and the bindings in front of a command
leave no trace in it. The three maps of the state can be read off it, name by name:

- the binding that stands is the last pinned one, or the last one where none is pinned;
- programs see the last pinned value, or else the last exported one, or else what the
  environment had at the start.

`SessionState.Follows` is this statement about a state and a history. One binding more keeps
it (`Follows.assignOne`), and so does everything a session can do.

`PWD` is left out: every entry sets it to the directory.
-/

namespace ScriptRunner

/-- A name, bound in a session at a level. -/
structure Binding where
  name : String
  value : String
  level : Precedence
  deriving DecidableEq

namespace Binding

/-- The last binding with the property. -/
def lastWith (p : Binding → Bool) (history : List Binding) : Option Binding :=
  history.reverse.find? p

/-- The last binding of the name. -/
def last? (history : List Binding) (name : String) : Option Binding :=
  lastWith (fun b => b.name == name) history

/-- The last binding of the name at the level. -/
def lastAt? (level : Precedence) (history : List Binding) (name : String) : Option Binding :=
  lastWith (fun b => b.name == name && b.level == level) history

/-- The binding that stands: against a pinned one, only a pinned one counts. -/
def standing? (history : List Binding) (name : String) : Option Binding :=
  (lastAt? .pinned history name).or (last? history name)

/-- The binding whose value programs see. -/
def seen? (history : List Binding) (name : String) : Option Binding :=
  (lastAt? .pinned history name).or (lastAt? .exported history name)

theorem lastWith_concat (p : Binding → Bool) (history : List Binding) (b : Binding) :
    lastWith p (history ++ [b]) = if p b then some b else lastWith p history := by
  rw [lastWith, List.reverse_append, List.reverse_singleton, List.singleton_append,
    List.find?_cons, lastWith]
  cases p b with
  | false => rfl
  | true => rfl

variable {history : List Binding} {b : Binding} {name : String} {level : Precedence}

theorem last?_concat_self : last? (history ++ [b]) b.name = some b := by
  rw [last?, lastWith_concat, if_pos (beq_self_eq_true b.name)]

theorem lastAt?_concat_self :
    lastAt? level (history ++ [b]) b.name =
      if b.level = level then some b else lastAt? level history b.name := by
  rw [lastAt?, lastWith_concat, beq_self_eq_true, Bool.true_and]
  simp only [beq_iff_eq]
  rfl

theorem last?_concat_of_ne (h : b.name ≠ name) :
    last? (history ++ [b]) name = last? history name := by
  rw [last?, lastWith_concat, if_neg (by simpa using h)]
  rfl

theorem lastAt?_concat_of_ne (h : b.name ≠ name) :
    lastAt? level (history ++ [b]) name = lastAt? level history name := by
  rw [lastAt?, lastWith_concat, if_neg (by simp [h])]
  rfl

theorem level_of_lastAt? (h : lastAt? level history name = some b) : b.level = level := by
  have hprop := List.find?_some h
  simp only [Bool.and_eq_true, beq_iff_eq] at hprop
  exact hprop.2

/-- Where no binding is pinned, the last one is not. -/
theorem level_ne_pinned (hnone : lastAt? .pinned history name = none)
    (h : last? history name = some b) : b.level ≠ .pinned := by
  intro hlevel
  have hname := List.find?_some h
  have hmem : b ∈ history.reverse := List.mem_of_find?_eq_some h
  rw [lastAt?, lastWith, List.find?_eq_none] at hnone
  exact hnone b hmem (by simp [beq_iff_eq.1 hname, hlevel])

/-- The standing binding is a pinned one exactly where there is one. -/
theorem level_standing?_iff :
    (standing? history name).map Binding.level = some .pinned ↔
      (lastAt? .pinned history name).isSome := by
  rw [standing?]
  cases hpinned : lastAt? .pinned history name with
  | some p =>
      simp [level_of_lastAt? hpinned]
  | none =>
      rw [Option.none_or, Option.isSome_none]
      constructor
      · intro h
        obtain ⟨b, hlast, hlevel⟩ := Option.map_eq_some_iff.1 h
        exact absurd hlevel (level_ne_pinned hpinned hlast)
      · intro h
        cases h

/-- Where no binding has the name, none has it at a level. -/
theorem lastAt?_of_last? (h : last? history name = none) : lastAt? level history name = none := by
  rw [last?, lastWith, List.find?_eq_none] at h
  rw [lastAt?, lastWith, List.find?_eq_none]
  intro b hb hboth
  exact h b hb ((Bool.and_eq_true _ _ ▸ hboth).1)

/-- A binding that a pinned one stands against changes nothing. -/
theorem concat_of_standing (hpinned : (lastAt? .pinned history b.name).isSome)
    (hlevel : b.level ≠ .pinned) :
    standing? (history ++ [b]) b.name = standing? history b.name ∧
      seen? (history ++ [b]) b.name = seen? history b.name := by
  obtain ⟨p, hp⟩ := Option.isSome_iff_exists.1 hpinned
  have hkeep : lastAt? .pinned (history ++ [b]) b.name = some p := by
    rw [lastAt?_concat_self, if_neg hlevel, hp]
  rw [standing?, standing?, seen?, seen?, hkeep, hp]
  exact ⟨rfl, rfl⟩

/-- Every other binding stands, and programs see it unless it is local. -/
theorem concat_of_not_standing
    (h : ¬ ((lastAt? .pinned history b.name).isSome ∧ b.level ≠ .pinned)) :
    standing? (history ++ [b]) b.name = some b ∧
      seen? (history ++ [b]) b.name =
        if b.level = .localOnly then seen? history b.name else some b := by
  rw [standing?, seen?, seen?, last?_concat_self, lastAt?_concat_self, lastAt?_concat_self]
  by_cases hlevel : b.level = .pinned
  · rw [if_pos hlevel, if_neg (by simp [hlevel] : ¬ b.level = .localOnly)]
    exact ⟨rfl, rfl⟩
  · -- No pinned binding in the way: now the last two lists decide, and `b` ends both.
    have hnone : lastAt? .pinned history b.name = none := by
      simpa [hlevel] using h
    rw [if_neg hlevel, hnone, Option.none_or, Option.none_or, Option.none_or]
    refine ⟨rfl, ?_⟩
    cases hcase : b.level with
    | localOnly => rfl
    | exported => rfl
    | pinned => exact absurd hcase hlevel

end Binding

open Binding

/-! ## One binding -/

namespace SessionState

/-- At one name, the state is what the history says, for a session that started with the
environment. -/
structure FollowsAt (start : Env) (history : List Binding) (s : SessionState) (name : String) :
    Prop where
  vars : s.vars.lookup name = (standing? history name).map Binding.value
  precedence : s.precedence.lookup name = (standing? history name).map Binding.level
  env : s.env.lookup name = ((seen? history name).map Binding.value).or (start.lookup name)

/-- At every name but `PWD`, the state is what the history says. -/
def Follows (start : Env) (history : List Binding) (s : SessionState) : Prop :=
  ∀ name, name ≠ "PWD" → s.FollowsAt start history name

theorem follows_ofEnv (start : Env) : (ofEnv start).Follows start [] :=
  fun _ _ => ⟨rfl, rfl, rfl⟩

variable {start : Env} {history : List Binding} {s : SessionState} {b : Binding} {name : String}

/-- A binding is refused where a pinned one stands, unless it is pinned itself. -/
theorem FollowsAt.refuses_iff (h : s.FollowsAt start history name) (level : Precedence) :
    s.refuses level name = true ↔
      (lastAt? .pinned history name).isSome ∧ level ≠ .pinned := by
  rw [refuses, Bool.and_eq_true, beq_iff_eq, h.precedence, level_standing?_iff, bne_iff_ne]

theorem FollowsAt.assignOne_self (h : s.FollowsAt start history b.name) :
    (s.assignOne b.level b.name b.value).FollowsAt start (history ++ [b]) b.name := by
  rw [assignOne]
  -- The session asks its own table of levels, which the invariant ties to the history.
  by_cases hrefuses : s.refuses b.level b.name = true
  · obtain ⟨hpinned, hlevel⟩ := (h.refuses_iff b.level).1 hrefuses
    obtain ⟨hstanding, hseen⟩ := concat_of_standing hpinned hlevel
    rw [if_pos hrefuses]
    constructor
    · rw [hstanding]
      exact h.vars
    · rw [hstanding]
      exact h.precedence
    · rw [hseen]
      exact h.env
  · obtain ⟨hstanding, hseen⟩ :=
      concat_of_not_standing (fun hboth => hrefuses ((h.refuses_iff b.level).2 hboth))
    rw [if_neg hrefuses]
    constructor
    · rw [hstanding]
      exact Bindings.lookup_bind_self _ _ _
    · rw [hstanding]
      exact Bindings.lookup_bind_self _ _ _
    · rw [hseen]
      dsimp only
      split
      · exact h.env
      · rw [Bindings.lookup_bind_self]
        rfl

/-- Binding a name changes nothing at another one. -/
theorem FollowsAt.assignOne_of_ne (h : s.FollowsAt start history name) (hne : b.name ≠ name) :
    (s.assignOne b.level b.name b.value).FollowsAt start (history ++ [b]) name := by
  have hstanding : standing? (history ++ [b]) name = standing? history name := by
    rw [standing?, lastAt?_concat_of_ne hne, last?_concat_of_ne hne, standing?]
  have hseen : seen? (history ++ [b]) name = seen? history name := by
    rw [seen?, lastAt?_concat_of_ne hne, lastAt?_concat_of_ne hne, seen?]
  rw [assignOne]
  split
  · exact ⟨hstanding ▸ h.vars, hstanding ▸ h.precedence, hseen ▸ h.env⟩
  · constructor
    · rw [hstanding, ← h.vars]
      exact Bindings.lookup_bind_of_ne _ _ hne
    · rw [hstanding, ← h.precedence]
      exact Bindings.lookup_bind_of_ne _ _ hne
    · rw [hseen, ← h.env]
      dsimp only
      split
      · rfl
      · exact Bindings.lookup_bind_of_ne _ _ hne

/-- One binding more. -/
theorem Follows.assignOne (h : s.Follows start history) (b : Binding) :
    (s.assignOne b.level b.name b.value).Follows start (history ++ [b]) := by
  intro name hname
  by_cases hsame : b.name = name
  · subst hsame
    exact (h b.name hname).assignOne_self
  · exact (h name hname).assignOne_of_ne hsame

/-- The bindings of an entry, one by one. -/
def bindingsAt (level : Precedence) (delta : Env) : List Binding :=
  delta.toList.map (fun e => ⟨e.1, e.2, level⟩)

theorem Follows.assign (h : s.Follows start history) (delta : Env) (level : Precedence) :
    (s.assign delta level).Follows start (history ++ bindingsAt level delta) := by
  rw [SessionState.assign, bindingsAt]
  induction delta.toList generalizing s history with
  | nil =>
      rw [List.map_nil, List.append_nil]
      exact h
  | cons e rest ih =>
      rw [List.map_cons, List.append_cons]
      exact ih (h.assignOne ⟨e.1, e.2, level⟩)

end SessionState

/-! ## A session -/

namespace Session

variable {σ : Type}

/-- The bindings that running an entry makes in a session. -/
def bound (launcher : Launcher σ) (s : Session) (entry : Entry) (w : σ) : List Binding :=
  SessionState.bindingsAt entry.precedence (s.withPwd.resolve launcher entry w).value.delta

/-- A session that started with the environment, and the bindings made since. It may run
entries over any world, and go on in another session that takes its state over. -/
inductive Reached : Env → Session → List Binding → Prop
  /-- A new session. -/
  | new (cwd : Path) (env : Env) (term : Terminal) :
    Reached env ⟨cwd, SessionState.ofEnv env, term⟩ []
  /-- A session beside another one, with its environment alone. -/
  | beside (parent : Session) : Reached parent.state.env (parent.fork none) []
  | run {start : Env} {s : Session} {history : List Binding} {σ : Type} (tools : Tools σ)
    (entry : Entry) (w : σ) :
    Reached start s history →
      Reached start (s.run tools entry w).value.1 (history ++ s.bound tools.launcher entry w)
  | resume {start : Env} {s : Session} {history : List Binding} (parent : Session) :
    Reached start s history → Reached start (parent.fork (some s.state)) history

variable {start : Env} {s : Session} {history : List Binding}

theorem follows_withPwd (h : s.state.Follows start history) :
    s.withPwd.state.Follows start history := by
  intro name hname
  refine ⟨(h name hname).vars, (h name hname).precedence, ?_⟩
  rw [← (h name hname).env]
  exact Bindings.lookup_bind_of_ne _ _ (Ne.symm hname)

/-- Whatever an entry does, its bindings account for the state after it. -/
theorem follows_run (h : s.state.Follows start history) (tools : Tools σ) (entry : Entry)
    (w : σ) :
    (s.run tools entry w).value.1.state.Follows start
      (history ++ s.bound tools.launcher entry w) := by
  rw [run_state, bound]
  exact (follows_withPwd h).assign _ entry.precedence

theorem Reached.follows (h : Reached start s history) : s.state.Follows start history := by
  induction h with
  | new cwd env term => exact SessionState.follows_ofEnv env
  | beside parent => exact SessionState.follows_ofEnv parent.state.env
  -- Commands and failures are here too: they make no binding.
  | run tools entry w _ ih => exact follows_run ih tools entry w
  | resume parent _ ih => exact ih

/-- A session that ran a script is reached, whatever became of the script. -/
theorem Reached.runScript (h : Reached start s history) (tools : Tools σ) (script : Script)
    (w : σ) :
    ∃ later, Reached start (s.runScript tools script w).value.1 (history ++ later) := by
  induction script generalizing s history w with
  | nil => exact ⟨[], by rw [List.append_nil]; exact h⟩
  | cons entry rest ih =>
      have hfirst := h.run tools entry w
      cases hresult : (s.run tools entry w).value.2 with
      | error failure =>
          rw [runScript_stop tools hresult]
          exact ⟨s.bound tools.launcher entry w, hfirst⟩
      | ok exit =>
          rw [runScript_next tools hresult]
          obtain ⟨later, hlater⟩ := ih hfirst (s.run tools entry w).world
          rw [List.append_assoc] at hlater
          exact ⟨s.bound tools.launcher entry w ++ later, hlater⟩

/-- The state of a session is a function of the bindings made in it. A pinned binding holds,
whatever was bound before or after. -/
theorem Reached.state_eq_history (h : Reached start s history) {name : String}
    (hname : name ≠ "PWD") :
    (∀ p, lastAt? .pinned history name = some p →
      s.state.vars.lookup name = some p.value ∧
        s.state.env.lookup name = some p.value ∧
        s.state.precedence.lookup name = some .pinned) ∧
    (lastAt? .pinned history name = none → ∀ b, last? history name = some b →
      s.state.vars.lookup name = some b.value ∧
        s.state.precedence.lookup name = some b.level ∧
        s.state.env.lookup name =
          ((lastAt? .exported history name).map Binding.value).or (start.lookup name)) ∧
    (last? history name = none →
      s.state.vars.lookup name = none ∧
        s.state.precedence.lookup name = none ∧
        s.state.env.lookup name = start.lookup name) := by
  obtain ⟨hvars, hprecedence, henv⟩ := h.follows name hname
  rw [hvars, hprecedence, henv, standing?, seen?]
  refine ⟨?_, ?_, ?_⟩
  · intro p hpinned
    rw [hpinned]
    exact ⟨rfl, rfl, congrArg some (level_of_lastAt? hpinned)⟩
  · intro hpinned b hlast
    rw [hpinned, hlast, Option.none_or, Option.none_or]
    exact ⟨rfl, rfl, rfl⟩
  · intro hlast
    rw [hlast, lastAt?_of_last? hlast, lastAt?_of_last? hlast]
    exact ⟨rfl, rfl, rfl⟩

/-- Tools over a world without programs. -/
def idle : Tools Unit where
  launcher := {
    start := fun _ => pure (.ok Exit.success)
    capture := fun _ => pure (.error .commandNotFound) }
  builtins := []

/-- A later binding against a pinned one, a local one after an exported one, and a command. -/
theorem Reached.state_eq_history_sample :
    "A" ≠ "PWD" ∧ "B" ≠ "PWD" ∧
    ∃ s, Reached Bindings.empty s [⟨"A", "1", .pinned⟩, ⟨"A", "2", .exported⟩,
        ⟨"B", "3", .exported⟩, ⟨"B", "4", .localOnly⟩] ∧
      s.state.vars.lookup "A" = some "1" ∧ s.state.env.lookup "A" = some "1" ∧
      s.state.vars.lookup "B" = some "4" ∧ s.state.env.lookup "B" = some "3" := by
  obtain ⟨s, history, h, rfl⟩ : ∃ s history, Reached Bindings.empty s history ∧
      history = [⟨"A", "1", .pinned⟩, ⟨"A", "2", .exported⟩, ⟨"B", "3", .exported⟩,
        ⟨"B", "4", .localOnly⟩] := by
    refine ⟨_, _, ((((Reached.new "/" Bindings.empty default).run idle
      (.structured (.line "A=1") .stop (some .pinned)) ()).run idle
      (.plain (.line "A=2 B=3")) ()).run idle
      (.structured (.line "B=4") .stop (some .localOnly)) ()).run idle
      (.plain (.line "B=5 true")) (), ?_⟩
    decide +kernel
  have hA : "A" ≠ "PWD" := by decide
  have hB : "B" ≠ "PWD" := by decide
  obtain ⟨hvars, henv, -⟩ := (h.state_eq_history hA).1 ⟨"A", "1", .pinned⟩ (by decide)
  obtain ⟨hvars', -, henv'⟩ :=
    (h.state_eq_history hB).2.1 (by decide) ⟨"B", "4", .localOnly⟩ (by decide)
  exact ⟨hA, hB, s, h, hvars, henv, hvars', henv'.trans (by decide)⟩

end Session

end ScriptRunner
