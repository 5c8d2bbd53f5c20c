import ScriptRunner.Proofs.Session.Resolution

/-!
# ScriptRunner.Proofs.Session.Simulation

Sessions run with two sets of tools.

A `Simulation` says how the answers of two sets of tools correspond: programs, builtins and
captured output, call by call. From this it follows for an entry (`Simulation.run_related`) and
for the entries of a script one by one (`Simulation.steps_related`) that the sessions stay
*equal*, although the worlds and the answers need only correspond.

`Session.steps` is the course of a script: where each entry that was run left the session and
the world.
-/

namespace ScriptRunner

open Effect

variable {σ τ : Type} {R : Correspondence σ τ}
  {Q : Except Failure Exit → Except Failure Exit → Prop} {t : Tools σ} {u : Tools τ}

section Conclusions

variable (hmessages : ∀ text, R.notices [.shell (.message text)] [.shell (.message text)])

include hmessages

theorem sayFailure_related (failure : Failure) :
    Related R Eq (Session.sayFailure failure) (Session.sayFailure failure) := by
  rw [Session.sayFailure, Session.sayFailure]
  cases Session.ran failure with
  | false => exact (Related.notify (hmessages _)).bindEq (fun _ => Related.notify (hmessages _))
  | true => exact Related.notify (hmessages _)

/-- After equal answers the same is reported, with the same conclusion. -/
theorem conclude_related (policy : FailPolicy) (answer : Except Failure Exit) :
    Related R Eq (Session.conclude policy answer) (Session.conclude policy answer) := by
  cases answer with
  | ok exit => exact (Related.notify (hmessages _)).bindEq (fun _ => Related.pure rfl)
  | error failure =>
      cases policy with
      | stop => exact (sayFailure_related hmessages failure).bindEq (fun _ => Related.pure rfl)
      | carryOn =>
          exact (sayFailure_related hmessages failure).bindEq (fun _ =>
            (Related.notify (hmessages _)).bindEq (fun _ => Related.pure rfl))

end Conclusions

/-- The answers of two sets of tools correspond by `Q`. -/
structure Simulation (R : Correspondence σ τ)
    (Q : Except Failure Exit → Except Failure Exit → Prop) (t : Tools σ) (u : Tools τ) :
    Prop where
  /-- An answer that does not come from the tools is the same in both. -/
  refl : ∀ answer, Q answer answer
  warnings : ∀ text, R.notices [.warning text] [.warning text]
  messages : ∀ text, R.notices [.shell (.message text)] [.shell (.message text)]
  launches : ∀ request, R.notices [.launch request] [.launch request]
  captures : ∀ cwd env statements,
    Related R Eq (Subshell.capture t.launcher cwd env statements)
      (Subshell.capture u.launcher cwd env statements)
  programs : ∀ request, Related R Q (t.launcher.start request) (u.launcher.start request)
  builtins : ∀ name,
    Option.Rel (fun b c => ∀ args, Related R Q (b.invoke args) (c.invoke args))
      (t.builtin? name) (u.builtin? name)
  conclusions : ∀ policy a b, Q a b →
    Related R Q (Session.conclude policy a) (Session.conclude policy b)

/-- The same session, with answers that correspond. -/
def SameSession (Q : Except Failure Exit → Except Failure Exit → Prop)
    (a b : Session × Except Failure Exit) : Prop :=
  a.1 = b.1 ∧ Q a.2 b.2

namespace Simulation

variable (h : Simulation R Q t u)

include h

theorem dispatch_related (s : Session) (program : String) (resolved : Resolved)
    (input : Option String) :
    Related R (SameSession Q) (s.dispatch t program resolved input)
      (s.dispatch u program resolved input) := by
  rw [Session.dispatch, Session.dispatch, Session.runBuiltin?, Session.runBuiltin?]
  by_cases hcd : program = changeDirectoryName
  · rw [if_pos hcd, if_pos hcd]
    exact Related.pure ⟨rfl, h.refl _⟩
  · rw [if_neg hcd, if_neg hcd]
    have hbuiltins := h.builtins program
    revert hbuiltins
    generalize t.builtin? program = b, u.builtin? program = c
    intro hbuiltins
    -- The name is a builtin on both sides, or on neither.
    cases hbuiltins with
    | none =>
        refine (Related.notify (h.launches _)).bindEq (fun _ => ?_)
        exact (h.programs _).bind (fun _ _ hresult => Related.pure ⟨rfl, hresult⟩)
    | some hinvoke =>
        exact (hinvoke resolved.args).bind (fun _ _ hresult => Related.pure ⟨rfl, hresult⟩)

theorem runCommand_related (s : Session) (entry : Entry) (text : EntryText) (program : String)
    (resolved : Resolved) :
    Related R (SameSession Q) (s.runCommand t entry text program resolved)
      (s.runCommand u entry text program resolved) := by
  refine (Related.notify (h.messages _)).bindEq (fun _ => ?_)
  refine (h.dispatch_related s program resolved text.input).bind ?_
  rintro ⟨s₁, a⟩ ⟨s₂, b⟩ ⟨rfl, hanswer⟩
  exact (h.conclusions entry.failPolicy a b hanswer).bind
    (fun _ _ hresult => Related.pure ⟨rfl, hresult⟩)

theorem settle_related (s : Session) (entry : Entry) (resolution : Resolution) :
    Related R (SameSession Q) (s.settle t entry resolution) (s.settle u entry resolution) := by
  cases resolution with
  | refused reason => exact Related.pure ⟨rfl, h.refl _⟩
  | nothing => exact Related.pure ⟨rfl, h.refl _⟩
  | bindings delta => exact Related.pure ⟨rfl, h.refl _⟩
  | command program resolved => exact h.runCommand_related s entry _ program resolved

/-- One entry. -/
theorem run_related (s : Session) (entry : Entry) :
    Related R (SameSession Q) (s.run t entry) (s.run u entry) := by
  rw [Session.run_eq, Session.run_eq]
  have horacle : Expansion.Alike R (s.withPwd.oracle t.launcher) (s.withPwd.oracle u.launcher) :=
    ⟨h.warnings, h.captures _ _⟩
  exact (Session.resolve_related entry horacle).bindEq (h.settle_related s.withPwd entry)

end Simulation

/-- Where the answers are equal, so is everything that a script comes to. -/
theorem Simulation.runScript_related (h : Simulation R Eq t u) (script : Script) (s : Session) :
    Related R Eq (s.runScript t script) (s.runScript u script) := by
  induction script generalizing s with
  | nil => exact Related.pure rfl
  | cons entry rest ih =>
      refine (h.run_related s entry).bind ?_
      rintro ⟨s₁, answer⟩ ⟨s₂, _⟩ ⟨rfl, rfl⟩
      cases answer with
      | ok exit => exact ih s₁
      | error failure => exact Related.pure rfl

/-! ## The course of a script -/

namespace Session

/-- The session and the world after each entry that was run. -/
def steps (tools : Tools σ) (s : Session) : Script → σ → List (Session × σ)
  | [], _ => []
  | entry :: rest, w =>
    let first := s.run tools entry w
    (first.value.1, first.world) ::
      match first.value.2 with
      | .ok _ => steps tools first.value.1 rest first.world
      | .error _ => []

theorem steps_stop {tools : Tools σ} {s : Session} {entry : Entry} {w : σ} {failure : Failure}
    (h : (s.run tools entry w).value.2 = .error failure) (rest : Script) :
    s.steps tools (entry :: rest) w =
      [((s.run tools entry w).value.1, (s.run tools entry w).world)] := by
  rw [steps, h]

theorem steps_next {tools : Tools σ} {s : Session} {entry : Entry} {w : σ} {exit : Exit}
    (h : (s.run tools entry w).value.2 = .ok exit) (rest : Script) :
    s.steps tools (entry :: rest) w =
      ((s.run tools entry w).value.1, (s.run tools entry w).world) ::
        (s.run tools entry w).value.1.steps tools rest (s.run tools entry w).world := by
  rw [steps, h]

/-- The last step is where the script leaves off. -/
theorem getLast?_steps (tools : Tools σ) (s : Session) (script : Script) (w : σ) :
    (steps tools s script w).getLast?.getD (s, w) =
      ((s.runScript tools script w).value.1, (s.runScript tools script w).world) := by
  induction script generalizing s w with
  | nil => rfl
  | cons entry rest ih =>
      cases hresult : (s.run tools entry w).value.2 with
      | error failure =>
          rw [steps_stop hresult, runScript_stop tools hresult, List.getLast?_singleton,
            Option.getD_some]
      | ok exit =>
          rw [steps_next hresult, runScript_next tools hresult, List.getLast?_cons,
            Option.getD_some]
          exact ih _ _

end Session

namespace Simulation

variable (h : Simulation R Q t u)

include h

/-- After as many entries the sessions are equal, and the worlds correspond. -/
theorem steps_related (script : Script) (s : Session) {w : σ} {x : τ} (hworlds : R.worlds w x)
    (n : Nat) {a : Session × σ} {b : Session × τ}
    (ha : (s.steps t script w)[n]? = some a) (hb : (s.steps u script x)[n]? = some b) :
    a.1 = b.1 ∧ R.worlds a.2 b.2 := by
  induction script generalizing s w x n with
  | nil => cases ha
  | cons entry rest ih =>
      obtain ⟨⟨hsession, -⟩, hnext, -⟩ := h.run_related s entry w x hworlds
      rw [Session.steps] at ha hb
      generalize s.run t entry w = first at hsession hnext ha
      generalize s.run u entry x = second at hsession hnext hb
      cases n with
      | zero =>
          cases ha
          cases hb
          exact ⟨hsession, hnext⟩
      | succ n =>
          rw [List.getElem?_cons_succ] at ha hb
          -- Both have a next step, so neither run stopped here.
          split at ha
          · split at hb
            · rw [← hsession] at hb
              exact ih _ hnext n ha hb
            · cases hb
          · cases ha

/-- Where failures do not become more, neither do entries become fewer. -/
theorem length_steps_le
    (hfail : ∀ a b, Q a b → ∀ failure, b = .error failure → ∃ other, a = .error other)
    (script : Script) (s : Session) {w : σ} {x : τ} (hworlds : R.worlds w x) :
    (s.steps t script w).length ≤ (s.steps u script x).length := by
  induction script generalizing s w x with
  | nil => exact Nat.le_refl 0
  | cons entry rest ih =>
      obtain ⟨⟨hsession, hresult⟩, hnext, -⟩ := h.run_related s entry w x hworlds
      cases hu : (s.run u entry x).value.2 with
      | error failure =>
          obtain ⟨other, hother⟩ := hfail _ _ hresult failure hu
          rw [Session.steps_stop hother, Session.steps_stop hu]
          exact Nat.le_refl 1
      | ok exit =>
          cases ht : (s.run t entry w).value.2 with
          | error failure =>
              rw [Session.steps_stop ht, Session.steps_next hu, List.length_singleton,
                List.length_cons]
              exact Nat.le_add_left 1 _
          | ok other =>
              rw [Session.steps_next ht, Session.steps_next hu, List.length_cons, List.length_cons,
                ← hsession]
              exact Nat.succ_le_succ (ih _ hnext)

end Simulation

end ScriptRunner
