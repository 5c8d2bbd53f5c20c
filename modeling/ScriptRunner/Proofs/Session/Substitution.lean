import ScriptRunner.Proofs.Expansion
import ScriptRunner.Session.Substitution

/-!
# ScriptRunner.Proofs.Session.Substitution

Command substitutions over two launchers.

A subshell reaches the world through `Launcher.capture` alone. Where two launchers capture
alike, subshells over them print the same, at any depth of substitutions in substitutions.
-/

namespace ScriptRunner.Subshell

open Effect

variable {σ τ : Type} {R : Correspondence σ τ} {first : Launcher σ} {second : Launcher τ}

/-- Two launchers whose captures correspond, in runs whose warnings and requests do. -/
structure Alike (R : Correspondence σ τ) (first : Launcher σ) (second : Launcher τ) : Prop where
  warnings : ∀ text, R.notices [.warning text] [.warning text]
  requests : ∀ request, R.notices [.substitute request] [.substitute request]
  captures : ∀ request, Related R Eq (first.capture request) (second.capture request)

variable (h : Alike R first second)

include h

theorem Alike.oracles {inner : Expansion.Oracle σ} {inner' : Expansion.Oracle τ}
    (hinner : ∀ statements, Related R Eq (inner statements) (inner' statements)) :
    Expansion.Alike R inner inner' :=
  ⟨h.warnings, hinner⟩

theorem printed_related (request : Invocation) :
    Related R Eq (printed first request) (printed second request) := by
  refine (Related.notify (h.requests request)).bindEq (fun _ => ?_)
  refine (h.captures request).bindEq (fun captured => ?_)
  cases captured with
  | error fault =>
      exact (Related.notify (h.warnings _)).bindEq (fun _ => Related.pure rfl)
  | ok result =>
      dsimp only
      split
      · exact (Related.notify (h.warnings _)).bindEq (fun _ => Related.pure rfl)
      · exact Related.pure rfl

variable {inner : Path → Env → Expansion.Oracle σ} {inner' : Path → Env → Expansion.Oracle τ}

theorem runStatement_related
    (hinner : ∀ cwd env statements,
      Related R Eq (inner cwd env statements) (inner' cwd env statements))
    (s : Subshell) (statement : Statement) :
    Related R Eq (runStatement first inner s statement)
      (runStatement second inner' s statement) := by
  refine (Expansion.expand_related (h.oracles (hinner _ _)) _ _ statement).bindEq ?_
  intro resolved
  split
  · exact Related.pure rfl
  · split
    · split
      · exact Related.pure rfl
      · exact (Related.notify (h.warnings _)).bindEq (fun _ => Related.pure rfl)
    · exact (printed_related h _).bindEq (fun _ => Related.pure rfl)

theorem runEach_related
    (hinner : ∀ cwd env statements,
      Related R Eq (inner cwd env statements) (inner' cwd env statements))
    (statements : List Statement) (s : Subshell) :
    Related R Eq (runEach first inner s statements) (runEach second inner' s statements) := by
  induction statements generalizing s with
  | nil => exact Related.pure rfl
  | cons statement rest ih =>
      exact (runStatement_related h hinner s statement).bindEq (fun a =>
        (ih a.1).bindEq (fun _ => Related.pure rfl))

theorem captureWithin_related (depth : Nat) (cwd : Path) (env : Env)
    (statements : List Statement) :
    Related R Eq (captureWithin first depth cwd env statements)
      (captureWithin second depth cwd env statements) := by
  -- The oracle of a subshell is the subshell one level deeper.
  induction depth generalizing cwd env statements with
  | zero => exact Related.pure rfl
  | succ depth ih => exact runEach_related h ih statements (start cwd env)

/-- Captured output depends on the launcher through its captures alone. -/
theorem capture_related (cwd : Path) (env : Env) (statements : List Statement) :
    Related R Eq (capture first cwd env statements) (capture second cwd env statements) :=
  captureWithin_related h _ cwd env statements

end ScriptRunner.Subshell
