import ScriptRunner.Host.Machine
import ScriptRunner.Proofs.Batch.Trail

/-!
# ScriptRunner.Proofs.Host

A machine as the host of a batch.

A machine reports what the programs of script entries print, and nothing else: not what is captured,
not what is done with files, and nothing about the batch (`Machine.reserved_host`,
`Machine.quiet_host`, `Machine.discreet_host`).
-/

namespace ScriptRunner

open Effect

namespace Machine

section

variable {P : Notice → Prop} (hshell : ∀ event, P (.shell event))

include hshell

theorem gives_reportOutput (bytes : Bytes) : Gives P (reportOutput bytes) := by
  intro m
  rw [reportOutput]
  split
  · simp
  · simp [report, hshell]

theorem gives_onTerminal (l : Launch) : Gives P (onTerminal l) := by
  intro m
  rw [onTerminal, bind_apply]
  dsimp only [Effect.get]
  cases m.terminalImage l with
  | error fault => simp
  | ok found =>
      simp only [bind_apply, pure_apply, perform, Effect.modifyGet, List.nil_append,
        List.append_nil]
      exact gives_reportOutput hshell _ _

theorem gives_onPipes (l : Launch) (input : String) : Gives P (onPipes l input) := by
  intro m
  rw [onPipes, bind_apply]
  dsimp only [Effect.get]
  cases m.imageOf l.toInvocation with
  | error fault => simp
  | ok found =>
      simp only [bind_apply, pure_apply, perform, Effect.modifyGet, List.nil_append,
        List.append_nil]
      exact gives_reportOutput hshell _ _

/-- Starting a program gives notice of what it prints, and no other. -/
theorem gives_start (l : Launch) : Gives P (start l) := by
  intro m
  rw [start_eq, startFound]
  split
  · cases l.input with
    | none => exact gives_onTerminal hshell l m
    | some input => exact gives_onPipes hshell l input m
  · simp

end

theorem gives_captured (P : Notice → Prop) (i : Invocation) : Gives P (captured i) := by
  intro m
  rw [captured, bind_apply]
  dsimp only [Effect.get]
  cases m.imageOf i with
  | error fault => simp
  | ok found => simp [perform, Effect.modifyGet]

/-- A machine leaves to a batch what is the batch's own to report. -/
theorem reserved_host : host.Reserved where
  start := gives_start (fun _ => rfl)
  capture := gives_captured _
  readText _ _ := by simp [host, readText, Effect.get]
  removeTree _ _ := by simp [host, removeTree, Effect.modifyGet]
  makeDirectories _ _ := by simp [host, makeDirectories, Effect.modifyGet]

/-- A machine reports what programs print, and nothing about a batch. -/
theorem quiet_host : host.Quiet := reserved_host.quiet

/-- What a machine captures and what it does with files is not reported at all. -/
theorem discreet_host : host.Discreet where
  start request m := batchEvents_eq_nil (quiet_host.start request m)
  capture request m := by
    have hbatch : batchEvents (host.capture request m).notices = [] :=
      batchEvents_eq_nil (quiet_host.capture request m)
    have hevents : Notice.events (host.capture request m).notices = [] :=
      events_captured request m
    rw [reports_of_batchEvents hbatch, hevents]
    rfl
  removeTree _ _ := rfl
  makeDirectories _ _ := rfl

end Machine

end ScriptRunner
