import ScriptRunner.Proofs.Session.History

/-!
# ScriptRunner.Proofs.Session.Calls

What the entries of a script come to, one after the other.

A script is run up to its first failure. `Session.gather` collects something from each entry
that is run, in the session and the world that the entry finds. What one entry keeps, a script
keeps (`runScript_gather`). Two things are collected:

- the bindings that a script makes (`Session.bindings`). A name that is not among them has the
  same binding after the script as before (`sameBinding_runScript`);
- the builtins that a script invokes (`Session.calls`). What programs leave alone is changed by
  these calls only (`runScript_calls`), and tools that answer these calls in the same way run the
  script in the same way (`runScript_congr`).
-/

namespace ScriptRunner

namespace Session

variable {σ κ : Type}

/-- What `f` collects from the entries of a script that are run. -/
def gather (tools : Tools σ) (f : Session → Entry → σ → List κ) (s : Session) :
    Script → σ → List κ
  | [], _ => []
  | entry :: rest, w =>
    let first := s.run tools entry w
    f s entry w ++
      match first.value.2 with
      | .ok _ => gather tools f first.value.1 rest first.world
      | .error _ => []

variable {f : Session → Entry → σ → List κ}

/-- What one entry keeps, while it adds to a list what is collected from it, a script keeps. -/
theorem runScript_gather (tools : Tools σ) {I : Session → σ → List κ → Prop}
    (hstep : ∀ s entry w log, I s w log →
      I (s.run tools entry w).value.1 (s.run tools entry w).world (log ++ f s entry w))
    (script : Script) {s : Session} {w : σ} (log : List κ) (h : I s w log) :
    I (s.runScript tools script w).value.1 (s.runScript tools script w).world
      (log ++ s.gather tools f script w) := by
  induction script generalizing s w log with
  | nil =>
      rw [gather, List.append_nil]
      exact h
  | cons entry rest ih =>
      have hfirst := hstep s entry w log h
      cases hresult : (s.run tools entry w).value.2 with
      | error failure =>
          rw [runScript_stop tools hresult]
          simpa [gather, hresult] using hfirst
      | ok exit =>
          rw [runScript_next tools hresult]
          simpa [gather, hresult] using ih _ hfirst

/-- What holds of all that is collected. -/
theorem forall_gather (tools : Tools σ) {I : Session → σ → Prop} {P : κ → Prop}
    (hstep : ∀ s entry w, I s w → I (s.run tools entry w).value.1 (s.run tools entry w).world)
    (hmem : ∀ s entry w, I s w → ∀ a ∈ f s entry w, P a) {s : Session} {w : σ} (h : I s w)
    (script : Script) : ∀ a ∈ s.gather tools f script w, P a := by
  have hrun := runScript_gather tools (f := f) (I := fun s w log => I s w ∧ ∀ a ∈ log, P a)
    ?_ script [] ⟨h, by simp⟩
  · simpa using hrun.2
  · rintro s entry w log ⟨hinv, hlog⟩
    refine ⟨hstep s entry w hinv, fun a ha => ?_⟩
    rcases List.mem_append.1 ha with ha | ha
    · exact hlog a ha
    · exact hmem s entry w hinv a ha

/-! ## Bindings -/

/-- The bindings that a script makes. -/
def bindings (tools : Tools σ) (s : Session) (script : Script) (w : σ) : List Binding :=
  s.gather tools (fun s entry w => s.bound tools.launcher entry w) script w

end Session

namespace SessionState

variable {s : SessionState} {name : String}

/-- Two states that have the same binding of this name, or none. `PWD` does not count in the
environment, where every entry sets it. -/
structure SameBinding (name : String) (s t : SessionState) : Prop where
  vars : s.vars.lookup name = t.vars.lookup name
  precedence : s.precedence.lookup name = t.precedence.lookup name
  env : name ≠ "PWD" → s.env.lookup name = t.env.lookup name

theorem SameBinding.refl (name : String) (s : SessionState) : s.SameBinding name s :=
  ⟨rfl, rfl, fun _ => rfl⟩

theorem SameBinding.trans {t u : SessionState} (h : s.SameBinding name t)
    (h' : t.SameBinding name u) : s.SameBinding name u :=
  ⟨h.vars.trans h'.vars, h.precedence.trans h'.precedence,
    fun hname => (h.env hname).trans (h'.env hname)⟩

theorem sameBinding_assignOne {other : String} (h : other ≠ name) (level : Precedence)
    (value : String) : (s.assignOne level other value).SameBinding name s := by
  rw [assignOne]
  split
  · exact SameBinding.refl name s
  · refine ⟨Bindings.lookup_bind_of_ne _ _ h, Bindings.lookup_bind_of_ne _ _ h, fun _ => ?_⟩
    dsimp only
    split
    · rfl
    · exact Bindings.lookup_bind_of_ne _ _ h

/-- Bindings of other names change nothing at this one. -/
theorem sameBinding_assign {delta : Env} {level : Precedence}
    (h : ∀ b ∈ bindingsAt level delta, b.name ≠ name) :
    (s.assign delta level).SameBinding name s := by
  rw [bindingsAt, List.forall_mem_map] at h
  rw [assign]
  generalize delta.toList = entries at h ⊢
  induction entries generalizing s with
  | nil => exact SameBinding.refl name s
  | cons e rest ih =>
      obtain ⟨hhead, hrest⟩ := List.forall_mem_cons.1 h
      exact (ih hrest).trans (sameBinding_assignOne hhead level e.2)

end SessionState

namespace Session

variable {σ κ : Type} {tools : Tools σ}

open SessionState

theorem sameBinding_withPwd (name : String) (s : Session) :
    s.withPwd.state.SameBinding name s.state :=
  ⟨rfl, rfl, fun hname => Bindings.lookup_bind_of_ne _ _ (Ne.symm hname)⟩

/-- An entry that does not bind the name leaves its binding alone. -/
theorem sameBinding_run {s : Session} {entry : Entry} {w : σ} {name : String}
    (h : ∀ b ∈ s.bound tools.launcher entry w, b.name ≠ name) :
    (s.run tools entry w).value.1.state.SameBinding name s.state := by
  rw [run_state]
  exact (sameBinding_assign h).trans (sameBinding_withPwd name s)

/-- A script that does not bind the name leaves its binding alone. -/
theorem sameBinding_runScript {s : Session} {script : Script} {w : σ} {name : String}
    (h : ∀ b ∈ s.bindings tools script w, b.name ≠ name) :
    (s.runScript tools script w).value.1.state.SameBinding name s.state := by
  have hrun := runScript_gather tools
    (f := fun s entry w => s.bound tools.launcher entry w)
    (I := fun t _ log => (∀ b ∈ log, b.name ≠ name) → t.state.SameBinding name s.state)
    ?_ script (s := s) (w := w) [] (fun _ => SameBinding.refl name s.state)
  · exact hrun h
  · intro t entry v log ih hlog
    have hbefore := ih (fun b hb => hlog b (List.mem_append_left _ hb))
    exact (sameBinding_run (fun b hb => hlog b (List.mem_append_right _ hb))).trans hbefore

end Session

/-! ## Builtins -/

/-- A builtin that is invoked, with its arguments and the world it finds. -/
structure BuiltinCall (σ : Type) where
  builtin : Builtin σ
  args : List String
  world : σ

/-- What comes of a call. -/
def BuiltinCall.done {σ : Type} (c : BuiltinCall σ) : Done σ (Except Failure Exit) :=
  c.builtin.invoke c.args c.world

/-- A launcher whose programs leave a part of the world alone. -/
structure Launcher.Spares {σ β : Type} (view : σ → β) (l : Launcher σ) : Prop where
  start : ∀ request w, view (l.start request w).world = view w
  capture : ∀ request w, view (l.capture request w).world = view w

namespace Session

variable {σ κ β : Type} {tools : Tools σ}

/-- The builtin that is invoked for what an entry asks for, if one is. -/
def callFor (tools : Tools σ) (asked : Done σ Resolution) : Option (BuiltinCall σ) :=
  match asked.value with
  | .command program resolved =>
    if program = changeDirectoryName then none
    else (tools.builtin? program).map (fun b => ⟨b, resolved.args, asked.world⟩)
  | _ => none

/-- The builtin that an entry invokes, if it invokes one. -/
def call? (tools : Tools σ) (s : Session) (entry : Entry) (w : σ) : Option (BuiltinCall σ) :=
  callFor tools (s.withPwd.resolve tools.launcher entry w)

/-- The builtins that a script invokes, in order. -/
def calls (tools : Tools σ) (s : Session) (script : Script) (w : σ) : List (BuiltinCall σ) :=
  s.gather tools (fun s entry w => (s.call? tools entry w).toList) script w

/-- One world, seen twice, with a property. -/
def keeping (P : σ → Prop) : Correspondence σ σ where
  worlds w x := w = x ∧ P w
  notices _ _ := True
  nil := True.intro
  append _ _ := True.intro

/-- What captures keep, finding out what an entry asks for keeps. -/
theorem resolve_keeps {l : Launcher σ} {P : σ → Prop}
    (h : ∀ request w, P w → P (l.capture request w).world) (s : Session) (entry : Entry) {w : σ}
    (hw : P w) : P (s.resolve l entry w).world := by
  have hcaptures : Subshell.Alike (keeping P) l l :=
    { warnings := fun _ => True.intro
      requests := fun _ => True.intro
      captures := by
        rintro request x _ ⟨rfl, hx⟩
        exact ⟨rfl, ⟨rfl, h request x hx⟩, True.intro⟩ }
  have horacle := hcaptures.oracles (Subshell.capture_related hcaptures s.cwd s.state.env)
  exact (resolve_related entry horacle w w ⟨rfl, hw⟩).2.1.2

variable {view : σ → β}

/-- Finding out what an entry asks for leaves alone what programs leave alone. -/
theorem view_resolve {l : Launcher σ} (h : l.Spares view) (s : Session) (entry : Entry) (w : σ) :
    view (s.resolve l entry w).world = view w := by
  refine resolve_keeps (P := fun x => view x = view w) (fun request x hx => ?_) s entry rfl
  exact (h.capture request x).trans hx

theorem world_runCommand (s : Session) (entry : Entry) (text : EntryText) (program : String)
    (resolved : Resolved) (w : σ) :
    (s.runCommand tools entry text program resolved w).world =
      (s.dispatch tools program resolved text.input w).world := by
  rw [runCommand]
  exact world_conclude _ _ _

/-- A builtin is handed the world, and what it leaves is left. -/
theorem world_dispatch_builtin (s : Session) {program : String} {resolved : Resolved}
    {input : Option String} {w : σ} {b : Builtin σ} (hcd : program ≠ changeDirectoryName)
    (hb : tools.builtin? program = some b) :
    (s.dispatch tools program resolved input w).world = (b.invoke resolved.args w).world := by
  rw [dispatch, runBuiltin?, if_neg hcd, hb]
  rfl

/-- Without a builtin, a command leaves alone what programs leave alone. -/
theorem view_dispatch (h : tools.launcher.Spares view) (s : Session) {program : String}
    {resolved : Resolved} {input : Option String} {w : σ}
    (hnone : program = changeDirectoryName ∨ tools.builtin? program = none) :
    view (s.dispatch tools program resolved input w).world = view w := by
  rw [dispatch, runBuiltin?]
  by_cases hcd : program = changeDirectoryName
  · rw [if_pos hcd]
    rfl
  · rw [if_neg hcd, hnone.resolve_left hcd]
    exact h.start _ w

theorem callFor_eq_some {asked : Done σ Resolution} {c : BuiltinCall σ}
    (h : callFor tools asked = some c) :
    c.builtin ∈ tools.builtins ∧ c.world = asked.world := by
  rw [callFor] at h
  cases hasks : asked.value with
  | command program resolved =>
      simp only [hasks] at h
      split at h
      · cases h
      · obtain ⟨b, hb, rfl⟩ := Option.map_eq_some_iff.1 h
        exact ⟨List.mem_of_find?_eq_some hb, rfl⟩
  | _ => simp [hasks] at h

/-- A builtin finds what the entry found. -/
theorem view_call (h : tools.launcher.Spares view) {s : Session} {entry : Entry} {w : σ}
    {c : BuiltinCall σ} (hc : s.call? tools entry w = some c) :
    c.builtin ∈ tools.builtins ∧ view c.world = view w := by
  obtain ⟨hmem, hworld⟩ := callFor_eq_some hc
  rw [hworld]
  exact ⟨hmem, view_resolve h s.withPwd entry w⟩

/-- What is asked for changes what programs leave alone by a call, if it is one. -/
theorem view_settle (h : tools.launcher.Spares view) (s : Session) (entry : Entry)
    (asked : Done σ Resolution) :
    view (s.settle tools entry asked.value asked.world).world =
      ((callFor tools asked).map (fun c => view c.done.world)).getD (view asked.world) := by
  rw [callFor]
  cases asked.value with
  | refused reason => rfl
  | nothing => rfl
  | bindings delta => rfl
  | command program resolved =>
      rw [settle, world_runCommand]
      dsimp only
      by_cases hcd : program = changeDirectoryName
      · rw [if_pos hcd]
        exact view_dispatch h s (Or.inl hcd)
      · rw [if_neg hcd]
        cases hb : tools.builtin? program with
        | none => exact view_dispatch h s (Or.inr hb)
        | some b =>
            rw [world_dispatch_builtin s hcd hb]
            rfl

/-- An entry changes what programs leave alone by its call, if it makes one. -/
theorem view_run (h : tools.launcher.Spares view) (s : Session) (entry : Entry) (w : σ) :
    view (s.run tools entry w).world =
      ((s.call? tools entry w).map (fun c => view c.done.world)).getD (view w) := by
  rw [run_eq, Effect.bind_apply, call?, ← view_resolve h s.withPwd entry w]
  exact view_settle h s.withPwd entry (s.withPwd.resolve tools.launcher entry w)

/-- What every call keeps, while it adds to a list, a script keeps. -/
theorem runScript_calls (h : tools.launcher.Spares view) {I : β → List κ → Prop}
    {f : BuiltinCall σ → List κ}
    (hcall : ∀ c, c.builtin ∈ tools.builtins → ∀ log, I (view c.world) log →
      I (view c.done.world) (log ++ f c))
    (s : Session) (script : Script) {w : σ} {log : List κ} (hstart : I (view w) log) :
    I (view (s.runScript tools script w).world)
      (log ++ (s.calls tools script w).flatMap f) := by
  have hrun := runScript_gather tools
    (f := fun s entry w => (s.call? tools entry w).toList)
    (I := fun _ w calls => I (view w) (log ++ calls.flatMap f))
    ?_ script (s := s) (w := w) [] (by simpa using hstart)
  · exact hrun
  · intro s entry w calls ih
    rw [view_run h, List.flatMap_append, ← List.append_assoc]
    cases hc : s.call? tools entry w with
    | none => simpa using ih
    | some c =>
        obtain ⟨hmem, hview⟩ := view_call h hc
        rw [← hview] at ih
        have hafter := hcall c hmem _ ih
        simpa using hafter

/-- What every call keeps holds where a script invokes a builtin. -/
theorem forall_calls (h : tools.launcher.Spares view) {I : β → Prop}
    (hcall : ∀ c : BuiltinCall σ, c.builtin ∈ tools.builtins → I (view c.world) →
      I (view c.done.world))
    (s : Session) (script : Script) {w : σ} (hstart : I (view w)) :
    ∀ c ∈ s.calls tools script w, c.builtin ∈ tools.builtins ∧ I (view c.world) := by
  refine forall_gather tools (I := fun _ w => I (view w)) ?_ ?_ hstart script
  · intro s entry w ih
    rw [view_run h]
    cases hc : s.call? tools entry w with
    | none => exact ih
    | some c =>
        obtain ⟨hmem, hview⟩ := view_call h hc
        exact hcall c hmem (hview ▸ ih)
  · intro s entry w ih c hc
    obtain ⟨hmem, hview⟩ := view_call h (Option.mem_toList.1 hc)
    exact ⟨hmem, hview ▸ ih⟩

end Session

/-! ## Tools that answer in the same way -/

/-- The other tools start programs as these do, have builtins of the same names, and answer the
calls with the property in the same way. -/
structure Tools.Answers {σ : Type} (tools : Tools σ) (P : BuiltinCall σ → Prop) (other : Tools σ) :
    Prop where
  launcher : other.launcher = tools.launcher
  none : ∀ name, tools.builtin? name = none → other.builtin? name = none
  some : ∀ name (c : BuiltinCall σ), P c → tools.builtin? name = some c.builtin →
    ∃ builtin, other.builtin? name = some builtin ∧ builtin.invoke c.args c.world = c.done

namespace Session

variable {σ : Type} {tools other : Tools σ} {P : BuiltinCall σ → Prop}

/-- What an entry asks for is done in the same way, if its call is answered in the same way. -/
theorem settle_congr (h : tools.Answers P other) (s : Session) (entry : Entry)
    {asked : Done σ Resolution} (hcall : ∀ c, callFor tools asked = some c → P c) :
    s.settle other entry asked.value asked.world =
      s.settle tools entry asked.value asked.world := by
  rw [callFor] at hcall
  cases hasks : asked.value with
  | refused reason => rfl
  | nothing => rfl
  | bindings delta => rfl
  | command program resolved =>
      have hdispatch : ∀ input, s.dispatch other program resolved input asked.world =
          s.dispatch tools program resolved input asked.world := by
        intro input
        rw [dispatch, dispatch, runBuiltin?, runBuiltin?]
        by_cases hcd : program = changeDirectoryName
        · rw [if_pos hcd, if_pos hcd]
        · rw [if_neg hcd, if_neg hcd]
          cases hbuiltin : tools.builtin? program with
          | none => rw [h.none program hbuiltin, h.launcher]
          | some builtin =>
              have hasked := hcall ⟨builtin, resolved.args, asked.world⟩
                (by simp [hasks, hcd, hbuiltin])
              obtain ⟨twin, htwin, hdone⟩ := h.some program _ hasked hbuiltin
              rw [htwin]
              simp only [Effect.bind_apply, hdone, BuiltinCall.done]
      have hsaid : (say (startMessage (EntryText.ofLines entry.lines).command)
          asked.world).world = asked.world := rfl
      simp only [settle, runCommand, Effect.bind_apply, hsaid, hdispatch]

/-- So is an entry. -/
theorem run_congr (h : tools.Answers P other) {s : Session} {entry : Entry} {w : σ}
    (hcall : ∀ c, s.call? tools entry w = some c → P c) :
    s.run other entry w = s.run tools entry w := by
  rw [run_eq, run_eq, h.launcher, Effect.bind_apply, Effect.bind_apply,
    settle_congr h s.withPwd entry hcall]

/-- So is a script. -/
theorem runScript_congr (h : tools.Answers P other) (script : Script) {s : Session} {w : σ}
    (hcalls : ∀ c ∈ s.calls tools script w, P c) :
    s.runScript other script w = s.runScript tools script w := by
  induction script generalizing s w with
  | nil => rfl
  | cons entry rest ih =>
      rw [calls, gather] at hcalls
      have hrun : s.run other entry w = s.run tools entry w :=
        run_congr h (fun c hc => hcalls c (List.mem_append_left _ (by simp [hc])))
      have hvalue : (s.run other entry w).value.2 = (s.run tools entry w).value.2 := by
        rw [hrun]
      cases hresult : (s.run tools entry w).value.2 with
      | error failure =>
          rw [runScript_stop tools hresult, runScript_stop other (hvalue.trans hresult), hrun]
      | ok exit =>
          rw [hresult] at hcalls
          have hrest := ih (fun c hc => hcalls c (List.mem_append_right _ hc))
          rw [runScript_next tools hresult, runScript_next other (hvalue.trans hresult), hrun]
          dsimp only
          rw [hrest]

end Session

end ScriptRunner
