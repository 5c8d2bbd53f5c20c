import ScriptRunner.Proofs.Session.Simulation

/-!
# ScriptRunner.Proofs.Session.Attempts

The programs that a run asks for, on record.

`Tools.noting` are tools over a larger world, with a list of attempts beside the world. They do
what the tools do, and note every program that a script entry asks for, with the notices
given while it ran. Noting changes nothing else (`Session.onRecord`): the same steps, the same
result, the same notices, the same world.

The record only grows (`Session.steps_extends`), and what holds of the attempts of one entry
holds of a whole run.
-/

namespace ScriptRunner

open Effect

/-- A program that was asked for, and the notices given while it was started and ran. -/
structure Attempt where
  request : Launch
  notices : List Notice
  deriving DecidableEq

variable {σ : Type}

/-- The effect, beside a record that it leaves alone. -/
def Effect.unrecorded {α : Type} (m : Effect σ α) : Effect (σ × List Attempt) α :=
  Effect.within Prod.fst (fun w x => (w, x.2)) m

/-- The launcher, with the programs that it starts on record. -/
def Launcher.noting (l : Launcher σ) : Launcher (σ × List Attempt) where
  start request := fun x =>
    let done := l.start request x.1
    ⟨done.value, (done.world, x.2 ++ [⟨request, done.notices⟩]), done.notices⟩
  capture request := Effect.unrecorded (l.capture request)

/-- The builtin, beside a record that it leaves alone. -/
def Builtin.noting (b : Builtin σ) : Builtin (σ × List Attempt) :=
  ⟨b.name, fun args => Effect.unrecorded (b.invoke args)⟩

/-- The tools, with the programs that they start on record. -/
def Tools.noting (t : Tools σ) : Tools (σ × List Attempt) :=
  ⟨t.launcher.noting, t.builtins.map Builtin.noting⟩

theorem Tools.builtin?_noting (t : Tools σ) (name : String) :
    t.noting.builtin? name = (t.builtin? name).map Builtin.noting := by
  rw [builtin?, noting, List.find?_map, builtin?]
  rfl

/-! ## Noting changes nothing -/

/-- The worlds are equal beside a fixed record. -/
def beside (log : List Attempt) : Correspondence (σ × List Attempt) σ where
  worlds x w := x = (w, log)
  notices := Eq
  nil := rfl
  append := by
    rintro _ _ _ _ rfl rfl
    rfl

theorem capture_noting (l : Launcher σ) (cwd : Path) (env : Env) (statements : List Statement)
    (log : List Attempt) :
    Related (beside log) Eq (Subshell.capture l.noting cwd env statements)
      (Subshell.capture l cwd env statements) := by
  refine Subshell.capture_related ⟨fun _ => rfl, fun _ => rfl, ?_⟩ cwd env statements
  rintro request _ w rfl
  exact ⟨rfl, rfl, rfl⟩

/-- The worlds are equal beside any record. -/
def besideAny : Correspondence (σ × List Attempt) σ where
  worlds x w := x.1 = w
  notices := Eq
  nil := rfl
  append := by
    rintro _ _ _ _ rfl rfl
    rfl

theorem noting_simulates (t : Tools σ) : Simulation besideAny Eq t.noting t where
  refl _ := rfl
  warnings _ := rfl
  messages _ := rfl
  launches _ := rfl
  captures cwd env statements := by
    rintro ⟨w, log⟩ _ rfl
    obtain ⟨hvalue, hworld, hnotices⟩ :=
      capture_noting t.launcher cwd env statements log (w, log) w rfl
    exact ⟨hvalue, congrArg Prod.fst hworld, hnotices⟩
  programs request := by
    rintro ⟨w, log⟩ _ rfl
    exact ⟨rfl, rfl, rfl⟩
  builtins name := by
    rw [t.builtin?_noting]
    cases t.builtin? name with
    | none => exact .none
    | some b =>
        refine .some (fun args => ?_)
        rintro ⟨w, log⟩ _ rfl
        exact ⟨rfl, rfl, rfl⟩
  conclusions policy a b hab := by
    subst hab
    exact conclude_related (fun _ => rfl) policy a

/-- Noting changes neither the result of an entry nor the world. -/
theorem run_noting (t : Tools σ) (s : Session) (entry : Entry) (w : σ) (log : List Attempt) :
    (s.run t.noting entry (w, log)).value = (s.run t entry w).value ∧
      (s.run t.noting entry (w, log)).world.1 = (s.run t entry w).world := by
  obtain ⟨⟨hsession, hended⟩, hworld, -⟩ :=
    (noting_simulates t).run_related s entry (w, log) w rfl
  exact ⟨Prod.ext hsession hended, hworld⟩

/-- With its programs on record, the run of a script is what it is without. -/
structure Session.OnRecord (t : Tools σ) (s : Session) (script : Script) (w : σ)
    (log : List Attempt) : Prop where
  steps : (s.steps t.noting script (w, log)).map (fun step => (step.1, step.2.1)) =
    s.steps t script w
  value : (s.runScript t.noting script (w, log)).value = (s.runScript t script w).value
  world : (s.runScript t.noting script (w, log)).world.1 = (s.runScript t script w).world
  notices : (s.runScript t.noting script (w, log)).notices = (s.runScript t script w).notices

theorem steps_noting (t : Tools σ) (s : Session) (script : Script) (x : σ × List Attempt) :
    (s.steps t.noting script x).map (fun step => (step.1, step.2.1)) = s.steps t script x.1 := by
  induction script generalizing s x with
  | nil => rfl
  | cons entry rest ih =>
      obtain ⟨w, log⟩ := x
      obtain ⟨hvalue, hworld⟩ := run_noting t s entry w log
      have hended : (s.run t.noting entry (w, log)).value.2 = (s.run t entry w).value.2 := by
        rw [hvalue]
      cases hresult : (s.run t entry w).value.2 with
      | error failure =>
          rw [Session.steps_stop (hended.trans hresult), Session.steps_stop hresult,
            List.map_singleton, hvalue, hworld]
      | ok exit =>
          rw [Session.steps_next (hended.trans hresult), Session.steps_next hresult,
            List.map_cons, ih, hvalue, hworld]

/-- Noting changes nothing: neither steps nor results nor notices nor the world. -/
theorem Session.onRecord (t : Tools σ) (s : Session) (script : Script) (w : σ)
    (log : List Attempt) : s.OnRecord t script w log := by
  obtain ⟨hvalue, hworld, hnotices⟩ :=
    (noting_simulates t).runScript_related script s (w, log) w rfl
  exact ⟨steps_noting t s script (w, log), hvalue, hworld, hnotices⟩

/-! ## The record grows -/

/-- Equal worlds, whose record goes on from `log` with attempts that have the property. -/
def recorded (σ : Type) (P : Attempt → Prop) (log : List Attempt) :
    Correspondence (σ × List Attempt) (σ × List Attempt) where
  worlds x y := x = y ∧ ∃ new, x.2 = log ++ new ∧ ∀ a ∈ new, P a
  notices _ _ := True
  nil := True.intro
  append _ _ := True.intro

theorem recorded_start {P : Attempt → Prop} (w : σ) (log : List Attempt) :
    (recorded σ P log).worlds (w, log) (w, log) :=
  ⟨rfl, [], (List.append_nil log).symm, nofun⟩

/-- What the attempts have that a launcher makes. -/
theorem recorded_simulates {t : Tools σ} {P : Attempt → Prop}
    (hstart : ∀ request w, P ⟨request, (t.launcher.start request w).notices⟩)
    (log : List Attempt) : Simulation (recorded σ P log) Eq t.noting t.noting where
  refl _ := rfl
  warnings _ := True.intro
  messages _ := True.intro
  launches _ := True.intro
  -- A capture is not on record, so the attempts are those from before.
  captures cwd env statements := by
    rintro ⟨w, log'⟩ _ ⟨rfl, hnew⟩
    obtain ⟨-, hworld, -⟩ :=
      capture_noting t.launcher cwd env statements log' (w, log') w rfl
    exact ⟨rfl, ⟨rfl, by rw [Tools.noting, hworld]; exact hnew⟩, True.intro⟩
  programs request := by
    rintro ⟨w, log'⟩ _ ⟨rfl, new, hlog, hnew⟩
    dsimp only at hlog
    subst hlog
    refine ⟨rfl, ⟨rfl, new ++ [⟨request, (t.launcher.start request w).notices⟩], ?_, ?_⟩,
      True.intro⟩
    · exact List.append_assoc _ _ _
    · intro a ha
      rcases List.mem_append.1 ha with ha | ha
      · exact hnew a ha
      · rw [List.mem_singleton.1 ha]
        exact hstart request w
  builtins name := by
    rw [t.builtin?_noting]
    cases t.builtin? name with
    | none => exact .none
    | some b =>
        refine .some (fun args => ?_)
        rintro ⟨w, log'⟩ _ ⟨rfl, hnew⟩
        exact ⟨rfl, ⟨rfl, hnew⟩, True.intro⟩
  conclusions policy a b hab := by
    subst hab
    exact conclude_related (fun _ => True.intro) policy a

namespace Session

/-- Every step adds attempts to the record, and takes none away. -/
theorem steps_extends {t : Tools σ} {P : Attempt → Prop}
    (hstart : ∀ request w, P ⟨request, (t.launcher.start request w).notices⟩) (s : Session)
    (script : Script) (w : σ) (log : List Attempt) {n : Nat}
    {p : Session × σ × List Attempt} (hp : (s.steps t.noting script (w, log))[n]? = some p) :
    ∃ new, p.2.2 = log ++ new ∧ ∀ a ∈ new, P a :=
  ((recorded_simulates hstart log).steps_related script s (recorded_start w log) n hp hp).2.2

theorem runScript_extends (t : Tools σ) (s : Session) (script : Script)
    (x : σ × List Attempt) : x.2 <+: (s.runScript t.noting script x).world.2 := by
  have hsimulates : Simulation (recorded σ (fun _ => True) x.2) Eq t.noting t.noting :=
    recorded_simulates (fun _ _ => True.intro) x.2
  obtain ⟨-, ⟨-, new, hnew, -⟩, -⟩ :=
    hsimulates.runScript_related script s x x (recorded_start x.1 x.2)
  exact ⟨new, hnew.symm⟩

/-- The record of a whole script goes on from that of each of its steps. -/
theorem steps_prefix (t : Tools σ) (s : Session) (script : Script) (x : σ × List Attempt)
    {n : Nat} {p : Session × σ × List Attempt} (hp : (s.steps t.noting script x)[n]? = some p) :
    p.2.2 <+: (s.runScript t.noting script x).world.2 := by
  induction script generalizing s x n with
  | nil => cases hp
  | cons entry rest ih =>
      cases hresult : (s.run t.noting entry x).value.2 with
      | error failure =>
          rw [steps_stop hresult] at hp
          rw [runScript_stop t.noting hresult]
          obtain rfl := List.mem_singleton.1 (List.mem_of_getElem? hp)
          exact List.prefix_rfl
      | ok exit =>
          rw [steps_next hresult] at hp
          rw [runScript_next t.noting hresult]
          dsimp only
          cases n with
          | zero =>
              rw [List.getElem?_cons_zero, Option.some.injEq] at hp
              rw [← hp]
              dsimp only
              -- After the first step the rest of the script only adds to the record.
              exact runScript_extends t (s.run t.noting entry x).value.1 rest
                (s.run t.noting entry x).world
          | succ n =>
              rw [List.getElem?_cons_succ] at hp
              exact ih (s.run t.noting entry x).value.1 (s.run t.noting entry x).world hp

end Session

end ScriptRunner
