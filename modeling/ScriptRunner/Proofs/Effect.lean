import ScriptRunner.Effect

/-!
# ScriptRunner.Proofs.Effect

Comparing two effects.

Two effects over two worlds correspond when, started in corresponding worlds, they end in
corresponding worlds with related values, and the notices they give correspond too
(`Effect.Related`). What corresponds is a `Correspondence`; it need not be equality. The
relation goes through `pure` and `>>=`, so a program that is built from related parts is
related to its counterpart by following its text.

A statement about one effect is a statement about an effect and itself. Of this kind is
`Effect.Gives`: every notice of the effect has a property.
-/

namespace ScriptRunner

/-- What corresponds in two runs: worlds, and the notices given so far. -/
structure Correspondence (σ τ : Type) where
  worlds : σ → τ → Prop
  notices : List Notice → List Notice → Prop
  nil : notices [] []
  append : ∀ {a b c d}, notices a b → notices c d → notices (a ++ c) (b ++ d)

theorem nil_notices : ([] : List Notice) = [] := rfl

theorem append_notices {a c d e : List Notice} (h : a = c) (h' : d = e) : a ++ d = c ++ e := by
  rw [h, h']

namespace Effect

variable {σ τ α β γ δ : Type} {R : Correspondence σ τ}

/-- From corresponding worlds the effects go to corresponding worlds, with values related by
`V` and corresponding notices. -/
def Related (R : Correspondence σ τ) (V : α → β → Prop) (m : Effect σ α) (n : Effect τ β) :
    Prop :=
  ∀ w x, R.worlds w x →
    V (m w).value (n x).value ∧ R.worlds (m w).world (n x).world ∧
      R.notices (m w).notices (n x).notices

theorem Related.pure {V : α → β → Prop} {a : α} {b : β} (h : V a b) :
    Related R V (Pure.pure a) (Pure.pure b) :=
  fun _ _ hw => ⟨h, hw, R.nil⟩

theorem Related.bind {V : α → β → Prop} {W : γ → δ → Prop} {m : Effect σ α} {n : Effect τ β}
    {f : α → Effect σ γ} {g : β → Effect τ δ} (h : Related R V m n)
    (hfg : ∀ a b, V a b → Related R W (f a) (g b)) : Related R W (m >>= f) (n >>= g) := by
  intro w x hw
  obtain ⟨hvalue, hworld, hnotices⟩ := h w x hw
  obtain ⟨hvalue', hworld', hnotices'⟩ := hfg _ _ hvalue _ _ hworld
  exact ⟨hvalue', hworld', R.append hnotices hnotices'⟩

/-- After equal values the two runs go on with the same value. -/
theorem Related.bindEq {W : γ → δ → Prop} {m : Effect σ α} {n : Effect τ α}
    {f : α → Effect σ γ} {g : α → Effect τ δ} (h : Related R Eq m n)
    (hfg : ∀ a, Related R W (f a) (g a)) : Related R W (m >>= f) (n >>= g) :=
  h.bind (fun a _ heq => heq ▸ hfg a)

theorem Related.notify {n : Notice} (h : R.notices [n] [n]) :
    Related R Eq (notify n) (notify n) :=
  fun _ _ hw => ⟨rfl, hw, h⟩

/-- The worlds are equal, and on the left there is a record beside it, with the property. The
notices are not compared. -/
def alongside {κ : Type} (P : κ → Prop) : Correspondence (σ × κ) σ where
  worlds x w := x.1 = w ∧ P x.2
  notices _ _ := True
  nil := True.intro
  append _ _ := True.intro

/-! ## Notices of one effect -/

/-- Every notice that the effect gives, in whatever world, has the property. -/
def Gives (P : Notice → Prop) (m : Effect σ α) : Prop :=
  ∀ w, ∀ n ∈ (m w).notices, P n

/-- An effect and itself, from the same world: only notices with the property correspond. -/
def onlyGives (P : Notice → Prop) : Correspondence σ σ where
  worlds := Eq
  notices a _ := ∀ n ∈ a, P n
  nil := by simp
  append ha hc := by
    intro n hn
    rcases List.mem_append.1 hn with hn | hn
    · exact ha n hn
    · exact hc n hn

theorem onlyGives_singleton {P : Notice → Prop} {n : Notice} (h : P n) :
    (onlyGives (σ := σ) P).notices [n] [n] := by
  intro m hm
  rw [List.mem_singleton.1 hm]
  exact h

theorem related_onlyGives_iff {P : Notice → Prop} {m : Effect σ α} :
    Related (onlyGives P) Eq m m ↔ Gives P m := by
  constructor
  · intro h w
    exact (h w w rfl).2.2
  · rintro h w _ rfl
    exact ⟨rfl, rfl, h w⟩

end Effect

end ScriptRunner
