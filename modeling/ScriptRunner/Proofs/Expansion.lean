import ScriptRunner.Expansion
import ScriptRunner.Proofs.Effect

/-!
# ScriptRunner.Proofs.Expansion

What the expansion of a statement depends on.

A word asks for the values of its `Word.names`, and asks the oracle for the output of its
substitutions; the names in a substitution are the business of the subshell. So two expansions
go the same way where the oracles correspond and the environments agree on the names of the
statement. What it means that the oracles correspond is left open: any relation will do that
goes through the steps of an expansion (`Congruence`).

Two such relations are used. One is `Effect.Related`, for oracles over two worlds
(`expand_related`). By the other an expansion is a function of the answers it was given: with
the same answers `prepared` it goes the same way again, and takes as many of them
(`expand_prepared`). Hence two expansions that were given the same answers come to the same
(`expand_agree`).
-/

namespace ScriptRunner

/-! ## Names -/

mutual

/-- The names whose values a word asks for. -/
def Word.names : Word → List String
  | .literal _ => []
  | .variable name => [name]
  | .parameter text => [String.ofList (Text.trim text.toList)]
  | .substitution _ => []
  | .concat pieces => Word.namesEach pieces
  | .array elements => Word.namesEach elements

/-- The names of several words. -/
def Word.namesEach : List Word → List String
  | [] => []
  | w :: rest => w.names ++ Word.namesEach rest

end

/-- The names whose values a statement asks for. -/
def Statement.names : Statement → List String
  | .command name args inline =>
    Word.namesEach (name :: args) ++ inline.flatMap (fun a => a.value.names)
  | .assign assignments => assignments.flatMap (fun a => a.value.names)

theorem Scope.word_eq {pending vars env env' : Env} {name : String}
    (h : env.lookup name = env'.lookup name) :
    (Scope.mk pending vars env).word name = (Scope.mk pending vars env').word name := by
  rw [word, word, lookup, lookup, h]

namespace Expansion

open Effect

variable {σ τ : Type}

/-! ## Two expansions -/

/-- A relation between effects over two worlds that goes through the steps of an expansion. -/
structure Congruence (Rel : (α : Type) → Effect σ α → Effect τ α → Prop) (first : Oracle σ)
    (second : Oracle τ) : Prop where
  pure : ∀ {α : Type} (a : α), Rel α (Pure.pure a) (Pure.pure a)
  bind : ∀ {α β : Type} {m : Effect σ α} {n : Effect τ α} {f : α → Effect σ β}
    {g : α → Effect τ β}, Rel α m n → (∀ a, Rel β (f a) (g a)) → Rel β (m >>= f) (n >>= g)
  warnings : ∀ text, Rel Unit (warn text) (warn text)
  answers : ∀ statements, Rel String (first statements) (second statements)

section Congruence

variable {Rel : (α : Type) → Effect σ α → Effect τ α → Prop} {first : Oracle σ}
  {second : Oracle τ} (h : Congruence Rel first second) (pending vars : Env) {env env' : Env}

include h

mutual

theorem evaluate_congruence :
    ∀ word : Word, (∀ name ∈ word.names, env.lookup name = env'.lookup name) →
      Rel _ (evaluate first ⟨pending, vars, env⟩ word)
        (evaluate second ⟨pending, vars, env'⟩ word)
  | .literal text, _ => by
      rw [evaluate, evaluate]
      exact h.pure _
  | .variable name, hsame => by
      rw [evaluate, evaluate, Scope.word_eq (hsame name List.mem_cons_self)]
      exact h.pure _
  | .parameter text, hsame => by
      rw [evaluate, evaluate, Scope.word_eq (hsame _ List.mem_cons_self)]
      split
      · exact h.pure _
      · exact h.bind (h.warnings _) (fun _ => h.pure _)
  | .substitution [], _ => by
      rw [evaluate, evaluate]
      exact h.pure _
  | .substitution (s :: rest), _ => by
      rw [evaluate, evaluate]
      exact h.bind (h.answers (s :: rest)) (fun _ => h.pure _)
  | .concat pieces, hsame => by
      rw [evaluate, evaluate]
      exact h.bind (evaluateEach_congruence pieces hsame) (fun _ => h.pure _)
  | .array elements, hsame => by
      rw [evaluate, evaluate]
      exact h.bind (evaluateEach_congruence elements hsame) (fun _ => h.pure _)

theorem evaluateEach_congruence :
    ∀ words : List Word, (∀ name ∈ Word.namesEach words, env.lookup name = env'.lookup name) →
      Rel _ (evaluateEach first ⟨pending, vars, env⟩ words)
        (evaluateEach second ⟨pending, vars, env'⟩ words)
  | [], _ => by
      rw [evaluateEach, evaluateEach]
      exact h.pure _
  | w :: rest, hsame => by
      rw [Word.namesEach, List.forall_mem_append] at hsame
      rw [evaluateEach, evaluateEach]
      exact h.bind (evaluate_congruence w hsame.1) (fun _ =>
        h.bind (evaluateEach_congruence rest hsame.2) (fun _ => h.pure _))

end

theorem bindEach_congruence (assignments : List Assignment)
    (hsame : ∀ name ∈ assignments.flatMap (fun a => a.value.names),
      env.lookup name = env'.lookup name) :
    Rel _ (bindEach first ⟨pending, vars, env⟩ assignments)
      (bindEach second ⟨pending, vars, env'⟩ assignments) := by
  induction assignments generalizing pending with
  | nil => exact h.pure _
  | cons a rest ih =>
      rw [List.flatMap_cons, List.forall_mem_append] at hsame
      exact h.bind (evaluate_congruence h pending vars a.value hsame.1)
        (fun _ => ih _ hsame.2)

theorem expand_congruence (statement : Statement)
    (hsame : ∀ name ∈ statement.names, env.lookup name = env'.lookup name) :
    Rel _ (expand first vars env statement) (expand second vars env' statement) := by
  cases statement with
  | command name args inline =>
      rw [Statement.names, List.forall_mem_append] at hsame
      exact h.bind (evaluateEach_congruence h _ vars (name :: args) hsame.1) (fun _ =>
        h.bind (bindEach_congruence h _ vars inline hsame.2) (fun _ => h.pure _))
  | assign assignments =>
      exact h.bind (bindEach_congruence h _ vars assignments hsame) (fun _ => h.pure _)

end Congruence

/-! ## Over two worlds -/

/-- Two oracles whose answers correspond, in runs whose warnings do. -/
structure Alike (R : Correspondence σ τ) (first : Oracle σ) (second : Oracle τ) : Prop where
  warnings : ∀ text, R.notices [.warning text] [.warning text]
  answers : ∀ statements, Related R Eq (first statements) (second statements)

variable {R : Correspondence σ τ} {first : Oracle σ} {second : Oracle τ}

theorem Alike.congruence (h : Alike R first second) :
    Congruence (fun _ => Related R Eq) first second where
  pure _ := Related.pure rfl
  bind hm hfg := hm.bindEq hfg
  warnings text := Related.notify (h.warnings text)
  answers := h.answers

/-- What a statement expands to depends on the oracle through its answers alone. -/
theorem expand_related (h : Alike R first second) (vars env : Env) (statement : Statement) :
    Related R Eq (expand first vars env statement) (expand second vars env statement) :=
  expand_congruence h.congruence vars statement (fun _ _ => rfl)

/-! ## The answers on record -/

/-- The oracle, with its answers on record. -/
def noting (oracle : Oracle σ) : Oracle (σ × List String) := fun statements x =>
  let done := oracle statements x.1
  ⟨done.value, (done.world, x.2 ++ [done.value]), done.notices⟩

/-- An oracle that answers each question with the next of the answers it was given. -/
def prepared : Oracle (List String) := fun _ =>
  Effect.modifyGet (fun given => (given.headD "", given.tail))

/-- What the oracle answers while the statement is expanded. -/
def answers (oracle : Oracle σ) (vars env : Env) (statement : Statement) (w : σ) : List String :=
  (expand (noting oracle) vars env statement (w, [])).world.2

/-- The record does not change what the statement expands to. -/
theorem expand_noting (oracle : Oracle σ) (vars env : Env) (statement : Statement) (w : σ)
    (given : List String) :
    (expand (noting oracle) vars env statement (w, given)).value =
      (expand oracle vars env statement w).value := by
  have halike : Alike (alongside (fun _ => True)) (noting oracle) oracle := by
    refine ⟨fun _ => True.intro, ?_⟩
    rintro statements ⟨w, given⟩ _ ⟨rfl, -⟩
    exact ⟨rfl, ⟨rfl, True.intro⟩, True.intro⟩
  exact (expand_related halike vars env statement (w, given) w ⟨rfl, True.intro⟩).1

/-- What the first effect puts on record is what the second one takes to come to the same. -/
def Replays (α : Type) (m : Effect (σ × List String) α) (n : Effect (List String) α) : Prop :=
  ∀ x, ∃ given, (m x).world.2 = x.2 ++ given ∧
    ∀ later, (n (given ++ later)).value = (m x).value ∧ (n (given ++ later)).world = later

theorem replays_noting (oracle : Oracle σ) : Congruence Replays (noting oracle) prepared where
  pure a := fun x => ⟨[], (List.append_nil x.2).symm, fun _ => ⟨rfl, rfl⟩⟩
  bind := by
    intro α β m n f g hm hfg x
    -- The second part takes what the first one leaves.
    obtain ⟨given, hrecord, hreplay⟩ := hm x
    obtain ⟨given', hrecord', hreplay'⟩ := hfg (m x).value (m x).world
    refine ⟨given ++ given', ?_, fun later => ?_⟩
    · rw [bind_apply, hrecord', hrecord, List.append_assoc]
    · obtain ⟨hvalue, hworld⟩ := hreplay (given' ++ later)
      rw [List.append_assoc, bind_apply, hvalue, hworld]
      exact hreplay' later
  warnings text := fun x => ⟨[], (List.append_nil x.2).symm, fun _ => ⟨rfl, rfl⟩⟩
  answers statements := fun x => ⟨[(oracle statements x.1).value], rfl, fun _ => ⟨rfl, rfl⟩⟩

variable {vars env env' : Env} {statement : Statement}

/-- With the same answers prepared, and an environment that agrees on the names, a statement
expands to the same and leaves the other answers. -/
theorem expand_prepared (oracle : Oracle σ)
    (hsame : ∀ name ∈ statement.names, env.lookup name = env'.lookup name) (w : σ)
    (later : List String) :
    let again := expand prepared vars env' statement
      (answers oracle vars env statement w ++ later)
    again.value = (expand oracle vars env statement w).value ∧ again.world = later := by
  obtain ⟨given, hrecord, hreplay⟩ :=
    expand_congruence (replays_noting oracle) vars statement hsame (w, [])
  rw [List.nil_append] at hrecord
  obtain ⟨hvalue, hworld⟩ := hreplay later
  rw [answers, hrecord]
  exact ⟨hvalue.trans (expand_noting oracle vars env statement w []), hworld⟩

/-- Two expansions come to the same if the environments agree on the names, and the answers on
both sides begin two equal lists. What is left of the lists is equal too. -/
theorem expand_agree (hsame : ∀ name ∈ statement.names, env.lookup name = env'.lookup name)
    {w : σ} {x : τ} {later later' : List String}
    (hanswers : answers first vars env statement w ++ later =
      answers second vars env' statement x ++ later') :
    (expand first vars env statement w).value = (expand second vars env' statement x).value ∧
      later = later' := by
  obtain ⟨hvalue, hworld⟩ := expand_prepared first hsame w later
  obtain ⟨hvalue', hworld'⟩ := expand_prepared second (fun _ _ => rfl) x later'
  rw [hanswers] at hvalue hworld
  exact ⟨hvalue.symm.trans hvalue', hworld.symm.trans hworld'⟩

end Expansion

end ScriptRunner
