import ScriptRunner.Proofs.Bindings
import ScriptRunner.Proofs.Expansion
import ScriptRunner.Session.State

/-!
# ScriptRunner.Proofs.Session.Assignments

Assignments in one statement, and the same assignments in statements of their own.

A statement is expanded as a whole and its bindings are made afterwards, so a later value
sees the earlier ones in the scope of the expansion and not in the session. The two agree on
every name whose binding is not refused (`lookup_pending`). A refused binding is still in
that scope, though it never gets into the session: a value that reads it differs from what
the statement of its own would have read (`not_together`). Where no value that takes effect
does so (`SessionState.ReadsNoRefused`), the session comes out the same, with the same
warnings (`bindTogether_eq_bindApart`).

The values have no substitutions, so nothing is ever asked of an oracle, and it does not
matter which one a state brings along.
-/

namespace ScriptRunner

open Effect

/-! ## What bindings do to a state, name by name -/

namespace SessionState

/-- A state is determined by its look-ups. -/
theorem ext_lookups {s t : SessionState} (henv : ∀ name, s.env.lookup name = t.env.lookup name)
    (hvars : ∀ name, s.vars.lookup name = t.vars.lookup name)
    (hprecedence : ∀ name, s.precedence.lookup name = t.precedence.lookup name) : s = t := by
  obtain ⟨env, vars, precedence⟩ := s
  simp only at henv hvars hprecedence
  rw [Bindings.ext_lookup henv, Bindings.ext_lookup hvars, Bindings.ext_lookup hprecedence]

/-- The bindings that take effect. -/
def accepted (s : SessionState) (level : Precedence) (es : List (String × String)) :
    List (String × String) :=
  es.filter (fun e => !s.refuses level e.1)

variable (s : SessionState) (level : Precedence)

theorem refuses_iff (name : String) :
    s.refuses level name = true ↔ s.precedence.lookup name = some .pinned ∧ level ≠ .pinned := by
  simp [refuses]

theorem not_refuses_iff (name : String) :
    ¬ s.refuses level name = true ↔
      s.precedence.lookup name ≠ some .pinned ∨ level = .pinned := by
  rw [refuses_iff, Classical.not_and_iff_not_or_not, Classical.not_not]

/-- A binding does not change which ones are refused. -/
theorem refuses_assignOne (name value other : String) :
    (s.assignOne level name value).refuses level other = s.refuses level other := by
  unfold assignOne
  split
  · rfl
  · next hfree =>
      rw [refuses_iff] at hfree
      rw [Bool.eq_iff_iff, refuses_iff, refuses_iff, Bindings.lookup_bind]
      by_cases hname : name = other
      · -- A binding of the name itself is made only where it is not refused.
        subst hname
        rw [if_pos rfl]
        constructor
        · intro h
          exact absurd (Option.some.inj h.1) h.2
        · intro h
          exact absurd h hfree
      · rw [if_neg hname]

theorem foldl_assignOne (es : List (String × String)) :
    es.foldl (fun acc b => acc.assignOne level b.1 b.2) s =
      { env := if level = .localOnly then s.env else s.env.bindAll (s.accepted level es)
        vars := s.vars.bindAll (s.accepted level es)
        precedence :=
          s.precedence.bindAll ((s.accepted level es).map (fun e => (e.1, level))) } := by
  induction es generalizing s with
  | nil => simp [accepted, Bindings.bindAll]
  | cons e rest ih =>
      have hrest : (s.assignOne level e.1 e.2).accepted level rest = s.accepted level rest := by
        simp only [accepted, refuses_assignOne]
      rw [List.foldl_cons, ih, hrest]
      cases hrefused : s.refuses level e.1 with
      | true => simp [assignOne, accepted, hrefused]
      | false =>
          have haccepted : s.accepted level (e :: rest) = e :: s.accepted level rest := by
            simp [accepted, hrefused]
          have hone : s.assignOne level e.1 e.2 =
              ⟨if level = .localOnly then s.env else s.env.bind e.1 e.2,
                s.vars.bind e.1 e.2, s.precedence.bind e.1 level⟩ := by
            rw [assignOne, hrefused]
            rfl
          rw [haccepted, hone]
          by_cases hlocal : level = .localOnly
          · simp [hlocal, Bindings.bindAll]
          · simp [hlocal, Bindings.bindAll]

theorem lastIn_accepted (es : List (String × String)) (name : String) :
    Bindings.lastIn name (s.accepted level es) =
      if s.refuses level name then none else Bindings.lastIn name es := by
  rw [accepted, Bindings.lastIn_filter (fun n => !s.refuses level n)]
  cases s.refuses level name <;> rfl

variable (delta : Env) (name : String)

/-- A name has the value that it is bound to, unless that is refused. -/
theorem lookup_vars_assign :
    (s.assign delta level).vars.lookup name =
      if s.refuses level name then s.vars.lookup name
      else (delta.lookup name).or (s.vars.lookup name) := by
  rw [assign, foldl_assignOne, Bindings.lookup_bindAll, lastIn_accepted, Bindings.toList,
    Bindings.lastIn_entries]
  split <;> rfl

theorem lookup_env_assign :
    (s.assign delta level).env.lookup name =
      if level = .localOnly ∨ s.refuses level name then s.env.lookup name
      else (delta.lookup name).or (s.env.lookup name) := by
  rw [assign, foldl_assignOne]
  by_cases hlocal : level = .localOnly
  · simp [hlocal]
  · simp only [hlocal, if_false, false_or]
    rw [Bindings.lookup_bindAll, lastIn_accepted, Bindings.toList, Bindings.lastIn_entries]
    split <;> rfl

theorem lookup_precedence_assign :
    (s.assign delta level).precedence.lookup name =
      if s.refuses level name then s.precedence.lookup name
      else ((delta.lookup name).map (fun _ => level)).or (s.precedence.lookup name) := by
  rw [assign, foldl_assignOne, Bindings.lookup_bindAll, Bindings.lastIn_map (fun _ => level),
    lastIn_accepted, Bindings.toList, Bindings.lastIn_entries]
  split <;> rfl

/-- Making bindings does not change which ones are refused. -/
theorem refuses_assign : (s.assign delta level).refuses level name = s.refuses level name := by
  rw [assign]
  induction delta.toList generalizing s with
  | nil => rfl
  | cons e rest ih => rw [List.foldl_cons, ih, refuses_assignOne]

theorem assign_empty : s.assign Bindings.empty level = s := rfl

/-- One binding more, among the others or after them. -/
theorem assign_bind (value : String) :
    s.assign (delta.bind name value) level =
      (s.assign delta level).assign (Bindings.empty.bind name value) level := by
  refine ext_lookups (fun other => ?_) (fun other => ?_) (fun other => ?_)
  · simp only [lookup_env_assign, refuses_assign, Bindings.lookup_bind, Bindings.lookup_empty]
    by_cases hname : name = other <;> by_cases hkept : level = .localOnly ∨ s.refuses level other
    all_goals simp [hname, hkept]
  · simp only [lookup_vars_assign, refuses_assign, Bindings.lookup_bind, Bindings.lookup_empty]
    by_cases hname : name = other <;> cases s.refuses level other <;> simp [hname]
  · simp only [lookup_precedence_assign, refuses_assign, Bindings.lookup_bind,
      Bindings.lookup_empty]
    by_cases hname : name = other <;> cases s.refuses level other <;> simp [hname]

/-- A refused binding leaves the state as it is, whatever the value. -/
theorem assign_refused {s : SessionState} {level : Precedence} {name : String}
    (h : s.refuses level name = true) (value : String) :
    s.assign (Bindings.empty.bind name value) level = s := by
  have hone : s.assign (Bindings.empty.bind name value) level = s.assignOne level name value := rfl
  rw [hone, assignOne, if_pos h]

/-- A name has the same value for a later assignment of the statement as for a statement of
its own, unless its binding was refused. -/
theorem lookup_pending (h : s.refuses level name = true → delta.lookup name = none) :
    (Scope.mk delta s.vars s.env).lookup name =
      (Scope.start (s.assign delta level).vars (s.assign delta level).env).lookup name := by
  simp only [Scope.lookup, Scope.start, Bindings.lookup_empty, Option.none_or, lookup_vars_assign,
    lookup_env_assign]
  cases hrefused : s.refuses level name with
  | true => simp [h hrefused]
  | false => cases delta.lookup name <;> simp

end SessionState

/-! ## Values without substitutions -/

namespace Effect

variable {σ α β : Type} {p q : Prop}

/-- Two effects that leave the world as it is and give the same notices. They come to the same
value if `p` holds. -/
structure SameIf (p : Prop) (m n : Effect σ α) : Prop where
  world : ∀ x, (m x).world = x ∧ (n x).world = x
  notices : ∀ x, (m x).notices = (n x).notices
  value : p → ∀ x, (m x).value = (n x).value

theorem SameIf.pure {a b : α} (h : p → a = b) :
    SameIf p (Pure.pure a : Effect σ α) (Pure.pure b) :=
  ⟨fun _ => ⟨rfl, rfl⟩, fun _ => rfl, fun hp _ => h hp⟩

theorem SameIf.bind {m n : Effect σ α} {f g : α → Effect σ β} (hm : SameIf q m n)
    (hfg : ∀ a b, (q → a = b) → SameIf p (f a) (g b)) : SameIf p (m >>= f) (n >>= g) := by
  have hnext := fun x => hfg (m x).value (n x).value (fun hq => hm.value hq x)
  refine ⟨fun x => ?_, fun x => ?_, fun hp x => ?_⟩
  · simp only [bind_apply, (hm.world x).1, (hm.world x).2]
    exact (hnext x).world x
  · simp only [bind_apply, (hm.world x).1, (hm.world x).2, hm.notices x, (hnext x).notices x]
  · simp only [bind_apply, (hm.world x).1, (hm.world x).2]
    exact (hnext x).value hp x

theorem SameIf.imp {m n : Effect σ α} (h : SameIf p m n) (hqp : q → p) : SameIf q m n :=
  ⟨h.world, h.notices, fun hq => h.value (hqp hq)⟩

theorem SameIf.eq {m n : Effect σ α} (h : SameIf True m n) : m = n := by
  funext x
  have hvalue := h.value True.intro x
  have hworld := (h.world x).1.trans (h.world x).2.symm
  have hnotices := h.notices x
  cases hm : m x
  cases hn : n x
  simp_all

end Effect

namespace Expansion

variable {σ : Type} (first second : Oracle σ) (s t : Scope)

mutual

/-- A word without substitutions asks no oracle, and a scope only for its names. -/
theorem evaluate_sameIf : ∀ word : Word, word.nesting = 0 →
    SameIf (∀ name ∈ word.names, s.lookup name = t.lookup name)
      (evaluate first s word) (evaluate second t word)
  | .literal text, _ => by
      rw [evaluate, evaluate]
      exact SameIf.pure (fun _ => rfl)
  | .variable name, _ => by
      rw [evaluate, evaluate]
      refine SameIf.pure (fun hsame => ?_)
      rw [Scope.word, Scope.word, hsame name List.mem_cons_self]
  | .parameter text, _ => by
      rw [evaluate, evaluate]
      split
      · refine SameIf.pure (fun hsame => ?_)
        rw [Scope.word, Scope.word, hsame _ List.mem_cons_self]
      · exact ⟨fun _ => ⟨rfl, rfl⟩, fun _ => rfl, fun _ _ => rfl⟩
  | .substitution statements, hnone => by simp [Word.nesting] at hnone
  | .concat pieces, hnone => by
      rw [evaluate, evaluate]
      refine (evaluateEach_sameIf pieces hnone).bind (fun words words' hwords => ?_)
      exact SameIf.pure (fun hsame => by rw [hwords hsame])
  | .array elements, hnone => by
      rw [evaluate, evaluate]
      refine (evaluateEach_sameIf elements hnone).bind (fun words words' hwords => ?_)
      exact SameIf.pure (fun hsame => by rw [hwords hsame])

theorem evaluateEach_sameIf : ∀ words : List Word, Word.nestingAll words = 0 →
    SameIf (∀ name ∈ Word.namesEach words, s.lookup name = t.lookup name)
      (evaluateEach first s words) (evaluateEach second t words)
  | [], _ => by
      rw [evaluateEach, evaluateEach]
      exact SameIf.pure (fun _ => rfl)
  | w :: rest, hnone => by
      rw [Word.nestingAll, Nat.max_eq_zero_iff] at hnone
      rw [evaluateEach, evaluateEach, Word.namesEach, List.forall_mem_append]
      refine (evaluate_sameIf w hnone.1).bind (fun words words' hwords => ?_)
      refine (evaluateEach_sameIf rest hnone.2).bind (fun others others' hothers => ?_)
      exact SameIf.pure (fun hsame => by rw [hwords hsame.1, hothers hsame.2])

end

end Expansion

/-! ## One statement or several -/

namespace SessionState

variable {σ : Type} (oracles : SessionState → Expansion.Oracle σ) (level : Precedence)

/-- Expands the assignments as one statement and makes its bindings. -/
def bindTogether (s : SessionState) (assignments : List Assignment) : Effect σ SessionState := do
  let resolved ← Expansion.expand (oracles s) s.vars s.env (.assign assignments)
  pure (s.assign resolved.env level)

/-- Does so for each assignment alone, against the state that the one before it left. -/
def bindApart (s : SessionState) : List Assignment → Effect σ SessionState
  | [] => pure s
  | a :: rest => do
    let next ← bindTogether oracles level s [a]
    bindApart next rest

/-- No value that takes effect reads a name that an earlier assignment binds in vain. -/
def ReadsNoRefused (s : SessionState) (level : Precedence) (assignments : List Assignment) :
    Prop :=
  assignments.Pairwise (fun a b =>
    s.precedence.lookup a.name = some .pinned ∧ level ≠ .pinned →
    s.precedence.lookup b.name ≠ some .pinned ∨ level = .pinned → a.name ∉ b.value.names)

theorem bindTogether_singleton (s : SessionState) (a : Assignment) :
    bindTogether oracles level s [a] =
      Expansion.evaluate (oracles s) (Scope.start s.vars s.env) a.value >>= fun words =>
        pure (s.assign (Bindings.empty.bind a.name (joinBySpace words)) level) := by
  simp only [bindTogether, Expansion.expand, Expansion.bindEach, bind_assoc, pure_bind]
  rfl

variable {level}

/-- The assignments that are left, after those that made the pending bindings. -/
theorem bindEach_sameIf (s : SessionState) (pending : Env) {assignments : List Assignment}
    (hplain : ∀ a ∈ assignments, a.value.nesting = 0)
    (hreads : s.ReadsNoRefused level assignments)
    (hpending : ∀ a ∈ assignments, s.refuses level a.name = false → ∀ name ∈ a.value.names,
      s.refuses level name = true → pending.lookup name = none) :
    SameIf True
      (do
        let delta ← Expansion.bindEach (oracles s) ⟨pending, s.vars, s.env⟩ assignments
        pure (s.assign delta level))
      (bindApart oracles level (s.assign pending level) assignments) := by
  induction assignments generalizing pending with
  | nil =>
      rw [Expansion.bindEach, pure_bind, bindApart]
      exact SameIf.pure (fun _ => rfl)
  | cons a rest ih =>
      obtain ⟨hlater, hrest⟩ := List.pairwise_cons.1 hreads
      rw [Expansion.bindEach, bind_assoc, bindApart, bindTogether_singleton, bind_assoc]
      -- A refused assignment may come to different values, which then make no difference.
      have hwords : SameIf (s.refuses level a.name = false)
          (Expansion.evaluate (oracles s) ⟨pending, s.vars, s.env⟩ a.value)
          (Expansion.evaluate (oracles (s.assign pending level))
            (Scope.start (s.assign pending level).vars (s.assign pending level).env) a.value) :=
        (Expansion.evaluate_sameIf _ _ _ _ a.value (hplain a (by simp))).imp
          (fun hfree name hname => lookup_pending s level pending name
            (hpending a (by simp) hfree name hname))
      refine hwords.bind (fun words words' hsame => ?_)
      rw [pure_bind]
      have hnext : (s.assign pending level).assign
            (Bindings.empty.bind a.name (joinBySpace words')) level =
          s.assign (pending.bind a.name (joinBySpace words)) level := by
        rw [assign_bind s level pending]
        cases hrefused : s.refuses level a.name with
        | true =>
            have hstill := (refuses_assign s level pending a.name).trans hrefused
            rw [assign_refused hstill, assign_refused hstill]
        | false => rw [hsame hrefused]
      rw [hnext]
      refine ih _ (fun b hb => hplain b (List.mem_cons_of_mem a hb)) hrest ?_
      intro b hb hfree name hname hrefused
      have hne : a.name ≠ name := by
        rintro rfl
        exact hlater b hb ((refuses_iff s level _).1 hrefused)
          ((not_refuses_iff s level _).1 (Bool.eq_false_iff.1 hfree)) hname
      rw [Bindings.lookup_bind_of_ne _ _ hne]
      exact hpending b (List.mem_cons_of_mem a hb) hfree name hname hrefused

variable {oracles}

/-- Assignments without substitutions leave the same session in one statement as in statements
of their own, as long as no value that takes effect reads a name whose binding in front of it
is refused. The warnings are the same too, and it makes no difference which oracle each
statement would ask. -/
theorem bindTogether_eq_bindApart {s : SessionState} {assignments : List Assignment}
    (hplain : ∀ a ∈ assignments, a.value.nesting = 0)
    (hreads : s.ReadsNoRefused level assignments) :
    bindTogether oracles level s assignments = bindApart oracles level s assignments := by
  have hall := bindEach_sameIf oracles s Bindings.empty hplain hreads
    (fun _ _ _ _ _ _ => Bindings.lookup_empty _)
  rw [assign_empty] at hall
  rw [← hall.eq, bindTogether, Expansion.expand, bind_assoc]
  rfl

/-- A session with a pinned name. -/
def pinnedSample : SessionState :=
  (ofEnv (Bindings.ofList [("HOME", "/home")])).assign (Bindings.ofList [("A", "kept")]) .pinned

/-- The pinned name is read before it is bound in vain, and afterwards by a value that is
refused itself. A free name is bound twice and read in between. -/
theorem bindTogether_eq_bindApart_sample :
    let assignments : List Assignment :=
      [.mk "B" (.concat [.variable "A", .literal "-", .variable "HOME"]),
        .mk "A" (.literal "1"), .mk "C" (.parameter " B "), .mk "A" (.variable "A"),
        .mk "B" (.array [.literal "x", .variable "C"])]
    (∀ a ∈ assignments, a.value.nesting = 0) ∧
    pinnedSample.ReadsNoRefused .exported assignments ∧
    ∃ oracles : SessionState → Expansion.Oracle Unit,
      bindTogether oracles .exported pinnedSample assignments =
        bindApart oracles .exported pinnedSample assignments ∧
      (bindTogether oracles .exported pinnedSample assignments ()).value.vars.entries =
        [("A", "kept"), ("B", "x kept-/home"), ("C", "kept-/home")] := by
  intro assignments
  have hplain : ∀ a ∈ assignments, a.value.nesting = 0 := by decide
  have hreads : pinnedSample.ReadsNoRefused .exported assignments := by
    unfold ReadsNoRefused
    decide
  refine ⟨hplain, hreads, fun _ _ => pure "", ?_, by decide +kernel⟩
  exact bindTogether_eq_bindApart hplain hreads

/-- Assignments leave the same session in one statement as in statements of their own. -/
def Together (level : Precedence) (s : SessionState) (assignments : List Assignment) : Prop :=
  ∀ (oracles : SessionState → Expansion.Oracle Unit),
    (bindTogether oracles level s assignments ()).value =
      (bindApart oracles level s assignments ()).value

/-- A binding that is refused has an influence on the value after it. -/
theorem not_together :
    let assignments : List Assignment := [.mk "A" (.literal "1"), .mk "B" (.variable "A")]
    (∀ a ∈ assignments, a.value.nesting = 0) ∧
      ¬ Together .exported pinnedSample assignments := by
  intro assignments
  refine ⟨by decide, fun htogether => ?_⟩
  have hvalue := congrArg (fun s => s.vars.lookup "B") (htogether (fun _ _ => pure ""))
  revert hvalue
  decide

end SessionState

end ScriptRunner
