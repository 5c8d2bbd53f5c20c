import ScriptRunner.Proofs.Bindings
import ScriptRunner.Proofs.Expansion

/-!
# ScriptRunner.Proofs.Expansion.Layout

What a statement is made of is settled before anything is put in.

The questions that an expansion asks stand in the statement (`Statement.questions`). They are asked
in this order whatever the values are, and whatever the answers (`asked_eq_questions`).

What a statement expands to is a filled-in layout. A `Layout` says for each word which parts it is
put together from: a text of the statement, the value of a name, or the output of a substitution.
The one thing that a layout depends on is which of these are empty, because a word that would be
empty vanishes. `Layout.fill` puts in the texts as they are, one after the other. So no character of
a value or of an output is ever looked at for a blank, a quote or a dollar sign.

Main statement: `Expansion.expand_verbatim`.
-/

namespace ScriptRunner

/-! ## Questions -/

mutual

/-- The substitutions that are run for a word, from left to right. One without statements is not
run, and one that stands inside another is the business of the subshell. -/
def Word.questions : Word → List (List Statement)
  | .literal _ => []
  | .variable _ => []
  | .parameter _ => []
  | .substitution [] => []
  | .substitution (s :: rest) => [s :: rest]
  | .concat pieces => Word.questionsEach pieces
  | .array elements => Word.questionsEach elements

/-- The substitutions that are run for several words. -/
def Word.questionsEach : List Word → List (List Statement)
  | [] => []
  | w :: rest => w.questions ++ Word.questionsEach rest

end

/-- The substitutions that are run for a statement: those of the program's word, of the arguments,
and then of the assignments. -/
def Statement.questions : Statement → List (List Statement)
  | .command name args inline =>
    name.questions ++ (Word.questionsEach args ++ inline.flatMap (fun a => a.value.questions))
  | .assign assignments => assignments.flatMap (fun a => a.value.questions)

/-! ## Layouts -/

/-- Where a part of a word comes from. -/
inductive Origin
  /-- The statement itself. -/
  | text (text : String)
  /-- The value of a name. -/
  | value (name : String)
  /-- The output of a substitution, by its place among those that are run. -/
  | output (place : Nat)
  deriving DecidableEq, Repr

/-- The parts of a word, in order. -/
abbrev Layout := List Origin

/-- What there is to put in. -/
structure Given where
  value : String → String
  output : Nat → String

namespace Given

/-- What is put in for a part. -/
def text (g : Given) : Origin → String
  | .text text => text
  | .value name => g.value name
  | .output place => g.output place

/-- Whether a part adds nothing to its word. -/
def isEmpty (g : Given) (part : Origin) : Bool := (g.text part).isEmpty

/-- The value of each name in a session, if any, and the collapsed answers to the questions. -/
def ofAnswers (vars env : Env) (answers : List String) : Given where
  value name := ((vars.lookup name).or (env.lookup name)).getD ""
  output place := (answers[place]?.map collapseOutput).getD ""

end Given

namespace Layout

/-- The text of a word: that of its parts, as they are. -/
def fill (g : Given) (l : Layout) : String := String.join (l.map g.text)

/-- A word, which vanishes if it is empty. -/
def unlessEmpty (blank : Origin → Bool) (l : Layout) : List Layout :=
  if l.all blank then [] else [l]

/-- The pieces of one word, put together: one word, unless no piece has any. -/
def glue (pieces : List (List Layout)) : List Layout :=
  if pieces.all List.isEmpty then [] else [pieces.flatten.flatten]

/-- Several words as one, with a space between each two. -/
def spaced : List Layout → Layout
  | [] => []
  | [l] => l
  | l :: others => l ++ .text " " :: spaced others

/-- The parts of the value of a name: those of an earlier binding in the statement, or its value in
the session. -/
def ofName (pending : Bindings Layout) (name : String) : Layout :=
  (pending.lookup name).getD [.value name]

end Layout

mutual

/-- The layouts of the words that a word becomes, after so many questions. -/
def Word.layouts (blank : Origin → Bool) (pending : Bindings Layout) (place : Nat) :
    Word → List Layout
  | .literal text => [[.text text]]
  | .variable name => Layout.unlessEmpty blank (Layout.ofName pending name)
  | .parameter text =>
    let name := String.ofList (Text.trim text.toList)
    if isValidName name then Layout.unlessEmpty blank (Layout.ofName pending name) else []
  | .substitution [] => []
  | .substitution (_ :: _) => Layout.unlessEmpty blank [.output place]
  | .concat pieces => Layout.glue (Word.layoutsEach blank pending place pieces)
  | .array elements => (Word.layoutsEach blank pending place elements).flatten

/-- The layouts of several words. -/
def Word.layoutsEach (blank : Origin → Bool) (pending : Bindings Layout) (place : Nat) :
    List Word → List (List Layout)
  | [] => []
  | w :: rest =>
    w.layouts blank pending place ::
      Word.layoutsEach blank pending (place + w.questions.length) rest

end

/-- The layouts of what assignments bind, over earlier ones. -/
def Assignment.layouts (blank : Origin → Bool) (pending : Bindings Layout) (place : Nat) :
    List Assignment → Bindings Layout
  | [] => pending
  | a :: rest =>
    Assignment.layouts blank
      (pending.bind a.name (Layout.spaced (a.value.layouts blank pending place)))
      (place + a.value.questions.length) rest

/-- A statement before anything is put in. -/
structure Outline where
  words : List Layout
  bindings : Bindings Layout

/-- The statement with everything put in. -/
def Outline.fill (g : Given) (o : Outline) : Resolved :=
  ⟨(o.words.map (Layout.fill g)).head?, (o.words.map (Layout.fill g)).tail,
    o.bindings.map (Layout.fill g)⟩

/-- The outline of a statement, when it is known which parts are empty. -/
def Statement.outline (blank : Origin → Bool) : Statement → Outline
  | .command name args inline =>
    ⟨(Word.layoutsEach blank Bindings.empty 0 (name :: args)).flatten,
      Assignment.layouts blank Bindings.empty (Word.questionsEach (name :: args)).length inline⟩
  | .assign assignments => ⟨[], Assignment.layouts blank Bindings.empty 0 assignments⟩

/-! ## Filling in -/

namespace Layout

variable (g : Given)

theorem fill_append (l m : Layout) : fill g (l ++ m) = fill g l ++ fill g m := by
  rw [fill, List.map_append, String.join_append, fill, fill]

@[simp] theorem fill_singleton (part : Origin) : fill g [part] = g.text part := by
  simp [fill]

theorem isEmpty_fill (l : Layout) : (fill g l).isEmpty = l.all g.isEmpty := by
  induction l with
  | nil => rfl
  | cons part rest ih =>
      rw [List.all_cons, ← ih, fill, List.map_cons, String.join_cons, Given.isEmpty, fill,
        Bool.eq_iff_iff]
      simp

/-- A word vanishes where its text is empty. -/
theorem map_fill_unlessEmpty (l : Layout) :
    (unlessEmpty g.isEmpty l).map (fill g) =
      if (fill g l).isEmpty then [] else [fill g l] := by
  rw [unlessEmpty, isEmpty_fill]
  split <;> rfl

theorem fill_flatten (ls : List Layout) : fill g ls.flatten = String.join (ls.map (fill g)) := by
  induction ls with
  | nil => rfl
  | cons l rest ih =>
      rw [List.flatten_cons, fill_append, ih, List.map_cons, String.join_cons]

theorem map_fill_glue (pieces : List (List Layout)) :
    (glue pieces).map (fill g) = Expansion.glue (pieces.map (List.map (fill g))) := by
  have hall : (pieces.map (List.map (fill g))).all List.isEmpty = pieces.all List.isEmpty := by
    simp [List.all_map, Function.comp_def]
  rw [glue, Expansion.glue, hall]
  split
  · rfl
  · rw [List.map_singleton, fill_flatten, List.map_flatten]

theorem fill_spaced (ls : List Layout) : fill g (spaced ls) = joinBySpace (ls.map (fill g)) := by
  induction ls with
  | nil => rfl
  | cons l rest ih =>
      cases rest with
      | nil => simp [spaced, joinBySpace]
      | cons m others =>
          have hspace : fill g (.text " " :: spaced (m :: others)) =
              " " ++ fill g (spaced (m :: others)) := fill_append g [.text " "] _
          rw [spaced, fill_append, hspace, ih]
          · simp [joinBySpace, String.intercalate_cons_cons, String.append_assoc]
          · simp

end Layout

/-- A name as a word, in a scope whose bindings were laid out. -/
theorem Scope.word_eq_fill {g : Given} {pending : Bindings Layout} {vars env : Env} (name : String)
    (hvalue : g.value name = ((vars.lookup name).or (env.lookup name)).getD "") :
    (Scope.mk (pending.map (Layout.fill g)) vars env).word name =
      (Layout.unlessEmpty g.isEmpty (Layout.ofName pending name)).map (Layout.fill g) := by
  rw [Layout.map_fill_unlessEmpty, Layout.ofName, word, lookup, Bindings.lookup_map]
  cases pending.lookup name with
  | some l => rfl
  | none =>
      have hfill : Layout.fill g [.value name] = g.value name := Layout.fill_singleton g _
      rw [Option.map_none, Option.none_or, Option.getD_none, hfill, hvalue]
      cases (vars.lookup name).or (env.lookup name) <;> rfl

namespace Expansion

open Effect

variable {σ τ : Type}

/-! ## Asking -/

/-- Puts the questions to the oracle, one after the other. -/
def askEach (oracle : Oracle σ) : List (List Statement) → Effect σ (List String)
  | [] => pure []
  | question :: rest => do
    let answer ← oracle question
    let others ← askEach oracle rest
    pure (answer :: others)

/-- The oracle, with the questions on record. -/
def recorded (oracle : Oracle σ) : Oracle (σ × List (List Statement)) := fun statements x =>
  let done := oracle statements x.1
  ⟨done.value, (done.world, x.2 ++ [statements]), done.notices⟩

/-- What the oracle is asked while the statement is expanded. -/
def asked (oracle : Oracle σ) (vars env : Env) (statement : Statement) (w : σ) :
    List (List Statement) :=
  (expand (recorded oracle) vars env statement (w, [])).world.2

variable {oracle : Oracle σ}

theorem askEach_cons (question : List Statement) (rest : List (List Statement)) (w : σ) :
    askEach oracle (question :: rest) w =
      let answer := oracle question w
      let others := askEach oracle rest answer.world
      ⟨answer.value :: others.value, others.world, answer.notices ++ others.notices⟩ := by
  simp only [askEach, bind_apply, pure_apply, List.append_nil]

theorem askEach_append (questions others : List (List Statement)) (w : σ) :
    let first := askEach oracle questions w
    let second := askEach oracle others first.world
    (askEach oracle (questions ++ others) w).value = first.value ++ second.value ∧
      (askEach oracle (questions ++ others) w).world = second.world := by
  induction questions generalizing w with
  | nil => exact ⟨rfl, rfl⟩
  | cons question rest ih =>
      obtain ⟨hvalue, hworld⟩ := ih (oracle question w).world
      rw [List.cons_append, askEach_cons, askEach_cons]
      exact ⟨congrArg _ hvalue, hworld⟩

theorem world_askEach_append (questions others : List (List Statement)) (w : σ) :
    (askEach oracle (questions ++ others) w).world =
      (askEach oracle others (askEach oracle questions w).world).world :=
  (askEach_append questions others w).2

/-- Every question has an answer. -/
theorem length_askEach (questions : List (List Statement)) (w : σ) :
    (askEach oracle questions w).value.length = questions.length := by
  induction questions generalizing w with
  | nil => rfl
  | cons question rest ih => simp [askEach_cons, ih]

/-- The record holds the questions in the order in which they were put. -/
theorem askEach_recorded (questions : List (List Statement)) (x : σ × List (List Statement)) :
    (askEach (recorded oracle) questions x).world.2 = x.2 ++ questions := by
  induction questions generalizing x with
  | nil => exact (List.append_nil x.2).symm
  | cons question rest ih =>
      rw [askEach_cons, ih, List.append_cons]
      rfl

/-! ## The questions of an expansion -/

variable (oracle)

mutual

/-- For the oracle, a word is its questions. -/
theorem world_evaluate (scope : Scope) :
    ∀ (word : Word) (w : σ),
      (evaluate oracle scope word w).world = (askEach oracle word.questions w).world
  | .literal _, _ => by
      rw [evaluate, Word.questions]
      rfl
  | .variable _, _ => by
      rw [evaluate, Word.questions]
      rfl
  | .parameter _, _ => by
      rw [evaluate, Word.questions]
      split <;> rfl
  | .substitution [], _ => by
      rw [evaluate, Word.questions]
      rfl
  | .substitution (s :: rest), _ => by
      rw [evaluate, Word.questions, askEach_cons, bind_apply, pure_apply]
      rfl
  | .concat pieces, w => by
      rw [evaluate, Word.questions, ← world_evaluateEach scope pieces w, bind_apply, pure_apply]
  | .array elements, w => by
      rw [evaluate, Word.questions, ← world_evaluateEach scope elements w, bind_apply, pure_apply]

theorem world_evaluateEach (scope : Scope) :
    ∀ (words : List Word) (w : σ),
      (evaluateEach oracle scope words w).world =
        (askEach oracle (Word.questionsEach words) w).world
  | [], _ => by
      rw [evaluateEach, Word.questionsEach]
      rfl
  | word :: rest, w => by
      have hfirst := world_evaluate scope word w
      have hrest := world_evaluateEach scope rest (evaluate oracle scope word w).world
      rw [Word.questionsEach, world_askEach_append, ← hfirst, ← hrest, evaluateEach, bind_apply,
        bind_apply, pure_apply]

end

theorem world_bindEach (scope : Scope) (assignments : List Assignment) (w : σ) :
    (bindEach oracle scope assignments w).world =
      (askEach oracle (assignments.flatMap (fun a => a.value.questions)) w).world := by
  induction assignments generalizing scope w with
  | nil => rfl
  | cons a rest ih =>
      rw [List.flatMap_cons, world_askEach_append, ← world_evaluate oracle scope a.value w, ← ih,
        bindEach, bind_apply]

/-- For the oracle, a statement is its questions. -/
theorem world_expand (vars env : Env) (statement : Statement) (w : σ) :
    (expand oracle vars env statement w).world = (askEach oracle statement.questions w).world := by
  cases statement with
  | command name args inline =>
      have hwords := world_evaluateEach oracle (Scope.start vars env) (name :: args) w
      rw [Statement.questions, ← List.append_assoc, ← Word.questionsEach, world_askEach_append,
        ← hwords, ← world_bindEach oracle (Scope.start vars env)]
      rfl
  | assign assignments => exact world_bindEach oracle (Scope.start vars env) assignments w

/-- The oracle is asked what stands in the statement. -/
theorem asked_eq_questions (vars env : Env) (statement : Statement) (w : σ) :
    asked oracle vars env statement w = statement.questions := by
  rw [asked, world_expand, askEach_recorded, List.nil_append]

/-! ## What an expansion comes to -/

/-- What is given are the values in the session and, from this place on, these answers. -/
structure Fits (vars env : Env) (g : Given) (place : Nat) (answers : List String) : Prop where
  value : ∀ name, g.value name = ((vars.lookup name).or (env.lookup name)).getD ""
  output : ∀ i answer, answers[i]? = some answer → g.output (place + i) = collapseOutput answer

variable {oracle} {g : Given} {vars env : Env}

theorem Fits.append {place : Nat} {answers others : List String}
    (h : Fits vars env g place (answers ++ others)) :
    Fits vars env g place answers ∧ Fits vars env g (place + answers.length) others := by
  refine ⟨⟨h.value, ?_⟩, h.value, ?_⟩
  · intro i answer hi
    obtain ⟨hlt, -⟩ := List.getElem?_eq_some_iff.1 hi
    exact h.output i answer (by rw [List.getElem?_append_left hlt, hi])
  · intro i answer hi
    have hplace := h.output (answers.length + i) answer
      (by rw [List.getElem?_append_right (by omega), Nat.add_sub_cancel_left, hi])
    rw [Nat.add_assoc, hplace]

theorem fits_ofAnswers (vars env : Env) (answers : List String) :
    Fits vars env (Given.ofAnswers vars env answers) 0 answers := by
  refine ⟨fun _ => rfl, fun i answer hi => ?_⟩
  simp [Given.ofAnswers, hi]

mutual

/-- The words that a word expands to are its layouts, filled in. -/
theorem value_evaluate (pending : Bindings Layout) :
    ∀ (word : Word) (place : Nat) (w : σ),
      Fits vars env g place (askEach oracle word.questions w).value →
      (evaluate oracle ⟨pending.map (Layout.fill g), vars, env⟩ word w).value =
        (word.layouts g.isEmpty pending place).map (Layout.fill g)
  | .literal text, _, _, _ => by
      rw [evaluate, Word.layouts, List.map_singleton, Layout.fill_singleton]
      rfl
  | .variable name, _, _, hfits => by
      rw [evaluate, Word.layouts]
      exact Scope.word_eq_fill name (hfits.value name)
  | .parameter text, _, _, hfits => by
      simp only [evaluate, Word.layouts]
      split
      · exact Scope.word_eq_fill _ (hfits.value _)
      · rfl
  | .substitution [], _, _, _ => by
      rw [evaluate, Word.layouts]
      rfl
  | .substitution (s :: rest), place, w, hfits => by
      rw [Word.questions, askEach_cons] at hfits
      have hanswer : g.output place = collapseOutput (oracle (s :: rest) w).value :=
        hfits.output 0 _ rfl
      rw [evaluate, Word.layouts, Layout.map_fill_unlessEmpty, Layout.fill_singleton, Given.text,
        hanswer, bind_apply, pure_apply, outputWord]
  | .concat pieces, place, w, hfits => by
      rw [Word.questions] at hfits
      have hpieces := value_evaluateEach pending pieces place w hfits
      rw [evaluate, Word.layouts, Layout.map_fill_glue, ← hpieces, bind_apply, pure_apply]
  | .array elements, place, w, hfits => by
      rw [Word.questions] at hfits
      have helements := value_evaluateEach pending elements place w hfits
      rw [evaluate, Word.layouts, List.map_flatten, ← helements, bind_apply, pure_apply]

theorem value_evaluateEach (pending : Bindings Layout) :
    ∀ (words : List Word) (place : Nat) (w : σ),
      Fits vars env g place (askEach oracle (Word.questionsEach words) w).value →
      (evaluateEach oracle ⟨pending.map (Layout.fill g), vars, env⟩ words w).value =
        (Word.layoutsEach g.isEmpty pending place words).map (List.map (Layout.fill g))
  | [], _, _, _ => by
      rw [evaluateEach, Word.layoutsEach]
      rfl
  | word :: rest, place, w, hfits => by
      rw [Word.questionsEach, (askEach_append _ _ w).1] at hfits
      obtain ⟨hfirst, hlater⟩ := hfits.append
      rw [length_askEach, ← world_evaluate oracle ⟨pending.map (Layout.fill g), vars, env⟩]
        at hlater
      have hword := value_evaluate pending word place w hfirst
      have hrest := value_evaluateEach pending rest _ _ hlater
      rw [evaluateEach, Word.layoutsEach, List.map_cons, ← hword, ← hrest, bind_apply, bind_apply,
        pure_apply]

end

theorem value_bindEach (assignments : List Assignment) (pending : Bindings Layout) (place : Nat)
    (w : σ)
    (hfits : Fits vars env g place
      (askEach oracle (assignments.flatMap (fun a => a.value.questions)) w).value) :
    (bindEach oracle ⟨pending.map (Layout.fill g), vars, env⟩ assignments w).value =
      (Assignment.layouts g.isEmpty pending place assignments).map (Layout.fill g) := by
  induction assignments generalizing pending place w with
  | nil => rfl
  | cons a rest ih =>
      rw [List.flatMap_cons, (askEach_append _ _ w).1] at hfits
      obtain ⟨hfirst, hlater⟩ := hfits.append
      rw [length_askEach, ← world_evaluate oracle ⟨pending.map (Layout.fill g), vars, env⟩]
        at hlater
      have hvalues := value_evaluate pending a.value place w hfirst
      have hrest := ih
        (pending.bind a.name (Layout.spaced (a.value.layouts g.isEmpty pending place))) _ _ hlater
      rw [Assignment.layouts, ← hrest, Bindings.map_bind, Layout.fill_spaced, ← hvalues, bindEach,
        bind_apply]

theorem value_expand (statement : Statement) (w : σ)
    (hfits : Fits vars env g 0 (askEach oracle statement.questions w).value) :
    (expand oracle vars env statement w).value =
      (statement.outline g.isEmpty).fill g := by
  -- No name is bound in the statement before its first assignment.
  have hstart : Scope.start vars env = ⟨Bindings.empty.map (Layout.fill g), vars, env⟩ := rfl
  cases statement with
  | command name args inline =>
      rw [Statement.questions, ← List.append_assoc, ← Word.questionsEach,
        (askEach_append _ _ w).1] at hfits
      obtain ⟨hfirst, hlater⟩ := hfits.append
      rw [length_askEach, ← world_evaluateEach oracle (Scope.start vars env), Nat.zero_add]
        at hlater
      have hwords := value_evaluateEach Bindings.empty (name :: args) 0 w hfirst
      have hbindings := value_bindEach inline Bindings.empty _ _ hlater
      rw [← hstart] at hwords hbindings
      rw [Statement.outline, Outline.fill, List.map_flatten, ← hwords, ← hbindings]
      rfl
  | assign assignments =>
      have hbindings := value_bindEach assignments Bindings.empty 0 w hfits
      rw [← hstart] at hbindings
      rw [Statement.outline, Outline.fill, ← hbindings]
      rfl

/-- Values and outputs have no say in what is asked, and go into words as they are.

In any two expansions of a statement, with whatever values and oracles, the oracle is asked the same
questions in the same order: those that stand in the statement. What an expansion comes to is the
outline of the statement, which is settled by which values and outputs are empty, with the values
and the collapsed outputs put in. -/
theorem expand_verbatim (first : Oracle σ) (second : Oracle τ) (vars env vars' env' : Env)
    (statement : Statement) (w : σ) (x : τ) :
    (asked first vars env statement w = statement.questions ∧
      asked second vars' env' statement x = statement.questions) ∧
    (let given := Given.ofAnswers vars env (askEach first statement.questions w).value
    let given' := Given.ofAnswers vars' env' (askEach second statement.questions x).value
    (expand first vars env statement w).value = (statement.outline given.isEmpty).fill given ∧
      (expand second vars' env' statement x).value =
        (statement.outline given'.isEmpty).fill given') := by
  refine ⟨⟨?_, ?_⟩, ?_, ?_⟩
  · exact asked_eq_questions first vars env statement w
  · exact asked_eq_questions second vars' env' statement x
  · exact value_expand statement w (fits_ofAnswers vars env _)
  · exact value_expand statement x (fits_ofAnswers vars' env' _)

/-- A value and an output that look like expansions and quotes are one word with the text around
them. -/
example :
    let oracle : Oracle Unit := fun _ => pure "a $B\n'c'\n"
    let vars := Bindings.empty.bind "A" "$(x) \"y"
    let word := .concat [.variable "A", .literal "/", .substitution [.command (.literal "p") [] []]]
    (expand oracle vars Bindings.empty (.command (.literal "echo") [word] []) ()).value.args =
      ["$(x) \"y/a $B 'c'"] := by
  decide +kernel

end Expansion

end ScriptRunner
