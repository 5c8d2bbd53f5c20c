import ScriptRunner.Proofs.Command.Canonical
import ScriptRunner.Proofs.Command.WrittenStatement
import ScriptRunner.Proofs.Effect

/-!
# ScriptRunner.Proofs.Expansion.WordValue

What a written word comes to.

Every glyph of a word has a value: the characters that it stands for, the value of a name, or the
output of commands (`Glyph.value`). The word is these values, one after the other, and it is one
word, whatever is in them. It is there if a quote or a literal character was written
(`Glyph.stays`), or else if one of the values is not empty (`Glyph.wordOf`).

While a word is read none of this can be seen. What its pieces come to is told for any pieces
(`Pieces.gives`), and a glyph adds its value to it (`gives_addTo`).
-/

namespace ScriptRunner

open Effect Expansion Reader

variable {σ : Type}

/-! ## Values -/

namespace Expansion

/-- The value of a name, empty if it has none. -/
def nameValue (scope : Scope) (name : String) : String :=
  (scope.lookup name).getD ""

/-- The value of the text between braces. -/
def parameterValue (scope : Scope) (text : String) : Effect σ String :=
  let name := String.ofList (Text.trim text.toList)
  if isValidName name then pure (nameValue scope name)
  else do
    Effect.warn (unsupported text)
    pure ""

/-- The value of commands. -/
def commandValue (oracle : Oracle σ) : List Statement → Effect σ String
  | [] => pure ""
  | s :: rest => do
    let output ← oracle (s :: rest)
    pure (collapseOutput output)

end Expansion

namespace Reader.Glyph

/-- The value of a glyph, where `inner` reads commands. -/
def value (inner : List Char → Reading) (oracle : Oracle σ) (scope : Scope) :
    Glyph → Effect σ String
  | .tilde => pure (nameValue scope "HOME")
  | .variable name => pure (nameValue scope (String.ofList name))
  | .parameter text => parameterValue scope (String.ofList text)
  | .command text => commandValue oracle (inner text).statements
  | .backquoted text => commandValue oracle (inner (unescape text)).statements
  | g => pure (String.ofList g.literal)

/-- Whether a word with the glyph stays, even if it is empty. -/
def stays (g : Glyph) : Bool :=
  g.opensQuote || !g.literal.isEmpty

/-- The word that is written with these glyphs, when they have these values: one or none. -/
def wordOf (glyphs : List Glyph) (values : List String) : List String :=
  if glyphs.any stays || values.any (fun value => !value.isEmpty) then [String.join values] else []

end Reader.Glyph

/-! ## Pieces of a word -/

namespace Expansion

variable (oracle : Oracle σ) (scope : Scope)

theorem value_map {α β : Type} (g : α → β) (m : Effect σ α) (x : σ) :
    ((g <$> m) x).value = g (m x).value := rfl

theorem map_congr_value {α β : Type} {f g : α → β} {m : Effect σ α}
    (h : ∀ x, f (m x).value = g (m x).value) : f <$> m = g <$> m := by
  funext x
  have happly : ∀ k : α → β, (k <$> m) x = ⟨k (m x).value, (m x).world, (m x).notices ++ []⟩ :=
    fun _ => rfl
  rw [happly, happly, h]

theorem evaluateEach_append (ws vs : List Word) :
    evaluateEach oracle scope (ws ++ vs) =
      (do
        let words ← evaluateEach oracle scope ws
        let others ← evaluateEach oracle scope vs
        pure (words ++ others)) := by
  induction ws with
  | nil => simp [evaluateEach]
  | cons w rest ih => simp [evaluateEach, ih]

theorem evaluateEach_singleton (w : Word) :
    evaluateEach oracle scope [w] = (do
      let words ← evaluate oracle scope w
      pure [words]) := by
  simp [evaluateEach]

/-- A value as a word: the empty value is none. -/
def valueWord (value : String) : List String :=
  if value.isEmpty then [] else [value]

theorem word_eq (name : String) : scope.word name = valueWord (nameValue scope name) := by
  rw [Scope.word, nameValue]
  cases scope.lookup name <;> rfl

theorem evaluate_parameter (text : String) :
    evaluate oracle scope (.parameter text) = valueWord <$> parameterValue scope text := by
  simp only [evaluate, parameterValue, word_eq]
  split
  · rw [map_pure]
  · rw [map_bind]
    simp [valueWord]

theorem evaluate_substitution (statements : List Statement) :
    evaluate oracle scope (.substitution statements) =
      valueWord <$> commandValue oracle statements := by
  cases statements with
  | nil => simp [evaluate, commandValue, valueWord]
  | cons s rest => simp [evaluate, commandValue, outputWord, valueWord]

@[simp] theorem join_valueWord (value : String) : String.join (valueWord value) = value := by
  rw [valueWord]
  split
  · next hempty => simp [String.isEmpty_iff.1 hempty]
  · simp

@[simp] theorem isEmpty_valueWord (value : String) :
    (valueWord value).isEmpty = value.isEmpty := by
  rw [valueWord]
  split
  · next hempty => simp [hempty]
  · next hfilled => simp [hfilled]

theorem length_valueWord_le (value : String) : (valueWord value).length ≤ 1 := by
  rw [valueWord]
  split <;> simp

/-- A piece of a word comes to one word or none. -/
theorem length_evaluate_piece :
    ∀ {w : Word}, w.IsPiece → ∀ x, (evaluate oracle scope w x).value.length ≤ 1
  | .literal text, _, _ => by
      rw [evaluate, pure_apply]
      exact Nat.le_refl 1
  | .variable name, _, _ => by
      rw [evaluate, word_eq, pure_apply]
      exact length_valueWord_le (nameValue scope name)
  | .parameter text, _, _ => by
      rw [evaluate_parameter, value_map]
      exact length_valueWord_le _
  | .substitution statements, _, _ => by
      rw [evaluate_substitution, value_map]
      exact length_valueWord_le _
  | .concat _, h, _ => h.elim
  | .array _, h, _ => h.elim

end Expansion

namespace Reader

variable (inner : List Char → Reading) (oracle : Oracle σ) (scope : Scope)

/-- What the pieces of a word come to: their text, and whether none of them came to anything. -/
def Pieces.gives (p : Pieces) : Effect σ (String × Bool) := do
  let words ← evaluateEach oracle scope p.flushed
  pure (String.join words.flatten, words.all List.isEmpty)

variable (p : Pieces)

theorem gives_eq :
    p.gives oracle scope = (do
      let words ← evaluateEach oracle scope p.parts
      pure (String.join words.flatten ++ String.ofList p.text,
        words.all List.isEmpty && p.text.isEmpty)) := by
  rw [Pieces.gives, Pieces.flushed]
  cases htext : p.text with
  | nil => simp
  | cons c text => simp [evaluateEach_append, evaluateEach, evaluate]

theorem gives_addText (text : List Char) (quoted : Bool) :
    (p.addText text quoted).gives oracle scope =
      (fun given => (given.1 ++ String.ofList text, given.2 && text.isEmpty)) <$>
        p.gives oracle scope := by
  have hempty : (p.text ++ text).isEmpty = (p.text.isEmpty && text.isEmpty) := by
    cases p.text <;> rfl
  rw [gives_eq, gives_eq]
  simp [Pieces.addText, hempty, String.append_assoc, Bool.and_assoc]

theorem gives_addExpansion {w : Word} {value : Effect σ String}
    (h : evaluate oracle scope w = valueWord <$> value) :
    (p.addExpansion w).gives oracle scope = (do
      let given ← p.gives oracle scope
      let value ← value
      pure (given.1 ++ value, given.2 && value.isEmpty)) := by
  rw [gives_eq, Pieces.gives]
  simp [Pieces.addExpansion, evaluateEach_append, evaluateEach, h]

/-- An expansion is the value of its glyph, unless that is empty. -/
theorem evaluate_expansion {g : Glyph} {w : Word} (h : g.expansion? inner = some w) :
    g.literal = [] ∧ evaluate oracle scope w = valueWord <$> g.value inner oracle scope := by
  cases g with
  | tilde =>
      cases h
      exact ⟨rfl, by rw [evaluate, word_eq, Glyph.value, map_pure]⟩
  | «variable» name =>
      cases h
      exact ⟨rfl, by rw [evaluate, word_eq, Glyph.value, map_pure]⟩
  | parameter text =>
      cases h
      exact ⟨rfl, evaluate_parameter oracle scope _⟩
  | command text =>
      cases h
      exact ⟨rfl, evaluate_substitution oracle scope _⟩
  | backquoted text =>
      cases h
      exact ⟨rfl, evaluate_substitution oracle scope _⟩
  | _ => cases h

/-- A glyph adds its value to what a word comes to. -/
theorem gives_addTo (g : Glyph) :
    (g.addTo inner p).gives oracle scope = (do
      let given ← p.gives oracle scope
      let value ← g.value inner oracle scope
      pure (given.1 ++ value, given.2 && (g.literal.isEmpty && value.isEmpty))) := by
  cases hexpansion : g.expansion? inner with
  | none =>
      have hvalue : g.value inner oracle scope = pure (String.ofList g.literal) := by
        cases g <;> cases hexpansion <;> rfl
      have hempty : (String.ofList g.literal).isEmpty = g.literal.isEmpty := by
        rw [Bool.eq_iff_iff, String.isEmpty_iff, List.isEmpty_iff, String.ofList_eq_empty_iff]
      rw [Glyph.addTo, hexpansion, gives_addText, hvalue]
      simp [hempty]
  | some w =>
      obtain ⟨hliteral, hvalue⟩ := evaluate_expansion inner oracle scope hexpansion
      rw [Glyph.addTo, hexpansion, gives_addExpansion oracle scope p hvalue]
      simp [hliteral]

/-- Glyphs add their values one after the other. -/
theorem gives_foldl (glyphs : List Glyph) :
    (glyphs.foldl (Glyph.addTo inner) p).gives oracle scope = (do
      let given ← p.gives oracle scope
      let values ← glyphs.mapM (Glyph.value inner oracle scope)
      pure (given.1 ++ String.join values,
        given.2 && (glyphs.all (fun g => g.literal.isEmpty) && values.all String.isEmpty))) := by
  induction glyphs generalizing p with
  | nil => simp
  | cons g rest ih =>
      rw [List.foldl_cons, ih, gives_addTo]
      simp [String.join_cons, String.append_assoc, Bool.and_assoc, Bool.and_left_comm]

/-! ## A finished word -/

theorem glue_of_length_le {words : List String} (h : words.length ≤ 1) : glue [words] = words := by
  match words, h with
  | [], _ => rfl
  | [word], _ => simp [glue]

variable {p} {arg : Word}

theorem isPiece_flushed (hpieces : ∀ w ∈ p.parts, w.IsPiece) : ∀ w ∈ p.flushed, w.IsPiece := by
  rw [Pieces.flushed]
  split
  · exact hpieces
  · exact List.forall_mem_append.2 ⟨hpieces, List.forall_mem_singleton.2 trivial⟩

theorem isPiece_anchored (hpieces : ∀ w ∈ p.parts, w.IsPiece) : ∀ w ∈ p.anchored, w.IsPiece := by
  rw [Pieces.anchored]
  split
  · exact List.forall_mem_cons.2 ⟨trivial, isPiece_flushed hpieces⟩
  · exact isPiece_flushed hpieces

/-- A word comes to what its pieces come to, put together. -/
theorem evaluate_anchored (hpieces : ∀ w ∈ p.parts, w.IsPiece) (h : p.word? = some arg) :
    evaluate oracle scope arg = glue <$> evaluateEach oracle scope p.anchored := by
  have hanchored := isPiece_anchored hpieces
  rw [Pieces.word?] at h
  generalize p.anchored = ws at h hanchored
  cases ws with
  | nil => cases h
  | cons w rest =>
      cases rest with
      | nil =>
          -- a piece alone is the word, and putting it together changes nothing
          obtain rfl : w = arg := Option.some.inj h
          have hone : ∀ x, (evaluate oracle scope w x).value.length ≤ 1 :=
            length_evaluate_piece oracle scope (hanchored w List.mem_cons_self)
          calc evaluate oracle scope w
            _ = id <$> evaluate oracle scope w := (Effect.id_map _).symm
            _ = (fun words => glue [words]) <$> evaluate oracle scope w :=
              map_congr_value (fun x => (glue_of_length_le (hone x)).symm)
            _ = glue <$> evaluateEach oracle scope [w] := by simp [evaluateEach_singleton]
      | cons u rest =>
          obtain rfl : .concat (w :: u :: rest) = arg := Option.some.inj h
          rw [evaluate, map_eq_pure_bind]

/-- A literal piece always comes to something. -/
theorem all_isEmpty_literal {ws : List Word} (h : ws.any Pieces.isLiteral = true) (x : σ) :
    (evaluateEach oracle scope ws x).value.all List.isEmpty = false := by
  induction ws generalizing x with
  | nil => cases h
  | cons w rest ih =>
      rw [evaluateEach, bind_apply, bind_apply, pure_apply, List.all_cons, Bool.and_eq_false_iff]
      rw [List.any_cons, Bool.or_eq_true] at h
      rcases h with hliteral | hrest
      · left
        cases w with
        | literal text => rw [evaluate]; rfl
        | _ => cases hliteral
      · exact Or.inr (ih hrest _)

/-- A word is its text, if a quote was opened or one of its pieces came to something. -/
theorem evaluate_word? (hpieces : ∀ w ∈ p.parts, w.IsPiece) (h : p.word? = some arg) :
    evaluate oracle scope arg =
      (fun given => if p.quoted || !given.2 then [given.1] else []) <$> p.gives oracle scope := by
  have hgives : p.gives oracle scope =
      (fun words => (String.join words.flatten, words.all List.isEmpty)) <$>
        evaluateEach oracle scope p.flushed := by
    rw [Pieces.gives, map_eq_pure_bind]
  rw [evaluate_anchored oracle scope hpieces h, hgives, Functor.map_map, Pieces.anchored]
  split
  · next hanchor =>
      rw [Bool.and_eq_true] at hanchor
      simp [evaluateEach, evaluate, glue, hanchor.1]
  · next hno =>
      refine map_congr_value (fun x => ?_)
      rw [glue]
      by_cases hquoted : p.quoted = true
      · have hliteral : p.flushed.any Pieces.isLiteral = true := by
          simpa [hquoted] using hno
        rw [all_isEmpty_literal oracle scope hliteral x]
        simp
      · rw [Bool.not_eq_true] at hquoted
        rw [hquoted, Bool.false_or]
        cases (evaluateEach oracle scope p.flushed x).value.all List.isEmpty <;> rfl

/-! ## Words as they are written -/

theorem quoted_addTo (p : Pieces) (g : Glyph) :
    (g.addTo inner p).quoted = (p.quoted || g.opensQuote) := by
  cases g <;> simp [Glyph.addTo, Glyph.expansion?, Glyph.opensQuote, Pieces.addExpansion,
    Pieces.addText]

theorem quoted_foldl (p : Pieces) (glyphs : List Glyph) :
    (glyphs.foldl (Glyph.addTo inner) p).quoted = (p.quoted || glyphs.any Glyph.opensQuote) := by
  induction glyphs generalizing p with
  | nil => simp
  | cons g rest ih => rw [List.foldl_cons, ih, quoted_addTo, List.any_cons, Bool.or_assoc]

theorem isPiece_addTo (g : Glyph) (hpieces : ∀ w ∈ p.parts, w.IsPiece) :
    ∀ w ∈ (g.addTo inner p).parts, w.IsPiece := by
  rw [Glyph.addTo]
  cases hexpansion : g.expansion? inner with
  | none => exact hpieces
  | some w =>
      have hpiece : w.IsPiece := by
        cases g <;> cases hexpansion <;> trivial
      exact List.forall_mem_append.2
        ⟨isPiece_flushed hpieces, List.forall_mem_singleton.2 hpiece⟩

theorem isPiece_foldl (glyphs : List Glyph) (hpieces : ∀ w ∈ p.parts, w.IsPiece) :
    ∀ w ∈ (glyphs.foldl (Glyph.addTo inner) p).parts, w.IsPiece := by
  induction glyphs generalizing p with
  | nil => exact hpieces
  | cons g rest ih => exact ih (isPiece_addTo inner g hpieces)

/-- Nothing is a word only as long as nothing was written. -/
theorem word?_eq_none_iff : p.word? = none ↔ p = Pieces.start := by
  refine ⟨fun h => ?_, fun h => h ▸ rfl⟩
  have hanchored : p.anchored = [] := by
    rw [Pieces.word?] at h
    split at h
    · next hnil => exact hnil
    · cases h
    · cases h
  rw [Pieces.anchored] at hanchored
  split at hanchored
  · cases hanchored
  · next hno =>
      have hquoted : p.quoted = false := by simpa [hanchored] using hno
      rw [Pieces.flushed] at hanchored
      split at hanchored
      · next htext =>
          obtain ⟨parts, text, quoted⟩ := p
          obtain rfl : parts = [] := hanchored
          obtain rfl : text = [] := List.isEmpty_iff.1 htext
          obtain rfl : quoted = false := hquoted
          rfl
      · simp at hanchored

/-- What nothing is left of was nothing but line continuations. -/
theorem addTo_eq_start {g : Glyph} (h : g.addTo inner p = Pieces.start) :
    p = Pieces.start ∧ (g = .continuation ∨ g = .closeDouble) := by
  rw [Glyph.addTo] at h
  cases hexpansion : g.expansion? inner with
  | some w =>
      rw [hexpansion] at h
      have hparts := congrArg Pieces.parts h
      simp [Pieces.addExpansion, Pieces.start] at hparts
  | none =>
      rw [hexpansion] at h
      obtain ⟨parts, text, quoted⟩ := p
      obtain ⟨rfl, htext, hquoted⟩ := Pieces.mk.inj h
      obtain ⟨rfl, hliteral⟩ := List.append_eq_nil_iff.1 htext
      obtain ⟨rfl, hopens⟩ := Bool.or_eq_false_iff.1 hquoted
      refine ⟨rfl, ?_⟩
      cases g with
      | continuation => exact Or.inl rfl
      | closeDouble => exact Or.inr rfl
      | char c => cases hliteral
      | escaped c => cases hliteral
      | single text => cases hopens
      | openDouble => cases hopens
      | _ => cases hexpansion

theorem any_stays (glyphs : List Glyph) :
    glyphs.any Glyph.stays =
      (glyphs.any Glyph.opensQuote || !glyphs.all (fun g => g.literal.isEmpty)) := by
  induction glyphs with
  | nil => rfl
  | cons g rest ih =>
      rw [List.any_cons, List.any_cons, List.all_cons, ih, Glyph.stays, Bool.not_and]
      cases g.opensQuote <;> cases g.literal.isEmpty <;> simp

theorem foldl_addTo_eq_start {glyphs : List Glyph}
    (h : glyphs.foldl (Glyph.addTo inner) p = Pieces.start) :
    p = Pieces.start ∧ ∀ g ∈ glyphs, g = .continuation ∨ g = .closeDouble := by
  induction glyphs generalizing p with
  | nil => exact ⟨h, nofun⟩
  | cons g rest ih =>
      obtain ⟨hfirst, hrest⟩ := ih h
      obtain ⟨hstart, hglyph⟩ := addTo_eq_start inner hfirst
      exact ⟨hstart, List.forall_mem_cons.2 ⟨hglyph, hrest⟩⟩

theorem foldl_continuations {glyphs : List Glyph} (h : ∀ g ∈ glyphs, g = .continuation) :
    glyphs.foldl (Glyph.addTo inner) p = p := by
  induction glyphs with
  | nil => rfl
  | cons g rest ih =>
      rw [List.forall_mem_cons] at h
      rw [List.foldl_cons, h.1, Glyph.addTo_continuation, ih h.2]

/-- No quote is closed that was not opened. -/
theorem continuation_of_spells {next : Option Char} {standing : Standing} {text : List Char}
    {glyphs : List Glyph} (h : Spells next standing text glyphs) (hstanding : standing ≠ .double)
    (hglyphs : ∀ g ∈ glyphs, g = .continuation ∨ g = .closeDouble) :
    ∀ g ∈ glyphs, g = .continuation := by
  induction h with
  | nil => nofun
  | cons fits later ih =>
      rw [List.forall_mem_cons] at hglyphs ⊢
      obtain ⟨rfl | rfl, hrest⟩ := hglyphs
      · refine ⟨rfl, ih (fun hdouble => hstanding ?_) hrest⟩
        exact Standing.later_eq_double.1 hdouble
      · exact absurd fits hstanding

variable {inner}

/-- A word that is read comes to the values of its glyphs, one after the other. -/
theorem evaluate_of_wordIn {next : Option Char} {f : Frame} {place : Place} {text : List Char}
    {q : Pieces} (h : wordIn? inner next (f.before place) text = some q) :
    ∃ glyphs, (∀ others, Spells next .first text others ↔ others = glyphs) ∧
      (q.word? = none ↔ ∀ g ∈ glyphs, g = .continuation) ∧
      ∀ arg, q.word? = some arg → ∀ {σ : Type} (oracle : Oracle σ) (scope : Scope),
        evaluate oracle scope arg =
          Glyph.wordOf glyphs <$> glyphs.mapM (Glyph.value inner oracle scope) := by
  obtain ⟨glyphs, hspells, rfl⟩ := spells_of_wordIn h
  refine ⟨glyphs, fun others => ⟨hspells.unique, fun heq => heq ▸ hspells⟩,
    ⟨fun hnone => ?_, fun hglyphs => ?_⟩, fun arg harg _ oracle scope => ?_⟩
  · obtain ⟨-, hrest⟩ := foldl_addTo_eq_start inner (word?_eq_none_iff.1 hnone)
    exact continuation_of_spells hspells (by decide) hrest
  · rw [word?_eq_none_iff, foldl_continuations inner hglyphs]
  · have hpieces := isPiece_foldl inner (p := Pieces.start) glyphs nofun
    have hstart : Pieces.start.gives oracle scope = pure ("", true) := by
      simp [Pieces.gives, Pieces.flushed, Pieces.start, evaluateEach]
    rw [evaluate_word? oracle scope hpieces harg, gives_foldl, hstart, quoted_foldl, pure_bind,
      bind_pure_comp, Functor.map_map]
    refine congrArg (fun word => word <$> glyphs.mapM (Glyph.value inner oracle scope)) ?_
    funext values
    have hvalues : (!values.all String.isEmpty) = values.any (fun value => !value.isEmpty) :=
      List.not_all_eq_any_not
    rw [String.empty_append, Bool.true_and, Bool.not_and, hvalues, ← Bool.or_assoc, Glyph.wordOf,
      any_stays]
    rfl

theorem length_wordOf_le (glyphs : List Glyph) (values : List String) :
    (Glyph.wordOf glyphs values).length ≤ 1 := by
  rw [Glyph.wordOf]
  split <;> simp

end Reader

/-! ## Commands as they are written -/

section Commands

variable (oracle : Oracle σ) (scope : Scope)

theorem exists_wordAt {text part : List Char} {ws : List Word} (h : WordsIn text part ws) :
    ∀ w ∈ ws, ∃ before word, WordAt text before word w := by
  induction h with
  | nil => nofun
  | concat earlier hbefore hword hpart ih =>
      exact List.forall_mem_append.2 ⟨ih, List.forall_mem_singleton.2 ⟨_, _, hword⟩⟩

/-- A written word comes to one word or none. -/
theorem length_evaluate_written {text part : List Char} {ws : List Word}
    (h : WordsIn text part ws) {w : Word} (hw : w ∈ ws) (x : σ) :
    (evaluate oracle scope w x).value.length ≤ 1 := by
  obtain ⟨before, word, after, f, q, -, -, hread, hq⟩ := exists_wordAt h w hw
  obtain ⟨glyphs, -, -, hvalue⟩ := evaluate_of_wordIn hread
  rw [hvalue w hq, value_map]
  exact length_wordOf_le glyphs _

theorem length_evaluateEach (ws : List Word) (x : σ) :
    (evaluateEach oracle scope ws x).value.length = ws.length := by
  induction ws generalizing x with
  | nil => simp [evaluateEach]
  | cons w rest ih =>
      simp only [evaluateEach, bind_apply, pure_apply, List.length_cons, ih]

theorem length_le_of_mem_evaluateEach {ws : List Word}
    (h : ∀ w ∈ ws, ∀ x, (evaluate oracle scope w x).value.length ≤ 1) (x : σ) :
    ∀ words ∈ (evaluateEach oracle scope ws x).value, words.length ≤ 1 := by
  induction ws generalizing x with
  | nil => simp [evaluateEach]
  | cons w rest ih =>
      rw [List.forall_mem_cons] at h
      simp only [evaluateEach, bind_apply, pure_apply, List.forall_mem_cons]
      exact ⟨h.1 x, ih h.2 _⟩

theorem length_flatten_le {α : Type} {lists : List (List α)} (h : ∀ l ∈ lists, l.length ≤ 1) :
    lists.flatten.length ≤ lists.length := by
  induction lists with
  | nil => exact Nat.le_refl 0
  | cons l rest ih =>
      rw [List.forall_mem_cons] at h
      have hrest := ih h.2
      rw [List.flatten_cons, List.length_append, List.length_cons]
      omega

/-- The words of an expanded command are those of its written words, in order. -/
theorem argv_expand (vars env : Env) (name : Word) (args : List Word) (inline : List Assignment)
    (x : σ) :
    (expand oracle vars env (.command name args inline) x).value.argv =
      (evaluateEach oracle (Scope.start vars env) (name :: args) x).value.flatten := by
  rw [expand, bind_apply, bind_apply, pure_apply, Resolved.argv]
  cases (evaluateEach oracle (Scope.start vars env) (name :: args) x).value.flatten <;> rfl

end Commands

/-- Each word stays one word, and quoted words survive. A word that is read is written with certain
glyphs, and no others; it is no word only if they are line continuations. It comes to the values of
its glyphs, one after the other, as one word or none (`Glyph.wordOf`). The words of a command are
such words, so the command has no more of them than were written, in the same order. -/
theorem evaluate_written :
    (∀ (inner : List Char → Reading) (next : Option Char) (f : Frame) (place : Reader.Place)
        (text : List Char) (q : Pieces), wordIn? inner next (f.before place) text = some q →
      ∃ glyphs, (∀ others, Spells next .first text others ↔ others = glyphs) ∧
        (q.word? = none ↔ ∀ g ∈ glyphs, g = .continuation) ∧
        ∀ arg, q.word? = some arg → ∀ {σ : Type} (oracle : Oracle σ) (scope : Scope),
          evaluate oracle scope arg =
            Glyph.wordOf glyphs <$> glyphs.mapM (Glyph.value inner oracle scope)) ∧
    ∀ (text : String) (statements : List Statement),
      (readStatements text).result = .ok statements →
      ∀ name args inline, .command name args inline ∈ statements →
        WordsIn text.toList text.toList (name :: args) ∧
        ∀ {σ : Type} (oracle : Oracle σ) (vars env : Env) (x : σ),
          let words := (evaluateEach oracle (Scope.start vars env) (name :: args) x).value
          let argv := (expand oracle vars env (.command name args inline) x).value.argv
          words.length = (name :: args).length ∧ (∀ word ∈ words, word.length ≤ 1) ∧
            argv = words.flatten ∧ argv.length ≤ (name :: args).length := by
  refine ⟨fun inner next f place text q h => evaluate_of_wordIn h, ?_⟩
  intro text statements haccepted name args inline hmem
  have hwritten := words_of_accepted haccepted name args inline hmem
  refine ⟨hwritten, fun oracle vars env x => ?_⟩
  have hlength := length_evaluateEach oracle (Scope.start vars env) (name :: args) x
  have hone := length_le_of_mem_evaluateEach oracle (Scope.start vars env)
    (fun w hw y => length_evaluate_written oracle (Scope.start vars env) hwritten hw y) x
  have hargv := argv_expand oracle vars env name args inline x
  refine ⟨hlength, hone, hargv, ?_⟩
  rw [hargv, ← hlength]
  exact length_flatten_le hone

/-- A home directory, quotes, escapes, names and commands in one word. -/
def mixedWord : List Char :=
  "~/'a b'\\ \\\n\"$X`pwd`\"$\x7bY\x7d$(date)".toList

/-- What is read of it. -/
def mixedPieces : Pieces :=
  ⟨[.variable "HOME", .literal "/a b ", .variable "X",
    .substitution [.command (.literal "pwd") [] []], .parameter "Y",
    .substitution [.command (.literal "date") [] []]], [], true⟩

theorem evaluate_written_sample :
    wordIn? read none (Frame.before ⟨[], .start, []⟩ .plain) mixedWord = some mixedPieces ∧
      (∃ glyphs, (∀ others, Spells none .first mixedWord others ↔ others = glyphs) ∧
        ∀ arg, mixedPieces.word? = some arg →
          ∀ (oracle : Oracle Unit) (scope : Scope), evaluate oracle scope arg =
            Glyph.wordOf glyphs <$> glyphs.mapM (Glyph.value read oracle scope)) ∧
      (readStatements (String.ofList ("ls ".toList ++ mixedWord))).result =
        .ok [.command (.literal "ls") [.concat mixedPieces.parts] []] ∧
      ∀ (oracle : Oracle Unit) (vars env : Env) (x : Unit),
        (expand oracle vars env (.command (.literal "ls") [.concat mixedPieces.parts] []) x
          ).value.argv.length ≤ 2 := by
  have hread : wordIn? read none (Frame.before ⟨[], .start, []⟩ .plain) mixedWord =
      some mixedPieces := rfl
  have haccepted : (readStatements (String.ofList ("ls ".toList ++ mixedWord))).result =
      .ok [.command (.literal "ls") [.concat mixedPieces.parts] []] := rfl
  obtain ⟨glyphs, hspelling, -, hvalue⟩ := evaluate_written.1 _ _ _ _ _ _ hread
  refine ⟨hread, ⟨glyphs, hspelling, fun arg harg oracle scope => hvalue arg harg oracle scope⟩,
    haccepted, fun oracle vars env x => ?_⟩
  obtain ⟨-, hcommand⟩ :=
    evaluate_written.2 _ _ haccepted _ _ _ (List.mem_singleton.2 rfl)
  exact (hcommand oracle vars env x).2.2.2

end ScriptRunner
