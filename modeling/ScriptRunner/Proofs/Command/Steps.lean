import Mathlib.Tactic.SplitIfs
import ScriptRunner.Command.Reader

/-!
# ScriptRunner.Proofs.Command.Steps

What one character can do to the reader.

A character leads either to a position that it *opens*, which carries nothing collected so
far, or to one that *continues* the position before it, whose collected text it makes longer
(`step_at`). That says where a backslash can be the last thing read, when the reader can be in
a comment, and how long the text of a substitution can be; the theorems about whole texts read
these off here and not off the steps themselves.
-/

namespace ScriptRunner.Reader

/-! ## The step at each position -/

section Equations

variable (inner : List Char → Reading) (f : Frame) (name : String) (elements : List Word)
  (c : Char)

theorem step_gap : step inner (f.goTo .gap) c = stepGap f c := rfl

theorem step_comment :
    step inner (f.goTo .comment) c = if c = '\n' then stepGap f c else f.goTo .comment := rfl

theorem step_operator (redirection : Bool) (run : List Char) :
    step inner (f.goTo (.operator redirection run)) c =
      if isOperatorChar c then f.goTo (.operator redirection (run ++ [c]))
      else if redirection then f.refuse (.unsupportedRedirection (String.ofList run))
      else f.refuse (.unsupportedOperator (String.ofList run)) := rfl

theorem step_letters (text : List Char) :
    step inner (f.goTo (.letters text)) c =
      if isNameChar c then f.goTo (.letters (text ++ [c]))
      else if c = '=' then f.goTo (.valueStart (String.ofList text))
      else stepBare f .plain ⟨[], text, false⟩ c := rfl

theorem step_valueStart :
    step inner (f.goTo (.valueStart name)) c =
      if c = '(' then f.goTo (.arrayGap name [])
      else if isWordEnd c then stepGap (assigned f name (.literal "")) c
      else startWord f (.value name) c := rfl

theorem step_arrayGap :
    step inner (f.goTo (.arrayGap name elements)) c = stepArrayGap f name elements c := rfl

theorem step_arrayComment :
    step inner (f.goTo (.arrayComment name elements)) c =
      if c = '\n' then stepArrayGap f name elements c
      else f.goTo (.arrayComment name elements) := rfl

theorem step_arrayEnd :
    step inner (f.goTo (.arrayEnd name elements)) c =
      if isWordEnd c then stepGap (assigned f name (.array elements)) c
      else f.refuse (.unexpectedAfterArray c name) := rfl

theorem step_word (place : Place) (p : Pieces) (mode : Mode) :
    step inner (f.goTo (.word place p mode)) c = stepWord inner f place p mode c := rfl

end Equations

/-! ## What a character opens -/

/-- The modes that the character `c` can lead to from where nothing is being collected. -/
def Mode.OpenedBy (c : Char) : Mode → Prop
  | .escape => c = '\\'
  | .doubleEscape => c = '\\'
  | .braces _ _ text => text = []
  | .parens _ _ _ _ _ text => text = []
  | .backquote _ text => text = []
  | .backquoteEscape .. => False
  | _ => True

/-- The same for positions. -/
def Position.OpenedBy (c : Char) : Position → Prop
  | .comment => c = '#'
  | .arrayComment .. => c = '#'
  | .word _ _ mode => mode.OpenedBy c
  | _ => True

/-- The modes that the character `c` can lead to by being collected. -/
def Mode.ContinuedBy (c : Char) : Mode → Mode → Prop
  | .braces _ _ text, .braces _ _ text' => text' = text ++ [c]
  | .parens _ _ _ _ _ text, .parens _ _ _ _ _ text' => text' = text ++ [c]
  | .backquote _ text, .backquote _ text' => text' = text ++ [c]
  | .backquote _ text, .backquoteEscape _ text' => text' = text
  | .backquoteEscape _ text, .backquote _ text' => text' = text ++ [c] ∨ text' = text ++ ['\\', c]
  | _, _ => False

/-- The same for positions. -/
def Position.ContinuedBy (c : Char) : Position → Position → Prop
  | .comment, .comment => True
  | .arrayComment .., .arrayComment .. => True
  | .word _ _ mode, .word _ _ mode' => mode.ContinuedBy c mode'
  | _, _ => False

/-- The reader has stopped, or is in a position with the property. -/
def State.At (P : Position → Prop) : State → Prop
  | .running _ _ position _ => P position
  | .halted .. => True

theorem State.At.mono {P Q : Position → Prop} {s : State} (h : s.At P)
    (hsub : ∀ q, P q → Q q) : s.At Q := by
  cases s with
  | running done draft position ignored => exact hsub position h
  | halted halt ignored => exact True.intro

section Opening

variable (f : Frame) (place : Place) (p : Pieces) (c : Char)

theorem opened_stepWordChar : (stepWordChar f place p c).At (Position.OpenedBy c) := by
  rw [stepWordChar]
  split_ifs with hbackslash
  · exact hbackslash
  · exact True.intro
  · exact True.intro
  · exact True.intro
  · rfl
  · exact True.intro

theorem opened_startWord : (startWord f place c).At (Position.OpenedBy c) := by
  rw [startWord]
  split_ifs
  · exact True.intro
  · exact opened_stepWordChar f place Pieces.start c

theorem opened_stepGap : (stepGap f c).At (Position.OpenedBy c) := by
  rw [stepGap]
  split_ifs with _ _ hcomment
  · exact True.intro
  · exact True.intro
  · exact hcomment
  · exact True.intro
  · exact True.intro
  · exact True.intro
  · exact True.intro
  · exact True.intro
  · exact opened_startWord f .plain c

theorem opened_stepArrayGap (name : String) (elements : List Word) :
    (stepArrayGap f name elements c).At (Position.OpenedBy c) := by
  rw [stepArrayGap]
  split_ifs with _ _ hcomment
  · exact True.intro
  · exact True.intro
  · exact hcomment
  · exact True.intro
  · exact opened_startWord f (.element name elements) c

theorem opened_stepAfterWord : (stepAfterWord f place p c).At (Position.OpenedBy c) := by
  rw [stepAfterWord]
  split
  · exact opened_stepArrayGap _ c _ _
  · exact opened_stepGap _ c

theorem opened_stepBare : (stepBare f place p c).At (Position.OpenedBy c) := by
  rw [stepBare]
  split
  · exact opened_stepAfterWord f place p c
  · exact opened_stepWordChar f place p c

theorem opened_stepDouble : (stepDouble f place p c).At (Position.OpenedBy c) := by
  rw [stepDouble]
  split_ifs with _ hbackslash
  · exact True.intro
  · exact hbackslash
  · exact True.intro
  · rfl
  · exact True.intro

theorem opened_stepAfterExpansion (double : Bool) :
    (stepAfterExpansion double f place p c).At (Position.OpenedBy c) := by
  rw [stepAfterExpansion]
  split
  · exact opened_stepDouble f place p c
  · exact opened_stepBare f place p c

theorem opened_after (g : Frame) (q : Pieces) (double : Bool) :
    (g.inWord place q (Mode.after double)).At (Position.OpenedBy c) := by
  cases double <;> exact True.intro

theorem opened_endSubstitution (inner : List Char → Reading) (double : Bool) (text : List Char) :
    (endSubstitution inner double f place p text).At (Position.OpenedBy c) := by
  simp only [endSubstitution]
  split
  · exact opened_after place c _ _ double
  · exact opened_after place c _ _ double
  · exact True.intro

theorem opened_stepDollar (double : Bool) :
    (stepDollar double f place p c).At (Position.OpenedBy c) := by
  rw [stepDollar]
  split_ifs
  · rfl
  · rfl
  · exact True.intro
  · exact opened_after place c _ _ double
  · exact opened_stepAfterExpansion f place _ c double

end Opening

/-- What a character can do inside a word. -/
theorem stepWord_at (inner : List Char → Reading) (f : Frame) (place : Place) (p : Pieces)
    (mode : Mode) (c : Char) :
    (stepWord inner f place p mode c).At
      (fun q => q.OpenedBy c ∨ (Position.word place p mode).ContinuedBy c q) := by
  have hopened : ∀ {s : State}, s.At (Position.OpenedBy c) →
      s.At (fun q => q.OpenedBy c ∨ (Position.word place p mode).ContinuedBy c q) :=
    fun h => h.mono (fun _ => Or.inl)
  cases mode with
  | tilde =>
      rw [stepWord]
      split
      · exact hopened (opened_stepBare f place _ c)
      · exact hopened (opened_stepBare f place _ c)
  | bare => exact hopened (opened_stepBare f place p c)
  | escape => exact hopened True.intro
  | single =>
      rw [stepWord]
      split
      · exact hopened True.intro
      · exact hopened True.intro
  | double => exact hopened (opened_stepDouble f place p c)
  | doubleEscape =>
      rw [stepWord]
      split_ifs
      · exact hopened True.intro
      · exact hopened True.intro
      · exact hopened (opened_stepDouble f place _ c)
  | dollar double => exact hopened (opened_stepDollar f place p c double)
  | name double letters =>
      rw [stepWord]
      split
      · exact hopened True.intro
      · exact hopened (opened_stepAfterExpansion f place _ c double)
  | braces double depth text =>
      rw [stepWord, stepBraces]
      split_ifs
      · exact Or.inr rfl
      · exact hopened (opened_after place c _ _ double)
      · exact Or.inr rfl
      · exact Or.inr rfl
  | parens double depth inSingle inDouble escaped text =>
      -- only the parenthesis that closes the substitution ends the collecting
      simp only [stepWord, stepParens]
      split_ifs
      · exact Or.inr rfl
      · exact Or.inr rfl
      · exact Or.inr rfl
      · exact Or.inr rfl
      · exact Or.inr rfl
      · exact hopened (opened_endSubstitution f place p c inner double text)
      · exact Or.inr rfl
      · exact Or.inr rfl
  | backquote double text =>
      rw [stepWord]
      split_ifs
      · exact hopened (opened_endSubstitution f place p c inner double text)
      · exact Or.inr rfl
      · exact Or.inr rfl
  | backquoteEscape double text =>
      simp only [stepWord]
      split
      · exact Or.inr (Or.inl rfl)
      · exact Or.inr (Or.inr rfl)

/-- What a character can do. -/
theorem step_at (inner : List Char → Reading) (done : List Statement) (draft : Draft)
    (position : Position) (ignored : List IgnoredSubstitution) (c : Char) :
    (step inner (.running done draft position ignored) c).At
      (fun q => q.OpenedBy c ∨ position.ContinuedBy c q) := by
  have hopened : ∀ {s : State}, s.At (Position.OpenedBy c) →
      s.At (fun q => q.OpenedBy c ∨ position.ContinuedBy c q) :=
    fun h => h.mono (fun _ => Or.inl)
  cases position with
  | gap => exact hopened (opened_stepGap _ c)
  | comment =>
      rw [step]
      split
      · exact hopened (opened_stepGap _ c)
      · exact Or.inr True.intro
  | operator redirection run =>
      rw [step]
      split_ifs
      · exact hopened True.intro
      · exact hopened True.intro
      · exact hopened True.intro
  | letters text =>
      rw [step]
      split_ifs
      · exact hopened True.intro
      · exact hopened True.intro
      · exact hopened (opened_stepBare _ .plain _ c)
  | valueStart name =>
      rw [step]
      split_ifs
      · exact hopened True.intro
      · exact hopened (opened_stepGap _ c)
      · exact hopened (opened_startWord _ (.value name) c)
  | arrayGap name elements => exact hopened (opened_stepArrayGap _ c name elements)
  | arrayComment name elements =>
      rw [step]
      split
      · exact hopened (opened_stepArrayGap _ c name elements)
      · exact Or.inr True.intro
  | arrayEnd name elements =>
      rw [step]
      split
      · exact hopened (opened_stepGap _ c)
      · exact hopened True.intro
  | word place p mode => exact stepWord_at inner _ place p mode c

end ScriptRunner.Reader
