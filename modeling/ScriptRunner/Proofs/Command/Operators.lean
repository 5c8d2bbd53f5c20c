import ScriptRunner.Proofs.Command.Phase
import ScriptRunner.Proofs.Command.Trimming

/-!
# ScriptRunner.Proofs.Command.Operators

Operators of other shells are refused, wherever they would be read as such.

Pipelines, lists, redirections and groups are no part of the language. Their characters can only
stand where something shields them (`Position.Shields`): in quotes, after a backslash, in a
comment or in an expansion, and parentheses where they are those of an array or of an
expansion. Anywhere else such a character leaves the reader in a state from which every text
is refused (`refused_of_not_shields`), so no part of an accepted text was one of them by mistake.

After an accepted text and a space nothing shields a character (`refused_after_space`): whatever
the text ends with, the space leads out of it, or is itself the character a backslash escapes.

Main statement: `readStatements_operator`.
-/

namespace ScriptRunner.Reader

/-- The characters of the operators that other shells have. -/
def isUnsupported (c : Char) : Bool :=
  isOperatorChar c || c == '(' || c == ')'

theorem isUnsupported_iff {c : Char} :
    isUnsupported c = true ↔ c = '|' ∨ c = '&' ∨ c = '<' ∨ c = '>' ∨ c = '(' ∨ c = ')' := by
  simp [isUnsupported, isOperatorChar, or_assoc]

/-- An unsupported character ends a word, and has no meaning of its own in one. -/
theorem isWordEnd_of_isUnsupported {c : Char} (h : isUnsupported c = true) :
    isWordEnd c = true ∧ isNameStart c = false ∧ isNameChar c = false ∧
      isSpecialParameter c = false := by
  rcases isUnsupported_iff.1 h with rfl | rfl | rfl | rfl | rfl | rfl <;> decide

/-! ## Refusal -/

/-- The text is refused, whatever follows. -/
def State.IsRefused : State → Prop
  | .running _ _ (.operator ..) _ => True
  | .halted (.refused _) _ => True
  | _ => False

theorem State.IsRefused.step {s : State} (h : s.IsRefused) (inner : List Char → Reading)
    (c : Char) : (step inner s c).IsRefused := by
  match s, h with
  | .halted (.refused reason) ignored, _ => exact True.intro
  | .running done draft (.operator redirection run) ignored, _ =>
      rw [Reader.step]
      split
      · exact True.intro
      · cases redirection with
        | false => exact True.intro
        | true => exact True.intro

theorem State.IsRefused.foldl {s : State} (h : s.IsRefused) (inner : List Char → Reading)
    (text : List Char) : (text.foldl (Reader.step inner) s).IsRefused := by
  induction text generalizing s with
  | nil => exact h
  | cons c rest ih => exact ih (h.step inner c)

theorem State.IsRefused.finish {s : State} (h : s.IsRefused) :
    ∃ reason, (finish s).result = .error (.refused reason) := by
  match s, h with
  | .halted (.refused reason) ignored, _ => exact ⟨reason, rfl⟩
  | .running done draft (.operator true run) ignored, _ => exact ⟨_, rfl⟩
  | .running done draft (.operator false run) ignored, _ => exact ⟨_, rfl⟩

/-! ## What shields a character -/

/-- At this position the unsupported character `c` is a part of a quote, of a comment, of an
expansion or of an array, or a backslash escapes it. -/
def Position.Shields (c : Char) (q : Position) : Prop :=
  match q.phase with
  | .free quotes level dollar =>
      quotes ≠ .outside ∨ (c = '(' ∧ (dollar = true ∨ ∃ name, q = .valueStart name)) ∨
        (c = ')' ∧ level = 1)
  | .inside .. => True
  | .lost => False

section Refused

variable {f : Frame} {place : Place} {p : Pieces} {c : Char} (hc : isUnsupported c = true)

include hc

theorem refused_stepGap (f : Frame) : (stepGap f c).IsRefused := by
  rcases isUnsupported_iff.1 hc with rfl | rfl | rfl | rfl | rfl | rfl <;> exact True.intro

theorem refused_stepArrayGap (f : Frame) (name : String) (elements : List Word)
    (hclose : c ≠ ')') : (stepArrayGap f name elements c).IsRefused := by
  rcases isUnsupported_iff.1 hc with rfl | rfl | rfl | rfl | rfl | rfl
  case inr.inr.inr.inr.inr => exact absurd rfl hclose
  all_goals exact True.intro

theorem refused_stepBare (hclose : ¬ (c = ')' ∧ place.level = 1)) :
    (stepBare f place p c).IsRefused := by
  rw [stepBare, if_pos (isWordEnd_of_isUnsupported hc).1, stepAfterWord]
  cases place with
  | plain =>
      rw [endWord]
      split
      · next heq => split at heq <;> cases heq
      · exact refused_stepGap hc _
  | value name => exact refused_stepGap hc _
  | element name elements =>
      exact refused_stepArrayGap hc _ _ _ (fun heq => hclose ⟨heq, rfl⟩)

theorem refused_stepAfterExpansion (hclose : ¬ (c = ')' ∧ place.level = 1)) :
    (stepAfterExpansion false f place p c).IsRefused :=
  refused_stepBare hc hclose

/-- Inside a word, an unsupported character that nothing shields. -/
theorem refused_stepWord (inner : List Char → Reading) {mode : Mode}
    (h : ¬ (Position.word place p mode).Shields c) :
    (stepWord inner f place p mode c).IsRefused := by
  obtain ⟨hend, hstart, hname, hspecial⟩ := isWordEnd_of_isUnsupported hc
  cases mode with
  | tilde =>
      rw [stepWord, if_pos (Or.inr hend)]
      exact refused_stepBare hc (fun hclose => h (Or.inr (Or.inr hclose)))
  | bare => exact refused_stepBare hc (fun hclose => h (Or.inr (Or.inr hclose)))
  | dollar double =>
      cases double with
      | true => exact absurd (Or.inl (by decide)) h
      | false =>
          have hopen : c ≠ '(' := fun heq => h (Or.inr (Or.inl ⟨heq, Or.inl rfl⟩))
          have hbrace : c ≠ '\x7b' := by
            rintro rfl
            cases hc
          rw [stepWord, stepDollar, if_neg hbrace, if_neg hopen, if_neg (by simp [hstart]),
            if_neg (by simp [hspecial])]
          exact refused_stepAfterExpansion hc (fun hclose => h (Or.inr (Or.inr hclose)))
  | name double letters =>
      cases double with
      | true => exact absurd (Or.inl (by decide)) h
      | false =>
          rw [stepWord, if_neg (by simp [hname])]
          exact refused_stepAfterExpansion hc (fun hclose => h (Or.inr (Or.inr hclose)))
  | escape => exact absurd (Or.inl (by decide)) h
  | single => exact absurd (Or.inl (by decide)) h
  | double => exact absurd (Or.inl (by decide)) h
  | doubleEscape => exact absurd (Or.inl (by decide)) h
  | _ => exact absurd True.intro h

/-- Where nothing shields it, an unsupported character has the text refused. -/
theorem refused_of_not_shields (inner : List Char → Reading) {q : Position} (h : ¬ q.Shields c) :
    (step inner (f.goTo q) c).IsRefused := by
  obtain ⟨hend, hstart, hname, hspecial⟩ := isWordEnd_of_isUnsupported hc
  cases q with
  | gap => exact refused_stepGap hc f
  | comment => exact absurd True.intro h
  | operator redirection run =>
      have hrefused : (f.goTo (.operator redirection run)).IsRefused := True.intro
      exact hrefused.step inner c
  | letters text =>
      have hequals : c ≠ '=' := by
        rintro rfl
        cases hc
      rw [step_letters, if_neg (by simp [hname]), if_neg hequals]
      exact refused_stepBare hc (fun hclose => h (Or.inr (Or.inr hclose)))
  | valueStart name =>
      have hopen : c ≠ '(' := fun heq => h (Or.inr (Or.inl ⟨heq, Or.inr ⟨name, rfl⟩⟩))
      rw [step_valueStart, if_neg hopen, if_pos hend]
      exact refused_stepGap hc _
  | arrayGap name elements =>
      exact refused_stepArrayGap hc f name elements
        (fun hclose => h (Or.inr (Or.inr ⟨hclose, rfl⟩)))
  | arrayComment name elements => exact absurd True.intro h
  | arrayEnd name elements =>
      rw [step_arrayEnd, if_pos hend]
      exact refused_stepGap hc _
  | word place p mode => exact refused_stepWord hc inner h

end Refused

/-- In an accepted text every unsupported character is shielded. -/
theorem shields_of_accepted {before after : List Char} {c : Char} {statements : List Statement}
    (h : (read (before ++ c :: after)).result = .ok statements) (hc : isUnsupported c = true) :
    ∃ (f : Frame) (q : Position),
      before.foldl (step read) State.start = f.goTo q ∧ q.Shields c := by
  rw [read_eq, readWith, List.foldl_append, List.foldl_cons] at h
  cases hs : before.foldl (step read) State.start with
  | halted halt ignored =>
      rw [hs] at h
      replace h : (finish (after.foldl (step read) (.halted halt ignored))).result = _ := h
      rw [foldl_halted] at h
      cases h
  | running done draft q ignored =>
      refine ⟨⟨done, draft, ignored⟩, q, rfl, ?_⟩
      rw [hs] at h
      by_contra hnot
      have hrefused : (step read (.running done draft q ignored) c).IsRefused :=
        refused_of_not_shields (f := ⟨done, draft, ignored⟩) hc read hnot
      obtain ⟨reason, hreason⟩ := (hrefused.foldl read after).finish
      rw [hreason] at h
      cases h

/-! ## After an accepted text -/

section Space

variable {f : Frame} {place : Place} {p : Pieces} {statements : List Statement}

/-- A space after a word of a statement leads out of it. -/
theorem stepAfterWord_space (h : (finishWord f place p).result = .ok statements) :
    ∃ g : Frame, stepAfterWord f place p ' ' = g.goTo .gap := by
  rw [finishWord] at h
  rw [stepAfterWord]
  rcases hend : endWord f place p with ⟨g, position⟩
  rw [hend] at h
  cases position with
  | arrayGap name elements => cases h
  | _ => exact ⟨g, rfl⟩

theorem stepAfterExpansion_space {double : Bool}
    (h : (finishExpansion double f place p).result = .ok statements) :
    ∃ g : Frame, stepAfterExpansion double f place p ' ' = g.goTo .gap := by
  cases double with
  | true => cases h
  | false => exact stepAfterWord_space h

/-- A space after an accepted text leads out of it, or is escaped. -/
theorem step_space_accepted (inner : List Char → Reading) {s : State}
    (hcomment : s.At (· ≠ .comment)) (h : (finish s).result = .ok statements) :
    ∃ g : Frame, step inner s ' ' = g.goTo .gap ∨
      ∃ place p, place.level = 0 ∧ step inner s ' ' = g.inWord place p .bare := by
  have hleads : ∀ {t : State}, (∃ g : Frame, t = g.goTo .gap) →
      ∃ g : Frame, t = g.goTo .gap ∨ ∃ place p, place.level = 0 ∧ t = g.inWord place p .bare :=
    fun ⟨g, hg⟩ => ⟨g, Or.inl hg⟩
  cases s with
  | halted halt ignored => cases h
  | running done draft position ignored =>
      cases position with
      | gap => exact hleads ⟨⟨done, draft, ignored⟩, rfl⟩
      | comment => exact absurd rfl hcomment
      | operator redirection run => cases redirection <;> cases h
      | letters text => exact hleads (stepAfterWord_space h)
      | valueStart name => exact hleads ⟨_, rfl⟩
      | arrayGap name elements => cases h
      | arrayComment name elements => cases h
      | arrayEnd name elements => exact hleads ⟨_, rfl⟩
      | word place p mode =>
          cases mode with
          | tilde => exact hleads (stepAfterWord_space h)
          | bare => exact hleads (stepAfterWord_space h)
          | escape =>
              have hlevel : place.level = 0 := by
                cases place with
                | element name elements => cases h
                | _ => rfl
              exact ⟨⟨done, draft, ignored⟩, Or.inr ⟨place, p.addChar ' ', hlevel, rfl⟩⟩
          | dollar double => exact hleads (stepAfterExpansion_space h)
          | name double letters => exact hleads (stepAfterExpansion_space h)
          -- In every other mode something is still open, and the text is not accepted.
          | _ => cases h

end Space

/-- After an accepted text and a space an unsupported character has the text refused. -/
theorem refused_after_space (inner : List Char → Reading) {s : State} {c : Char}
    {statements : List Statement} (hc : isUnsupported c = true) (hcomment : s.At (· ≠ .comment))
    (h : (finish s).result = .ok statements) :
    (step inner (step inner s ' ') c).IsRefused := by
  obtain ⟨g, hgap | ⟨place, p, hlevel, hbare⟩⟩ := step_space_accepted inner hcomment h
  · rw [hgap]
    refine refused_of_not_shields hc inner (fun hshields => ?_)
    rcases hshields with hquotes | ⟨-, hdollar | ⟨name, hname⟩⟩ | ⟨-, hlevel⟩
    · exact hquotes rfl
    · cases hdollar
    · cases hname
    · cases hlevel
  · rw [hbare]
    refine refused_of_not_shields hc inner (fun hshields => ?_)
    rcases hshields with hquotes | ⟨-, hdollar | ⟨name, hname⟩⟩ | ⟨-, hone⟩
    · exact hquotes rfl
    · cases hdollar
    · cases hname
    · exact absurd (hlevel.symm.trans hone) (by decide)

end ScriptRunner.Reader

namespace ScriptRunner

open Reader

/-- Operators of other shells are never swallowed. After an accepted text without comments and a
space, each of their characters has the text refused, whatever follows; and an accepted text has
such a character only where something shields it. -/
theorem readStatements_operator {text : String} {statements : List Statement}
    (haccepted : (readStatements text).result = .ok statements) :
    ('#' ∉ text.toList → ∀ (c : Char) (rest : String), isUnsupported c = true →
      ∃ reason, (readStatements (text ++ " " ++ c.toString ++ rest)).result =
        .error (.refused reason)) ∧
    ∀ (before after : List Char) (c : Char), text.toList = before ++ c :: after →
      isUnsupported c = true →
      ∃ (f : Frame) (q : Position),
        before.foldl (step read) State.start = f.goTo q ∧ q.Shields c := by
  rw [readStatements] at haccepted
  refine ⟨fun hcomments c rest hc => ?_, fun before after c htext hc => ?_⟩
  · rw [read_eq] at haccepted
    have hcomment : (text.toList.foldl (step read) State.start).At (· ≠ .comment) :=
      foldl_step_not_comment read Position.noConfusion hcomments
    have hrefused := (refused_after_space read hc hcomment haccepted).foldl read rest.toList
    have htext : (text ++ " " ++ c.toString ++ rest).toList =
        text.toList ++ ' ' :: c :: rest.toList := by
      simp [String.toList_append, Char.toString]
    rw [readStatements, read_eq, readWith, htext, List.foldl_append]
    exact hrefused.finish
  · rw [htext] at haccepted
    exact shields_of_accepted haccepted hc

/-- Unsupported characters in quotes, after a backslash, in an array and in expansions, and a
backslash at the end. -/
def shieldingText : String :=
  "A=('(' b) B= x \"<\" \\| $(y ')' & z) $\x7bC:-(\x7d ~/\\"

/-- What it reads as; the substitution is refused, and contributes nothing. -/
def shieldingStatements : List Statement :=
  [.command (.literal "x")
    [.literal "<", .literal "|", .substitution [], .parameter "C:-(",
      .concat [.variable "HOME", .literal "/\\"]]
    [.mk "A" (.array [.literal "(", .literal "b"]), .mk "B" (.literal "")]]

theorem readStatements_operator_sample :
    (readStatements shieldingText).result = .ok shieldingStatements ∧ '#' ∉ shieldingText.toList ∧
      (∃ reason, (readStatements (shieldingText ++ " " ++ "|" ++ "cat '")).result =
        .error (.refused reason)) ∧
      ∃ (f : Frame) (q : Position),
        "A=('".toList.foldl (step read) State.start = f.goTo q ∧ q.Shields '(' := by
  have haccepted : (readStatements shieldingText).result = .ok shieldingStatements := rfl
  have hcomments : '#' ∉ shieldingText.toList := by decide
  obtain ⟨hafter, hinside⟩ := readStatements_operator haccepted
  exact ⟨haccepted, hcomments, hafter hcomments '|' "cat '" rfl,
    hinside "A=('".toList (shieldingText.toList.drop 5) '(' rfl rfl⟩

end ScriptRunner
