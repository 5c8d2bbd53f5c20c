import Mathlib.Data.List.Induction
import ScriptRunner.Proofs.Command.Depth

/-!
# ScriptRunner.Proofs.Command.Composition

Texts one after the other.

Two facts make the reading of `first`, a separator and `second` fall apart into the two readings.
Finished statements and warnings are only ever added to, so what is *behind* the reader has no
part in what it does next (`step_behind`). And where a text can be accepted at its end, a separator
is read like that end: it leaves nothing of the text in the reader but its statements
(`step_separator`). Two places are apart from this: after a backslash a separator is escaped, and
in a comment a semicolon is a character like others (`foldl_step_endsAt`).

Main statement: `readStatements_separated`.
-/

namespace ScriptRunner

/-- The reading with other statements and warnings before its own. -/
def Reading.behind (r : Reading) (done : List Statement) (ignored : List IgnoredSubstitution) :
    Reading :=
  ⟨r.result.map (done ++ ·), ignored ++ r.ignored⟩

namespace Reader

/-! ## What is behind the reader -/

/-- The frame with other statements and warnings before its own. -/
def Frame.behind (f : Frame) (done : List Statement) (ignored : List IgnoredSubstitution) : Frame :=
  ⟨done ++ f.done, f.draft, ignored ++ f.ignored⟩

/-- The state with other statements and warnings before its own. -/
def State.behind (s : State) (done : List Statement) (ignored : List IgnoredSubstitution) :
    State :=
  match s with
  | .running done' draft position ignored' =>
      .running (done ++ done') draft position (ignored ++ ignored')
  | .halted halt ignored' => .halted halt (ignored ++ ignored')

section Behind

variable (done : List Statement) (ignored : List IgnoredSubstitution) (f : Frame) (place : Place)
  (p : Pieces) (c : Char)

@[simp] theorem goTo_behind (position : Position) :
    (f.behind done ignored).goTo position = (f.goTo position).behind done ignored := rfl

@[simp] theorem inWord_behind (mode : Mode) :
    (f.behind done ignored).inWord place p mode = (f.inWord place p mode).behind done ignored := rfl

@[simp] theorem refuse_behind (reason : SyntaxError) :
    (f.behind done ignored).refuse reason = (f.refuse reason).behind done ignored := rfl

@[simp] theorem draft_behind : (f.behind done ignored).draft = f.draft := rfl

@[simp] theorem ite_behind (P : Prop) [Decidable P] (s t : State) :
    (if P then s else t).behind done ignored =
      if P then s.behind done ignored else t.behind done ignored := by
  split <;> rfl

@[simp] theorem endStatement_behind :
    (f.behind done ignored).endStatement = f.endStatement.behind done ignored := by
  simp [Frame.endStatement, Frame.behind]

@[simp] theorem assigned_behind (name : String) (value : Word) :
    assigned (f.behind done ignored) name value = (assigned f name value).behind done ignored := rfl

@[simp] theorem stepWordChar_behind :
    stepWordChar (f.behind done ignored) place p c =
      (stepWordChar f place p c).behind done ignored := by
  simp only [stepWordChar, inWord_behind, ite_behind]

@[simp] theorem startWord_behind :
    startWord (f.behind done ignored) place c = (startWord f place c).behind done ignored := by
  simp only [startWord, stepWordChar_behind, inWord_behind, ite_behind]

@[simp] theorem stepGap_behind :
    stepGap (f.behind done ignored) c = (stepGap f c).behind done ignored := by
  simp only [stepGap, endStatement_behind, startWord_behind, goTo_behind, refuse_behind,
    draft_behind, ite_behind]
  rfl

@[simp] theorem stepArrayGap_behind (name : String) (elements : List Word) :
    stepArrayGap (f.behind done ignored) name elements c =
      (stepArrayGap f name elements c).behind done ignored := by
  simp only [stepArrayGap, startWord_behind, goTo_behind, refuse_behind, ite_behind]

@[simp] theorem endWord_behind :
    endWord (f.behind done ignored) place p =
      ((endWord f place p).1.behind done ignored, (endWord f place p).2) := by
  cases place with
  | plain =>
      simp only [endWord]
      cases p.word? <;> rfl
  | value name => rfl
  | element name elements => rfl

@[simp] theorem stepAfterWord_behind :
    stepAfterWord (f.behind done ignored) place p c =
      (stepAfterWord f place p c).behind done ignored := by
  rw [stepAfterWord, stepAfterWord, endWord_behind]
  obtain ⟨g, position⟩ := endWord f place p
  cases position with
  | arrayGap name elements => exact stepArrayGap_behind done ignored g c name elements
  | _ => exact stepGap_behind done ignored g c

@[simp] theorem stepBare_behind :
    stepBare (f.behind done ignored) place p c = (stepBare f place p c).behind done ignored := by
  simp only [stepBare, stepAfterWord_behind, stepWordChar_behind, ite_behind]

@[simp] theorem stepDouble_behind :
    stepDouble (f.behind done ignored) place p c =
      (stepDouble f place p c).behind done ignored := by
  simp only [stepDouble, inWord_behind, ite_behind]

@[simp] theorem stepAfterExpansion_behind (double : Bool) :
    stepAfterExpansion double (f.behind done ignored) place p c =
      (stepAfterExpansion double f place p c).behind done ignored := by
  simp only [stepAfterExpansion, stepDouble_behind, stepBare_behind, ite_behind]

@[simp] theorem endSubstitution_behind (inner : List Char → Reading) (double : Bool)
    (text : List Char) :
    endSubstitution inner double (f.behind done ignored) place p text =
      (endSubstitution inner double f place p text).behind done ignored := by
  simp only [endSubstitution, Frame.behind, List.append_assoc]
  split <;> simp [State.behind, Frame.inWord, Frame.goTo]

@[simp] theorem stepDollar_behind (double : Bool) :
    stepDollar double (f.behind done ignored) place p c =
      (stepDollar double f place p c).behind done ignored := by
  simp only [stepDollar, inWord_behind, stepAfterExpansion_behind, ite_behind]

@[simp] theorem stepBraces_behind (double : Bool) (depth : Nat) (text : List Char) :
    stepBraces double depth text (f.behind done ignored) place p c =
      (stepBraces double depth text f place p c).behind done ignored := by
  simp only [stepBraces, inWord_behind, ite_behind]

@[simp] theorem stepParens_behind (inner : List Char → Reading) (double : Bool) (depth : Nat)
    (inSingle inDouble escaped : Bool) (text : List Char) :
    stepParens inner double depth inSingle inDouble escaped text (f.behind done ignored) place p c =
      (stepParens inner double depth inSingle inDouble escaped text f place p c).behind
        done ignored := by
  simp only [stepParens, inWord_behind, endSubstitution_behind, ite_behind]

@[simp] theorem stepWord_behind (inner : List Char → Reading) (mode : Mode) :
    stepWord inner (f.behind done ignored) place p mode c =
      (stepWord inner f place p mode c).behind done ignored := by
  cases mode <;>
    simp only [stepWord, inWord_behind, stepBare_behind, stepDouble_behind, stepDollar_behind,
      stepAfterExpansion_behind, stepBraces_behind, stepParens_behind, endSubstitution_behind,
      ite_behind]

/-- What is behind the reader makes no difference to a character. -/
theorem step_behind (inner : List Char → Reading) (s : State) :
    step inner (s.behind done ignored) c = (step inner s c).behind done ignored := by
  cases s with
  | halted halt ignored' => rfl
  | running done' draft position ignored' =>
      let f : Frame := ⟨done', draft, ignored'⟩
      have hrunning : step inner ((f.behind done ignored).goTo position) c =
          (step inner (f.goTo position) c).behind done ignored := by
        cases position with
        | gap => exact stepGap_behind done ignored f c
        | comment =>
            rw [step_comment, step_comment]
            simp only [stepGap_behind, goTo_behind, ite_behind]
        | operator redirection run =>
            rw [step_operator, step_operator]
            simp only [goTo_behind, refuse_behind, ite_behind]
        | letters text =>
            rw [step_letters, step_letters]
            simp only [stepBare_behind, goTo_behind, ite_behind]
        | valueStart name =>
            rw [step_valueStart, step_valueStart]
            simp only [stepGap_behind, startWord_behind, assigned_behind, goTo_behind, ite_behind]
        | arrayGap name elements => exact stepArrayGap_behind done ignored f c name elements
        | arrayComment name elements =>
            rw [step_arrayComment, step_arrayComment]
            simp only [stepArrayGap_behind, goTo_behind, ite_behind]
        | arrayEnd name elements =>
            rw [step_arrayEnd, step_arrayEnd]
            simp only [stepGap_behind, assigned_behind, refuse_behind, ite_behind]
        | word place p mode => exact stepWord_behind done ignored f place p c inner mode
      exact hrunning

theorem foldl_step_behind (inner : List Char → Reading) (s : State) (text : List Char) :
    text.foldl (step inner) (s.behind done ignored) =
      (text.foldl (step inner) s).behind done ignored := by
  induction text generalizing s with
  | nil => rfl
  | cons c rest ih => rw [List.foldl_cons, List.foldl_cons, step_behind, ih]

@[simp] theorem refusal_behind (reason : SyntaxError) :
    refusal (f.behind done ignored) reason = (refusal f reason).behind done ignored := rfl

@[simp] theorem complete_behind :
    complete (f.behind done ignored) = (complete f).behind done ignored := by
  rw [complete, endStatement_behind]
  rfl

@[simp] theorem ite_reading_behind (P : Prop) [Decidable P] (r r' : Reading) :
    (if P then r else r').behind done ignored =
      if P then r.behind done ignored else r'.behind done ignored := by
  split <;> rfl

@[simp] theorem finishWord_behind :
    finishWord (f.behind done ignored) place p = (finishWord f place p).behind done ignored := by
  rw [finishWord, finishWord, endWord_behind]
  obtain ⟨g, position⟩ := endWord f place p
  cases position with
  | arrayGap name elements => rfl
  | _ => exact complete_behind done ignored g

@[simp] theorem finishExpansion_behind (double : Bool) :
    finishExpansion double (f.behind done ignored) place p =
      (finishExpansion double f place p).behind done ignored := by
  simp only [finishExpansion, refusal_behind, finishWord_behind, ite_reading_behind]

/-- Nor to the end of the text. -/
theorem finish_behind (s : State) :
    finish (s.behind done ignored) = (finish s).behind done ignored := by
  cases s with
  | halted halt ignored' => rfl
  | running done' draft position ignored' =>
      let f : Frame := ⟨done', draft, ignored'⟩
      cases position with
      | gap => exact complete_behind done ignored f
      | comment => exact complete_behind done ignored f
      | operator redirection run => cases redirection <;> rfl
      | letters text => exact finishWord_behind done ignored f .plain ⟨[], text, false⟩
      | valueStart name => exact complete_behind done ignored (assigned f name (.literal ""))
      | arrayGap name elements => rfl
      | arrayComment name elements => rfl
      | arrayEnd name elements =>
          exact complete_behind done ignored (assigned f name (.array elements))
      | word place p mode =>
          cases mode with
          | tilde => exact finishWord_behind done ignored f place _
          | bare => exact finishWord_behind done ignored f place p
          | escape => exact finishWord_behind done ignored f place _
          | dollar double => exact finishExpansion_behind done ignored f place _ double
          | name double letters => exact finishExpansion_behind done ignored f place _ double
          | _ => rfl

end Behind

/-! ## A separator after an accepted text -/

/-- The characters that end a statement. -/
def IsSeparator (c : Char) : Prop := c = ';' ∨ c = '\n'

theorem IsSeparator.isWordEnd {c : Char} (h : IsSeparator c) : isWordEnd c = true := by
  rcases h with rfl | rfl <;> rfl

theorem IsSeparator.not_isNameChar {c : Char} (h : IsSeparator c) : isNameChar c = false := by
  rcases h with rfl | rfl <;> rfl

/-- The separator `c` ends the statement at this position: it is not escaped there, and is not part
of a comment. -/
def Position.EndsAt (c : Char) : Position → Prop
  | .comment => c = '\n'
  | .word _ _ .escape => False
  | _ => True

section Separator

variable {f : Frame} {place : Place} {p : Pieces} {c : Char} {statements : List Statement}

theorem complete_separator (hc : IsSeparator c) (h : (complete f).result = .ok statements) :
    stepGap f c = State.start.behind statements (complete f).ignored := by
  have hdone : f.endStatement.done = statements := Except.ok.inj h
  have hend : stepGap f c = f.endStatement.goTo .gap := by
    rcases hc with rfl | rfl <;> rfl
  rw [hend, ← hdone, State.start, State.behind, List.append_nil, List.append_nil]
  rfl

theorem stepAfterWord_separator (hc : IsSeparator c)
    (h : (finishWord f place p).result = .ok statements) :
    stepAfterWord f place p c = State.start.behind statements (finishWord f place p).ignored := by
  rw [stepAfterWord]
  rw [finishWord] at h ⊢
  rcases hend : endWord f place p with ⟨g, position⟩
  rw [hend] at h
  cases position with
  | arrayGap name elements => cases h
  | _ => exact complete_separator hc h

theorem stepBare_separator (hc : IsSeparator c)
    (h : (finishWord f place p).result = .ok statements) :
    stepBare f place p c = State.start.behind statements (finishWord f place p).ignored := by
  rw [stepBare, if_pos hc.isWordEnd]
  exact stepAfterWord_separator hc h

theorem stepAfterExpansion_separator {double : Bool} (hc : IsSeparator c)
    (h : (finishExpansion double f place p).result = .ok statements) :
    stepAfterExpansion double f place p c =
      State.start.behind statements (finishExpansion double f place p).ignored := by
  cases double with
  | false => exact stepBare_separator hc h
  | true => cases h

theorem stepWord_separator (inner : List Char → Reading) {mode : Mode} (hc : IsSeparator c)
    (hmode : (Position.word place p mode).EndsAt c)
    (h : (finish (f.inWord place p mode)).result = .ok statements) :
    stepWord inner f place p mode c =
      State.start.behind statements (finish (f.inWord place p mode)).ignored := by
  cases mode with
  | tilde =>
      rw [stepWord, if_pos (Or.inr hc.isWordEnd)]
      exact stepBare_separator hc h
  | bare => exact stepBare_separator hc h
  | escape => exact hmode.elim
  | dollar double =>
      have hdollar : stepDollar double f place p c =
          stepAfterExpansion double f place (p.addChar '$') c := by
        rcases hc with rfl | rfl <;> rfl
      rw [stepWord, hdollar]
      exact stepAfterExpansion_separator hc h
  | name double letters =>
      rw [stepWord, if_neg (by simp [hc.not_isNameChar])]
      exact stepAfterExpansion_separator hc h
  -- In every other mode something is still open, and the text is not accepted.
  | _ => cases h

/-- A separator after an accepted text leads back to the start, with the statements of that text
behind. -/
theorem step_separator (inner : List Char → Reading) {s : State} (hc : IsSeparator c)
    (hs : s.At (Position.EndsAt c)) (h : (finish s).result = .ok statements) :
    step inner s c = State.start.behind statements (finish s).ignored := by
  cases s with
  | halted halt ignored => cases h
  | running done draft position ignored =>
      cases position with
      | gap => exact complete_separator hc h
      | comment =>
          -- A semicolon would be a part of the comment.
          have hline : c = '\n' := hs
          rw [step, if_pos hline]
          exact complete_separator hc h
      | operator redirection run => cases redirection <;> cases h
      | letters text =>
          have hequals : c ≠ '=' := by rcases hc with rfl | rfl <;> decide
          rw [step, if_neg (by simp [hc.not_isNameChar]), if_neg hequals]
          exact stepBare_separator hc h
      | valueStart name =>
          have hopen : c ≠ '(' := by rcases hc with rfl | rfl <;> decide
          rw [step, if_neg hopen, if_pos hc.isWordEnd]
          exact complete_separator hc h
      | arrayGap name elements => cases h
      | arrayComment name elements => cases h
      | arrayEnd name elements =>
          rw [step, if_pos hc.isWordEnd]
          exact complete_separator hc h
      | word place p mode => exact stepWord_separator inner hc hs h

end Separator

/-! ## Where a text can end -/

section Ends

variable (inner : List Char → Reading)

/-- Only a backslash leaves the reader about to escape the next character. -/
theorem step_not_escape (s : State) {c : Char} (hc : c ≠ '\\') :
    (step inner s c).At (fun q => ∀ place p, q ≠ .word place p .escape) := by
  cases s with
  | halted halt ignored => exact True.intro
  | running done draft position ignored =>
      refine (step_at inner done draft position ignored c).mono ?_
      rintro q (hopened | hcontinued) place p rfl
      · exact hc hopened
      · cases position with
        | word place' p' mode => cases mode <;> exact hcontinued.elim
        | _ => exact hcontinued.elim

theorem foldl_step_not_escape {text : List Char} (h : text.getLast? ≠ some '\\') :
    (text.foldl (step inner) State.start).At (fun q => ∀ place p, q ≠ .word place p .escape) := by
  cases text using List.reverseRecOn with
  | nil => exact fun place p => Position.noConfusion
  | append_singleton init c =>
      rw [List.foldl_append, List.foldl_cons, List.foldl_nil]
      rw [List.getLast?_concat] at h
      exact step_not_escape inner _ (fun hc => h (congrArg some hc))

/-- Only a `#` leads into a comment. -/
theorem step_not_comment {s : State} (hs : s.At (· ≠ .comment)) {c : Char} (hc : c ≠ '#') :
    (step inner s c).At (· ≠ .comment) := by
  cases s with
  | halted halt ignored => exact True.intro
  | running done draft position ignored =>
      refine (step_at inner done draft position ignored c).mono ?_
      rintro q (hopened | hcontinued) rfl
      · exact hc hopened
      · cases position with
        | comment => exact hs rfl
        | _ => exact hcontinued.elim

theorem foldl_step_not_comment {s : State} (hs : s.At (· ≠ .comment)) {text : List Char}
    (h : '#' ∉ text) : (text.foldl (step inner) s).At (· ≠ .comment) := by
  induction text generalizing s with
  | nil => exact hs
  | cons c rest ih =>
      rw [List.mem_cons, not_or] at h
      exact ih (step_not_comment inner hs (Ne.symm h.1)) h.2

/-- After a text without a final backslash the reader is not about to escape anything, and after
one without `#` it is in no comment. -/
theorem foldl_step_endsAt {c : Char} {text : List Char} (hlast : text.getLast? ≠ some '\\')
    (hc : c = '\n' ∨ '#' ∉ text) :
    (text.foldl (step inner) State.start).At (Position.EndsAt c) := by
  have hescape := foldl_step_not_escape inner hlast
  have hcomment : '#' ∉ text → (text.foldl (step inner) State.start).At (· ≠ .comment) :=
    foldl_step_not_comment inner (s := State.start) Position.noConfusion
  cases hs : text.foldl (step inner) State.start with
  | halted halt ignored => exact True.intro
  | running done draft position ignored =>
      rw [hs] at hescape hcomment
      cases position with
      | comment => exact hc.resolve_right (fun hhash => hcomment hhash rfl)
      | word place p mode =>
          cases mode with
          | escape => exact hescape place p rfl
          | _ => exact True.intro
      | _ => exact True.intro

end Ends

theorem readWith_append_separator (inner : List Char → Reading) {c : Char} {first : List Char}
    {statements : List Statement} (second : List Char) (hc : IsSeparator c)
    (haccepted : (readWith inner first).result = .ok statements)
    (hlast : first.getLast? ≠ some '\\') (hcomment : c = '\n' ∨ '#' ∉ first) :
    readWith inner (first ++ c :: second) =
      (readWith inner second).behind statements (readWith inner first).ignored := by
  have hends := foldl_step_endsAt inner hlast hcomment
  rw [readWith, List.foldl_append, List.foldl_cons, step_separator inner hc hends haccepted,
    foldl_step_behind, finish_behind]
  rfl

end Reader

/-- Two texts one after the other, with a separator between them. -/
theorem readStatements_separated {first : String} {statements : List Statement}
    (haccepted : (readStatements first).result = .ok statements)
    (hlast : first.toList.getLast? ≠ some '\\') (second : String) :
    readStatements (first ++ "\n" ++ second) =
        ⟨(readStatements second).result.map (statements ++ ·),
          (readStatements first).ignored ++ (readStatements second).ignored⟩ ∧
      ('#' ∉ first.toList →
        readStatements (first ++ ";" ++ second) =
          ⟨(readStatements second).result.map (statements ++ ·),
            (readStatements first).ignored ++ (readStatements second).ignored⟩) := by
  rw [readStatements, Reader.read_eq] at haccepted
  have hjoin : ∀ c : Char, Reader.IsSeparator c → (c = '\n' ∨ '#' ∉ first.toList) →
      Reader.read (first.toList ++ c :: second.toList) =
        (readStatements second).behind statements (readStatements first).ignored := by
    intro c hc hcomment
    -- The same inner reader serves both texts and the whole, however deep each of them is.
    rw [readStatements, readStatements, Reader.read_eq first.toList, Reader.read_eq second.toList,
      Reader.read_eq]
    exact Reader.readWith_append_separator Reader.read second.toList hc haccepted hlast hcomment
  constructor
  · rw [readStatements, String.toList_append, String.toList_append, List.append_assoc]
    exact hjoin '\n' (Or.inr rfl) (Or.inl rfl)
  · intro hhash
    rw [readStatements, String.toList_append, String.toList_append, List.append_assoc]
    exact hjoin ';' (Or.inl rfl) (Or.inr hhash)

/-- The first text ends with a dollar sign, which the separator leaves as it is. A second text is
accepted with a substitution that is ignored, another is refused. -/
theorem readStatements_separated_sample :
    (readStatements "A=~; run \"$B\" $").result = .ok
        [.assign [.mk "A" (.variable "HOME")],
          .command (.literal "run") [.concat [.literal "", .variable "B"], .literal "$"] []] ∧
      "A=~; run \"$B\" $".toList.getLast? ≠ some '\\' ∧ '#' ∉ "A=~; run \"$B\" $".toList ∧
      readStatements ("A=~; run \"$B\" $" ++ "\n" ++ "$(|)") =
        ⟨.ok
          [.assign [.mk "A" (.variable "HOME")],
            .command (.literal "run") [.concat [.literal "", .variable "B"], .literal "$"] [],
            .command (.substitution []) [] []], [⟨"|", .unsupportedOperator "|"⟩]⟩ ∧
      readStatements ("A=~; run \"$B\" $" ++ ";" ++ "'open") =
        ⟨.error (.refused .unterminatedSingleQuote), []⟩ := by
  have haccepted : (readStatements "A=~; run \"$B\" $").result = .ok
      [.assign [.mk "A" (.variable "HOME")],
        .command (.literal "run") [.concat [.literal "", .variable "B"], .literal "$"] []] := rfl
  have hlast : "A=~; run \"$B\" $".toList.getLast? ≠ some '\\' := by decide
  have hhash : '#' ∉ "A=~; run \"$B\" $".toList := by decide
  have hline := (readStatements_separated haccepted hlast "$(|)").1
  have hsemicolon := (readStatements_separated haccepted hlast "'open").2 hhash
  exact ⟨haccepted, hlast, hhash, hline, hsemicolon⟩

end ScriptRunner
