import ScriptRunner.Proofs.Command.Scan
import ScriptRunner.Proofs.Command.Trimming
import ScriptRunner.Proofs.Command.WordReading

/-!
# ScriptRunner.Proofs.Command.ScanAgreement

Reading in parts comes to the same as reading character by character.

For each part there is a state in which the reader is before it and one in which it is behind it.
What the reader makes of the text from the cursor on, in the state before the part, is what it makes
of the text behind the part in the other state (`readFrom_double`, `readFrom_word`,
`readFrom_array`); or the part is refused, and so is the text. Where a part looks ahead, the reader
holds its decision back until it has read the character, and then reads it again.

The reader collects the warnings of substitutions, and the cursor their texts: `ignoredIn` has the
warnings for the texts.

Main statement: `readFrom_turn`.
-/

namespace ScriptRunner.Scan

open Reader

variable (inner : List Char → Reading) (text : List Char)

/-! ## The reader at the cursor -/

/-- What the reader makes of the text from the cursor on. -/
def readFrom (s : State) (cur : Cursor) : Reading :=
  finish ((text.drop cur.pos).foldl (step inner) s)

/-- The substitutions that are ignored: of those that were handed on, the ones that were refused,
each behind those that were ignored in it. -/
def ignoredIn (handed : List (List Char)) : List IgnoredSubstitution :=
  handed.flatMap (fun part => (inner part).ignored ++
    match (inner part).result with
    | .error (.refused reason) => [⟨String.ofList part, reason⟩]
    | _ => [])

/-- What the reader keeps while the cursor moves inside one statement. -/
def frame (done : List Statement) (draft : Draft) (cur : Cursor) : Frame :=
  ⟨done, draft, ignoredIn inner cur.handed⟩

theorem frame_bump (done : List Statement) (draft : Draft) (cur : Cursor) :
    frame inner done draft cur.bump = frame inner done draft cur := rfl

variable {inner} in
theorem frame_skip (done : List Statement) (draft : Draft) (p : Char → Bool) (cur : Cursor) :
    frame inner done draft (skip text p cur) = frame inner done draft cur := by
  rw [frame, frame, handed_skip]

/-- The reading of a text of which a part is read first. -/
def Scanned.read {α : Type} (r : Scanned α) (next : α → Cursor → Reading) : Reading :=
  match r with
  | ⟨.ok a, cur⟩ => next a cur
  | ⟨.error halt, cur⟩ => ⟨.error halt, ignoredIn inner cur.handed⟩

theorem Scanned.read_bind {α β : Type} (r : Scanned α) (k : α → Cursor → Scanned β)
    (next : β → Cursor → Reading) :
    (r.bind k).read inner next = r.read inner (fun a cur => (k a cur).read inner next) := by
  obtain ⟨result, cur⟩ := r
  cases result <;> rfl

section ReadFrom

variable {inner text} {s : State} {cur : Cursor} {c : Char}

theorem readFrom_none (h : peek text cur = none) : readFrom inner text s cur = finish s := by
  rw [readFrom, List.drop_eq_nil_of_le (List.getElem?_eq_none_iff.1 h), List.foldl_nil]

theorem readFrom_some (h : peek text cur = some c) :
    readFrom inner text s cur = readFrom inner text (step inner s c) cur.bump := by
  obtain ⟨hlt, rfl⟩ := List.getElem?_eq_some_iff.1 h
  rw [readFrom, List.drop_eq_getElem_cons hlt, List.foldl_cons]
  rfl

theorem readFrom_halted (halt : Halt) (ignored : List IgnoredSubstitution) (cur : Cursor) :
    readFrom inner text (.halted halt ignored) cur = ⟨.error halt, ignored⟩ := by
  rw [readFrom, foldl_halted]
  rfl

/-- Two states that do the same with the next character, and with the end of the text. -/
theorem readFrom_congr {t : State}
    (hstep : ∀ c, peek text cur = some c → step inner s c = step inner t c)
    (hfinish : peek text cur = none → finish s = finish t) :
    readFrom inner text s cur = readFrom inner text t cur := by
  cases h : peek text cur with
  | none => rw [readFrom_none h, readFrom_none h, hfinish h]
  | some c => rw [readFrom_some h, readFrom_some h, hstep c h]

end ReadFrom

/-! ## Parts of a word -/

section Word

variable {inner text} {done : List Statement} {draft : Draft} {place : Place} {p : Pieces}
  {double : Bool} {f : Frame}

theorem step_inWord (mode : Mode) (c : Char) :
    step inner (f.inWord place p mode) c = stepWord inner f place p mode c := rfl

/-- Behind an expansion without an end mark the reader is where it was before. -/
theorem step_after (c : Char) :
    step inner (f.inWord place p (Mode.after double)) c =
      stepAfterExpansion double f place p c := by
  cases double <;> rfl

theorem finish_after :
    finish (f.inWord place p (Mode.after double)) = finishExpansion double f place p := by
  cases double <;> rfl

theorem readFrom_single (cur : Cursor) :
    readFrom inner text ((frame inner done draft cur).inWord place p .single) cur =
      (singleQuoted text p cur).read inner (fun q next =>
        readFrom inner text ((frame inner done draft next).inWord place q .bare) next) := by
  fun_induction singleQuoted text p cur with
  | case1 p cur hc =>
      rw [readFrom_none hc]
      rfl
  | case2 p cur hc =>
      rw [readFrom_some hc]
      rfl
  | case3 p cur c hc hquote ih =>
      rw [readFrom_some hc, step_inWord, stepWord, if_neg hquote]
      exact ih

theorem readFrom_braces (depth : Nat) (taken : List Char) (cur : Cursor) :
    readFrom inner text ((frame inner done draft cur).inWord place p (.braces double depth taken))
        cur =
      (braces text depth taken cur).read inner (fun expression next =>
        readFrom inner text ((frame inner done draft next).inWord place
          (p.addExpansion (.parameter (String.ofList expression))) (Mode.after double)) next) := by
  fun_induction braces text depth taken cur with
  | case1 depth taken cur hc =>
      rw [readFrom_none hc]
      rfl
  | case2 depth taken cur hc ih =>
      rw [readFrom_some hc]
      exact ih
  | case3 depth taken cur hdepth hc hopen =>
      rw [readFrom_some hc, step_inWord, stepWord, stepBraces, if_neg hopen, if_pos rfl,
        if_pos hdepth]
      rfl
  | case4 depth taken cur hdepth hc hopen ih =>
      rw [readFrom_some hc, step_inWord, stepWord, stepBraces, if_neg hopen, if_pos rfl,
        if_neg hdepth]
      exact ih
  | case5 depth taken cur c hc hopen hclose ih =>
      rw [readFrom_some hc, step_inWord, stepWord, stepBraces, if_neg hopen, if_neg hclose]
      exact ih

/-- The text of a substitution is handed on. -/
theorem readFrom_endSubstitution (part : List Char) (cur : Cursor) :
    readFrom inner text
        (endSubstitution inner double (frame inner done draft cur) place p part) cur =
      (substitution inner part cur).read inner (fun w next =>
        readFrom inner text ((frame inner done draft next).inWord place (p.addExpansion w)
          (Mode.after double)) next) := by
  have hignored : ignoredIn inner (cur.hand part).handed =
      ignoredIn inner cur.handed ++ ((inner part).ignored ++
        match (inner part).result with
        | .error (.refused reason) => [⟨String.ofList part, reason⟩]
        | _ => []) := by
    simp [ignoredIn, Cursor.hand]
  cases hinner : (inner part).result with
  | ok statements =>
      rw [hinner, List.append_nil] at hignored
      simp only [endSubstitution, substitution, hinner, Scanned.read, frame, hignored]
      rfl
  | error halt =>
      cases halt with
      | refused reason =>
          rw [hinner, ← List.append_assoc] at hignored
          simp only [endSubstitution, substitution, hinner, Scanned.read, frame, hignored]
          rfl
      | stalled =>
          rw [hinner, List.append_nil] at hignored
          simp only [endSubstitution, substitution, hinner, Scanned.read, frame, hignored]
          exact readFrom_halted ..

theorem readFrom_parens (depth : Nat) (inSingle inDouble escaped : Bool) (taken : List Char)
    (cur : Cursor) :
    readFrom inner text ((frame inner done draft cur).inWord place p
        (.parens double depth inSingle inDouble escaped taken)) cur =
      (balancedParens text depth inSingle inDouble escaped taken cur).read inner
        (fun part next => readFrom inner text
          (endSubstitution inner double (frame inner done draft next) place p part) next) := by
  fun_induction balancedParens text depth inSingle inDouble escaped taken cur with
  | case1 =>
    rw [readFrom_none ‹_›]
    rfl
  | case2 depth inSingle inDouble taken cur c hc ih =>
      rw [readFrom_some hc]
      exact ih
  | case3 depth inSingle inDouble escaped taken cur c hc h₁ h₂ ih =>
      simp only [readFrom_some hc, step_inWord, stepWord, stepParens, if_neg h₁, if_pos h₂]
      exact ih
  | case4 depth inSingle inDouble escaped taken cur c hc h₁ h₂ h₃ ih =>
      simp only [readFrom_some hc, step_inWord, stepWord, stepParens, if_neg h₁, if_neg h₂,
        if_pos h₃]
      exact ih
  | case5 depth inSingle inDouble escaped taken cur c hc h₁ h₂ h₃ h₄ ih =>
      simp only [readFrom_some hc, step_inWord, stepWord, stepParens, if_neg h₁, if_neg h₂,
        if_neg h₃, if_pos h₄]
      exact ih
  | case6 depth inSingle inDouble escaped taken cur c hc h₁ h₂ h₃ h₄ h₅ ih =>
      simp only [readFrom_some hc, step_inWord, stepWord, stepParens, if_neg h₁, if_neg h₂,
        if_neg h₃, if_neg h₄, if_pos h₅]
      exact ih
  | case7 depth inSingle inDouble escaped taken cur c hc h₁ h₂ h₃ h₄ h₅ h₆ hdepth =>
      simp only [readFrom_some hc, step_inWord, stepWord, stepParens, if_neg h₁, if_neg h₂,
        if_neg h₃, if_neg h₄, if_neg h₅, if_pos h₆, if_pos hdepth]
      rfl
  | case8 depth inSingle inDouble escaped taken cur c hc h₁ h₂ h₃ h₄ h₅ h₆ hdepth ih =>
      simp only [readFrom_some hc, step_inWord, stepWord, stepParens, if_neg h₁, if_neg h₂,
        if_neg h₃, if_neg h₄, if_neg h₅, if_pos h₆, if_neg hdepth]
      exact ih
  | case9 depth inSingle inDouble escaped taken cur c hc h₁ h₂ h₃ h₄ h₅ h₆ ih =>
      simp only [readFrom_some hc, step_inWord, stepWord, stepParens, if_neg h₁, if_neg h₂,
        if_neg h₃, if_neg h₄, if_neg h₅, if_neg h₆]
      exact ih

theorem readFrom_backquote (taken : List Char) (cur : Cursor) :
    readFrom inner text ((frame inner done draft cur).inWord place p (.backquote double taken))
        cur =
      (backquotedText text taken cur).read inner (fun part next => readFrom inner text
        (endSubstitution inner double (frame inner done draft next) place p part) next) := by
  fun_induction backquotedText text taken cur with
  | case1 taken cur hc =>
      rw [readFrom_none hc]
      rfl
  | case2 taken cur hc =>
      rw [readFrom_some hc]
      rfl
  | case3 taken cur hd hc =>
      rw [readFrom_some hc]
      exact readFrom_none hd
  | case4 taken cur d hd hc _ ih =>
      rw [readFrom_some hc]
      refine (readFrom_some hd).trans ?_
      exact ih
  | case5 taken cur c hc hclose hescape ih =>
      rw [readFrom_some hc, step_inWord, stepWord, if_neg hclose, if_neg hescape]
      exact ih

/-- Letters are collected up to the first character that belongs to no name. -/
theorem readFrom_name (letters : List Char) (cur : Cursor) :
    readFrom inner text (f.inWord place p (.name double letters)) cur =
      readFrom inner text (f.inWord place
        (p.addExpansion (.variable (String.ofList (collect text isNameChar letters cur).1)))
        (Mode.after double)) (collect text isNameChar letters cur).2 := by
  fun_induction collect text isNameChar letters cur with
  | case1 letters cur c hc hname ih =>
      rw [readFrom_some hc, step_inWord, stepWord, if_pos hname]
      exact ih
  | case2 letters cur c hc hname =>
      rw [readFrom_some hc, readFrom_some hc, step_inWord, stepWord, if_neg hname, step_after]
  | case3 letters cur hc =>
      rw [readFrom_none hc, readFrom_none hc, finish_after]
      rfl

theorem readFrom_dollar (cur : Cursor) :
    readFrom inner text ((frame inner done draft cur).inWord place p (.dollar double)) cur =
      (dollar inner text cur).read inner (fun found next =>
        readFrom inner text ((frame inner done draft next).inWord place
          (match found with
            | some w => p.addExpansion w
            | none => p.addChar '$') (Mode.after double)) next) := by
  rw [dollar]
  split
  · next hc =>
      rw [readFrom_none hc, Scanned.read, readFrom_none hc, finish_after]
      rfl
  · next c hc =>
      rw [readFrom_some hc, step_inWord, stepWord, stepDollar]
      split_ifs with hbrace hparen hname hspecial
      · rw [Scanned.read_bind]
        exact readFrom_braces 1 [] cur.bump
      · rw [Scanned.read_bind, Scanned.read_bind]
        refine (readFrom_parens 1 false false false [] cur.bump).trans ?_
        simp only [readFrom_endSubstitution]
        rfl
      · have hcollect : collect text isNameChar [] cur = collect text isNameChar [c] cur.bump :=
          collect_some hc (isNameChar_of_isNameStart hname)
        rw [hcollect, readFrom_name]
        exact congrArg (fun handed => readFrom inner text
          (Frame.inWord ⟨done, draft, ignoredIn inner handed⟩ _ _ _) _)
          (handed_collect isNameChar [c] cur.bump).symm
      · rfl
      · rw [Scanned.read, readFrom_some hc, step_after]

/-- Behind a `$` or a backquote, between double quotes or outside. -/
theorem readFrom_expansion {c : Char} (hexpands : c = '$' ∨ c = '\x60') (cur : Cursor) :
    readFrom inner text ((frame inner done draft cur).inWord place p
        (if c = '$' then .dollar double else .backquote double [])) cur =
      (expansion inner text p c cur).read inner (fun q next =>
        readFrom inner text ((frame inner done draft next).inWord place q (Mode.after double))
          next) := by
  rw [expansion]
  rcases hexpands with rfl | rfl
  · rw [if_pos rfl, if_pos rfl, Scanned.read_bind, readFrom_dollar]
    refine congrArg (Scanned.read inner _) (funext fun found => funext fun next => ?_)
    cases found <;> rfl
  · rw [if_neg (by decide), if_neg (by decide), Scanned.read_bind, backquoted, Scanned.read_bind,
      readFrom_backquote]
    exact congrArg (Scanned.read inner _)
      (funext fun part => funext fun next => readFrom_endSubstitution part next)

theorem stepDouble_expansion {c : Char} (hexpands : c = '$' ∨ c = '\x60') :
    stepDouble f place p c =
      f.inWord place p (if c = '$' then .dollar true else .backquote true []) := by
  rcases hexpands with rfl | rfl <;> rfl

theorem readFrom_double (cur : Cursor) :
    readFrom inner text ((frame inner done draft cur).inWord place p .double) cur =
      (doubleQuoted inner text p cur).read inner (fun q next =>
        readFrom inner text ((frame inner done draft next).inWord place q .bare) next) := by
  have hescape : ∀ (f : Frame) (p : Pieces),
      step inner (f.inWord place p .double) '\\' = f.inWord place p .doubleEscape := fun _ _ => rfl
  fun_induction doubleQuoted inner text p cur with
  | case1 p cur hc =>
      rw [readFrom_none hc]
      rfl
  | case2 p cur hc =>
      rw [readFrom_some hc]
      rfl
  | case3 p cur hd hc _ ih =>
      rw [readFrom_some hc, ← ih, readFrom_none hd, readFrom_none hd]
      rfl
  | case4 p cur hc _ hd ih =>
      rw [readFrom_some hc, readFrom_some hd]
      exact ih
  | case5 p cur d hd hline hescapable hc _ ih =>
      rw [readFrom_some hc, hescape, readFrom_some hd, step_inWord, stepWord, if_neg hline,
        if_pos hescapable]
      exact ih
  | case6 p cur d hd hline hescapable hc _ ih =>
      rw [readFrom_some hc, hescape, readFrom_some hd, step_inWord, stepWord, if_neg hline,
        if_neg hescapable, ← ih, readFrom_some hd]
      rfl
  | case7 p cur c hc hclose hbackslash hexpands q next hr ih =>
      rw [readFrom_some hc, step_inWord, stepWord, stepDouble_expansion hexpands, ← frame_bump,
        readFrom_expansion hexpands, hr]
      exact ih
  | case8 p cur c hc hclose hbackslash hexpands halt next hr =>
      rw [readFrom_some hc, step_inWord, stepWord, stepDouble_expansion hexpands, ← frame_bump,
        readFrom_expansion hexpands, hr]
      rfl
  | case9 p cur c hc hclose hbackslash hexpands ih =>
      rw [not_or] at hexpands
      rw [readFrom_some hc, step_inWord, stepWord, stepDouble, if_neg hclose, if_neg hbackslash,
        if_neg hexpands.1, if_neg hexpands.2]
      exact ih

theorem stepWordChar_expansion {c : Char} (hexpands : c = '$' ∨ c = '\x60') :
    stepWordChar f place p c =
      f.inWord place p (if c = '$' then .dollar false else .backquote false []) := by
  rcases hexpands with rfl | rfl <;> rfl

/-- A part of a word that begins with the character before the cursor. -/
theorem readFrom_wordPart (c : Char) (cur : Cursor) :
    readFrom inner text (stepWordChar (frame inner done draft cur) place p c) cur =
      (wordPart inner text p c cur).read inner (fun q next =>
        readFrom inner text ((frame inner done draft next).inWord place q .bare) next) := by
  rw [wordPart]
  split_ifs with hescape hsingle hdouble hexpands
  · rw [stepWordChar, if_pos hescape]
    split
    · next d hd =>
        rw [readFrom_some hd]
        rfl
    · next hd =>
        rw [readFrom_none hd, Scanned.read, readFrom_none hd]
        rfl
  · rw [stepWordChar, if_neg hescape, if_pos hsingle]
    exact readFrom_single cur
  · rw [stepWordChar, if_neg hescape, if_neg hsingle, if_pos hdouble]
    exact readFrom_double cur
  · rw [stepWordChar_expansion hexpands]
    exact readFrom_expansion hexpands cur
  · rw [not_or] at hexpands
    rw [stepWordChar, if_neg hescape, if_neg hsingle, if_neg hdouble, if_neg hexpands.1,
      if_neg hexpands.2]
    rfl

/-- Where a word goes that has been read. -/
def placed (f : Frame) : Place → Option Word → State
  | .plain, some w => Frame.goTo ⟨f.done, f.draft.addWord w, f.ignored⟩ .gap
  | .plain, none => f.goTo .gap
  | .value name, w => (assigned f name (w.getD (.literal ""))).goTo .gap
  | .element name elements, w => f.goTo (.arrayGap name (elements ++ w.toList))

theorem stepAfterWord_eq (c : Char) :
    stepAfterWord f place p c = step inner (placed f place p.word?) c := by
  cases place with
  | plain =>
      rw [stepAfterWord, endWord]
      cases p.word? <;> rfl
  | value name => rfl
  | element name elements => rfl

theorem finishWord_eq : finishWord f place p = finish (placed f place p.word?) := by
  cases place with
  | plain =>
      rw [finishWord, endWord]
      cases p.word? <;> rfl
  | value name => rfl
  | element name elements => rfl

theorem readFrom_wordParts (cur : Cursor) :
    readFrom inner text ((frame inner done draft cur).inWord place p .bare) cur =
      (wordParts inner text p cur).read inner (fun q next =>
        readFrom inner text (placed (frame inner done draft next) place q.word?) next) := by
  fun_induction wordParts inner text p cur with
  | case1 p cur hc =>
      rw [readFrom_none hc, Scanned.read, readFrom_none hc]
      exact finishWord_eq
  | case2 p cur c hc hend =>
      rw [readFrom_some hc, Scanned.read, readFrom_some hc, step_inWord, stepWord, stepBare,
        if_pos hend]
      exact congrArg (readFrom inner text · cur.bump) (stepAfterWord_eq c)
  | case3 p cur c hc hend q next hr ih =>
      rw [readFrom_some hc, step_inWord, stepWord, stepBare, if_neg hend, ← frame_bump,
        readFrom_wordPart, hr]
      exact ih
  | case4 p cur c hc hend halt next hr =>
      rw [readFrom_some hc, step_inWord, stepWord, stepBare, if_neg hend, ← frame_bump,
        readFrom_wordPart, hr]
      rfl

/-- The first character of a word, wherever it is read for. -/
theorem readFrom_word {c : Char} {cur : Cursor} (hc : peek text cur = some c)
    (hend : isWordEnd c = false) :
    readFrom inner text (startWord (frame inner done draft cur) place c) cur.bump =
      (word inner text cur).read inner (fun w next =>
        readFrom inner text (placed (frame inner done draft next) place w) next) := by
  have hbare : readFrom inner text (stepWordChar (frame inner done draft cur) place Pieces.start c)
      cur.bump = (wordParts inner text Pieces.start cur).read inner (fun q next =>
        readFrom inner text (placed (frame inner done draft next) place q.word?) next) := by
    rw [← readFrom_wordParts, readFrom_some hc, step_inWord, stepWord, stepBare,
      if_neg (by simp [hend])]
  rw [word, Scanned.read_bind]
  split
  · next hhome =>
      simp only [Bool.and_eq_true, beq_iff_eq] at hhome
      obtain rfl : c = '~' := Option.some.inj (hc.symm.trans hhome.1)
      have htilde :
          readFrom inner text (startWord (frame inner done draft cur) place '~') cur.bump =
          readFrom inner text ((frame inner done draft cur.bump).inWord place
            (Pieces.start.addExpansion (.variable "HOME")) .bare) cur.bump := by
        refine readFrom_congr (fun d hd => ?_) (fun _ => rfl)
        have hhome : d = '/' ∨ isWordEnd d = true := by simpa [hd] using hhome.2
        rw [startWord, if_pos rfl, step_inWord, stepWord, if_pos hhome]
        rfl
      rw [htilde]
      exact readFrom_wordParts cur.bump
  · next hhome =>
      by_cases htilde : c = '~'
      · subst htilde
        refine Eq.trans (readFrom_congr (fun d hd => ?_) (fun hnone => ?_)) hbare
        · have hhome : ¬(d = '/' ∨ isWordEnd d = true) := by simpa [hc, hd] using hhome
          rw [startWord, if_pos rfl, step_inWord, stepWord, if_neg hhome]
          rfl
        · simp [hc, hnone] at hhome
      · rw [startWord, if_neg htilde]
        exact hbare

end Word

/-! ## Words, arrays and assignments -/

section Assignments

variable {inner text} {done : List Statement} {draft : Draft} {f : Frame}

/-- A comment is skipped up to the end of its line. -/
theorem readFrom_comment (cur : Cursor) :
    readFrom inner text (f.goTo .comment) cur =
      readFrom inner text (f.goTo .gap) (skip text (· != '\n') cur) := by
  fun_induction skip text (· != '\n') cur with
  | case1 cur c hc hline ih =>
      rw [readFrom_some hc, step_comment, if_neg (by simpa using hline)]
      exact ih
  | case2 cur c hc hline =>
      rw [readFrom_some hc, readFrom_some hc, step_comment, if_pos (by simpa using hline), step_gap]
  | case3 cur hc =>
      rw [readFrom_none hc, readFrom_none hc]
      rfl

theorem readFrom_arrayComment (name : String) (elements : List Word) (cur : Cursor) :
    readFrom inner text (f.goTo (.arrayComment name elements)) cur =
      readFrom inner text (f.goTo (.arrayGap name elements)) (skip text (· != '\n') cur) := by
  fun_induction skip text (· != '\n') cur with
  | case1 cur c hc hline ih =>
      rw [readFrom_some hc, step_arrayComment, if_neg (by simpa using hline)]
      exact ih
  | case2 cur c hc hline =>
      rw [readFrom_some hc, readFrom_some hc, step_arrayComment, if_pos (by simpa using hline),
        step_arrayGap]
  | case3 cur hc =>
      rw [readFrom_none hc, readFrom_none hc]
      rfl

/-- White space between the elements of an array is skipped. -/
theorem readFrom_arrayGap (name : String) (elements : List Word) (cur : Cursor) :
    readFrom inner text ((frame inner done draft cur).goTo (.arrayGap name elements)) cur =
      readFrom inner text
        ((frame inner done draft (skip text isBlank cur)).goTo (.arrayGap name elements))
        (skip text isBlank cur) := by
  fun_induction skip text isBlank cur with
  | case1 cur c hc hblank ih =>
      rw [readFrom_some hc, step_arrayGap, stepArrayGap, if_pos hblank]
      exact ih
  | case2 cur c hc hblank => rfl
  | case3 cur hc => rfl

/-- So are the blanks between words. -/
theorem readFrom_gap (cur : Cursor) :
    readFrom inner text ((frame inner done draft cur).goTo .gap) cur =
      readFrom inner text ((frame inner done draft (skip text isCommandBlank cur)).goTo .gap)
        (skip text isCommandBlank cur) := by
  fun_induction skip text isCommandBlank cur with
  | case1 cur c hc hblank ih =>
      rw [readFrom_some hc, step_gap, stepGap, if_pos hblank]
      exact ih
  | case2 cur c hc hblank => rfl
  | case3 cur hc => rfl

theorem readFrom_array (name : String) (elements : List Word) (cur : Cursor) :
    readFrom inner text ((frame inner done draft cur).goTo (.arrayGap name elements)) cur =
      (array inner text name elements cur).read inner (fun w next =>
        readFrom inner text ((assigned (frame inner done draft next) name w).goTo .gap) next) := by
  have hclosed : ∀ (f : Frame) (elements : List Word),
      step inner (f.goTo (.arrayGap name elements)) ')' = f.goTo (.arrayEnd name elements) :=
    fun _ _ => rfl
  fun_induction array inner text name elements cur with
  | case1 elements cur here hc =>
      rw [readFrom_arrayGap, readFrom_none hc]
      rfl
  | case2 elements cur here hd hc =>
      rw [readFrom_arrayGap, readFrom_some hc, hclosed, readFrom_none hd, Scanned.read,
        readFrom_none hd]
      rfl
  | case3 elements cur here d hd hend hc =>
      rw [readFrom_arrayGap, readFrom_some hc, hclosed, readFrom_some hd, step_arrayEnd,
        if_pos hend, Scanned.read, readFrom_some hd, step_gap]
      rfl
  | case4 elements cur here d hd hend hc =>
      rw [readFrom_arrayGap, readFrom_some hc, hclosed, readFrom_some hd, step_arrayEnd,
        if_neg hend]
      exact readFrom_halted ..
  | case5 elements cur here hc _ ih =>
      rw [readFrom_arrayGap, readFrom_some hc]
      refine (readFrom_arrayComment name elements here.bump).trans ?_
      rw [frame_skip] at ih
      rw [← skip_some (p := (· != '\n')) hc (by decide)]
      exact ih
  | case6 elements cur here c hc hclose hcomment hend =>
      rw [readFrom_arrayGap, readFrom_some hc, step_arrayGap, stepArrayGap,
        if_neg (by simp [peek_skip hc]), if_neg hclose, if_neg hcomment, if_pos hend]
      exact readFrom_halted ..
  | case7 elements cur here c hc hclose hcomment hend w next hr ih =>
      rw [readFrom_arrayGap, readFrom_some hc, step_arrayGap,
        stepArrayGap_word (eq_false_of_ne_true hend) hcomment,
        readFrom_word hc (eq_false_of_ne_true hend), hr]
      exact ih
  | case8 elements cur here c hc _ hcomment hend halt next hr =>
      rw [readFrom_arrayGap, readFrom_some hc, step_arrayGap,
        stepArrayGap_word (eq_false_of_ne_true hend) hcomment,
        readFrom_word hc (eq_false_of_ne_true hend), hr]
      rfl

theorem readFrom_value (name : String) (cur : Cursor) :
    readFrom inner text ((frame inner done draft cur).goTo (.valueStart name)) cur =
      (value inner text name cur).read inner (fun w next =>
        readFrom inner text ((assigned (frame inner done draft next) name w).goTo .gap) next) := by
  rw [value]
  split
  · next hc =>
      rw [readFrom_none hc, Scanned.read, readFrom_none hc]
      rfl
  · next c hc =>
      rw [readFrom_some hc, step_valueStart]
      split_ifs with hopen hend
      · exact readFrom_array name [] cur.bump
      · rw [Scanned.read, readFrom_some hc, step_gap]
      · rw [Scanned.read_bind, readFrom_word hc (eq_false_of_ne_true hend)]
        rfl

/-- Letters are collected while they could be the name of an assignment. -/
theorem readFrom_letters (letters : List Char) (cur : Cursor) :
    readFrom inner text (f.goTo (.letters letters)) cur =
      if peek text (collect text isNameChar letters cur).2 = some '=' then
        readFrom inner text
          (f.goTo (.valueStart (String.ofList (collect text isNameChar letters cur).1)))
          (collect text isNameChar letters cur).2.bump
      else readFrom inner text (f.inWord .plain ⟨[], letters, false⟩ .bare) cur := by
  fun_induction collect text isNameChar letters cur with
  | case1 letters cur c hc hname ih =>
      have hplain := isPlain_of_isNameChar hname
      have hbare : stepBare f .plain ⟨[], letters, false⟩ c =
          f.inWord .plain ⟨[], letters ++ [c], false⟩ .bare := by
        rw [stepBare, if_neg (by simp [isWordEnd_of_isPlain hplain]), stepWordChar_plain hplain,
          Pieces.addChar]
      have hword : readFrom inner text (f.inWord .plain ⟨[], letters, false⟩ .bare) cur =
          readFrom inner text (f.inWord .plain ⟨[], letters ++ [c], false⟩ .bare) cur.bump := by
        rw [readFrom_some hc, step_inWord, stepWord, hbare]
      rw [readFrom_some hc, step_letters, if_pos hname, hword]
      exact ih
  | case2 letters cur c hc hname =>
      rw [readFrom_some hc, step_letters, if_neg hname]
      by_cases heq : c = '='
      · rw [if_pos heq, if_pos (heq ▸ hc)]
      · rw [if_neg heq, if_neg (fun h => heq (Option.some.inj (hc.symm.trans h))), readFrom_some hc]
        rfl
  | case3 letters cur hc =>
      rw [if_neg (by simp [hc]), readFrom_none hc, readFrom_none hc]
      rfl

/-- The first letter of a word that could be the name of an assignment. -/
theorem readFrom_assignment {c : Char} {cur : Cursor} (hc : peek text cur = some c)
    (hname : isNameStart c = true) :
    readFrom inner text ((frame inner done draft cur).goTo (.letters [c])) cur.bump =
      (assignment inner text cur).read inner (fun found next =>
        match found with
        | some (name, w) =>
          readFrom inner text ((assigned (frame inner done draft next) name w).goTo .gap) next
        | none =>
          readFrom inner text (startWord (frame inner done draft next) .plain c) next.bump) := by
  have hplain := isPlain_of_isNameChar (isNameChar_of_isNameStart hname)
  have hstart : ∀ f : Frame, startWord f .plain c = f.inWord .plain ⟨[], [c], false⟩ .bare := by
    intro f
    rw [startWord, if_neg (ne_of_isPlain hplain).2.2.2.2.2.1, stepWordChar_plain hplain]
    rfl
  rw [readFrom_letters, assignment, collect_some hc (isNameChar_of_isNameStart hname),
    List.nil_append]
  simp only [hc, Option.any_some, hname, Bool.true_and, beq_iff_eq, hstart]
  split_ifs with hassigns
  · have hframe : frame inner done draft cur =
        frame inner done draft (collect text isNameChar [c] cur.bump).2.bump := by
      rw [frame_bump, frame, frame, handed_collect]
      rfl
    rw [Scanned.read_bind, hframe, readFrom_value]
    rfl
  · rfl

/-- A word of a statement, which may be an assignment. -/
theorem readFrom_draftWord {c : Char} {cur : Cursor} (hc : peek text cur = some c)
    (hend : isWordEnd c = false) (hhash : c ≠ '#') :
    readFrom inner text (stepGap (frame inner done draft cur) c) cur.bump =
      (draftWord inner text draft cur).read inner (fun draft next =>
        readFrom inner text ((frame inner done draft next).goTo .gap) next) := by
  have hword : ∀ draft : Draft,
      readFrom inner text (startWord (frame inner done draft cur) .plain c) cur.bump =
      ((word inner text cur).bind (fun found next =>
        match found with
        | some w => (⟨.ok (draft.addWord w), next⟩ : Scanned Draft)
        | none => ⟨.ok draft, next⟩)).read inner (fun draft next =>
          readFrom inner text ((frame inner done draft next).goTo .gap) next) := by
    intro draft
    rw [readFrom_word hc hend, Scanned.read_bind]
    refine congrArg (Scanned.read inner _) (funext fun found => funext fun next => ?_)
    cases found <;> rfl
  rw [stepGap_word hend hhash, draftWord, Scanned.read_bind]
  by_cases hfirst : draft.name.isNone = true
  · rw [if_pos hfirst]
    by_cases hname : isNameStart c = true
    · rw [if_pos (by simp [frame, hfirst, hname])]
      refine (readFrom_assignment hc hname).trans ?_
      rcases hassigns : assignment inner text cur with ⟨found | found, next⟩
      · rfl
      · cases found with
        | some _ => rfl
        | none =>
            obtain rfl := assignment_none hassigns
            exact hword draft
    · rw [if_neg (by simp [hname]), assignment_of_not_isNameStart hc (eq_false_of_ne_true hname)]
      exact hword draft
  · rw [if_neg hfirst, if_neg (by simp [frame, hfirst])]
    exact hword draft

/-- A run of operator characters is refused as a whole. -/
theorem readFrom_operator (redirection : Bool) (run : List Char) (cur : Cursor) :
    readFrom inner text (f.goTo (.operator redirection run)) cur =
      refusal f (if redirection then
          .unsupportedRedirection (String.ofList (collect text isOperatorChar run cur).1)
        else .unsupportedOperator (String.ofList (collect text isOperatorChar run cur).1)) := by
  fun_induction collect text isOperatorChar run cur with
  | case1 run cur c hc hoperator ih =>
      rw [readFrom_some hc, step_operator, if_pos hoperator]
      exact ih
  | case2 run cur c hc hoperator =>
      rw [readFrom_some hc, step_operator, if_neg hoperator]
      cases redirection <;> exact readFrom_halted ..
  | case3 run cur hc =>
      rw [readFrom_none hc]
      cases redirection <;> rfl

end Assignments

/-! ## Rounds -/

/-- The reading of a text of which one round is done. -/
def Turn.read (turn : Turn) (l : Loop) (next : Loop → Reading) : Reading :=
  match turn with
  | .ended cur => ⟨.ok (l.done ++ l.draft.statements), ignoredIn inner cur.handed⟩
  | .stopped halt cur => ⟨.error halt, ignoredIn inner cur.handed⟩
  | .next l => next l

/-- The reader before a round. -/
def Loop.readFrom (l : Loop) : Reading :=
  Scan.readFrom inner text ((frame inner l.done l.draft l.cursor).goTo .gap) l.cursor

variable {inner text} in
theorem readFrom_turn {l : Loop} (h : ¬l.Blocked text) :
    l.readFrom inner text = (turn inner text l).read inner l (Loop.readFrom inner text) := by
  rw [Loop.readFrom, readFrom_gap, turn]
  split
  · next hc => exact readFrom_none hc
  · next c hc =>
      have hspace := peek_skip hc
      have hrefused : ∀ reason,
          refusal (frame inner l.done l.draft (skip text isCommandBlank l.cursor)) reason =
            ⟨.error (.refused reason), ignoredIn inner (collect text isOperatorChar [c]
              (skip text isCommandBlank l.cursor).bump).2.handed⟩ := by
        intro reason
        rw [handed_collect]
        rfl
      rw [readFrom_some hc, step_gap]
      split_ifs with hends hhash hoperator hredirection hparen
      · rw [stepGap, if_neg (by simp [hspace]), if_pos hends]
        rfl
      · rw [stepGap, if_neg (by simp [hspace]), if_neg hends, if_pos hhash, readFrom_comment,
          ← skip_some (p := (· != '\n')) hc (by simp [hhash]), ← frame_skip text _ _ (· != '\n')]
        rfl
      · rw [stepGap, if_neg (by simp [hspace]), if_neg hends, if_neg hhash, if_pos hoperator,
          readFrom_operator, collect_some hc (by rcases hoperator with rfl | rfl <;> rfl)]
        exact hrefused _
      · rw [stepGap, if_neg (by simp [hspace]), if_neg hends, if_neg hhash, if_neg hoperator,
          if_pos hredirection, readFrom_operator,
          collect_some hc (by rcases hredirection with rfl | rfl <;> rfl)]
        exact hrefused _
      · rw [stepGap, if_neg (by simp [hspace]), if_neg hends, if_neg hhash, if_neg hoperator,
          if_neg hredirection, if_pos hparen]
        exact readFrom_halted ..
      · have hend : isWordEnd c = false := by
          have hstray : isStray c = false := eq_false_of_ne_true (fun hstray => h ⟨c, hc, hstray⟩)
          exact not_isWordEnd hspace hstray hends hoperator hredirection hparen
        rw [readFrom_draftWord hc hend hhash]
        rcases draftWord inner text l.draft (skip text isCommandBlank l.cursor) with
          ⟨_ | _, next⟩ <;> rfl

end ScriptRunner.Scan
