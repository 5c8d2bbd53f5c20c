import ScriptRunner.Proofs.Command.Depth
import ScriptRunner.Proofs.Command.WrittenWord

/-!
# ScriptRunner.Proofs.Command.WrittenStatement

Where the words of a command are written.

A character inside of a word goes on with it or ends it (`wordStep`), and one between words begins
a word or does not (`GapStep`). So at any place in a text the reader knows of a statement the words
that were written before this place (`Frame.Laid`), and of the word that it is inside of where that
began (`State.Laid`). One character keeps this (`laid_step`), so it holds at the end of the text.

Main statement: `words_of_accepted`. The words of a command stand in the text as words, one after
another.
-/

namespace ScriptRunner.Reader

/-! ## Inside of a word -/

/-- What the word is for that the reader is inside of. -/
def Position.place? : Position → Option Place
  | .letters _ => some .plain
  | .word place _ _ => some place
  | _ => none

theorem inWord_goTo (f : Frame) (position : Position) :
    (f.goTo position).inWord = position.place?.isSome := by
  cases position <;> rfl

/-- What a character does inside of a word that is for `place`: the word goes on, it ends with
these pieces, it turns out to be the name of an assignment, or the reading ends. -/
inductive WordStep (f : Frame) (place : Place) (c : Char) (pieces : Option Pieces) : State → Prop
  | goesOn {g : Frame} {position : Position} (hdone : g.done = f.done) (hdraft : g.draft = f.draft)
      (hplace : position.place? = some place) : WordStep f place c pieces (g.goTo position)
  | ends {q : Pieces} (hend : isWordEnd c = true) (hpieces : pieces = some q) :
      WordStep f place c pieces (stepAfterWord f place q c)
  | assigns (name : String) (hplace : place = .plain) :
      WordStep f place c pieces (f.goTo (.valueStart name))
  | halts (halt : Halt) (ignored : List IgnoredSubstitution) :
      WordStep f place c pieces (.halted halt ignored)

section WordStep

variable (f : Frame) (place : Place) (p : Pieces) {c : Char} (pieces : Option Pieces)

theorem wordStep_stepWordChar : WordStep f place c pieces (stepWordChar f place p c) := by
  rw [stepWordChar]
  split_ifs <;> exact .goesOn rfl rfl rfl

theorem endsBefore_some : EndsBefore (some c) ↔ isWordEnd c = true := by
  simp [EndsBefore]

/-- Outside of quotes a word ends with the pieces that were read, if the character ends it. -/
theorem wordStep_stepBare (hpieces : isWordEnd c = true → pieces = some p) :
    WordStep f place c pieces (stepBare f place p c) := by
  rw [stepBare]
  split
  · next hend => exact .ends hend (hpieces hend)
  · exact wordStep_stepWordChar f place p pieces

theorem wordStep_stepDouble : WordStep f place c pieces (stepDouble f place p c) := by
  rw [stepDouble]
  split_ifs <;> exact .goesOn rfl rfl rfl

theorem wordStep_endSubstitution (inner : List Char → Reading) (double : Bool) (text : List Char) :
    WordStep f place c pieces (endSubstitution inner double f place p text) := by
  simp only [endSubstitution]
  split
  · exact .goesOn rfl rfl rfl
  · exact .goesOn rfl rfl rfl
  · exact .halts _ _

/-- What a character does inside of a word. -/
theorem wordStep_stepWord (inner : List Char → Reading) (mode : Mode) (c : Char) :
    WordStep f place c (mode.wordEnd? (some c) p) (stepWord inner f place p mode c) := by
  cases mode with
  | tilde =>
      rw [stepWord]
      split
      · exact wordStep_stepBare f place _ _ (fun hend => if_pos (endsBefore_some.2 hend))
      · next hno =>
          exact wordStep_stepBare f place _ _ (fun hend => absurd (Or.inr hend) hno)
  | bare => exact wordStep_stepBare f place p _ (fun hend => if_pos (endsBefore_some.2 hend))
  | escape => exact .goesOn rfl rfl rfl
  | single =>
      rw [stepWord]
      split <;> exact .goesOn rfl rfl rfl
  | double => exact wordStep_stepDouble f place p _
  | doubleEscape =>
      rw [stepWord]
      split_ifs
      · exact .goesOn rfl rfl rfl
      · exact .goesOn rfl rfl rfl
      · exact wordStep_stepDouble f place _ _
  | dollar double =>
      rw [stepWord, stepDollar]
      split_ifs with hbraces hparens
      · exact .goesOn rfl rfl rfl
      · exact .goesOn rfl rfl rfl
      · exact .goesOn rfl rfl rfl
      · exact .goesOn rfl rfl rfl
      · cases double with
        | true => exact wordStep_stepDouble f place _ _
        | false =>
            exact wordStep_stepBare f place _ _ (fun hend =>
              if_pos ⟨endsBefore_some.2 hend, by simpa using hparens⟩)
  | name double letters =>
      rw [stepWord]
      split
      · exact .goesOn rfl rfl rfl
      · cases double with
        | true => exact wordStep_stepDouble f place _ _
        | false =>
            exact wordStep_stepBare f place _ _ (fun hend => if_pos (endsBefore_some.2 hend))
  | braces double depth text =>
      rw [stepWord, stepBraces]
      split_ifs
      · exact .goesOn rfl rfl rfl
      · exact .goesOn rfl rfl rfl
      · exact .goesOn rfl rfl rfl
      · exact .goesOn rfl rfl rfl
  | parens double depth inSingle inDouble escaped text =>
      have hstep := stepWord_mode f place p inner double ⟨depth, inSingle, inDouble, escaped⟩ text c
      rw [Nesting.mode] at hstep
      rw [hstep]
      split
      · exact .goesOn rfl rfl rfl
      · exact wordStep_endSubstitution f place p _ inner double text
  | backquote double text =>
      rw [stepWord]
      split_ifs
      · exact wordStep_endSubstitution f place p _ inner double text
      · exact .goesOn rfl rfl rfl
      · exact .goesOn rfl rfl rfl
  | backquoteEscape double text => exact .goesOn rfl rfl rfl

theorem wordStep_step (inner : List Char → Reading) {position : Position}
    (h : position.place? = some place) (c : Char) :
    WordStep f place c ((f.goTo position).wordEnd? (some c)) (step inner (f.goTo position) c) := by
  cases position with
  | letters text =>
      cases h
      rw [step_letters]
      split_ifs with hname hequals
      · exact .goesOn rfl rfl rfl
      · exact .assigns _ rfl
      · exact wordStep_stepBare f .plain _ _ (fun hend => if_pos (endsBefore_some.2 hend))
  | word place' p mode =>
      cases h
      exact wordStep_stepWord f place p inner mode c
  | _ => cases h

end WordStep

/-! ## Between words -/

/-- What a character does between words: a word for `place` begins, or none does, or the reading
ends. -/
inductive GapStep (f : Frame) (place : Place) : State → Prop
  | begins {position : Position} (hplace : position.place? = some place) :
      GapStep f place (f.goTo position)
  | stays {g : Frame} {position : Position} (hframe : g = f ∨ g = f.endStatement)
      (hplace : position.place? = none) : GapStep f place (g.goTo position)
  | halts (halt : Halt) (ignored : List IgnoredSubstitution) :
      GapStep f place (.halted halt ignored)

section GapStep

variable (f : Frame) (c : Char)

theorem gapStep_startWord (place : Place) : GapStep f place (startWord f place c) := by
  rw [startWord]
  split
  · exact .begins rfl
  · rw [stepWordChar]
    split_ifs <;> exact .begins rfl

theorem gapStep_stepGap : GapStep f .plain (stepGap f c) := by
  rw [stepGap]
  split_ifs
  · exact .stays (Or.inl rfl) rfl
  · exact .stays (Or.inr rfl) rfl
  · exact .stays (Or.inl rfl) rfl
  · exact .stays (Or.inl rfl) rfl
  · exact .stays (Or.inl rfl) rfl
  · exact .halts _ _
  · exact .halts _ _
  · exact .begins rfl
  · exact gapStep_startWord f c .plain

theorem gapStep_stepArrayGap (name : String) (elements : List Word) :
    GapStep f (.element name elements) (stepArrayGap f name elements c) := by
  rw [stepArrayGap]
  split_ifs
  · exact .stays (Or.inl rfl) rfl
  · exact .stays (Or.inl rfl) rfl
  · exact .stays (Or.inl rfl) rfl
  · exact .halts _ _
  · exact gapStep_startWord f c _

theorem gapStep_stepAfterWord (place : Place) (q : Pieces) :
    ∃ place', GapStep (endWord f place q).1 place' (stepAfterWord f place q c) := by
  rw [stepAfterWord]
  rcases hend : endWord f place q with ⟨g, position⟩
  cases position with
  | arrayGap name elements => exact ⟨_, gapStep_stepArrayGap g c name elements⟩
  | _ => exact ⟨_, gapStep_stepGap g c⟩

end GapStep

/-! ## The words of a text -/

/-- In the text, behind `before`, `word` is written where a word of a command could start, and is
read as `w`. -/
def WordAt (text before word : List Char) (w : Word) : Prop :=
  ∃ (after : List Char) (f : Frame) (q : Pieces), text = before ++ word ++ after ∧
    before.foldl (step read) State.start = f.before .plain ∧
      wordIn? read after.head? (f.before .plain) word = some q ∧ q.word? = some w

/-- The words are written in the text, one after another, before the end of this part of it. -/
inductive WordsIn (text : List Char) : List Char → List Word → Prop
  | nil (part : List Char) : WordsIn text part []
  | concat {part before word part' : List Char} {ws : List Word} {w : Word}
      (earlier : WordsIn text part ws) (hbefore : part <+: before)
      (hword : WordAt text before word w) (hpart : before ++ word <+: part') :
      WordsIn text part' (ws ++ [w])

theorem WordsIn.mono {text part part' : List Char} {ws : List Word} (h : WordsIn text part ws)
    (hpart : part <+: part') : WordsIn text part' ws := by
  cases h with
  | nil => exact .nil part'
  | concat earlier hbefore hword hend => exact .concat earlier hbefore hword (hend.trans hpart)

/-- The words of the statement so far. -/
def Draft.words (d : Draft) : List Word :=
  d.name.toList ++ d.args

/-- The words of all commands are written in the text. -/
structure Frame.Laid (text part : List Char) (f : Frame) : Prop where
  done : ∀ name args inline, .command name args inline ∈ f.done → WordsIn text part (name :: args)
  words : WordsIn text part f.draft.words
  /-- The first word is the program. -/
  named : f.draft.name = none → f.draft.args = []

/-- A word began at a place in the text, and the reader is still inside of it. -/
def State.InProgress (text part : List Char) (place : Place) (ws : List Word) (s : State) : Prop :=
  ∃ (before word : List Char) (f : Frame), part = before ++ word ∧
    before.foldl (step read) State.start = f.before place ∧ WordsIn text before ws ∧
      ∀ next rest q, wordIn? read next s rest = some q →
        wordIn? read next (f.before place) (word ++ rest) = some q

/-- The words that the reader holds are written in the text, and so is the part of a word that it
is inside of. -/
def State.Laid (text part : List Char) : State → Prop
  | .running done draft position ignored =>
    Frame.Laid text part ⟨done, draft, ignored⟩ ∧
      ∀ place, position.place? = some place →
        State.InProgress text part place draft.words (.running done draft position ignored)
  | .halted .. => True

section Laid

variable {text part : List Char} {f : Frame}

theorem Frame.Laid.mono {part' : List Char} (h : f.Laid text part) (hpart : part <+: part') :
    f.Laid text part' :=
  ⟨fun name args inline hmem => (h.done name args inline hmem).mono hpart, h.words.mono hpart,
    h.named⟩

theorem Frame.Laid.endStatement (h : f.Laid text part) : f.endStatement.Laid text part := by
  refine ⟨fun name args inline hmem => ?_, .nil part, fun _ => rfl⟩
  rcases List.mem_append.1 hmem with hmem | hmem
  · exact h.done name args inline hmem
  · rw [Draft.statements] at hmem
    split at hmem
    · next n hname =>
        cases List.mem_singleton.1 hmem
        have hwords := h.words
        rwa [Draft.words, hname] at hwords
    · split at hmem
      · cases hmem
      · cases List.mem_singleton.1 hmem

theorem Frame.Laid.assigned (h : f.Laid text part) (name : String) (value : Word) :
    (assigned f name value).Laid text part :=
  ⟨h.done, h.words, h.named⟩

/-- One more word, which ends with this part of the text. -/
theorem Frame.Laid.addWord {before word : List Char} {w : Word} (h : f.Laid text (before ++ word))
    (hbefore : WordsIn text before f.draft.words) (hword : WordAt text before word w) :
    Frame.Laid text (before ++ word) ⟨f.done, f.draft.addWord w, f.ignored⟩ := by
  have hwords := hbefore.concat (List.prefix_refl before) hword (List.prefix_refl _)
  have hdraft : (f.draft.addWord w).words = f.draft.words ++ [w] := by
    rw [Draft.addWord, Draft.words, Draft.words]
    cases hname : f.draft.name with
    | none => simp [h.named hname]
    | some n => simp
  refine ⟨h.done, hdraft ▸ hwords, fun hnone => ?_⟩
  rw [Draft.addWord] at hnone
  split at hnone <;> cases hnone

/-- A word that ended is held as it is written. -/
theorem Frame.Laid.endWord {before word after : List Char} {place : Place} {q : Pieces} {g : Frame}
    (h : f.Laid text (before ++ word)) (htext : text = before ++ word ++ after)
    (hbefore : WordsIn text before f.draft.words)
    (hstart : before.foldl (step read) State.start = g.before place)
    (hword : wordIn? read after.head? (g.before place) word = some q) :
    (endWord f place q).1.Laid text (before ++ word) := by
  cases place with
  | plain =>
      rw [Reader.endWord]
      split
      · next w hw => exact h.addWord hbefore ⟨after, g, q, htext, hstart, hword, hw⟩
      · exact h
  | value name => exact h.assigned name _
  | element name elements => exact h

variable {c : Char} {s : State}

/-- Between words the reader keeps what it holds, and where a word begins it is at its
beginning. -/
theorem laid_of_gapStep {place : Place} (hf : f.Laid text part) (hstep : GapStep f place s)
    (hword : s.inWord = true → part.foldl (step read) State.start = f.before place ∧
      s = step read (f.before place) c) :
    s.Laid text (part ++ [c]) := by
  have hpart : part <+: part ++ [c] := List.prefix_append part [c]
  cases hstep with
  | begins hplace =>
      next position =>
      have hin : (f.goTo position).inWord = true := by simp [inWord_goTo, hplace]
      obtain ⟨hstart, hnext⟩ := hword hin
      refine ⟨hf.mono hpart, fun place' hplace' => ?_⟩
      obtain rfl : place = place' := Option.some.inj (hplace.symm.trans hplace')
      refine ⟨part, [c], f, rfl, hstart, hf.words, fun next rest q hrest => ?_⟩
      refine wordIn?_cons.2 ⟨hnext ▸ hin, ?_⟩
      rwa [← hnext]
  | stays hframe hplace =>
      refine ⟨?_, fun place' hplace' => absurd (hplace.symm.trans hplace') nofun⟩
      rcases hframe with rfl | rfl
      · exact hf.mono hpart
      · exact hf.endStatement.mono hpart
  | halts halt ignored => trivial

/-- Inside of a word the reader keeps what it holds, and a word that ends is held as it is
written. -/
theorem laid_of_wordStep {rest : List Char} {place : Place} {q : Position}
    (hplace : q.place? = some place) (htext : text = part ++ c :: rest)
    (h : (f.goTo q).Laid text part)
    (hstep : WordStep f place c ((f.goTo q).wordEnd? (some c)) s)
    (hs : s = step read (f.goTo q) c) : s.Laid text (part ++ [c]) := by
  have hpart : part <+: part ++ [c] := List.prefix_append part [c]
  obtain ⟨hf, hprogress⟩ := h
  obtain ⟨before, word, g, rfl, hstart, hwords, hread⟩ := hprogress place hplace
  cases hstep with
  | goesOn hdone hdraft hgoes =>
      next f' position =>
      have hin : (f'.goTo position).inWord = true := by simp [inWord_goTo, hgoes]
      have hmono := hf.mono hpart
      refine ⟨⟨?_, ?_, ?_⟩, fun place' hplace' => ?_⟩
      · rw [hdone]
        exact hmono.done
      · rw [hdraft]
        exact hmono.words
      · rw [hdraft]
        exact hmono.named
      · obtain rfl : place = place' := Option.some.inj (hgoes.symm.trans hplace')
        refine ⟨before, word ++ [c], g, List.append_assoc .., hstart, hdraft ▸ hwords, ?_⟩
        intro next rest r hrest
        rw [List.append_assoc, List.singleton_append]
        exact hread next (c :: rest) r (wordIn?_cons.2 ⟨hs ▸ hin, hs ▸ hrest⟩)
  | ends hend hpieces =>
      next pieces =>
      have hword : wordIn? read (some c) (g.before place) word = some pieces := by
        simpa using hread (some c) [] pieces hpieces
      have hended := hf.endWord htext hwords hstart hword
      obtain ⟨place', hgap⟩ := gapStep_stepAfterWord f c place pieces
      exact laid_of_gapStep hended hgap
        (fun hin => absurd hin (by simp [inWord_stepAfterWord hend]))
  | assigns name hplain => exact ⟨hf.mono hpart, nofun⟩
  | halts halt ignored => trivial

/-- A character keeps what is said of the reader. -/
theorem laid_step {rest : List Char} (hs : part.foldl (step read) State.start = s)
    (htext : text = part ++ c :: rest) (h : s.Laid text part) :
    (step read s c).Laid text (part ++ [c]) := by
  cases s with
  | halted halt ignored => trivial
  | running done draft position ignored =>
      have hpart : part <+: part ++ [c] := List.prefix_append part [c]
      have hf : Frame.Laid text part ⟨done, draft, ignored⟩ := h.1
      have hstays : ∀ {g : Frame} {q : Position}, g.Laid text part → q.place? = none →
          (g.goTo q).Laid text (part ++ [c]) :=
        fun hg hq => ⟨hg.mono hpart, fun _ hq' => absurd (hq.symm.trans hq') nofun⟩
      cases position with
      | gap => exact laid_of_gapStep hf (gapStep_stepGap _ c) (fun _ => ⟨hs, rfl⟩)
      | comment =>
          rw [step]
          split
          · next hline =>
              subst hline
              exact laid_of_gapStep hf (gapStep_stepGap _ _)
                (fun hin => absurd hin (by simp [inWord_stepGap (c := '\n') rfl]))
          · exact hstays hf rfl
      | operator redirection run =>
          rw [step]
          split_ifs
          · exact hstays hf rfl
          · trivial
          · trivial
      | letters letters =>
          exact laid_of_wordStep (f := ⟨done, draft, ignored⟩) rfl htext h
            (wordStep_step _ _ read rfl c) rfl
      | valueStart name =>
          have hstep := step_valueStart read ⟨done, draft, ignored⟩ name c
          split_ifs at hstep with hopen hend
          · rw [Frame.goTo] at hstep
            rw [hstep]
            exact hstays hf rfl
          · rw [Frame.goTo] at hstep
            rw [hstep]
            exact laid_of_gapStep (hf.assigned name (.literal "")) (gapStep_stepGap _ c)
              (fun hin => absurd hin (by simp [inWord_stepGap hend]))
          · have hword := gapStep_startWord ⟨done, draft, ignored⟩ c (.value name)
            rw [← hstep] at hword
            exact laid_of_gapStep hf hword (fun _ => ⟨hs, rfl⟩)
      | arrayGap name elements =>
          exact laid_of_gapStep hf (gapStep_stepArrayGap _ c name elements) (fun _ => ⟨hs, rfl⟩)
      | arrayComment name elements =>
          rw [step]
          split
          · next hline =>
              subst hline
              exact laid_of_gapStep hf (gapStep_stepArrayGap _ _ name elements)
                (fun hin => absurd hin (by simp [inWord_stepArrayGap (c := '\n') rfl]))
          · exact hstays hf rfl
      | arrayEnd name elements =>
          rw [step]
          split
          · next hend =>
              exact laid_of_gapStep (hf.assigned name (.array elements)) (gapStep_stepGap _ c)
                (fun hin => absurd hin (by simp [inWord_stepGap hend]))
          · trivial
      | word place p mode =>
          exact laid_of_wordStep (f := ⟨done, draft, ignored⟩) rfl htext h
            (wordStep_step _ _ read rfl c) rfl

/-- At every place in a text the words of commands are written before it. -/
theorem laid_foldl {rest : List Char} (htext : text = part ++ rest) :
    (part.foldl (step read) State.start).Laid text part := by
  induction part using List.reverseRecOn generalizing rest with
  | nil => exact ⟨⟨nofun, .nil [], fun _ => rfl⟩, nofun⟩
  | append_singleton part c ih =>
      rw [List.append_assoc, List.singleton_append] at htext
      rw [List.foldl_append]
      exact laid_step rfl htext (ih htext)

/-! ## The end of the text -/

/-- A text that is accepted inside of a word ends with the word. -/
theorem finish_of_place? {statements : List Statement} {place : Place} {q : Position}
    (hplace : q.place? = some place) (h : (finish (f.goTo q)).result = .ok statements) :
    ∃ pieces, (f.goTo q).wordEnd? none = some pieces ∧
      finish (f.goTo q) = finishWord f place pieces := by
  cases q with
  | letters letters =>
      cases hplace
      exact ⟨_, rfl, rfl⟩
  | word place' p mode =>
      cases hplace
      cases mode with
      | tilde => exact ⟨_, rfl, rfl⟩
      | bare => exact ⟨_, rfl, rfl⟩
      | escape => exact ⟨_, rfl, rfl⟩
      | dollar double =>
          cases double with
          | true => cases h
          | false => exact ⟨_, rfl, rfl⟩
      | name double letters =>
          cases double with
          | true => cases h
          | false => exact ⟨_, rfl, rfl⟩
      | _ => cases h
  | _ => cases hplace

theorem words_of_complete {statements : List Statement} (hf : f.Laid text part)
    (h : (complete f).result = .ok statements) :
    ∀ name args inline, .command name args inline ∈ statements → WordsIn text part (name :: args) :=
  Except.ok.inj h ▸ hf.endStatement.done

theorem words_of_finish {statements : List Statement}
    (h : s.Laid text text) (haccepted : (finish s).result = .ok statements) :
    ∀ name args inline, .command name args inline ∈ statements →
      WordsIn text text (name :: args) := by
  cases s with
  | halted halt ignored => cases haccepted
  | running done draft position ignored =>
      have hf : Frame.Laid text text ⟨done, draft, ignored⟩ := h.1
      cases hplace : position.place? with
      | some place =>
          obtain ⟨before, word, g, hsplit, hstart, hwords, hread⟩ := h.2 place hplace
          obtain ⟨pieces, hend, hfinish⟩ :=
            finish_of_place? (f := ⟨done, draft, ignored⟩) hplace haccepted
          have hword : wordIn? read none (g.before place) word = some pieces := by
            simpa using hread none [] pieces hend
          subst hsplit
          have hended := hf.endWord (List.append_nil _).symm hwords hstart hword
          replace haccepted : (finishWord ⟨done, draft, ignored⟩ place pieces).result = _ :=
            hfinish ▸ haccepted
          rw [finishWord] at haccepted
          rcases hposition : endWord ⟨done, draft, ignored⟩ place pieces with ⟨g', position'⟩
          rw [hposition] at haccepted hended
          cases position' with
          | arrayGap name elements => cases haccepted
          | _ => exact words_of_complete hended haccepted
      | none =>
          cases position with
          | gap => exact words_of_complete hf haccepted
          | comment => exact words_of_complete hf haccepted
          | operator redirection run => cases redirection <;> cases haccepted
          | valueStart name => exact words_of_complete (hf.assigned name _) haccepted
          | arrayEnd name elements => exact words_of_complete (hf.assigned name _) haccepted
          | letters letters => cases hplace
          | word place p mode => cases hplace
          | _ => cases haccepted

end Laid

/-- The words of a command stand in the text as words, one after another. -/
theorem words_of_accepted {text : List Char} {statements : List Statement}
    (haccepted : (read text).result = .ok statements) :
    ∀ name args inline, .command name args inline ∈ statements →
      WordsIn text text (name :: args) := by
  rw [read_eq, readWith] at haccepted
  exact words_of_finish (laid_foldl (List.append_nil text).symm) haccepted

end ScriptRunner.Reader
