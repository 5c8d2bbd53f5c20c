import ScriptRunner.Proofs.Command.Glyph
import ScriptRunner.Proofs.Command.QuotingStyles

/-!
# ScriptRunner.Proofs.Command.WrittenWord

The reader reads every word as it is written.

The reader takes a word character by character, from where a word could start to the character
that ends it (`wordIn?`). In between it may be in the middle of a glyph. Wherever it stands between
two of them (`Stands`), what it goes through next is a glyph that fits there (`exists_glyph`), and
the glyph adds to the word what it stands for (`Glyph.addTo`).

Main statement: `spells_of_wordIn`. A word is what its glyphs add up to.
-/

namespace ScriptRunner

/-- The statements of a reading, none if it did not succeed. -/
def Reading.statements (r : Reading) : List Statement :=
  match r.result with
  | .ok statements => statements
  | .error _ => []

namespace Reader

/-! ## What a glyph adds to a word -/

namespace Glyph

/-- The expansion that the glyph stands for, where `inner` reads the commands in it. -/
def expansion? (inner : List Char → Reading) : Glyph → Option Word
  | .tilde => some (.variable "HOME")
  | .variable name => some (.variable (String.ofList name))
  | .parameter text => some (.parameter (String.ofList text))
  | .command text => some (.substitution (inner text).statements)
  | .backquoted text => some (.substitution (inner (unescape text)).statements)
  | _ => none

/-- The word so far with what the glyph stands for. -/
def addTo (inner : List Char → Reading) (p : Pieces) (g : Glyph) : Pieces :=
  match g.expansion? inner with
  | some w => p.addExpansion w
  | none => p.addText g.literal g.opensQuote

section AddTo

variable (inner : List Char → Reading) (p : Pieces)

theorem addTo_char (c : Char) : addTo inner p (.char c) = p.addChar c := by
  simp [addTo, expansion?, literal, opensQuote, Pieces.addText, Pieces.addChar]

theorem addTo_escaped (c : Char) : addTo inner p (.escaped c) = p.addChar c :=
  addTo_char inner p c

theorem addTo_continuation : addTo inner p .continuation = p :=
  p.addText_nil

theorem addTo_single (text : List Char) :
    addTo inner p (.single text) = p.openQuote.addText text false :=
  (p.addText_openQuote text).symm

theorem addTo_openDouble : addTo inner p .openDouble = p.openQuote := by
  simp [addTo, expansion?, literal, opensQuote, Pieces.addText, Pieces.openQuote]

theorem addTo_closeDouble : addTo inner p .closeDouble = p :=
  p.addText_nil

end AddTo

end Glyph

/-! ## How a word is read -/

/-- The reader is inside of a word. -/
def State.inWord : State → Bool
  | .running _ _ (.letters _) _ => true
  | .running _ _ (.word ..) _ => true
  | _ => false

/-- Whether a word can end here, before `next` or with the text. -/
def EndsBefore (next : Option Char) : Prop :=
  ∀ c ∈ next, isWordEnd c = true

instance (next : Option Char) : Decidable (EndsBefore next) :=
  Option.decidableForallMem next

/-- The pieces of a word that is read in this mode, if it ends here. -/
def Mode.wordEnd? (next : Option Char) (p : Pieces) : Mode → Option Pieces
  | .bare => if EndsBefore next then some p else none
  | .tilde => if EndsBefore next then some (p.addExpansion (.variable "HOME")) else none
  | .escape => if next = none then some (p.addChar '\\') else none
  | .dollar false =>
    if EndsBefore next ∧ next ≠ some '(' then some (p.addChar '$') else none
  | .name false letters =>
    if EndsBefore next then some (p.addExpansion (.variable (String.ofList letters))) else none
  | _ => none

/-- The pieces of the word that the reader is inside of, if it ends here. -/
def State.wordEnd? (next : Option Char) : State → Option Pieces
  | .running _ _ (.letters text) _ => if EndsBefore next then some ⟨[], text, false⟩ else none
  | .running _ _ (.word _ p mode) _ => mode.wordEnd? next p
  | _ => none

/-- The pieces of the word that consists of just this text, read from `s` on. -/
def wordIn? (inner : List Char → Reading) (next : Option Char) (s : State) :
    List Char → Option Pieces
  | [] => s.wordEnd? next
  | c :: rest =>
    if (step inner s c).inWord then wordIn? inner next (step inner s c) rest else none

section Word

variable {inner : List Char → Reading} {next : Option Char} {f : Frame} {place : Place}
  {p q : Pieces} {s : State} {c : Char} {rest : List Char}

theorem wordIn?_cons :
    wordIn? inner next s (c :: rest) = some q ↔
      (step inner s c).inWord = true ∧ wordIn? inner next (step inner s c) rest = some q := by
  rw [wordIn?, Option.ite_none_right_eq_some]

/-- Two states that take the next character alike read the same word. -/
theorem wordIn?_congr {s' : State} (h : step inner s c = step inner s' c) :
    wordIn? inner next s (c :: rest) = wordIn? inner next s' (c :: rest) := by
  rw [wordIn?, wordIn?, h]

theorem wordIn?_bare (h : EndsBefore next) :
    wordIn? inner next (f.inWord place p .bare) [] = some p :=
  if_pos h

theorem step_after (double : Bool) :
    step inner (f.inWord place p (Mode.after double)) c =
      stepAfterExpansion double f place p c := by
  cases double <;> rfl

/-! ### Characters that end a word -/

theorem inWord_stepGap (h : isWordEnd c = true) (f : Frame) : (stepGap f c).inWord = false := by
  simp only [isWordEnd, Bool.or_eq_true, beq_iff_eq, or_assoc] at h
  rcases h with hblank | rfl | rfl | rfl | rfl | rfl | rfl | rfl
  case inl =>
    rw [stepGap, if_pos hblank]
    split_ifs <;> rfl
  all_goals rfl

theorem inWord_stepArrayGap (h : isWordEnd c = true) (f : Frame) (name : String)
    (elements : List Word) : (stepArrayGap f name elements c).inWord = false := by
  rw [stepArrayGap]
  split_ifs <;> rfl

theorem inWord_stepAfterWord (h : isWordEnd c = true) (f : Frame) (place : Place) (p : Pieces) :
    (stepAfterWord f place p c).inWord = false := by
  rw [stepAfterWord]
  split
  · exact inWord_stepArrayGap h _ _ _
  · exact inWord_stepGap h _

/-- No character that ends a word leads into one. -/
theorem AtWord.not_isWordEnd (h : AtWord f place p s) (hin : (step inner s c).inWord = true) :
    isWordEnd c = false := by
  by_contra hend
  rw [Bool.not_eq_false] at hend
  refine absurd hin ?_
  rw [Bool.not_eq_true]
  cases h with
  | inside =>
      have hstep : step inner (f.inWord place p .bare) c = stepBare f place p c := rfl
      rw [hstep, stepBare, if_pos hend]
      exact inWord_stepAfterWord hend f place p
  | letters text =>
      rw [step_letters]
      split_ifs with hname hequals
      · exact absurd hname (by simp [not_isNameChar_of_isWordEnd hend])
      · rfl
      · rw [stepBare, if_pos hend]
        exact inWord_stepAfterWord hend f .plain _
  | gap => exact inWord_stepGap hend f
  | valueStart name =>
      rw [step_valueStart]
      split_ifs
      · rfl
      · exact inWord_stepGap hend _
  | arrayGap name elements => exact inWord_stepArrayGap hend f name elements

/-- A character without a meaning of its own is one more character of the word. -/
theorem AtWord.step_literal (h : AtWord f place p s) (hin : (step inner s c).inWord = true)
    (hspecial : isSpecial c = false) (htilde : c = '~' → s.inWord = true) :
    AtWord f place (p.addChar c) (step inner s c) := by
  have hend := h.not_isWordEnd hin
  obtain ⟨-, -, -, -, -, -, hopen, -⟩ := ne_of_not_isWordEnd hend
  have hword : ∀ p : Pieces, stepWordChar f place p c = f.inWord place (p.addChar c) .bare := by
    intro p
    simp only [isSpecial, Bool.or_eq_false_iff, beq_eq_false_iff_ne, and_assoc] at hspecial
    obtain ⟨h₁, h₂, h₃, h₄, h₅⟩ := hspecial
    simp only [stepWordChar, h₁, h₂, h₃, h₄, h₅, if_false]
  have hstart : s.inWord = false → startWord f place c =
      f.inWord place (Pieces.start.addChar c) .bare := by
    intro hout
    rw [startWord, if_neg (fun hc => by simp [htilde hc] at hout), hword]
  cases h with
  | inside =>
      have hstep : step inner (f.inWord place p .bare) c = stepBare f place p c := rfl
      rw [hstep, stepBare, if_neg (by simp [hend]), hword]
      exact .inside ..
  | letters text =>
      rw [step_letters] at hin ⊢
      split_ifs at hin ⊢ with hname hequals
      · exact .letters (text ++ [c])
      · cases hin
      · rw [stepBare, if_neg (by simp [hend]), hword]
        exact .inside ..
  | gap =>
      have hhash : c ≠ '#' := by
        rintro rfl
        cases hin
      rw [step_gap, stepGap_word hend hhash]
      split
      · exact .letters [c]
      · rw [hstart rfl]
        exact .inside ..
  | valueStart name =>
      rw [step_valueStart, if_neg hopen, if_neg (by simp [hend]), hstart rfl]
      exact .inside ..
  | arrayGap name elements =>
      have hhash : c ≠ '#' := by
        rintro rfl
        cases hin
      rw [step_arrayGap, stepArrayGap_word hend hhash, hstart rfl]
      exact .inside ..

/-! ### Through the middle of a glyph -/

/-- Between apostrophes the reader goes on to the next apostrophe. -/
theorem wordIn?_single {text : List Char}
    (h : wordIn? inner next (f.inWord place p .single) text = some q) :
    ∃ body tail, text = body ++ '\'' :: tail ∧ '\'' ∉ body ∧
      wordIn? inner next (f.inWord place (p.addText body false) .bare) tail = some q := by
  induction text generalizing p with
  | nil => cases h
  | cons c rest ih =>
      obtain ⟨-, hrest⟩ := wordIn?_cons.1 h
      by_cases hclose : c = '\''
      · subst hclose
        refine ⟨[], rest, rfl, List.not_mem_nil, ?_⟩
        rwa [Pieces.addText_nil]
      · have hstep : step inner (f.inWord place p .single) c =
            f.inWord place (p.addChar c) .single := by
          rw [Frame.inWord, step_word, stepWord, if_neg hclose]
        rw [hstep] at hrest
        obtain ⟨body, tail, rfl, hbody, htail⟩ := ih hrest
        refine ⟨c :: body, tail, rfl, ?_, ?_⟩
        · rw [List.mem_cons, not_or]
          exact ⟨Ne.symm hclose, hbody⟩
        · rwa [Pieces.addText_cons]

/-- In the letters of a name the reader goes on to their end. -/
theorem wordIn?_name {double : Bool} {letters text : List Char}
    (h : wordIn? inner next (f.inWord place p (.name double letters)) text = some q) :
    ∃ more tail, text = more ++ tail ∧ (∀ d ∈ more, isNameChar d = true) ∧
      (∀ d ∈ tail.head?.or next, isNameChar d = false) ∧
      wordIn? inner next
        (f.inWord place (p.addExpansion (.variable (String.ofList (letters ++ more))))
          (Mode.after double)) tail = some q := by
  induction text generalizing letters with
  | nil =>
      cases double with
      | true => cases h
      | false =>
          obtain ⟨hend, hpieces⟩ := Option.ite_none_right_eq_some.1 h
          refine ⟨[], [], rfl, nofun, fun d hd => ?_, ?_⟩
          · exact not_isNameChar_of_isWordEnd (hend d hd)
          · rw [List.append_nil, ← hpieces]
            exact wordIn?_bare hend
  | cons c rest ih =>
      by_cases hname : isNameChar c = true
      · obtain ⟨-, hrest⟩ := wordIn?_cons.1 h
        have hstep : step inner (f.inWord place p (.name double letters)) c =
            f.inWord place p (.name double (letters ++ [c])) := by
          rw [Frame.inWord, step_word, stepWord, if_pos hname]
        rw [hstep] at hrest
        obtain ⟨more, tail, rfl, hmore, hnext, htail⟩ := ih hrest
        refine ⟨c :: more, tail, rfl, List.forall_mem_cons.2 ⟨hname, hmore⟩, hnext, ?_⟩
        rwa [List.append_assoc, List.singleton_append] at htail
      · refine ⟨[], c :: rest, rfl, nofun, ?_, ?_⟩
        · intro d hd
          rw [List.head?_cons, Option.some_or, Option.mem_some] at hd
          rwa [← hd, ← Bool.not_eq_true]
        · rw [List.append_nil, ← h]
          refine wordIn?_congr ?_
          rw [step_after, Frame.inWord, step_word, stepWord, if_neg hname]

/-- The enclosure that is read in this mode, whether it stands between double quotes, and what is
collected of its text. -/
def Mode.collects? : Mode → Option (Enclosing × Bool × List Char)
  | .braces d depth text => some (.braces depth, d, text)
  | .parens d depth inSingle inDouble escaped text =>
    some (.substitution ⟨depth, ⟨inSingle, inDouble, escaped⟩⟩, d, text)
  | .backquote d text => some (.backquote false, d, text)
  | .backquoteEscape d text => some (.backquote true, d, text)
  | _ => none

namespace Enclosing

/-- What is collected of a character. -/
def keeps : Enclosing → Char → List Char
  | .backquote false, c => if c = '\\' then [] else [c]
  | .backquote true, c => if c = '\x60' ∨ c = '\\' ∨ c = '$' then [c] else ['\\', c]
  | _, c => [c]

/-- What is collected of a text. -/
def kept (e : Enclosing) : List Char → List Char
  | [] => []
  | c :: rest =>
    match e.next c with
    | some e' => e.keeps c ++ e'.kept rest
    | none => []

/-- The expansion that has this text, where `inner` reads commands. -/
def expansion (inner : List Char → Reading) (text : List Char) : Enclosing → Word
  | .braces _ => .parameter (String.ofList text)
  | _ => .substitution (inner text).statements

end Enclosing

theorem endSubstitution_cases (inner : List Char → Reading) (double : Bool) (f : Frame)
    (place : Place) (p : Pieces) (text : List Char) :
    (∃ g : Frame, endSubstitution inner double f place p text =
      g.inWord place (p.addExpansion (.substitution (inner text).statements))
        (Mode.after double)) ∨
    (endSubstitution inner double f place p text).inWord = false := by
  simp only [endSubstitution]
  split
  · next statements hresult => exact Or.inl ⟨_, by rw [Reading.statements, hresult]⟩
  · next reason hresult => exact Or.inl ⟨_, by rw [Reading.statements, hresult]⟩
  · exact Or.inr rfl

/-- In an enclosure a character is collected, or ends it. -/
theorem stepWord_collects (inner : List Char → Reading) (f : Frame) (place : Place) (p : Pieces)
    {mode : Mode} {e : Enclosing} {double : Bool} {collected : List Char}
    (h : mode.collects? = some (e, double, collected)) (c : Char) :
    (∃ e' mode', e.next c = some e' ∧
      mode'.collects? = some (e', double, collected ++ e.keeps c) ∧
      stepWord inner f place p mode c = f.inWord place p mode') ∨
    (e.next c = none ∧
      ((∃ g : Frame, stepWord inner f place p mode c =
        g.inWord place (p.addExpansion (e.expansion inner collected)) (Mode.after double)) ∨
      (stepWord inner f place p mode c).inWord = false)) := by
  cases mode with
  | braces d depth text =>
      cases h
      rw [stepWord, stepBraces, Enclosing.next]
      split_ifs with hopen hclose hlast
      · exact Or.inl ⟨_, _, rfl, rfl, rfl⟩
      · exact Or.inr ⟨rfl, Or.inl ⟨f, rfl⟩⟩
      · exact Or.inl ⟨_, _, rfl, rfl, rfl⟩
      · exact Or.inl ⟨_, _, rfl, rfl, rfl⟩
  | parens d depth inSingle inDouble escaped text =>
      cases h
      have hstep := stepWord_mode f place p inner double ⟨depth, inSingle, inDouble, escaped⟩
        collected c
      rw [Nesting.mode] at hstep
      rw [hstep, Enclosing.next]
      cases Nesting.next ⟨depth, inSingle, inDouble, escaped⟩ c with
      | some n => exact Or.inl ⟨_, _, rfl, rfl, rfl⟩
      | none => exact Or.inr ⟨rfl, endSubstitution_cases inner double f place p collected⟩
  | backquote d text =>
      cases h
      rw [stepWord, Enclosing.next]
      split_ifs with hclose hbackslash
      · exact Or.inr ⟨rfl, endSubstitution_cases inner double f place p collected⟩
      · exact Or.inl ⟨_, _, rfl, by simp [Mode.collects?, Enclosing.keeps, hbackslash], rfl⟩
      · exact Or.inl ⟨_, _, rfl, by simp [Mode.collects?, Enclosing.keeps, hbackslash], rfl⟩
  | backquoteEscape d text =>
      cases h
      exact Or.inl ⟨_, _, rfl, rfl, rfl⟩
  | _ => cases h

/-- In an enclosure the reader goes on to the character that ends it. -/
theorem wordIn?_collects {mode : Mode} {e : Enclosing} {double : Bool} {collected text : List Char}
    (hmode : mode.collects? = some (e, double, collected))
    (h : wordIn? inner next (f.inWord place p mode) text = some q) :
    ∃ (body tail : List Char) (close : Char) (e' : Enclosing) (g : Frame),
      text = body ++ close :: tail ∧ e.run body = some e' ∧ e'.next close = none ∧
      wordIn? inner next
        (g.inWord place (p.addExpansion (e'.expansion inner (collected ++ e.kept body)))
          (Mode.after double)) tail = some q := by
  induction text generalizing mode e collected with
  | nil =>
      cases mode <;> cases hmode <;> cases h
  | cons c rest ih =>
      obtain ⟨hin, hrest⟩ := wordIn?_cons.1 h
      rw [Frame.inWord, step_word] at hin hrest
      rcases stepWord_collects inner f place p hmode c with
        ⟨e₁, mode', hnext, hmode', hstep⟩ | ⟨hnext, ⟨g, hstep⟩ | hout⟩
      · rw [hstep] at hrest
        obtain ⟨body, tail, close, e', g, rfl, hrun, hclose, htail⟩ := ih hmode' hrest
        refine ⟨c :: body, tail, close, e', g, rfl, ?_, hclose, ?_⟩
        · rw [Enclosing.run_cons, hnext]
          exact hrun
        · rwa [Enclosing.kept, hnext, ← List.append_assoc]
      · rw [hstep] at hrest
        refine ⟨[], rest, c, e, g, rfl, rfl, hnext, ?_⟩
        rwa [Enclosing.kept, List.append_nil]
      · rw [hout] at hin
        cases hin

end Word

namespace Enclosing

variable {e e' : Enclosing} {body : List Char}

theorem eq_ending {c : Char} (h : e.next c = none) : c = e.ending := by
  cases e with
  | comment =>
      simp only [next] at h
      split_ifs at h with hline
      exact hline
  | braces depth =>
      simp only [next] at h
      split_ifs at h with hopen hclose
      exact hclose
  | substitution scan => exact (Nesting.of_next_eq_none (Option.map_eq_none_iff.1 h)).1
  | backquote escaped =>
      cases escaped with
      | true => cases h
      | false =>
          simp only [next] at h
          split_ifs at h with hclose
          exact hclose

/-- Enclosures that begin alike end alike, and are the same expansions. -/
theorem alike_of_opener (h : e'.opener = e.opener) :
    e'.ending = e.ending ∧ ∀ inner text, e'.expansion inner text = e.expansion inner text := by
  cases e <;> cases e' <;> simp [opener] at h <;> exact ⟨rfl, fun _ _ => rfl⟩

/-- Only between backquotes is a text not collected as it is. -/
theorem kept_eq (hopener : e.opener ≠ '\x60') (h : e.run body = some e') : e.kept body = body := by
  induction body generalizing e with
  | nil => rfl
  | cons c rest ih =>
      rw [run_cons] at h
      obtain ⟨e₁, hnext, hrest⟩ := Option.bind_eq_some_iff.1 h
      have hkeeps : e.keeps c = [c] := by
        cases e with
        | backquote escaped => exact absurd rfl hopener
        | _ => rfl
      rw [kept, hnext]
      simp only [hkeeps, ih (by rwa [opener_of_next hnext]) hrest, List.singleton_append]

theorem kept_backquote {close : Char} (h : (backquote false).run body = some e')
    (hclose : e'.next close = none) : (backquote false).kept body = unescape body := by
  induction body using unescape.induct with
  | case1 c rest hdrop ih =>
      rw [run_cons, next, if_neg (by decide), Option.bind_some, run_cons] at h
      rw [unescape, if_pos hdrop, ← ih h]
      simp [kept, next, keeps, hdrop]
  | case2 c rest hkeep ih =>
      rw [run_cons, next, if_neg (by decide), Option.bind_some, run_cons] at h
      rw [unescape, if_neg hkeep, ← ih h]
      simp [kept, next, keeps, hkeep]
  | case3 c rest hpair ih =>
      rw [run_cons, next] at h
      split_ifs at h with hend
      · cases h
      · by_cases hbackslash : c = '\\'
        · -- the backslash would be the last character, and escape the end
          subst hbackslash
          cases rest with
          | nil => cases h; cases hclose
          | cons d rest => exact (hpair d rest rfl rfl).elim
        · rw [Option.bind_some, beq_eq_false_iff_ne.2 hbackslash] at h
          have hkept : (backquote false).kept (c :: rest) = c :: (backquote false).kept rest := by
            simp [kept, next, keeps, hend, hbackslash, beq_eq_false_iff_ne.2 hbackslash]
          rw [hkept, ih h, unescape]
          exact hpair
  | case4 => rfl

end Enclosing

/-! ### From glyph to glyph -/

/-- Between two glyphs the reader has read `p` of a word for `place`. -/
def Stands (f : Frame) (place : Place) (p : Pieces) : Standing → State → Prop
  | .first, s => s = f.before place ∧ p = Pieces.start
  | .bare, s => AtWord f place p s ∧ s.inWord = true
  | .double, s => s = f.inWord place p .double

/-- The text begins with a glyph, which the reader adds to the word. -/
def BeginsWithGlyph (inner : List Char → Reading) (next : Option Char) (place : Place)
    (p q : Pieces) (standing : Standing) (text : List Char) : Prop :=
  ∃ (g : Glyph) (tail : List Char) (f : Frame) (s : State),
    text = g.write ++ tail ∧ g.Fits standing (tail.head?.or next) ∧
      Stands f place (g.addTo inner p) (g.after standing) s ∧ wordIn? inner next s tail = some q

section Glyphs

variable {inner : List Char → Reading} {next : Option Char} {f : Frame} {place : Place}
  {p q : Pieces} {s : State} {standing : Standing} {rest : List Char}

theorem stands_bare (p : Pieces) : Stands f place p .bare (f.inWord place p .bare) :=
  ⟨.inside place p, rfl⟩

/-- The reader behind a part that opened and closed no quotes. -/
theorem stands_later {double : Bool} (h : double = decide (standing = .double)) (p : Pieces) :
    Stands f place p standing.later (f.inWord place p (Mode.after double)) := by
  cases standing <;> subst h
  · exact stands_bare p
  · exact stands_bare p
  · rfl

/-- Between double quotes few characters have a meaning. -/
theorem standsForItself_inside {c : Char} (hquote : c ≠ '"') (hbackquote : c ≠ '\x60')
    (hdollar : c ≠ '$')
    (hbackslash : c = '\\' → ∀ d ∈ next, d ≠ '\n' ∧ isDoubleEscapable d = false) :
    StandsForItself .double next c :=
  ⟨hquote, hbackquote, fun hc => absurd hc hdollar, fun hc => (if_pos rfl).mpr (hbackslash hc),
    fun houtside => absurd rfl houtside, fun hfirst => Standing.noConfusion hfirst⟩

/-- A `~` that a name could follow is no home directory. -/
theorem standsForItself_tilde {c : Char} (h : c ≠ '/' ∧ isWordEnd c = false) :
    StandsForItself standing (some c) '~' :=
  ⟨by decide, by decide, fun hc => absurd hc (by decide), fun hc => absurd hc (by decide),
    fun _ => by decide, fun _ _ => ⟨c, rfl, h⟩⟩

/-- A character that stands for itself is a glyph. -/
theorem begins_char {c : Char} (hfits : StandsForItself standing (rest.head?.or next) c)
    (hstands : Stands f place (p.addChar c) standing.later s)
    (h : wordIn? inner next s rest = some q) :
    BeginsWithGlyph inner next place p q standing (c :: rest) := by
  refine ⟨.char c, rest, f, s, rfl, hfits, ?_, h⟩
  rwa [Glyph.addTo_char]

/-- An enclosure is read to its end, and is the expansion of a glyph. -/
theorem begins_enclosed {mode : Mode} {e : Enclosing} {double : Bool}
    (glyph : List Char → Glyph) (before : List Char)
    (hdouble : double = decide (standing = .double))
    (hmode : mode.collects? = some (e, double, []))
    (hwrite : ∀ body, (glyph body).write = before ++ (body ++ [e.ending]))
    (hafter : ∀ body, (glyph body).after standing = standing.later)
    (hglyph : ∀ body, e.Spans body → (∀ next, (glyph body).Fits standing next) ∧
      (glyph body).expansion? inner = some (e.expansion inner (e.kept body)))
    (h : wordIn? inner next (f.inWord place p mode) rest = some q) :
    BeginsWithGlyph inner next place p q standing (before ++ rest) := by
  obtain ⟨body, tail, close, e', g, rfl, hrun, hclose, htail⟩ := wordIn?_collects hmode h
  obtain ⟨hending, hexpansion⟩ := Enclosing.alike_of_opener (Enclosing.opener_of_run hrun)
  obtain rfl : close = e.ending := (Enclosing.eq_ending hclose).trans hending
  obtain ⟨hfits, hadds⟩ := hglyph body ⟨e', hrun, hclose⟩
  have hadd : (glyph body).addTo inner p = p.addExpansion (e.expansion inner (e.kept body)) := by
    rw [Glyph.addTo, hadds]
  rw [hexpansion, List.nil_append] at htail
  refine ⟨glyph body, tail, g, _, ?_, hfits _, ?_, htail⟩
  · simp [hwrite]
  · rw [hadd, hafter]
    exact stands_later hdouble _

/-- A backquote begins a glyph. -/
theorem begins_backquote {double : Bool} (hdouble : double = decide (standing = .double))
    (h : wordIn? inner next (f.inWord place p (.backquote double [])) rest = some q) :
    BeginsWithGlyph inner next place p q standing ('\x60' :: rest) := by
  refine begins_enclosed .backquoted ['\x60'] hdouble rfl (fun _ => rfl) (fun _ => rfl)
    (fun body hspans => ⟨fun _ => hspans, ?_⟩) h
  obtain ⟨e', hrun, hclose⟩ := hspans
  rw [Enclosing.kept_backquote hrun hclose]
  rfl

/-- A dollar sign begins a glyph. -/
theorem begins_dollar {double : Bool} (hdouble : double = decide (standing = .double))
    (h : wordIn? inner next (f.inWord place p (.dollar double)) rest = some q) :
    BeginsWithGlyph inner next place p q standing ('$' :: rest) := by
  have hliteral : (∀ d ∈ rest.head?.or next, beginsExpansion d = false) →
      StandsForItself standing (rest.head?.or next) '$' := by
    intro hnext
    exact ⟨by decide, by decide, fun _ => hnext, nofun, fun _ => by decide, nofun⟩
  cases rest with
  | nil =>
      cases double with
      | true => cases h
      | false =>
          obtain ⟨⟨hend, hopen⟩, hpieces⟩ := Option.ite_none_right_eq_some.1 h
          have hread : wordIn? inner next (f.inWord place (p.addChar '$') .bare) [] = some q := by
            rw [← hpieces]
            exact wordIn?_bare hend
          refine begins_char (hliteral fun d hd => ?_) (stands_later hdouble _) hread
          by_contra hbegins
          rw [Bool.not_eq_false] at hbegins
          have hne : d ≠ '(' := by
            rintro rfl
            exact hopen hd
          exact absurd (hend d hd) (by simp [not_isWordEnd_of_beginsExpansion hbegins hne])
  | cons c rest =>
      obtain ⟨-, hrest⟩ := wordIn?_cons.1 h
      rw [Frame.inWord, step_word, stepWord, stepDollar] at hrest
      split_ifs at hrest with hbraces hparens hname hspecial
      · subst hbraces
        refine begins_enclosed .parameter ['$', '\x7b'] hdouble rfl (fun _ => rfl)
          (fun _ => rfl) (fun body hspans => ⟨fun _ => hspans, ?_⟩) hrest
        obtain ⟨e', hrun, -⟩ := hspans
        rw [Enclosing.kept_eq (by decide) hrun]
        rfl
      · subst hparens
        refine begins_enclosed .command ['$', '('] hdouble rfl (fun _ => rfl) (fun _ => rfl)
          (fun body hspans => ⟨fun _ => hspans, ?_⟩) hrest
        obtain ⟨e', hrun, -⟩ := hspans
        rw [Enclosing.kept_eq (by decide) hrun]
        rfl
      · obtain ⟨more, tail, rfl, hmore, hnext, htail⟩ := wordIn?_name hrest
        refine ⟨.variable (c :: more), tail, f, _, rfl, Or.inl ⟨?_, hnext⟩,
          stands_later hdouble _, htail⟩
        rw [isNameText, hname, List.all_eq_true.2 hmore]
        rfl
      · exact ⟨.variable [c], rest, f, _, rfl, Or.inr ⟨c, hspecial, rfl⟩,
          stands_later hdouble _, hrest⟩
      · -- the dollar sign is literal, and the character after it is read as if it were not there
        have hstep : step inner (f.inWord place p (.dollar double)) c =
            step inner (f.inWord place (p.addChar '$') (Mode.after double)) c := by
          rw [step_after, Frame.inWord, step_word, stepWord, stepDollar, if_neg hbraces,
            if_neg hparens, if_neg hname, if_neg hspecial]
        rw [wordIn?_congr hstep] at h
        refine begins_char (hliteral fun d hd => ?_) (stands_later hdouble _) h
        rw [List.head?_cons, Option.some_or, Option.mem_some] at hd
        rw [← hd]
        simp [beginsExpansion, hbraces, hparens, hname, hspecial]

/-- Outside of quotes a backslash begins a glyph. -/
theorem begins_escape (hstanding : standing.later = .bare)
    (h : wordIn? inner next (f.inWord place p .escape) rest = some q) :
    BeginsWithGlyph inner next place p q standing ('\\' :: rest) := by
  have houtside : standing ≠ .double := by
    rintro rfl
    cases hstanding
  cases rest with
  | nil =>
      obtain ⟨rfl, hpieces⟩ := Option.ite_none_right_eq_some.1 h
      have hread : wordIn? inner none (f.inWord place (p.addChar '\\') .bare) [] = some q := by
        rw [← hpieces]
        exact wordIn?_bare nofun
      refine begins_char ?_ (hstanding ▸ stands_bare _) hread
      exact ⟨by decide, by decide, nofun, fun _ => by rw [if_neg houtside]; rfl,
        fun _ => by decide, nofun⟩
  | cons c rest =>
      obtain ⟨-, hrest⟩ := wordIn?_cons.1 h
      rw [Frame.inWord, step_word, stepWord] at hrest
      split_ifs at hrest with hline
      · subst hline
        have hafter : Glyph.continuation.after standing = .bare := hstanding
        refine ⟨.continuation, rest, f, _, rfl, trivial, ?_, hrest⟩
        rw [Glyph.addTo_continuation, hafter]
        exact stands_bare p
      · have hafter : (Glyph.escaped c).after standing = .bare := hstanding
        refine ⟨.escaped c, rest, f, _, rfl, ?_, ?_, hrest⟩
        · rwa [Glyph.Fits, if_neg houtside]
        · rw [Glyph.addTo_escaped, hafter]
          exact stands_bare _

/-- Between double quotes a backslash begins a glyph. -/
theorem begins_doubleEscape
    (h : wordIn? inner next (f.inWord place p .doubleEscape) rest = some q) :
    BeginsWithGlyph inner next place p q .double ('\\' :: rest) := by
  cases rest with
  | nil => cases h
  | cons c rest =>
      obtain ⟨-, hrest⟩ := wordIn?_cons.1 h
      rw [Frame.inWord, step_word, stepWord] at hrest
      split_ifs at hrest with hline hescapable
      · subst hline
        refine ⟨.continuation, rest, f, _, rfl, trivial, ?_, hrest⟩
        rw [Glyph.addTo_continuation]
        rfl
      · refine ⟨.escaped c, rest, f, _, rfl, ?_, ?_, hrest⟩
        · rwa [Glyph.Fits, if_pos rfl]
        · rw [Glyph.addTo_escaped]
          rfl
      · have hstep : step inner (f.inWord place p .doubleEscape) c =
            step inner (f.inWord place (p.addChar '\\') .double) c := by
          rw [Frame.inWord, step_word, stepWord, if_neg hline, if_neg hescapable]
          rfl
        rw [wordIn?_congr hstep] at h
        refine begins_char (standsForItself_inside (by decide) (by decide) (by decide) ?_) rfl h
        intro _ d hd
        rw [List.head?_cons, Option.some_or, Option.mem_some] at hd
        rw [← hd]
        exact ⟨hline, Bool.not_eq_true _ ▸ hescapable⟩

/-- At the beginning of a word a `~` is a glyph. -/
theorem begins_tilde
    (h : wordIn? inner next (f.inWord place Pieces.start .tilde) rest = some q) :
    BeginsWithGlyph inner next place Pieces.start q .first ('~' :: rest) := by
  cases rest with
  | nil =>
      obtain ⟨hend, hpieces⟩ := Option.ite_none_right_eq_some.1 h
      have hread : wordIn? inner next
          (f.inWord place (Pieces.start.addExpansion (.variable "HOME")) .bare) [] = some q := by
        rw [← hpieces]
        exact wordIn?_bare hend
      exact ⟨.tilde, [], f, _, rfl, ⟨rfl, fun d hd => Or.inr (hend d hd)⟩, stands_bare _, hread⟩
  | cons c rest =>
      by_cases hhome : c = '/' ∨ isWordEnd c = true
      · have hstep : step inner (f.inWord place Pieces.start .tilde) c =
            step inner (f.inWord place (Pieces.start.addExpansion (.variable "HOME")) .bare) c := by
          rw [Frame.inWord, step_word, stepWord, if_pos hhome]
          rfl
        rw [wordIn?_congr hstep] at h
        refine ⟨.tilde, c :: rest, f, _, rfl, ⟨rfl, fun d hd => ?_⟩, stands_bare _, h⟩
        rw [List.head?_cons, Option.some_or, Option.mem_some] at hd
        rwa [← hd]
      · have hstep : step inner (f.inWord place Pieces.start .tilde) c =
            step inner (f.inWord place (Pieces.start.addChar '~') .bare) c := by
          rw [Frame.inWord, step_word, stepWord, if_neg hhome]
          rfl
        rw [wordIn?_congr hstep] at h
        rw [not_or, Bool.not_eq_true] at hhome
        exact begins_char (standsForItself_tilde hhome) (stands_bare _) h

/-- Outside of quotes what comes between two glyphs is a glyph. -/
theorem begins_outside {c : Char} (hstanding : standing.later = .bare) (hat : AtWord f place p s)
    (htilde : c = '~' → s.inWord = true ∧ standing = .bare)
    (h : wordIn? inner next s (c :: rest) = some q) :
    BeginsWithGlyph inner next place p q standing (c :: rest) := by
  have houtside : standing ≠ .double := by
    rintro rfl
    cases hstanding
  obtain ⟨hin, hrest⟩ := wordIn?_cons.1 h
  have hend := hat.not_isWordEnd hin
  by_cases hspecial : isSpecial c = true
  · rw [hat.step_special hspecial, stepWordChar] at hrest
    split_ifs at hrest with hbackslash hsingle hdouble hdollar hbackquote
    · subst hbackslash
      exact begins_escape hstanding hrest
    · subst hsingle
      obtain ⟨body, tail, rfl, hbody, htail⟩ := wordIn?_single hrest
      have hafter : (Glyph.single body).after standing = .bare := hstanding
      refine ⟨.single body, tail, f, _, ?_, ⟨houtside, hbody⟩, ?_, htail⟩
      · simp [Glyph.write]
      · rw [Glyph.addTo_single, hafter]
        exact stands_bare _
    · subst hdouble
      refine ⟨.openDouble, rest, f, _, rfl, houtside, ?_, hrest⟩
      rw [Glyph.addTo_openDouble]
      rfl
    · subst hdollar
      exact begins_dollar (by simp [houtside]) hrest
    · subst hbackquote
      exact begins_backquote (by simp [houtside]) hrest
    · simp [isSpecial, *] at hspecial
  · rw [Bool.not_eq_true] at hspecial
    have hnext := hat.step_literal hin hspecial (fun hc => (htilde hc).1)
    simp only [isSpecial, Bool.or_eq_false_iff, beq_eq_false_iff_ne, and_assoc] at hspecial
    obtain ⟨hbackslash, hsingle, hdouble, hdollar, hbackquote⟩ := hspecial
    have hstands : Stands f place (p.addChar c) standing.later (step inner s c) := by
      rw [hstanding]
      exact ⟨hnext, hin⟩
    refine begins_char ?_ hstands hrest
    refine ⟨hdouble, hbackquote, fun hc => absurd hc hdollar, fun hc => absurd hc hbackslash,
      fun _ => ⟨hend, hsingle⟩, fun hfirst hc => ?_⟩
    rw [(htilde hc).2] at hfirst
    cases hfirst

/-- Between double quotes what comes between two glyphs is a glyph. -/
theorem begins_inside {c : Char}
    (h : wordIn? inner next (f.inWord place p .double) (c :: rest) = some q) :
    BeginsWithGlyph inner next place p q .double (c :: rest) := by
  obtain ⟨-, hrest⟩ := wordIn?_cons.1 h
  rw [Frame.inWord, step_word, stepWord, stepDouble] at hrest
  split_ifs at hrest with hdouble hbackslash hdollar hbackquote
  · subst hdouble
    refine ⟨.closeDouble, rest, f, _, rfl, rfl, ?_, hrest⟩
    rw [Glyph.addTo_closeDouble]
    exact stands_bare p
  · subst hbackslash
    exact begins_doubleEscape hrest
  · subst hdollar
    exact begins_dollar rfl hrest
  · subst hbackquote
    exact begins_backquote rfl hrest
  · exact begins_char (standsForItself_inside hdouble hbackquote hdollar
      (fun hc => absurd hc hbackslash)) rfl hrest

/-- Between two glyphs of a word, what comes next is a glyph. -/
theorem exists_glyph {c : Char} (hstands : Stands f place p standing s)
    (h : wordIn? inner next s (c :: rest) = some q) :
    BeginsWithGlyph inner next place p q standing (c :: rest) := by
  cases standing with
  | first =>
      obtain ⟨rfl, rfl⟩ := hstands
      by_cases htilde : c = '~'
      · subst htilde
        obtain ⟨-, hrest⟩ := wordIn?_cons.1 h
        have hstep : step inner (f.before place) '~' = f.inWord place Pieces.start .tilde := by
          cases place with
          | plain =>
              have hname : isNameStart '~' = false := by decide
              rw [Frame.before, step_gap, stepGap_word (by decide) (by decide),
                if_neg (by simp [hname]), startWord, if_pos rfl]
          | value name => rfl
          | element name elements => rfl
        rw [hstep] at hrest
        exact begins_tilde hrest
      · exact begins_outside rfl (atWord_before f place) (fun hc => absurd hc htilde) h
  | bare => exact begins_outside rfl hstands.1 (fun _ => ⟨hstands.2, rfl⟩) h
  | double =>
      obtain rfl : s = f.inWord place p .double := hstands
      exact begins_inside h

/-- A word ends behind a glyph outside of quotes, with what was read of it. -/
theorem wordEnd?_of_stands (hstands : Stands f place p standing s)
    (h : s.wordEnd? next = some q) : standing = .bare ∧ q = p := by
  cases standing with
  | first =>
      obtain ⟨rfl, rfl⟩ := hstands
      cases place <;> cases h
  | bare =>
      obtain ⟨hat, hin⟩ := hstands
      cases hat with
      | inside => exact ⟨rfl, (Option.some.inj (Option.ite_none_right_eq_some.1 h).2).symm⟩
      | letters text => exact ⟨rfl, (Option.some.inj (Option.ite_none_right_eq_some.1 h).2).symm⟩
      | gap => cases hin
      | valueStart name => cases hin
      | arrayGap name elements => cases hin
  | double =>
      obtain rfl : s = f.inWord place p .double := hstands
      cases h

/-- From between two glyphs on, a word is what its glyphs add up to. -/
theorem exists_glyphs {text : List Char} (hstands : Stands f place p standing s)
    (h : wordIn? inner next s text = some q) :
    ∃ glyphs, Spells next standing text glyphs ∧ q = glyphs.foldl (Glyph.addTo inner) p := by
  induction hlength : text.length using Nat.strongRecOn generalizing f p standing s text with
  | _ n ih =>
      cases text with
      | nil =>
          obtain ⟨rfl, rfl⟩ := wordEnd?_of_stands hstands h
          exact ⟨[], .nil, rfl⟩
      | cons c rest =>
          obtain ⟨g, tail, f', s', hsplit, hfits, hstands', htail⟩ := exists_glyph hstands h
          have hshorter : tail.length < n := by
            have hpos := g.length_write_pos
            have hsum := congrArg List.length hsplit
            rw [hlength, List.length_append] at hsum
            omega
          obtain ⟨glyphs, hspells, hpieces⟩ := ih tail.length hshorter hstands' htail rfl
          rw [hsplit]
          exact ⟨g :: glyphs, .cons hfits hspells, hpieces⟩

/-- A word is written with glyphs, and is what they add up to. -/
theorem spells_of_wordIn {text : List Char}
    (h : wordIn? inner next (f.before place) text = some q) :
    ∃ glyphs, Spells next .first text glyphs ∧
      q = glyphs.foldl (Glyph.addTo inner) Pieces.start := by
  have hstands : Stands f place Pieces.start .first (f.before place) := ⟨rfl, rfl⟩
  exact exists_glyphs hstands h

end Glyphs

end Reader

end ScriptRunner
