import Mathlib.Tactic.SplitIfs
import ScriptRunner.Proofs.Command.Composition
import ScriptRunner.Proofs.Text.Characters

/-!
# ScriptRunner.Proofs.Command.Phase

What one character does to the reader, as a flat scan would have to know it.

Two scans go over the text of a command without reading it: the one for the end of a
substitution, and the one for the marker of an input. Both are flat: they follow quotes by
three flags (`Quotes`) and know nothing of comments, and nothing of the expansions whose text
is collected and read by itself, or not at all. The reader knows these (`Enclosing`), and where
it stands in quotes it knows by its position. Inside of a substitution it is itself such a scan
(`stepWord_mode`).

`Position.phase` keeps of a position what can be compared with a flat scan, and `step_phase`
says once what a character does to it. Theorems about whole texts read it off there.
-/

namespace ScriptRunner.Reader

/-! ## The flat rules -/

/-- What a flat scan knows of quotes. -/
structure Quotes where
  inSingle : Bool
  inDouble : Bool
  escaped : Bool
  deriving DecidableEq, Repr

namespace Quotes

/-- Between double quotes, or outside of quotes. -/
def within (double : Bool) : Quotes := ⟨false, double, false⟩

/-- Outside of quotes. -/
abbrev outside : Quotes := within false

/-- One character. A backslash escapes outside single quotes. -/
def next (q : Quotes) (c : Char) : Quotes :=
  if q.escaped then ⟨q.inSingle, q.inDouble, false⟩
  else if c = '\\' ∧ q.inSingle = false then ⟨q.inSingle, q.inDouble, true⟩
  else if c = '\'' ∧ q.inDouble = false then ⟨!q.inSingle, q.inDouble, false⟩
  else if c = '"' ∧ q.inSingle = false then ⟨q.inSingle, !q.inDouble, false⟩
  else q

/-- The characters of a text, one after the other. -/
def after (q : Quotes) (text : List Char) : Quotes :=
  text.foldl next q

@[simp] theorem after_nil (q : Quotes) : q.after [] = q := rfl

@[simp] theorem after_cons (q : Quotes) (c : Char) (text : List Char) :
    q.after (c :: text) = (q.next c).after text := rfl

theorem next_within {c : Char} (hbackslash : c ≠ '\\') (hsingle : c ≠ '\'') (hdouble : c ≠ '"')
    (double : Bool) : (within double).next c = within double := by
  simp [next, within, hbackslash, hsingle, hdouble]

end Quotes

/-- Where the scan for the end of a substitution stands: how many parentheses are open, and in
which quotes it is. -/
structure Nesting where
  depth : Nat
  quotes : Quotes
  deriving DecidableEq, Repr

namespace Nesting

/-- One character; none, if it is the parenthesis that ends the substitution. -/
def next (n : Nesting) (c : Char) : Option Nesting :=
  if n.quotes = .outside ∧ c = '(' then some ⟨n.depth + 1, n.quotes⟩
  else if n.quotes = .outside ∧ c = ')' then
    if n.depth ≤ 1 then none else some ⟨n.depth - 1, n.quotes⟩
  else some ⟨n.depth, n.quotes.next c⟩

/-- The characters of a text, unless one of them ends the substitution. -/
def run (n : Nesting) (text : List Char) : Option Nesting :=
  text.foldlM next n

/-- Right after the opening parenthesis. -/
def start : Nesting := ⟨1, .outside⟩

/-- The reader inside of the substitution. -/
def mode (n : Nesting) (double : Bool) (text : List Char) : Mode :=
  .parens double n.depth n.quotes.inSingle n.quotes.inDouble n.quotes.escaped text

/-- Outside of quotes the scan counts parentheses, and nothing else. -/
theorem next_char {c : Char} {depth : Nat} {q : Quotes}
    (h : q = .outside → c ≠ '(' ∧ c ≠ ')') : next ⟨depth, q⟩ c = some ⟨depth, q.next c⟩ := by
  unfold next
  rw [if_neg (fun hc => (h hc.1).1 hc.2), if_neg (fun hc => (h hc.1).2 hc.2)]

/-- The scan ends at a closing parenthesis outside of quotes. -/
theorem of_next_eq_none {n : Nesting} {c : Char} (h : n.next c = none) :
    c = ')' ∧ n.quotes = .outside ∧ n.depth ≤ 1 := by
  unfold next at h
  split_ifs at h with hopen hclose hlast
  exact ⟨hclose.2, hclose.1, hlast⟩

end Nesting

/-- What the reader can be inside of, as far as it decides where that ends. -/
inductive Enclosing
  | comment
  | braces (depth : Nat)
  | substitution (scan : Nesting)
  | backquote (escaped : Bool)

namespace Enclosing

/-- The character that it begins with. -/
def opener : Enclosing → Char
  | .comment => '#'
  | .braces _ => '\x7b'
  | .substitution _ => '('
  | .backquote _ => '\x60'

/-- One character; none, if it is the one that ends it. -/
def next : Enclosing → Char → Option Enclosing
  | .comment, c => if c = '\n' then none else some .comment
  | .braces depth, c =>
    if c = '\x7b' then some (.braces (depth + 1))
    else if c = '\x7d' then if depth ≤ 1 then none else some (.braces (depth - 1))
    else some (.braces depth)
  | .substitution scan, c => (scan.next c).map .substitution
  | .backquote true, _ => some (.backquote false)
  | .backquote false, c => if c = '\x60' then none else some (.backquote (c == '\\'))

/-- The characters of a text, unless one of them is the end. -/
def run (e : Enclosing) (text : List Char) : Option Enclosing :=
  text.foldlM next e

/-- What a character begins. Braces and parentheses need a dollar sign before them. -/
def opened (c : Char) (dollar : Bool) : Option Enclosing :=
  if c = '#' then some .comment
  else if c = '\x60' then some (.backquote false)
  else if dollar = true ∧ c = '\x7b' then some (.braces 1)
  else if dollar = true ∧ c = '(' then some (.substitution .start)
  else none

variable {e e' : Enclosing} {c : Char}

theorem opener_of_opened {dollar : Bool} (h : opened c dollar = some e) : e.opener = c := by
  unfold opened at h
  split_ifs at h with hcomment hbackquote hbraces hparens
  · rw [← Option.some.inj h, hcomment]; rfl
  · rw [← Option.some.inj h, hbackquote]; rfl
  · rw [← Option.some.inj h, hbraces.2]; rfl
  · rw [← Option.some.inj h, hparens.2]; rfl

theorem opener_of_next (h : e.next c = some e') : e'.opener = e.opener := by
  cases e with
  | comment =>
      simp only [next] at h
      split_ifs at h
      cases h
      rfl
  | braces depth =>
      simp only [next] at h
      split_ifs at h <;> cases h <;> rfl
  | substitution scan =>
      obtain ⟨scan', -, rfl⟩ := Option.map_eq_some_iff.1 h
      rfl
  | backquote escaped =>
      cases escaped with
      | true => cases h; rfl
      | false =>
          simp only [next] at h
          split_ifs at h
          cases h
          rfl

theorem run_cons (e : Enclosing) (c : Char) (text : List Char) :
    e.run (c :: text) = (e.next c).bind (·.run text) := by
  rw [run, List.foldlM_cons]
  rfl

theorem opener_of_run {text : List Char} (h : e.run text = some e') : e'.opener = e.opener := by
  induction text generalizing e with
  | nil => cases h; rfl
  | cons c rest ih =>
      rw [run_cons] at h
      obtain ⟨e₁, hnext, hrest⟩ := Option.bind_eq_some_iff.1 h
      rw [ih hrest, opener_of_next hnext]

end Enclosing

/-! ## Where the reader stands -/

/-- What a flat scan would have to know of the reader's position. -/
inductive Phase
  /-- Outside of any enclosure: in these quotes, in an array (`level` 1) or not (`level` 0),
  right after a dollar sign that can begin an expansion or not. -/
  | free (quotes : Quotes) (level : Nat) (dollar : Bool)
  /-- Inside of an enclosure, which stands between double quotes or outside of quotes. -/
  | inside (e : Enclosing) (double : Bool) (level : Nat)
  /-- The text is refused, whatever follows, or the reading does not end. -/
  | lost

/-- How deep in the parentheses of arrays a word is. -/
def Place.level : Place → Nat
  | .element .. => 1
  | _ => 0

def Mode.phase (level : Nat) : Mode → Phase
  | .tilde => .free .outside level false
  | .bare => .free .outside level false
  | .escape => .free ⟨false, false, true⟩ level false
  | .single => .free ⟨true, false, false⟩ level false
  | .double => .free (.within true) level false
  | .doubleEscape => .free ⟨false, true, true⟩ level false
  | .dollar d => .free (.within d) level true
  | .name d _ => .free (.within d) level false
  | .braces d depth _ => .inside (.braces depth) d level
  | .parens d depth inSingle inDouble escaped _ =>
      .inside (.substitution ⟨depth, ⟨inSingle, inDouble, escaped⟩⟩) d level
  | .backquote d _ => .inside (.backquote false) d level
  | .backquoteEscape d _ => .inside (.backquote true) d level

def Position.phase : Position → Phase
  | .gap => .free .outside 0 false
  | .comment => .inside .comment false 0
  | .operator .. => .lost
  | .letters _ => .free .outside 0 false
  | .valueStart _ => .free .outside 0 false
  | .arrayGap .. => .free .outside 1 false
  | .arrayComment .. => .inside .comment false 1
  | .arrayEnd .. => .free .outside 0 false
  | .word place _ mode => mode.phase place.level

def State.phase : State → Phase
  | .running _ _ position _ => position.phase
  | .halted .. => .lost

/-- What the character `c` can do. When a text is refused is left open here, and where a `#` can
begin a comment. -/
inductive Phase.Step (c : Char) : Phase → Phase → Prop
  | stops (phase : Phase) : Step c phase .lost
  /-- The character counts as the flat rules say. Outside of quotes none of those with a meaning
  of their own to a flat scan is a part of a word. -/
  | char {q : Quotes} {level : Nat} {dollar dollar' : Bool}
      (hplain : q = .outside → c ≠ '<' ∧ c ≠ '(' ∧ c ≠ ')') (hdollar : dollar' = true → c = '$') :
      Step c (.free q level dollar) (.free (q.next c) level dollar')
  | opensArray {dollar : Bool} (h : c = '(') :
      Step c (.free .outside 0 dollar) (.free .outside 1 false)
  | closesArray {dollar : Bool} (h : c = ')') :
      Step c (.free .outside 1 dollar) (.free .outside 0 false)
  | opens {e : Enclosing} {double dollar : Bool} {level : Nat}
      (h : Enclosing.opened c dollar = some e) :
      Step c (.free (.within double) level dollar) (.inside e double level)
  | goesOn {e e' : Enclosing} {double : Bool} {level : Nat} (h : e.next c = some e') :
      Step c (.inside e double level) (.inside e' double level)
  | closes {e : Enclosing} {double : Bool} {level : Nat} (h : e.next c = none) :
      Step c (.inside e double level) (.free (.within double) level false)

/-- Neither a flat scan nor an array has to do with the character. -/
def IsNeutral (c : Char) : Prop :=
  c ≠ '\\' ∧ c ≠ '\'' ∧ c ≠ '"' ∧ c ≠ '<' ∧ c ≠ '(' ∧ c ≠ ')'

theorem IsNeutral.of_class {c : Char} (inClass : Char → Bool) (h : inClass c = true)
    (hnone : inClass '\\' = false ∧ inClass '\'' = false ∧ inClass '"' = false ∧
      inClass '<' = false ∧ inClass '(' = false ∧ inClass ')' = false) : IsNeutral c := by
  obtain ⟨h₁, h₂, h₃, h₄, h₅, h₆⟩ := hnone
  refine ⟨?_, ?_, ?_, ?_, ?_, ?_⟩ <;> rintro rfl <;> simp_all

namespace Phase.Step

variable {c : Char} {level : Nat} {dollar dollar' : Bool}

/-- A character that the flat rules take for the quotes `q'`. -/
theorem counts {q q' : Quotes} (hnext : q.next c = q')
    (hplain : q = .outside → c ≠ '<' ∧ c ≠ '(' ∧ c ≠ ')') (hdollar : dollar' = true → c = '$') :
    Phase.Step c (.free q level dollar) (.free q' level dollar') :=
  hnext ▸ .char hplain hdollar

theorem neutral (h : IsNeutral c) (double : Bool) :
    Phase.Step c (.free (.within double) level dollar) (.free (.within double) level false) := by
  obtain ⟨hbackslash, hsingle, hdouble, hplain⟩ := h
  exact .counts (Quotes.next_within hbackslash hsingle hdouble double) (fun _ => hplain) (by simp)

end Phase.Step

section Steps

variable (f : Frame) (place : Place) (p : Pieces) {c : Char} {dollar : Bool}

theorem phase_stepWordChar (hword : isWordEnd c = false) :
    Phase.Step c (.free .outside place.level dollar) (stepWordChar f place p c).phase := by
  have hplain : c ≠ '<' ∧ c ≠ '(' ∧ c ≠ ')' := by
    obtain ⟨-, -, -, -, hangle, -, hopen, hclose⟩ := ne_of_not_isWordEnd hword
    exact ⟨hangle, hopen, hclose⟩
  unfold stepWordChar
  split_ifs with hbackslash hsingle hdouble hdollar hbackquote
  · exact .counts (by rw [hbackslash]; rfl) (fun _ => hplain) (by simp)
  · exact .counts (by rw [hsingle]; rfl) (fun _ => hplain) (by simp)
  · exact .counts (by rw [hdouble]; rfl) (fun _ => hplain) (by simp)
  · exact .counts (by rw [hdollar]; rfl) (fun _ => hplain) (fun _ => hdollar)
  · exact .opens (by simp [Enclosing.opened, hbackquote])
  · exact .counts (Quotes.next_within hbackslash hsingle hdouble false) (fun _ => hplain) (by simp)

theorem phase_startWord (hword : isWordEnd c = false) :
    Phase.Step c (.free .outside place.level dollar) (startWord f place c).phase := by
  unfold startWord
  split_ifs with htilde
  · subst htilde
    exact .counts rfl (fun _ => by decide) (by simp)
  · exact phase_stepWordChar f place Pieces.start hword

theorem phase_stepGap : Phase.Step c (.free .outside 0 dollar) (stepGap f c).phase := by
  unfold stepGap
  split_ifs with hspace hsep hcomment hbar hangle hparen hstalled hname
  · exact .neutral (.of_class isCommandBlank hspace (by decide)) false
  · rcases hsep with rfl | rfl
    · exact .counts rfl (fun _ => by decide) (by simp)
    · exact .counts rfl (fun _ => by decide) (by simp)
  · exact .opens (by simp [Enclosing.opened, hcomment])
  · exact .stops _
  · exact .stops _
  · exact .stops _
  · exact .stops _
  · rw [Bool.and_eq_true] at hname
    exact .neutral (.of_class isNameStart hname.2 (by decide)) false
  · refine phase_startWord f .plain ?_
    rw [not_or] at hsep hbar hangle hparen
    simp [isWordEnd, hstalled, hsep, hbar, hangle, hparen]

theorem phase_stepArrayGap (name : String) (elements : List Word) :
    Phase.Step c (.free .outside 1 dollar) (stepArrayGap f name elements c).phase := by
  unfold stepArrayGap
  split_ifs with hblank hclose hcomment hword
  · exact .neutral (.of_class isBlank hblank (by decide)) false
  · exact .closesArray hclose
  · exact .opens (by simp [Enclosing.opened, hcomment])
  · exact .stops _
  · exact phase_startWord f (.element name elements) (by simpa using hword)

theorem phase_stepAfterWord :
    Phase.Step c (.free .outside place.level dollar) (stepAfterWord f place p c).phase := by
  unfold stepAfterWord
  cases place with
  | plain =>
      simp only [endWord]
      cases p.word? with
      | none => exact phase_stepGap f
      | some w => exact phase_stepGap _
  | value name => exact phase_stepGap _
  | element name elements => exact phase_stepArrayGap f name _

theorem phase_stepBare :
    Phase.Step c (.free .outside place.level dollar) (stepBare f place p c).phase := by
  unfold stepBare
  split_ifs with hword
  · exact phase_stepAfterWord f place p
  · exact phase_stepWordChar f place p (by simpa using hword)

theorem phase_stepDouble :
    Phase.Step c (.free (.within true) place.level dollar) (stepDouble f place p c).phase := by
  have hquoted : Quotes.within true = .outside → c ≠ '<' ∧ c ≠ '(' ∧ c ≠ ')' :=
    fun h => absurd h (by decide)
  unfold stepDouble
  split_ifs with hdouble hbackslash hdollar hbackquote
  · exact .counts (by rw [hdouble]; rfl) hquoted (by simp)
  · exact .counts (by rw [hbackslash]; rfl) hquoted (by simp)
  · exact .counts (by rw [hdollar]; rfl) hquoted (fun _ => hdollar)
  · exact .opens (by simp [Enclosing.opened, hbackquote])
  · -- an apostrophe stands for itself here
    refine .counts ?_ hquoted (by simp)
    simp [Quotes.next, Quotes.within, hbackslash, hdouble]

theorem phase_stepAfterExpansion (double : Bool) :
    Phase.Step c (.free (.within double) place.level dollar)
      (stepAfterExpansion double f place p c).phase := by
  cases double with
  | true => exact phase_stepDouble f place p
  | false => exact phase_stepBare f place p

theorem phase_after (double : Bool) (level : Nat) :
    (Mode.after double).phase level = .free (.within double) level false := by
  cases double <;> rfl

theorem phase_endSubstitution (inner : List Char → Reading) (double : Bool) (text : List Char)
    {e : Enclosing} (h : e.next c = none) :
    Phase.Step c (.inside e double place.level)
      (endSubstitution inner double f place p text).phase := by
  have hcloses : Phase.Step c (.inside e double place.level)
      ((Mode.after double).phase place.level) := by
    rw [phase_after]
    exact .closes h
  unfold endSubstitution
  dsimp only
  split
  · exact hcloses
  · exact hcloses
  · exact .stops _

theorem phase_stepDollar (double : Bool) :
    Phase.Step c (.free (.within double) place.level true)
      (stepDollar double f place p c).phase := by
  unfold stepDollar
  split_ifs with hbraces hparens hname hspecial
  · subst hbraces
    exact .opens rfl
  · subst hparens
    exact .opens rfl
  · exact .neutral (.of_class isNameStart hname (by decide)) double
  · have hstep : Phase.Step c (.free (.within double) place.level true)
        ((Mode.after double).phase place.level) := by
      rw [phase_after]
      exact .neutral (.of_class isSpecialParameter hspecial (by decide)) double
    exact hstep
  · exact phase_stepAfterExpansion f place _ double

/-- The reader inside of a substitution is the scan for its end. -/
theorem stepWord_mode (inner : List Char → Reading) (double : Bool) (n : Nesting)
    (text : List Char) (c : Char) :
    stepWord inner f place p (n.mode double text) c =
      match n.next c with
      | some n' => f.inWord place p (n'.mode double (text ++ [c]))
      | none => endSubstitution inner double f place p text := by
  obtain ⟨depth, inSingle, inDouble, escaped⟩ := n
  rw [Nesting.mode, stepWord]
  by_cases hplain : (⟨inSingle, inDouble, escaped⟩ : Quotes) = .outside → c ≠ '(' ∧ c ≠ ')'
  · rw [Nesting.next_char hplain]
    cases escaped with
    | true => rfl
    | false =>
        have hopen : ¬(inSingle = false ∧ inDouble = false ∧ c = '(') := by
          rintro ⟨rfl, rfl, hc⟩
          exact (hplain rfl).1 hc
        have hclose : ¬(inSingle = false ∧ inDouble = false ∧ c = ')') := by
          rintro ⟨rfl, rfl, hc⟩
          exact (hplain rfl).2 hc
        simp only [stepParens, Quotes.next, hopen, hclose, if_false]
        split_ifs <;> rfl
  · obtain ⟨houtside, hparen⟩ := Classical.not_imp.1 hplain
    obtain ⟨rfl, rfl, rfl⟩ := Quotes.mk.inj houtside
    rcases not_and_or.1 hparen with h | h
    · rw [not_not.1 h]
      rfl
    · rw [not_not.1 h]
      by_cases hlast : depth ≤ 1 <;>
        simp [stepParens, Nesting.next, Nesting.mode, Quotes.within, hlast]

theorem phase_stepWord (inner : List Char → Reading) (mode : Mode) :
    Phase.Step c (mode.phase place.level) (stepWord inner f place p mode c).phase := by
  cases mode with
  | tilde =>
      rw [stepWord]
      split
      · exact phase_stepBare f place _
      · exact phase_stepBare f place _
  | bare => exact phase_stepBare f place p
  | escape => exact .char (fun h => absurd h (by decide)) (by simp)
  | single =>
      rw [stepWord]
      split_ifs with hsingle
      · exact .counts (by rw [hsingle]; rfl) (fun h => absurd h (by decide)) (by simp)
      · exact .counts (by simp [Quotes.next, hsingle]) (fun h => absurd h (by decide)) (by simp)
  | double => exact phase_stepDouble f place p
  | doubleEscape =>
      have hescaped : Phase.Step c (.free ⟨false, true, true⟩ place.level false)
          (.free (.within true) place.level false) :=
        .char (fun h => absurd h (by decide)) (by simp)
      rw [stepWord]
      split_ifs with hline hescapable
      · exact hescaped
      · exact hescaped
      · -- any other character is read as if the backslash were not there
        have hchar : stepDouble f place (p.addChar '\\') c =
            f.inWord place ((p.addChar '\\').addChar c) .double := by
          simp only [isDoubleEscapable, Bool.or_eq_true, beq_iff_eq, not_or] at hescapable
          obtain ⟨⟨⟨hdollar, hbackquote⟩, hdouble⟩, hbackslash⟩ := hescapable
          simp only [stepDouble, hdollar, hbackquote, hdouble, hbackslash, if_false]
        rw [hchar]
        exact hescaped
  | dollar double => exact phase_stepDollar f place p double
  | name double letters =>
      rw [stepWord]
      split_ifs with hname
      · exact .neutral (.of_class isNameChar hname (by decide)) double
      · exact phase_stepAfterExpansion f place _ double
  | braces double depth text =>
      rw [stepWord, stepBraces]
      split_ifs with hopen hclose hlast
      · exact .goesOn (by simp [Enclosing.next, hopen])
      · have hstep : Phase.Step c (.inside (.braces depth) double place.level)
            (.free (.within double) place.level false) :=
          .closes (by simp [Enclosing.next, hclose, hlast])
        rwa [← phase_after] at hstep
      · exact .goesOn (by simp [Enclosing.next, hclose, hlast])
      · exact .goesOn (by simp [Enclosing.next, hopen, hclose])
  | parens double depth inSingle inDouble escaped text =>
      have heq := stepWord_mode f place p inner double ⟨depth, inSingle, inDouble, escaped⟩ text c
      rw [Nesting.mode] at heq
      rw [heq]
      split
      · next n' hnext => exact .goesOn (by simp [Enclosing.next, hnext])
      · next hnext =>
          exact phase_endSubstitution f place p inner double text (by simp [Enclosing.next, hnext])
  | backquote double text =>
      rw [stepWord]
      split_ifs with hclose hbackslash
      · exact phase_endSubstitution f place p inner double text (by simp [Enclosing.next, hclose])
      · exact .goesOn (by simp [Enclosing.next, hbackslash])
      · exact .goesOn (by simp [Enclosing.next, hclose, hbackslash])
  | backquoteEscape double text =>
      rw [stepWord]
      exact .goesOn rfl

/-- What a character does. -/
theorem step_phase (inner : List Char → Reading) (s : State) (c : Char) :
    Phase.Step c s.phase (step inner s c).phase := by
  cases s with
  | halted halt ignored => exact .stops _
  | running done draft position ignored =>
      cases position with
      | gap => exact phase_stepGap _
      | comment =>
          rw [step]
          split_ifs with hline
          · subst hline
            exact .closes rfl
          · exact .goesOn (by simp [Enclosing.next, hline])
      | operator redirection run =>
          rw [step]
          split_ifs
          · exact .stops _
          · exact .stops _
          · exact .stops _
      | letters text =>
          rw [step]
          split_ifs with hname hequals
          · exact .neutral (.of_class isNameChar hname (by decide)) false
          · subst hequals
            exact .counts rfl (fun _ => by decide) (by simp)
          · exact phase_stepBare _ .plain _
      | valueStart name =>
          rw [step]
          split_ifs with hopen hword
          · exact .opensArray hopen
          · exact phase_stepGap _
          · exact phase_startWord _ (.value name) (by simpa using hword)
      | arrayGap name elements => exact phase_stepArrayGap _ name elements
      | arrayComment name elements =>
          rw [step]
          split_ifs with hline
          · subst hline
            exact .closes rfl
          · exact .goesOn (by simp [Enclosing.next, hline])
      | arrayEnd name elements =>
          rw [step]
          split_ifs
          · exact phase_stepGap _
          · exact .stops _
      | word place p mode => exact phase_stepWord _ place p inner mode

end Steps

end ScriptRunner.Reader
