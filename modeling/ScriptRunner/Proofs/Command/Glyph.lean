import ScriptRunner.Proofs.Command.Phase
import ScriptRunner.Proofs.Text.Characters

/-!
# ScriptRunner.Proofs.Command.Glyph

How a word is written.

A word is written glyph by glyph: a character, a character after a backslash, a text between
apostrophes, a double quote, an expansion (`Glyph`). Which characters make up the next glyph
depends on where it stands and on one character more (`Glyph.Fits`), and `Spells` says that a text
is written with these glyphs, one after another. It does not mention the reader.

Two glyphs cannot begin in the same place (`Glyph.unique`): no glyph but a character is written
with what stands for itself there (`Glyph.eq_char`), and an expansion ends at the first place where
it can. So a text says what its glyphs are.

Main statement: `Spells.unique`.
-/

namespace ScriptRunner.Reader

/-! ## How a word is written -/

/-- Where a part of a word stands. -/
inductive Standing
  /-- At the beginning of the word. -/
  | first
  /-- Later in the word, outside of quotes. -/
  | bare
  /-- Between double quotes. -/
  | double
  deriving DecidableEq, Repr

/-- Where the next part stands, if no quote is opened or closed. -/
def Standing.later : Standing → Standing
  | .double => .double
  | _ => .bare

theorem Standing.later_eq_double {standing : Standing} :
    standing.later = .double ↔ standing = .double := by
  cases standing <;> decide

/-- What a word is written with. -/
inductive Glyph
  /-- A character that stands for itself. -/
  | char (c : Char)
  /-- A backslash and the character that it lets stand for itself. -/
  | escaped (c : Char)
  /-- A backslash and a line feed, which stand for nothing. -/
  | continuation
  /-- A text between apostrophes. -/
  | single (text : List Char)
  | openDouble
  | closeDouble
  /-- A `~` that stands for the home directory. -/
  | tilde
  /-- A `$` and a name, or one special character. -/
  | variable (name : List Char)
  /-- A `$` and a text between braces. -/
  | parameter (text : List Char)
  /-- A `$` and commands between parentheses. -/
  | command (text : List Char)
  /-- Commands between backquotes. -/
  | backquoted (text : List Char)
  deriving DecidableEq, Repr

/-- A text between backquotes without the backslashes that escape something there. -/
def unescape : List Char → List Char
  | '\\' :: c :: rest =>
    if c = '\x60' ∨ c = '\\' ∨ c = '$' then c :: unescape rest else '\\' :: c :: unescape rest
  | c :: rest => c :: unescape rest
  | [] => []

/-- The characters that begin an expansion after a `$`. -/
def beginsExpansion (c : Char) : Bool :=
  c == '\x7b' || c == '(' || isNameStart c || isSpecialParameter c

namespace Enclosing

/-- The character that an enclosure ends with. -/
def ending : Enclosing → Char
  | .comment => '\n'
  | .braces _ => '\x7d'
  | .substitution _ => ')'
  | .backquote _ => '\x60'

/-- The enclosure ends behind the text, and not before. -/
def Spans (e : Enclosing) (text : List Char) : Prop :=
  ∃ e', e.run text = some e' ∧ e'.next e.ending = none

end Enclosing

theorem not_isNameChar_of_isWordEnd {c : Char} (h : isWordEnd c = true) :
    isNameChar c = false := by
  by_contra hname
  rw [Bool.not_eq_false] at hname
  exact absurd h (by simp [isWordEnd_of_isPlain (isPlain_of_isNameChar hname)])

theorem not_isWordEnd_of_isSpecialParameter {c : Char} (h : isSpecialParameter c = true) :
    isWordEnd c = false := by
  simp only [isSpecialParameter, Bool.or_eq_true, beq_iff_eq] at h
  rcases h with ((((((hdigit | rfl) | rfl) | rfl) | rfl) | rfl) | rfl) | rfl
  case inl => exact isWordEnd_of_isPlain (isPlain_of_isNameChar (by simp [isNameChar, hdigit]))
  all_goals decide

/-- Of the characters that begin an expansion, the parenthesis alone ends a word otherwise. -/
theorem not_isWordEnd_of_beginsExpansion {c : Char} (h : beginsExpansion c = true)
    (hopen : c ≠ '(') : isWordEnd c = false := by
  simp only [beginsExpansion, Bool.or_eq_true, beq_iff_eq] at h
  rcases h with ((rfl | rfl) | hname) | hspecial
  · decide
  · exact absurd rfl hopen
  · exact isWordEnd_of_isPlain (isPlain_of_isNameChar (isNameChar_of_isNameStart hname))
  · exact not_isWordEnd_of_isSpecialParameter hspecial

/-- The character has no other meaning than itself, before `next`. -/
structure StandsForItself (standing : Standing) (next : Option Char) (c : Char) : Prop where
  quote : c ≠ '"'
  backquote : c ≠ '\x60'
  dollar : c = '$' → ∀ d ∈ next, beginsExpansion d = false
  backslash : c = '\\' →
    if standing = .double then ∀ d ∈ next, d ≠ '\n' ∧ isDoubleEscapable d = false else next = none
  bare : standing ≠ .double → isWordEnd c = false ∧ c ≠ '\''
  tilde : standing = .first → c = '~' → ∃ d ∈ next, d ≠ '/' ∧ isWordEnd d = false

namespace Glyph

/-- The characters of the glyph. -/
def write : Glyph → List Char
  | .char c => [c]
  | .escaped c => ['\\', c]
  | .continuation => ['\\', '\n']
  | .single text => '\'' :: (text ++ ['\''])
  | .openDouble => ['"']
  | .closeDouble => ['"']
  | .tilde => ['~']
  | .variable name => '$' :: name
  | .parameter text => '$' :: '\x7b' :: (text ++ ['\x7d'])
  | .command text => '$' :: '(' :: (text ++ [')'])
  | .backquoted text => '\x60' :: (text ++ ['\x60'])

/-- Whether this can be the next glyph, before the character `next`. -/
def Fits (standing : Standing) (next : Option Char) : Glyph → Prop
  | .char c => StandsForItself standing next c
  | .escaped c => if standing = .double then isDoubleEscapable c = true else c ≠ '\n'
  | .continuation => True
  | .single text => standing ≠ .double ∧ '\'' ∉ text
  | .openDouble => standing ≠ .double
  | .closeDouble => standing = .double
  | .tilde => standing = .first ∧ ∀ c ∈ next, c = '/' ∨ isWordEnd c = true
  | .variable name =>
    (isNameText name = true ∧ ∀ c ∈ next, isNameChar c = false) ∨
      ∃ c, isSpecialParameter c = true ∧ name = [c]
  | .parameter text => (Enclosing.braces 1).Spans text
  | .command text => (Enclosing.substitution .start).Spans text
  | .backquoted text => (Enclosing.backquote false).Spans text

/-- Where the next part of the word stands. -/
def after (standing : Standing) : Glyph → Standing
  | .openDouble => .double
  | .closeDouble => .bare
  | _ => standing.later

/-- The literal characters that the glyph stands for. -/
def literal : Glyph → List Char
  | .char c => [c]
  | .escaped c => [c]
  | .single text => text
  | _ => []

/-- Whether it opens a quote. -/
def opensQuote : Glyph → Bool
  | .single _ => true
  | .openDouble => true
  | _ => false

theorem length_write_pos (g : Glyph) : 0 < g.write.length := by
  cases g <;> exact Nat.succ_pos _

end Glyph

/-- The text is written with these glyphs, from where it stands to the end of a word. -/
inductive Spells (next : Option Char) : Standing → List Char → List Glyph → Prop
  | nil : Spells next .bare [] []
  | cons {standing : Standing} {g : Glyph} {rest : List Char} {glyphs : List Glyph}
      (fits : g.Fits standing (rest.head?.or next))
      (later : Spells next (g.after standing) rest glyphs) :
      Spells next standing (g.write ++ rest) (g :: glyphs)

/-! ## A text is written in one way -/

/-- Two ways to take characters of a class from the front, as many as there are, are the same. -/
theorem span_unique (inClass : Char → Bool) {a b t t' : List Char}
    (ha : ∀ c ∈ a, inClass c = true) (hb : ∀ c ∈ b, inClass c = true)
    (ht : ∀ c ∈ t.head?, inClass c = false) (ht' : ∀ c ∈ t'.head?, inClass c = false)
    (h : a ++ t = b ++ t') : a = b ∧ t = t' := by
  induction a generalizing b with
  | nil =>
      cases b with
      | nil => exact ⟨rfl, h⟩
      | cons d b =>
          rw [List.nil_append] at h
          have hd := ht d (by simp [h])
          rw [hb d List.mem_cons_self] at hd
          cases hd
  | cons c a ih =>
      cases b with
      | nil =>
          rw [List.nil_append] at h
          have hc := ht' c (by simp [← h])
          rw [ha c List.mem_cons_self] at hc
          cases hc
      | cons d b =>
          obtain ⟨rfl, hrest⟩ := List.cons.inj h
          rw [List.forall_mem_cons] at ha hb
          obtain ⟨rfl, rfl⟩ := ih ha.2 hb.2 hrest
          exact ⟨rfl, rfl⟩

theorem forall_of_isNameText {name : List Char} (h : isNameText name = true) :
    ∀ c ∈ name, isNameChar c = true := by
  cases name with
  | nil => nofun
  | cons c rest =>
      rw [isNameText, Bool.and_eq_true, List.all_eq_true] at h
      exact List.forall_mem_cons.2 ⟨isNameChar_of_isNameStart h.1, h.2⟩

/-- An enclosure ends in one place. -/
theorem Enclosing.spans_unique {e e₁ e₂ : Enclosing} {close : Char} {a b t t' : List Char}
    (ha : e.run a = some e₁) (hclose₁ : e₁.next close = none) (hb : e.run b = some e₂)
    (hclose₂ : e₂.next close = none) (h : a ++ close :: t = b ++ close :: t') : a = b ∧ t = t' := by
  induction a generalizing b e with
  | nil =>
      cases ha
      cases b with
      | nil => exact ⟨rfl, (List.cons.inj h).2⟩
      | cons d b =>
          obtain ⟨rfl, -⟩ := List.cons.inj h
          rw [run_cons, hclose₁] at hb
          cases hb
  | cons c a ih =>
      cases b with
      | nil =>
          cases hb
          obtain ⟨rfl, -⟩ := List.cons.inj h
          rw [run_cons, hclose₂] at ha
          cases ha
      | cons d b =>
          obtain ⟨rfl, hrest⟩ := List.cons.inj h
          rw [run_cons] at ha hb
          obtain ⟨e', hnext, ha⟩ := Option.bind_eq_some_iff.1 ha
          rw [hnext] at hb
          obtain ⟨rfl, rfl⟩ := ih ha hb hrest
          exact ⟨rfl, rfl⟩

theorem Enclosing.Spans.unique {e : Enclosing} {a b t t' : List Char} (ha : e.Spans a)
    (hb : e.Spans b) (h : a ++ e.ending :: t = b ++ e.ending :: t') : a = b ∧ t = t' := by
  obtain ⟨e₁, hrun₁, hclose₁⟩ := ha
  obtain ⟨e₂, hrun₂, hclose₂⟩ := hb
  exact spans_unique hrun₁ hclose₁ hrun₂ hclose₂ h

theorem not_isNameStart_of_isSpecialParameter {c : Char} (h : isSpecialParameter c = true) :
    isNameStart c = false := by
  have hascii : c.toNat < 128 := by
    simp only [isSpecialParameter, Bool.or_eq_true, beq_iff_eq] at h
    rcases h with ((((((hdigit | rfl) | rfl) | rfl) | rfl) | rfl) | rfl) | rfl
    case inl => exact isAscii_of_isAsciiDigit hdigit
    all_goals decide
  exact forall_ascii (P := fun c => isSpecialParameter c = true → isNameStart c = false)
    (by decide) hascii h

namespace Glyph

variable {standing : Standing} {next : Option Char} {t t' : List Char}

/-- What a name begins with begins this expansion, and no other one. -/
theorem exists_head_of_variable {name : List Char} (h : (Glyph.variable name).Fits standing next) :
    ∃ c rest, name = c :: rest ∧ beginsExpansion c = true ∧ c ≠ '\x7b' ∧ c ≠ '(' := by
  have hclass : ∃ c rest, name = c :: rest ∧ (isNameStart c || isSpecialParameter c) = true := by
    rcases h with ⟨hname, -⟩ | ⟨c, hspecial, rfl⟩
    · cases name with
      | nil => cases hname
      | cons c rest =>
          rw [isNameText, Bool.and_eq_true] at hname
          exact ⟨c, rest, rfl, by simp [hname.1]⟩
    · exact ⟨c, [], rfl, by simp [hspecial]⟩
  obtain ⟨c, rest, rfl, hbegins⟩ := hclass
  refine ⟨c, rest, rfl, ?_, ?_, ?_⟩
  · simp [beginsExpansion, Bool.or_assoc, hbegins]
  · rintro rfl
    cases hbegins
  · rintro rfl
    cases hbegins

/-- A character that stands for itself begins no other glyph. -/
theorem eq_char {g : Glyph} {c : Char} (hchar : StandsForItself standing (t.head?.or next) c)
    (hfits : g.Fits standing (t'.head?.or next)) (h : g.write ++ t' = c :: t) : g = .char c := by
  obtain ⟨hquote, hbackquote, hdollar, hbackslash, hbare, htilde⟩ := hchar
  cases g with
  | char d => rw [(List.cons.inj h).1]
  | escaped d =>
      obtain ⟨rfl, rfl⟩ := List.cons.inj h
      have hescapes := hbackslash rfl
      split_ifs at hescapes with hdouble
      · rw [Fits, if_pos hdouble, (hescapes d rfl).2] at hfits
        cases hfits
      · cases hescapes
  | continuation =>
      obtain ⟨rfl, rfl⟩ := List.cons.inj h
      have hescapes := hbackslash rfl
      split_ifs at hescapes
      · exact absurd rfl (hescapes '\n' rfl).1
      · cases hescapes
  | single text => exact absurd (List.cons.inj h).1.symm (hbare hfits.1).2
  | openDouble => exact absurd (List.cons.inj h).1.symm hquote
  | closeDouble => exact absurd (List.cons.inj h).1.symm hquote
  | tilde =>
      obtain ⟨rfl, rfl⟩ := List.cons.inj h
      obtain ⟨d, hd, hslash, hend⟩ := htilde hfits.1 rfl
      rcases hfits.2 d hd with hslash' | hend'
      · exact absurd hslash' hslash
      · rw [hend] at hend'
        cases hend'
  | «variable» name =>
      obtain ⟨rfl, rfl⟩ := List.cons.inj h
      obtain ⟨d, tail, rfl, hbegins, -, -⟩ := exists_head_of_variable hfits
      rw [hdollar rfl d rfl] at hbegins
      cases hbegins
  | parameter text =>
      obtain ⟨rfl, rfl⟩ := List.cons.inj h
      exact absurd (hdollar rfl '\x7b' rfl) (by decide)
  | command text =>
      obtain ⟨rfl, rfl⟩ := List.cons.inj h
      exact absurd (hdollar rfl '(' rfl) (by decide)
  | backquoted text => exact absurd (List.cons.inj h).1.symm hbackquote

theorem unique_variable {name name' : List Char}
    (hg : (Glyph.variable name).Fits standing (t.head?.or next))
    (hg' : (Glyph.variable name').Fits standing (t'.head?.or next)) (h : name ++ t = name' ++ t') :
    name = name' ∧ t = t' := by
  have hdisjoint : ∀ {name : List Char} {c : Char} {t t' : List Char}, isNameText name = true →
      isSpecialParameter c = true → name ++ t ≠ c :: t' := by
    intro name c t t' hname hspecial heq
    cases name with
    | nil => cases hname
    | cons d rest =>
        obtain ⟨rfl, -⟩ := List.cons.inj heq
        rw [isNameText, not_isNameStart_of_isSpecialParameter hspecial] at hname
        cases hname
  have hhead : ∀ {t : List Char}, (∀ c ∈ t.head?.or next, isNameChar c = false) →
      ∀ c ∈ t.head?, isNameChar c = false := by
    intro t hend c hc
    refine hend c ?_
    rw [Option.mem_def.1 hc, Option.some_or]
    rfl
  rcases hg with ⟨hname, hend⟩ | ⟨c, hspecial, rfl⟩
  · rcases hg' with ⟨hname', hend'⟩ | ⟨d, hspecial, rfl⟩
    · exact span_unique isNameChar (forall_of_isNameText hname) (forall_of_isNameText hname')
        (hhead hend) (hhead hend') h
    · exact absurd h (hdisjoint hname hspecial)
  · rcases hg' with ⟨hname', -⟩ | ⟨d, hspecial', rfl⟩
    · exact absurd h.symm (hdisjoint hname' hspecial)
    · obtain ⟨rfl, rfl⟩ := List.cons.inj h
      exact ⟨rfl, rfl⟩

theorem unique_single {text text' : List Char} (hg : '\'' ∉ text) (hg' : '\'' ∉ text')
    (h : text ++ '\'' :: t = text' ++ '\'' :: t') : text = text' ∧ t = t' := by
  have hinside : ∀ {text : List Char}, '\'' ∉ text → ∀ c ∈ text, (c != '\'') = true :=
    fun hnone c hc => bne_iff_ne.2 (fun heq => hnone (heq ▸ hc))
  have hends : ∀ {rest : List Char}, ∀ c ∈ ('\'' :: rest).head?, (c != '\'') = false := by
    simp
  obtain ⟨rfl, hrest⟩ := span_unique (· != '\'') (hinside hg) (hinside hg') hends hends h
  exact ⟨rfl, (List.cons.inj hrest).2⟩

/-- Nowhere does a backslash let a line feed stand for itself. -/
theorem ne_line_of_escaped {c : Char} (h : (Glyph.escaped c).Fits standing next) : c ≠ '\n' := by
  rintro rfl
  rw [Fits] at h
  split at h
  · cases h
  · exact h rfl

/-- Two glyphs that fit in the same place of a text are the same. -/
theorem unique {g g' : Glyph} (hg : g.Fits standing (t.head?.or next))
    (hg' : g'.Fits standing (t'.head?.or next)) (h : g.write ++ t = g'.write ++ t') :
    g = g' ∧ t = t' := by
  have hsame : ∀ g : Glyph, g.write ++ t = g.write ++ t' → t = t' :=
    fun _ => List.append_cancel_left
  cases g with
  | char c =>
      obtain rfl := eq_char hg hg' h.symm
      exact ⟨rfl, hsame _ h⟩
  | escaped c =>
      cases g' with
      | char d => exact absurd (eq_char hg' hg h) nofun
      | escaped d =>
          obtain ⟨-, hrest⟩ := List.cons.inj h
          obtain ⟨rfl, rfl⟩ := List.cons.inj hrest
          exact ⟨rfl, rfl⟩
      | continuation =>
          exact absurd (List.cons.inj (List.cons.inj h).2).1 (ne_line_of_escaped hg)
      | _ => simp [write] at h
  | continuation =>
      cases g' with
      | char d => exact absurd (eq_char hg' hg h) nofun
      | escaped d =>
          exact absurd (List.cons.inj (List.cons.inj h).2).1.symm (ne_line_of_escaped hg')
      | continuation => exact ⟨rfl, hsame _ h⟩
      | _ => simp [write] at h
  | single text =>
      cases g' with
      | char d => exact absurd (eq_char hg' hg h) nofun
      | single text' =>
          obtain ⟨rfl, rfl⟩ := unique_single hg.2 hg'.2 (by simpa [write] using h)
          exact ⟨rfl, rfl⟩
      | _ => simp [write] at h
  | openDouble =>
      cases g' with
      | char d => exact absurd (eq_char hg' hg h) nofun
      | openDouble => exact ⟨rfl, hsame _ h⟩
      | closeDouble => exact absurd hg' hg
      | _ => simp [write] at h
  | closeDouble =>
      cases g' with
      | char d => exact absurd (eq_char hg' hg h) nofun
      | openDouble => exact absurd hg hg'
      | closeDouble => exact ⟨rfl, hsame _ h⟩
      | _ => simp [write] at h
  | tilde =>
      cases g' with
      | char d => exact absurd (eq_char hg' hg h) nofun
      | tilde => exact ⟨rfl, hsame _ h⟩
      | _ => simp [write] at h
  | «variable» name =>
      obtain ⟨c, rest, hname, -, hbrace, hparen⟩ := exists_head_of_variable hg
      cases g' with
      | char d => exact absurd (eq_char hg' hg h) nofun
      | «variable» name' =>
          obtain ⟨rfl, rfl⟩ := unique_variable hg hg' (List.cons.inj h).2
          exact ⟨rfl, rfl⟩
      | parameter text => simp [write, hname, hbrace] at h
      | command text => simp [write, hname, hparen] at h
      | _ => simp [write] at h
  | parameter text =>
      cases g' with
      | char d => exact absurd (eq_char hg' hg h) nofun
      | «variable» name =>
          obtain ⟨c, rest, hname, -, hbrace, -⟩ := exists_head_of_variable hg'
          simp [write, hname, hbrace.symm] at h
      | parameter text' =>
          obtain ⟨rfl, rfl⟩ := hg.unique hg' (by simpa [write, Enclosing.ending] using h)
          exact ⟨rfl, rfl⟩
      | _ => simp [write] at h
  | command text =>
      cases g' with
      | char d => exact absurd (eq_char hg' hg h) nofun
      | «variable» name =>
          obtain ⟨c, rest, hname, -, -, hparen⟩ := exists_head_of_variable hg'
          simp [write, hname, hparen.symm] at h
      | command text' =>
          obtain ⟨rfl, rfl⟩ := hg.unique hg' (by simpa [write, Enclosing.ending] using h)
          exact ⟨rfl, rfl⟩
      | _ => simp [write] at h
  | backquoted text =>
      cases g' with
      | char d => exact absurd (eq_char hg' hg h) nofun
      | backquoted text' =>
          obtain ⟨rfl, rfl⟩ := hg.unique hg' (by simpa [write, Enclosing.ending] using h)
          exact ⟨rfl, rfl⟩
      | _ => simp [write] at h

end Glyph

/-- A text is written with glyphs in one way. -/
theorem Spells.unique {next : Option Char} {standing : Standing} {text : List Char}
    {glyphs glyphs' : List Glyph} (h : Spells next standing text glyphs)
    (h' : Spells next standing text glyphs') : glyphs' = glyphs := by
  induction h generalizing glyphs' with
  | nil =>
      generalize htext : [] = text at h'
      cases h' with
      | nil => rfl
      | cons fits' later' =>
          have hlength := congrArg List.length htext
          have hpos := Glyph.length_write_pos ‹Glyph›
          rw [List.length_append, List.length_nil] at hlength
          omega
  | cons fits later ih =>
      next g rest glyphs =>
      generalize htext : g.write ++ rest = text at h'
      cases h' with
      | nil =>
          have hlength := congrArg List.length htext
          have hpos := g.length_write_pos
          rw [List.length_append, List.length_nil] at hlength
          omega
      | cons fits' later' =>
          obtain ⟨rfl, rfl⟩ := Glyph.unique fits fits' htext
          rw [ih later']

end ScriptRunner.Reader
