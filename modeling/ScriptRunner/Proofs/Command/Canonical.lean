import Mathlib.Data.List.Chain
import ScriptRunner.Proofs.Command.Steps

/-!
# ScriptRunner.Proofs.Command.Canonical

The form of the trees that reading gives.

The type of words admits more than reading produces. `Statement.Canonical` says what is left,
at any depth of substitutions: arrays only as whole values of assignments, concatenations flat,
of two pieces or more and with no two texts side by side, an empty text only where it keeps a
word from vanishing, names only of the two kinds that a `$` can name, and no assignment
statement without an assignment.

What carries the proof is the form of a word that is still being read (`Pieces.Canonical`): its
finished pieces end with an expansion, so that flushing the text after them puts no text beside
another, and the empty text is put in front only where there is no text at all. Each character
keeps it (`canonical_step`), given that the texts of substitutions are read in this form, and the
depth of substitutions gives that.

Main statement: `canonical_readStatements`.
-/

namespace ScriptRunner

/-! ## The form of a tree -/

/-- The names that a `$` without braces can name: names, and the special parameters. -/
def IsVariableName (name : String) : Prop :=
  isValidName name = true ∨ ∃ c, isSpecialParameter c = true ∧ name = c.toString

/-- A word that can be a piece of another. -/
def Word.IsPiece : Word → Prop
  | .concat _ => False
  | .array _ => False
  | _ => True

/-- Pieces that make up one word. -/
structure Pieced (pieces : List Word) : Prop where
  several : 2 ≤ pieces.length
  flat : ∀ w ∈ pieces, w.IsPiece
  /-- Literal text is not cut without need. -/
  joined : pieces.IsChain (fun a b => ¬ (Reader.Pieces.isLiteral a ∧ Reader.Pieces.isLiteral b))
  /-- An empty text comes first, where no other text is. -/
  anchor : ∀ before after, pieces = before ++ .literal "" :: after →
    before = [] ∧ ∀ w ∈ after, Reader.Pieces.isLiteral w = false

mutual

/-- A word as reading gives it. -/
def Word.Canonical : Word → Prop
  | .literal _ => True
  | .variable name => IsVariableName name
  | .parameter _ => True
  | .substitution statements => Statement.CanonicalAll statements
  | .concat pieces => Pieced pieces ∧ Word.CanonicalAll pieces
  | .array _ => False

/-- All of several words. -/
def Word.CanonicalAll : List Word → Prop
  | [] => True
  | w :: ws => w.Canonical ∧ Word.CanonicalAll ws

/-- An assignment as reading gives it: the one place for an array. -/
def Assignment.Canonical : Assignment → Prop
  | .mk name (.array elements) => isValidName name = true ∧ Word.CanonicalAll elements
  | .mk name value => isValidName name = true ∧ value.Canonical

/-- All of several assignments. -/
def Assignment.CanonicalAll : List Assignment → Prop
  | [] => True
  | a :: rest => a.Canonical ∧ Assignment.CanonicalAll rest

/-- A statement as reading gives it. -/
def Statement.Canonical : Statement → Prop
  | .command name args inline =>
    name.Canonical ∧ Word.CanonicalAll args ∧ Assignment.CanonicalAll inline
  | .assign assignments => assignments ≠ [] ∧ Assignment.CanonicalAll assignments

/-- All of several statements. -/
def Statement.CanonicalAll : List Statement → Prop
  | [] => True
  | s :: rest => s.Canonical ∧ Statement.CanonicalAll rest

end

theorem Word.canonicalAll_iff {ws : List Word} :
    Word.CanonicalAll ws ↔ ∀ w ∈ ws, w.Canonical := by
  induction ws with
  | nil => simp [Word.CanonicalAll]
  | cons w rest ih => simp [Word.CanonicalAll, ih]

theorem Assignment.canonicalAll_iff {assignments : List Assignment} :
    Assignment.CanonicalAll assignments ↔ ∀ a ∈ assignments, a.Canonical := by
  induction assignments with
  | nil => simp [Assignment.CanonicalAll]
  | cons a rest ih => simp [Assignment.CanonicalAll, ih]

theorem Statement.canonicalAll_iff {statements : List Statement} :
    Statement.CanonicalAll statements ↔ ∀ s ∈ statements, s.Canonical := by
  induction statements with
  | nil => simp [Statement.CanonicalAll]
  | cons s rest ih => simp [Statement.CanonicalAll, ih]

theorem Assignment.canonical_mk {name : String} {value : Word} (hname : isValidName name = true)
    (hvalue : value.Canonical) : (Assignment.mk name value).Canonical := by
  cases value with
  | array elements => exact hvalue.elim
  | _ => exact ⟨hname, hvalue⟩

/-- All statements of a reading are as reading gives them. -/
def Reading.Canonical (r : Reading) : Prop :=
  ∀ statements, r.result = .ok statements → ∀ s ∈ statements, s.Canonical

namespace Reader

/-! ## The pieces of a word -/

namespace Pieces

/-- Pieces as they are collected: no empty text among them, and no two texts side by side. -/
structure Collected (ws : List Word) : Prop where
  canonical : ∀ w ∈ ws, w.Canonical
  flat : ∀ w ∈ ws, w.IsPiece
  filled : .literal "" ∉ ws
  joined : ws.IsChain (fun a b => ¬ (isLiteral a ∧ isLiteral b))

/-- One more piece. -/
theorem Collected.concat {ws : List Word} {w : Word} (h : Collected ws) (hw : w.Canonical)
    (hflat : w.IsPiece) (hfilled : w ≠ .literal "")
    (hjoined : ∀ v ∈ ws.getLast?, ¬ (isLiteral v ∧ isLiteral w)) : Collected (ws ++ [w]) where
  canonical := by
    intro v hv
    rcases List.mem_append.1 hv with hv | hv
    · exact h.canonical v hv
    · rwa [List.mem_singleton.1 hv]
  flat := by
    intro v hv
    rcases List.mem_append.1 hv with hv | hv
    · exact h.flat v hv
    · rwa [List.mem_singleton.1 hv]
  filled := by
    rw [List.mem_append, List.mem_singleton, not_or]
    exact ⟨h.filled, Ne.symm hfilled⟩
  joined := by
    refine h.joined.append (List.IsChain.singleton w) (fun v hv u hu => ?_)
    rw [← Option.mem_some.1 hu]
    exact hjoined v hv

/-- A word so far: its finished pieces end with an expansion, so that the literal text
after them is not next to another. -/
structure Canonical (p : Pieces) : Prop where
  collected : Collected p.parts
  last : ∀ w ∈ p.parts.getLast?, isLiteral w = false

theorem canonical_text (text : List Char) (quoted : Bool) : Canonical ⟨[], text, quoted⟩ where
  collected := ⟨nofun, nofun, List.not_mem_nil, List.IsChain.nil⟩
  last := nofun

variable {p : Pieces}

theorem Canonical.addChar (h : p.Canonical) (c : Char) : (p.addChar c).Canonical :=
  ⟨h.collected, h.last⟩

theorem Canonical.openQuote (h : p.Canonical) : p.openQuote.Canonical :=
  ⟨h.collected, h.last⟩

theorem Canonical.flushed (h : p.Canonical) : Collected p.flushed := by
  rw [Pieces.flushed]
  split
  · exact h.collected
  · next htext =>
      refine h.collected.concat trivial trivial ?_ (fun v hv hboth => ?_)
      · rw [List.isEmpty_iff] at htext
        intro hempty
        exact htext (String.ofList_eq_empty_iff.1 (Word.literal.inj hempty))
      · exact absurd hboth.1 (by simp [h.last v hv])

/-- An expansion ends the text before it. -/
theorem Canonical.addExpansion (h : p.Canonical) {w : Word} (hw : w.Canonical)
    (hflat : w.IsPiece) (hexpansion : isLiteral w = false) : (p.addExpansion w).Canonical where
  collected := by
    refine h.flushed.concat hw hflat ?_ (fun v _ hboth => ?_)
    · rintro rfl
      cases hexpansion
    · exact absurd hboth.2 (by simp [hexpansion])
  last := by
    intro v hv
    rw [Pieces.addExpansion, List.getLast?_concat, Option.mem_some] at hv
    rwa [← hv]

/-- Pieces are one word where there are several. -/
theorem Collected.pieced {ws : List Word} (h : Collected ws) (hseveral : 2 ≤ ws.length) :
    Pieced ws where
  several := hseveral
  flat := h.flat
  joined := h.joined
  anchor := by
    rintro before after rfl
    exact absurd (List.mem_append_right _ List.mem_cons_self) h.filled

/-- The empty text in front of pieces that are no texts. -/
theorem Collected.pieced_anchored {ws : List Word} (h : Collected ws)
    (hno : ∀ w ∈ ws, isLiteral w = false) (hsome : ws ≠ []) : Pieced (.literal "" :: ws) where
  several := by
    have hlength := List.length_pos_of_ne_nil hsome
    rw [List.length_cons]
    omega
  flat := by
    intro w hw
    rcases List.mem_cons.1 hw with rfl | hw
    · trivial
    · exact h.flat w hw
  joined := by
    refine List.isChain_cons.2 ⟨fun v hv hboth => ?_, h.joined⟩
    exact absurd hboth.2 (by simp [hno v (List.mem_of_mem_head? hv)])
  anchor := by
    rintro (_ | ⟨v, before⟩) after heq
    · rw [List.nil_append, List.cons.injEq] at heq
      exact ⟨rfl, heq.2 ▸ hno⟩
    · rw [List.cons_append, List.cons.injEq] at heq
      exact absurd (heq.2 ▸ List.mem_append_right _ List.mem_cons_self) h.filled

/-- Several pieces make up a word, the empty text among them where the word has one. -/
theorem Canonical.anchored (h : p.Canonical) :
    (∀ w ∈ p.anchored, w.Canonical) ∧ (2 ≤ p.anchored.length → Pieced p.anchored) := by
  have hflushed := h.flushed
  rw [Pieces.anchored]
  split
  · next hanchor =>
      rw [Bool.and_eq_true, Bool.not_eq_true', List.any_eq_false] at hanchor
      have hno : ∀ w ∈ p.flushed, isLiteral w = false :=
        fun w hw => Bool.eq_false_iff.2 (hanchor.2 w hw)
      refine ⟨fun w hw => ?_, fun hseveral => hflushed.pieced_anchored hno (fun hempty => ?_)⟩
      · rcases List.mem_cons.1 hw with rfl | hw
        · trivial
        · exact hflushed.canonical w hw
      · simp [hempty] at hseveral
  · exact ⟨hflushed.canonical, hflushed.pieced⟩

theorem Canonical.word? (h : p.Canonical) : ∀ w ∈ p.word?, w.Canonical := by
  intro w hw
  obtain ⟨hcanonical, hpieced⟩ := h.anchored
  rw [Pieces.word?] at hw
  generalize p.anchored = ws at hw hcanonical hpieced
  match ws with
  | [] => cases hw
  | [v] =>
      rw [← Option.mem_some.1 hw]
      exact hcanonical v List.mem_cons_self
  | v :: u :: rest =>
      rw [← Option.mem_some.1 hw]
      exact ⟨hpieced (Nat.le_add_left 2 rest.length), Word.canonicalAll_iff.2 hcanonical⟩

end Pieces

/-! ## The state of the reader -/

theorem isNameText_concat {text : List Char} {c : Char} (htext : isNameText text = true)
    (hc : isNameChar c = true) : isNameText (text ++ [c]) = true := by
  cases text with
  | nil => cases htext
  | cons d rest =>
      rw [isNameText, Bool.and_eq_true] at htext
      simp [isNameText, htext.1, htext.2, hc]

theorem isValidName_ofList {text : List Char} (h : isNameText text = true) :
    isValidName (String.ofList text) = true := by
  rwa [isValidName, String.toList_ofList]

/-- What a word is read for has a name to bind, and elements in form. -/
def Place.Canonical : Place → Prop
  | .plain => True
  | .value name => isValidName name = true
  | .element name elements => isValidName name = true ∧ ∀ w ∈ elements, w.Canonical

/-- The letters after a `$` spell a name. -/
def Mode.Canonical : Mode → Prop
  | .name _ letters => isNameText letters = true
  | _ => True

/-- The parts of a statement so far are in form. -/
structure Draft.Canonical (d : Draft) : Prop where
  assignments : ∀ a ∈ d.assignments, a.Canonical
  name : ∀ w ∈ d.name, w.Canonical
  args : ∀ w ∈ d.args, w.Canonical

/-- What the reader holds at a position is in form. -/
def Position.Canonical : Position → Prop
  | .letters text => isNameText text = true
  | .valueStart name => isValidName name = true
  | .arrayGap name elements => isValidName name = true ∧ ∀ w ∈ elements, w.Canonical
  | .arrayComment name elements => isValidName name = true ∧ ∀ w ∈ elements, w.Canonical
  | .arrayEnd name elements => isValidName name = true ∧ ∀ w ∈ elements, w.Canonical
  | .word place p mode => place.Canonical ∧ p.Canonical ∧ mode.Canonical
  | _ => True

/-- The finished statements and the draft are in form. -/
structure Frame.Canonical (f : Frame) : Prop where
  done : ∀ s ∈ f.done, s.Canonical
  draft : f.draft.Canonical

/-- All that the reader holds is in form, unless it has stopped. -/
def State.Canonical : State → Prop
  | .running done draft position ignored =>
    Frame.Canonical ⟨done, draft, ignored⟩ ∧ position.Canonical
  | .halted .. => True

theorem Draft.canonical_start : Draft.start.Canonical :=
  ⟨nofun, nofun, nofun⟩

theorem Draft.Canonical.addWord {d : Draft} (h : d.Canonical) {w : Word} (hw : w.Canonical) :
    (d.addWord w).Canonical := by
  rw [Draft.addWord]
  split
  · exact ⟨h.assignments, fun v hv => Option.mem_some.1 hv ▸ hw, h.args⟩
  · next n hn =>
      refine ⟨h.assignments, fun v hv => h.name v (hn ▸ hv), fun v hv => ?_⟩
      rcases List.mem_append.1 hv with hv | hv
      · exact h.args v hv
      · rwa [List.mem_singleton.1 hv]

theorem Draft.Canonical.addAssignment {d : Draft} (h : d.Canonical) {name : String} {value : Word}
    (ha : (Assignment.mk name value).Canonical) : (d.addAssignment name value).Canonical := by
  refine ⟨fun a hmem => ?_, h.name, h.args⟩
  rcases List.mem_append.1 hmem with hmem | hmem
  · exact h.assignments a hmem
  · rwa [List.mem_singleton.1 hmem]

theorem Draft.Canonical.statements {d : Draft} (h : d.Canonical) :
    ∀ s ∈ d.statements, s.Canonical := by
  intro s hs
  rw [Draft.statements] at hs
  split at hs
  · next n hn =>
      rw [List.mem_singleton.1 hs]
      exact ⟨h.name n hn, Word.canonicalAll_iff.2 h.args,
        Assignment.canonicalAll_iff.2 h.assignments⟩
  · split at hs
    · cases hs
    · next hsome =>
        rw [List.mem_singleton.1 hs]
        refine ⟨fun hempty => hsome ?_, Assignment.canonicalAll_iff.2 h.assignments⟩
        rw [hempty]
        rfl

theorem Frame.Canonical.endStatement {f : Frame} (h : f.Canonical) : f.endStatement.Canonical := by
  refine ⟨fun s hs => ?_, Draft.canonical_start⟩
  rcases List.mem_append.1 hs with hs | hs
  · exact h.done s hs
  · exact h.draft.statements s hs

theorem Frame.Canonical.assigned {f : Frame} (h : f.Canonical) {name : String} {value : Word}
    (ha : (Assignment.mk name value).Canonical) : (assigned f name value).Canonical :=
  ⟨h.done, h.draft.addAssignment ha⟩

/-! ## What a character keeps -/

section Keeping

variable {f : Frame} {place : Place} {p : Pieces}

theorem canonical_stepWordChar (hf : f.Canonical) (hplace : place.Canonical) (hp : p.Canonical)
    (c : Char) : (stepWordChar f place p c).Canonical := by
  rw [stepWordChar]
  split_ifs
  · exact ⟨hf, hplace, hp, trivial⟩
  · exact ⟨hf, hplace, hp.openQuote, trivial⟩
  · exact ⟨hf, hplace, hp.openQuote, trivial⟩
  · exact ⟨hf, hplace, hp, trivial⟩
  · exact ⟨hf, hplace, hp, trivial⟩
  · exact ⟨hf, hplace, hp.addChar c, trivial⟩

theorem canonical_startWord (hf : f.Canonical) (hplace : place.Canonical) (c : Char) :
    (startWord f place c).Canonical := by
  have hstart : Pieces.start.Canonical := Pieces.canonical_text [] false
  rw [startWord]
  split_ifs
  · exact ⟨hf, hplace, hstart, trivial⟩
  · exact canonical_stepWordChar hf hplace hstart c

theorem canonical_stepGap (hf : f.Canonical) (c : Char) : (stepGap f c).Canonical := by
  rw [stepGap]
  split_ifs with _ _ _ _ _ _ _ hletters
  · exact ⟨hf, trivial⟩
  · exact ⟨hf.endStatement, trivial⟩
  · exact ⟨hf, trivial⟩
  · exact ⟨hf, trivial⟩
  · exact ⟨hf, trivial⟩
  · trivial
  · trivial
  · rw [Bool.and_eq_true] at hletters
    exact ⟨hf, by simp [Position.Canonical, isNameText, hletters.2]⟩
  · have hplain : Place.Canonical .plain := trivial
    exact canonical_startWord hf hplain c

theorem canonical_stepArrayGap (hf : f.Canonical) {name : String} {elements : List Word}
    (hname : isValidName name = true) (helements : ∀ w ∈ elements, w.Canonical) (c : Char) :
    (stepArrayGap f name elements c).Canonical := by
  rw [stepArrayGap]
  split_ifs
  · exact ⟨hf, hname, helements⟩
  · exact ⟨hf, hname, helements⟩
  · exact ⟨hf, hname, helements⟩
  · trivial
  · have helement : (Place.element name elements).Canonical := ⟨hname, helements⟩
    exact canonical_startWord hf helement c

/-- The end of a word puts it where a word may be. -/
theorem canonical_endWord (hf : f.Canonical) (hplace : place.Canonical) (hp : p.Canonical) :
    (endWord f place p).1.Canonical ∧ (endWord f place p).2.Canonical := by
  have hword := hp.word?
  cases place with
  | plain =>
      rw [endWord]
      split
      · next w hw => exact ⟨⟨hf.done, hf.draft.addWord (hword w hw)⟩, trivial⟩
      · exact ⟨hf, trivial⟩
  | value name =>
      refine ⟨hf.assigned (Assignment.canonical_mk hplace ?_), trivial⟩
      cases hw : p.word? with
      | none => trivial
      | some w => exact hword w hw
  | element name elements =>
      refine ⟨hf, hplace.1, fun w hw => ?_⟩
      rcases List.mem_append.1 hw with hw | hw
      · exact hplace.2 w hw
      · exact hword w (Option.mem_toList.1 hw)

theorem canonical_stepAfterWord (hf : f.Canonical) (hplace : place.Canonical) (hp : p.Canonical)
    (c : Char) : (stepAfterWord f place p c).Canonical := by
  obtain ⟨hframe, hposition⟩ := canonical_endWord hf hplace hp
  rw [stepAfterWord]
  split
  · next g name elements hend =>
      rw [hend] at hframe hposition
      exact canonical_stepArrayGap hframe hposition.1 hposition.2 c
  · next g position _ hend =>
      rw [hend] at hframe
      exact canonical_stepGap hframe c

theorem canonical_stepBare (hf : f.Canonical) (hplace : place.Canonical) (hp : p.Canonical)
    (c : Char) : (stepBare f place p c).Canonical := by
  rw [stepBare]
  split_ifs
  · exact canonical_stepAfterWord hf hplace hp c
  · exact canonical_stepWordChar hf hplace hp c

theorem canonical_stepDouble (hf : f.Canonical) (hplace : place.Canonical) (hp : p.Canonical)
    (c : Char) : (stepDouble f place p c).Canonical := by
  rw [stepDouble]
  split_ifs
  · exact ⟨hf, hplace, hp, trivial⟩
  · exact ⟨hf, hplace, hp, trivial⟩
  · exact ⟨hf, hplace, hp, trivial⟩
  · exact ⟨hf, hplace, hp, trivial⟩
  · exact ⟨hf, hplace, hp.addChar c, trivial⟩

theorem canonical_stepAfterExpansion (double : Bool) (hf : f.Canonical)
    (hplace : place.Canonical) (hp : p.Canonical) (c : Char) :
    (stepAfterExpansion double f place p c).Canonical := by
  rw [stepAfterExpansion]
  split_ifs
  · exact canonical_stepDouble hf hplace hp c
  · exact canonical_stepBare hf hplace hp c

/-- An expansion with an end mark of its own. -/
theorem canonical_after (double : Bool) (hf : f.Canonical) (hplace : place.Canonical)
    (hp : p.Canonical) : (f.inWord place p (Mode.after double)).Canonical := by
  cases double
  · exact ⟨hf, hplace, hp, trivial⟩
  · exact ⟨hf, hplace, hp, trivial⟩

variable {inner : List Char → Reading}

theorem canonical_endSubstitution
    (hinner : ∀ text, (inner text).Canonical)
    (double : Bool) (hf : f.Canonical) (hplace : place.Canonical) (hp : p.Canonical)
    (text : List Char) : (endSubstitution inner double f place p text).Canonical := by
  simp only [endSubstitution]
  split
  · next statements hresult =>
      have hword : (Word.substitution statements).Canonical :=
        Statement.canonicalAll_iff.2 (hinner text statements hresult)
      exact canonical_after double ⟨hf.done, hf.draft⟩ hplace (hp.addExpansion hword trivial rfl)
  · have hword : (Word.substitution []).Canonical := trivial
    exact canonical_after double ⟨hf.done, hf.draft⟩ hplace (hp.addExpansion hword trivial rfl)
  · trivial

theorem canonical_stepDollar (double : Bool) (hf : f.Canonical) (hplace : place.Canonical)
    (hp : p.Canonical) (c : Char) : (stepDollar double f place p c).Canonical := by
  rw [stepDollar]
  split_ifs with _ _ hstart hspecial
  · exact ⟨hf, hplace, hp, trivial⟩
  · exact ⟨hf, hplace, hp, trivial⟩
  · exact ⟨hf, hplace, hp, by simp [Mode.Canonical, isNameText, hstart]⟩
  · have hword : (Word.variable c.toString).Canonical := Or.inr ⟨c, hspecial, rfl⟩
    exact canonical_after double hf hplace (hp.addExpansion hword trivial rfl)
  · exact canonical_stepAfterExpansion double hf hplace (hp.addChar '$') c

theorem canonical_stepBraces (double : Bool) (depth : Nat) (text : List Char) (hf : f.Canonical)
    (hplace : place.Canonical) (hp : p.Canonical) (c : Char) :
    (stepBraces double depth text f place p c).Canonical := by
  rw [stepBraces]
  split_ifs
  · exact ⟨hf, hplace, hp, trivial⟩
  · exact canonical_after double hf hplace (hp.addExpansion trivial trivial rfl)
  · exact ⟨hf, hplace, hp, trivial⟩
  · exact ⟨hf, hplace, hp, trivial⟩

theorem canonical_stepWord
    (hinner : ∀ text, (inner text).Canonical)
    (hf : f.Canonical) (hplace : place.Canonical) (hp : p.Canonical) {mode : Mode}
    (hmode : mode.Canonical) (c : Char) : (stepWord inner f place p mode c).Canonical := by
  cases mode with
  | tilde =>
      have hhome : (Word.variable "HOME").Canonical := Or.inl rfl
      rw [stepWord]
      split_ifs
      · exact canonical_stepBare hf hplace (hp.addExpansion hhome trivial rfl) c
      · exact canonical_stepBare hf hplace (hp.addChar '~') c
  | bare => exact canonical_stepBare hf hplace hp c
  | escape =>
      rw [stepWord]
      split_ifs
      · exact ⟨hf, hplace, hp, trivial⟩
      · exact ⟨hf, hplace, hp.addChar c, trivial⟩
  | single =>
      rw [stepWord]
      split_ifs
      · exact ⟨hf, hplace, hp, trivial⟩
      · exact ⟨hf, hplace, hp.addChar c, trivial⟩
  | double => exact canonical_stepDouble hf hplace hp c
  | doubleEscape =>
      rw [stepWord]
      split_ifs
      · exact ⟨hf, hplace, hp, trivial⟩
      · exact ⟨hf, hplace, hp.addChar c, trivial⟩
      · exact canonical_stepDouble hf hplace (hp.addChar '\\') c
  | dollar double => exact canonical_stepDollar double hf hplace hp c
  | name double letters =>
      rw [stepWord]
      split_ifs with hchar
      · exact ⟨hf, hplace, hp, isNameText_concat hmode hchar⟩
      · have hword : (Word.variable (String.ofList letters)).Canonical :=
          Or.inl (isValidName_ofList hmode)
        exact canonical_stepAfterExpansion double hf hplace (hp.addExpansion hword trivial rfl) c
  | braces double depth text => exact canonical_stepBraces double depth text hf hplace hp c
  | parens double depth inSingle inDouble escaped text =>
      -- Collecting adds no piece before the parenthesis that closes the substitution.
      have hgo : ∀ (depth : Nat) (inSingle inDouble escaped : Bool) (text : List Char),
          (f.inWord place p (.parens double depth inSingle inDouble escaped text)).Canonical :=
        fun _ _ _ _ _ => ⟨hf, hplace, hp, trivial⟩
      simp only [stepWord, stepParens]
      split_ifs
      · exact hgo ..
      · exact hgo ..
      · exact hgo ..
      · exact hgo ..
      · exact hgo ..
      · exact canonical_endSubstitution hinner double hf hplace hp text
      · exact hgo ..
      · exact hgo ..
  | backquote double text =>
      rw [stepWord]
      split_ifs
      · exact canonical_endSubstitution hinner double hf hplace hp text
      · exact ⟨hf, hplace, hp, trivial⟩
      · exact ⟨hf, hplace, hp, trivial⟩
  | backquoteEscape double text => exact ⟨hf, hplace, hp, trivial⟩

/-- Every character keeps the form of what has been read. -/
theorem canonical_step (hinner : ∀ text, (inner text).Canonical) {s : State} (hs : s.Canonical)
    (c : Char) : (step inner s c).Canonical := by
  cases s with
  | halted halt ignored => trivial
  | running done draft position ignored =>
      obtain ⟨hf, hposition⟩ := hs
      cases position with
      | gap => exact canonical_stepGap hf c
      | comment =>
          rw [step]
          split_ifs
          · exact canonical_stepGap hf c
          · exact ⟨hf, trivial⟩
      | operator redirection run =>
          rw [step]
          split_ifs
          · exact ⟨hf, trivial⟩
          · trivial
          · trivial
      | letters text =>
          have hplain : Place.Canonical .plain := trivial
          -- Letters that no `=` follows are the beginning of a plain word.
          rw [step]
          split_ifs with hchar
          · exact ⟨hf, isNameText_concat hposition hchar⟩
          · exact ⟨hf, isValidName_ofList hposition⟩
          · exact canonical_stepBare hf hplain (Pieces.canonical_text text false) c
      | valueStart name =>
          have hvalue : (Place.value name).Canonical := hposition
          have hempty : (Assignment.mk name (.literal "")).Canonical := ⟨hposition, trivial⟩
          rw [step]
          split_ifs
          · exact ⟨hf, hposition, List.forall_mem_nil _⟩
          · exact canonical_stepGap (hf.assigned hempty) c
          · exact canonical_startWord hf hvalue c
      | arrayGap name elements => exact canonical_stepArrayGap hf hposition.1 hposition.2 c
      | arrayComment name elements =>
          rw [step]
          split_ifs
          · exact canonical_stepArrayGap hf hposition.1 hposition.2 c
          · exact ⟨hf, hposition⟩
      | arrayEnd name elements =>
          have harray : (Assignment.mk name (.array elements)).Canonical :=
            ⟨hposition.1, Word.canonicalAll_iff.2 hposition.2⟩
          rw [step]
          split_ifs
          · exact canonical_stepGap (hf.assigned harray) c
          · trivial
      | word place p mode =>
          exact canonical_stepWord hinner hf hposition.1 hposition.2.1 hposition.2.2 c

theorem canonical_foldl_step (hinner : ∀ text, (inner text).Canonical) {s : State}
    (hs : s.Canonical) (text : List Char) : (text.foldl (step inner) s).Canonical := by
  induction text generalizing s with
  | nil => exact hs
  | cons c rest ih => exact ih (canonical_step hinner hs c)

/-! ## The end of the text -/

theorem canonical_refusal (f : Frame) (reason : SyntaxError) : (refusal f reason).Canonical :=
  nofun

theorem canonical_complete (hf : f.Canonical) : (complete f).Canonical := by
  intro statements hresult
  rw [← Except.ok.inj hresult]
  exact hf.endStatement.done

theorem canonical_finishWord (hf : f.Canonical) (hplace : place.Canonical) (hp : p.Canonical) :
    (finishWord f place p).Canonical := by
  obtain ⟨hframe, -⟩ := canonical_endWord hf hplace hp
  rw [finishWord]
  split
  · exact canonical_refusal _ _
  · next g position _ hend =>
      rw [hend] at hframe
      exact canonical_complete hframe

theorem canonical_finishExpansion (double : Bool) (hf : f.Canonical) (hplace : place.Canonical)
    (hp : p.Canonical) : (finishExpansion double f place p).Canonical := by
  rw [finishExpansion]
  split_ifs
  · exact canonical_refusal _ _
  · exact canonical_finishWord hf hplace hp

theorem canonical_finish {s : State} (hs : s.Canonical) : (finish s).Canonical := by
  cases s with
  | halted halt ignored => nofun
  | running done draft position ignored =>
      obtain ⟨hf, hposition⟩ := hs
      cases position with
      | gap => exact canonical_complete hf
      | comment => exact canonical_complete hf
      | operator redirection run =>
          rw [finish]
          split_ifs
          · exact canonical_refusal _ _
          · exact canonical_refusal _ _
      | letters text =>
          have hplain : Place.Canonical .plain := trivial
          exact canonical_finishWord hf hplain (Pieces.canonical_text text false)
      | valueStart name =>
          have hempty : (Assignment.mk name (.literal "")).Canonical := ⟨hposition, trivial⟩
          exact canonical_complete (hf.assigned hempty)
      | arrayGap name elements => exact canonical_refusal _ _
      | arrayComment name elements => exact canonical_refusal _ _
      | arrayEnd name elements =>
          have harray : (Assignment.mk name (.array elements)).Canonical :=
            ⟨hposition.1, Word.canonicalAll_iff.2 hposition.2⟩
          exact canonical_complete (hf.assigned harray)
      | word place p mode =>
          obtain ⟨hplace, hp, hmode⟩ := hposition
          cases mode with
          | tilde =>
              have hhome : (Word.variable "HOME").Canonical := Or.inl rfl
              exact canonical_finishWord hf hplace (hp.addExpansion hhome trivial rfl)
          | bare => exact canonical_finishWord hf hplace hp
          | escape => exact canonical_finishWord hf hplace (hp.addChar '\\')
          | dollar double =>
              exact canonical_finishExpansion double hf hplace (hp.addChar '$')
          | name double letters =>
              have hword : (Word.variable (String.ofList letters)).Canonical :=
                Or.inl (isValidName_ofList hmode)
              exact canonical_finishExpansion double hf hplace
                (hp.addExpansion hword trivial rfl)
          | _ => exact canonical_refusal _ _

end Keeping

/-! ## Whole texts -/

theorem canonical_readWith {inner : List Char → Reading} (hinner : ∀ text, (inner text).Canonical)
    (text : List Char) : (readWith inner text).Canonical := by
  have hstart : State.start.Canonical := ⟨⟨nofun, Draft.canonical_start⟩, trivial⟩
  exact canonical_finish (canonical_foldl_step hinner hstart text)

theorem canonical_readWithin (depth : Nat) (text : List Char) :
    (readWithin depth text).Canonical := by
  induction depth generalizing text with
  | zero => nofun
  | succ depth ih => exact canonical_readWith ih text

end Reader

/-- Every statement of an accepted text, and every statement in its substitutions, has the form of
`Statement.Canonical`. -/
theorem canonical_readStatements {text : String} {statements : List Statement}
    (haccepted : (readStatements text).result = .ok statements) :
    ∀ s ∈ statements, s.Canonical :=
  Reader.canonical_readWithin _ text.toList statements haccepted

/-- A word with an empty text in front, an array, and a substitution with both. -/
theorem canonical_readStatements_sample :
    (readStatements "L=('' a$?) run \"$(A=~/b x\"$A\"'')\"").result = .ok
        [.command (.literal "run")
          [.concat [.literal "", .substitution
            [.command (.concat [.literal "x", .variable "A"]) []
              [.mk "A" (.concat [.variable "HOME", .literal "/b"])]]]]
          [.mk "L" (.array [.literal "", .concat [.literal "a", .variable "?"]])]] ∧
      Statement.Canonical
        (.command (.literal "run")
          [.concat [.literal "", .substitution
            [.command (.concat [.literal "x", .variable "A"]) []
              [.mk "A" (.concat [.variable "HOME", .literal "/b"])]]]]
          [.mk "L" (.array [.literal "", .concat [.literal "a", .variable "?"]])]) := by
  have haccepted : (readStatements "L=('' a$?) run \"$(A=~/b x\"$A\"'')\"").result = .ok
      [.command (.literal "run")
        [.concat [.literal "", .substitution
          [.command (.concat [.literal "x", .variable "A"]) []
            [.mk "A" (.concat [.variable "HOME", .literal "/b"])]]]]
        [.mk "L" (.array [.literal "", .concat [.literal "a", .variable "?"]])]] := by
    rfl
  exact ⟨haccepted, canonical_readStatements haccepted _ List.mem_cons_self⟩

end ScriptRunner
