import Mathlib.Data.List.Infix
import ScriptRunner.Proofs.Command.Outline

/-!
# ScriptRunner.Proofs.Command.SubstitutionEnd

Where a substitution ends.

The text of `$(…)` is collected up to the parenthesis that closes it, by a flat scan
(`Nesting`), and is read only then. So a text makes a substitution only if the scan goes over
it from end to end. For an accepted text it does, one enclosure after the other: a substitution
inside of it that stands outside of quotes is gone over by the same scan, one parenthesis
deeper (`Nesting.run_deeper`). Between double quotes the two part. The scan takes the quotes of
the inner text for the ends of those around it, and counts parentheses accordingly. It comes
out even where the inner text is `Even`, which a parenthesis in quotes within quotes is not
(`not_endsWithText`).

Main statement: `readStatements_substituted`.
-/

namespace ScriptRunner.Reader

namespace Nesting

theorem run_cons (n : Nesting) (c : Char) (text : List Char) :
    n.run (c :: text) = (n.next c).bind (·.run text) := by
  rw [run, List.foldlM_cons]
  rfl

theorem run_append (n : Nesting) (a b : List Char) : n.run (a ++ b) = (n.run a).bind (·.run b) := by
  rw [run, List.foldlM_append]
  rfl

/-- With more parentheses around it the scan goes on in the same way. -/
theorem next_deeper {n n' : Nesting} {c : Char} (hpos : 0 < n.depth) (h : n.next c = some n')
    (k : Nat) : 0 < n'.depth ∧ next ⟨k + n.depth, n.quotes⟩ c = some ⟨k + n'.depth, n'.quotes⟩ := by
  unfold next at h ⊢
  split_ifs at h with hopen hclose hlast
  · cases h
    rw [if_pos hopen]
    exact ⟨Nat.succ_pos _, rfl⟩
  · cases h
    rw [if_neg hopen, if_pos hclose, if_neg (show ¬ k + n.depth ≤ 1 by omega)]
    exact ⟨Nat.sub_pos_of_lt (by omega), by rw [Nat.add_sub_assoc hpos]⟩
  · cases h
    rw [if_neg hopen, if_neg hclose]
    exact ⟨hpos, rfl⟩

theorem run_deeper {n n' : Nesting} {text : List Char} (hpos : 0 < n.depth)
    (h : n.run text = some n') (k : Nat) :
    0 < n'.depth ∧ run ⟨k + n.depth, n.quotes⟩ text = some ⟨k + n'.depth, n'.quotes⟩ := by
  induction text generalizing n with
  | nil =>
      cases h
      exact ⟨hpos, rfl⟩
  | cons c rest ih =>
      rw [run_cons] at h ⊢
      obtain ⟨n₁, hnext, hrest⟩ := Option.bind_eq_some_iff.1 h
      obtain ⟨hpos₁, hdeeper⟩ := next_deeper hpos hnext k
      rw [hdeeper]
      exact ih hpos₁ hrest

end Nesting

theorem Enclosing.run_substitution (n : Nesting) (text : List Char) :
    (Enclosing.substitution n).run text = (n.run text).map .substitution := by
  induction text generalizing n with
  | nil => rfl
  | cons c rest ih =>
      rw [Enclosing.run_cons, Nesting.run_cons, Enclosing.next]
      cases n.next c with
      | none => rfl
      | some n' => exact ih n'

/-- Read flat between double quotes, the text closes the quotes that it opens, and then the
parentheses. -/
def Enclosure.Even (e : Enclosure) : Prop :=
  Nesting.run ⟨1, .within true⟩ e.text = some ⟨1, .within true⟩

instance (e : Enclosure) : Decidable e.Even :=
  inferInstanceAs (Decidable (_ = _))

/-- A whole substitution leaves the scan where it was. -/
theorem run_substituted {double : Bool} {level : Nat} {body : List Char} {e' : Enclosing}
    {close : Char} (hbody : (Enclosing.substitution .start).run body = some e')
    (hclose : e'.next close = none)
    (heven : double = true → Enclosure.Even ⟨'(', double, body⟩) :
    Nesting.run ⟨level + 1, .within double⟩ ('(' :: (body ++ [close])) =
      some ⟨level + 1, .within double⟩ := by
  rw [Enclosing.run_substitution] at hbody
  obtain ⟨n, hn, rfl⟩ := Option.map_eq_some_iff.1 hbody
  obtain ⟨rfl, hquotes, hdepth⟩ := Nesting.of_next_eq_none (Option.map_eq_none_iff.1 hclose)
  rw [Nesting.run_cons]
  cases double with
  | false =>
      -- the scan of the reader, one parenthesis deeper
      obtain ⟨hpos, hdeeper⟩ := Nesting.run_deeper Nat.one_pos hn (level + 1)
      have hone : n.depth = 1 := by omega
      have hlast : Nesting.next ⟨level + 1 + n.depth, n.quotes⟩ ')' =
          some ⟨level + 1, .outside⟩ := by
        simp [Nesting.next, hone, hquotes]
      have hopen : Nesting.next ⟨level + 1, .outside⟩ '(' =
          some ⟨level + 1 + Nesting.start.depth, Nesting.start.quotes⟩ := rfl
      rw [hopen, Option.bind_some, Nesting.run_append, hdeeper, Option.bind_some,
        Nesting.run_cons, hlast]
      rfl
  | true =>
      obtain ⟨-, hdeeper⟩ := Nesting.run_deeper Nat.one_pos (heven rfl) level
      have hparen : ∀ c : Char, c = '(' ∨ c = ')' → Nesting.next ⟨level + 1, .within true⟩ c =
          some ⟨level + 1, .within true⟩ := by
        rintro c (rfl | rfl) <;> rfl
      rw [hparen _ (Or.inl rfl), Option.bind_some, Nesting.run_append, hdeeper, Option.bind_some,
        Nesting.run_cons, hparen _ (Or.inr rfl)]
      rfl

/-- Text in which nothing but `$(` can begin an enclosure. -/
structure ParensOnly (text : List Char) : Prop where
  hash : '#' ∉ text
  backquote : '\x60' ∉ text
  braces : ¬ ['$', '\x7b'] <:+: text

theorem ParensOnly.of_infix {text part : List Char} (h : ParensOnly text)
    (hpart : part <:+: text) : ParensOnly part where
  hash hmem := h.hash (hpart.subset hmem)
  backquote hmem := h.backquote (hpart.subset hmem)
  braces hbraces := h.braces (hbraces.trans hpart)

theorem ParensOnly.tail {c : Char} {rest : List Char} (h : ParensOnly (c :: rest)) :
    ParensOnly rest :=
  h.of_infix (List.infix_cons List.infix_rfl)

/-- The scan goes over an accepted text from end to end. -/
theorem Outline.run_nesting {q : Quotes} {level : Nat} {dollar : Bool} {text : List Char}
    {enclosures : List Enclosure} (h : Outline q level dollar text enclosures)
    (heven : ∀ e ∈ enclosures, e.double = true → e.Even) (hparens : ParensOnly text)
    (hfirst : dollar = true → text.head? ≠ some '\x7b') :
    Nesting.run ⟨level + 1, q⟩ text = some .start := by
  induction h with
  | done => rfl
  | @char q level dollar dollar' c rest enclosures hplain hdollar hrest ih =>
      rw [Nesting.run_cons, Nesting.next_char (fun hq => (hplain hq).2)]
      refine ih heven hparens.tail (fun hd hopen => hparens.braces ?_)
      obtain ⟨more, rfl⟩ := List.head?_eq_some_iff.1 hopen
      rw [hdollar hd]
      exact ⟨[], more, rfl⟩
  | opensArray hrest ih => exact ih heven hparens.tail (by simp)
  | closesArray hrest ih => exact ih heven hparens.tail (by simp)
  | comment body => exact absurd List.mem_cons_self hparens.hash
  | @enclosed double dollar level c close e e' body rest enclosures hopen hbody hclose hrest ih =>
      have hsubstitution : c = '(' ∧ e = .substitution .start := by
        unfold Enclosing.opened at hopen
        split_ifs at hopen with h₁ h₂ h₃ h₄
        · exact absurd (by simp [h₁]) hparens.hash
        · exact absurd (by simp [h₂]) hparens.backquote
        · exact absurd (by simp [h₃.2]) (hfirst h₃.1)
        · exact ⟨h₄.2, (Option.some.inj hopen).symm⟩
      obtain ⟨rfl, rfl⟩ := hsubstitution
      have hsplit : '(' :: (body ++ close :: rest) = '(' :: (body ++ [close]) ++ rest := by simp
      rw [hsplit] at hparens ⊢
      rw [Nesting.run_append, run_substituted hbody hclose (heven _ List.mem_cons_self)]
      exact ih (fun e he => heven e (List.mem_cons_of_mem _ he))
        (hparens.of_infix (List.suffix_append _ rest).isInfix) (by simp)

/-! ## The substitution -/

/-- The scan for the end, as the reader. -/
theorem foldl_step_mode (inner : List Char → Reading) (f : Frame) (place : Place) (p : Pieces)
    (double : Bool) {n n' : Nesting} (text : List Char) {body : List Char}
    (h : n.run body = some n') :
    body.foldl (step inner) (f.inWord place p (n.mode double text)) =
      f.inWord place p (n'.mode double (text ++ body)) := by
  induction body generalizing n text with
  | nil =>
      cases h
      rw [List.append_nil]
      rfl
  | cons c rest ih =>
      rw [Nesting.run_cons] at h
      obtain ⟨n₁, hnext, hrest⟩ := Option.bind_eq_some_iff.1 h
      have hstep : step inner (f.inWord place p (n.mode double text)) c =
          f.inWord place p (n₁.mode double (text ++ [c])) := by
        refine (stepWord_mode f place p inner double n text c).trans ?_
        rw [hnext]
      rw [List.foldl_cons, hstep, ih _ hrest, List.append_assoc, List.singleton_append]

/-- A text that the scan goes over is read as the text of the substitution. -/
theorem foldl_substituted (inner : List Char → Reading) (f : Frame) (place : Place) (p : Pieces)
    (double : Bool) {body : List Char} (h : Nesting.start.run body = some .start) :
    (body ++ [')']).foldl (step inner) (f.inWord place p (.parens double 1 false false false [])) =
      endSubstitution inner double f place p body := by
  rw [List.foldl_append]
  exact congrArg (fun s => step inner s ')') (foldl_step_mode inner f place p double [] h)

end ScriptRunner.Reader

namespace ScriptRunner

open Reader

/-- An accepted text without comments, backquotes and braces is the text of the substitution
that is written around it, outside of quotes and between double quotes, if every substitution
that it has between double quotes comes out even. -/
theorem readStatements_substituted {text : String} {statements : List Statement}
    (haccepted : (readStatements text).result = .ok statements) (hparens : ParensOnly text.toList)
    (hlast : text.toList.getLast? ≠ some '\\')
    (heven : ∀ e ∈ enclosures text.toList, e.double = true → e.Even) :
    readStatements ("x $(" ++ text ++ ")") =
        ⟨.ok [.command (.literal "x") [.substitution statements] []],
          (readStatements text).ignored⟩ ∧
      readStatements ("x \"$(" ++ text ++ ")\"") =
        ⟨.ok [.command (.literal "x") [.concat [.literal "", .substitution statements]] []],
          (readStatements text).ignored⟩ := by
  have hrun := (outline_of_accepted haccepted hlast).run_nesting heven hparens (by simp)
  have hreading : read text.toList = ⟨.ok statements, (readStatements text).ignored⟩ := by
    rw [← haccepted]
    rfl
  let f : Frame := ⟨[], ⟨[], some (.literal "x"), []⟩, []⟩
  constructor
  · have hsplit : ("x $(" ++ text ++ ")").toList =
        ['x', ' ', '$', '('] ++ (text.toList ++ [')']) := by
      simp
    have hbefore : ['x', ' ', '$', '('].foldl (step read) State.start =
        f.inWord .plain .start (.parens false 1 false false false []) := rfl
    rw [readStatements, hsplit, read_eq, readWith, List.foldl_append, hbefore,
      foldl_substituted read f .plain .start false hrun]
    simp only [endSubstitution, hreading]
    rfl
  · have hsplit : ("x \"$(" ++ text ++ ")\"").toList =
        ['x', ' ', '"', '$', '('] ++ ((text.toList ++ [')']) ++ ['"']) := by
      simp
    have hbefore : ['x', ' ', '"', '$', '('].foldl (step read) State.start =
        f.inWord .plain Pieces.start.openQuote (.parens true 1 false false false []) := rfl
    rw [readStatements, hsplit, read_eq, readWith, List.foldl_append, hbefore, List.foldl_append,
      foldl_substituted read f .plain Pieces.start.openQuote true hrun]
    simp only [endSubstitution, hreading]
    rfl

/-- Substitutions between double quotes with quoted substitutions in them, in an array and in a
word, and parentheses that are quoted and escaped. -/
def nestedText : String := "A=(\"$(f \"$(g)\")\") echo 'a)' \\) $(h \")\")"

/-- What it reads as. -/
def nestedStatements : List Statement :=
  [.command (.literal "echo")
    [.literal "a)", .literal ")", .substitution [.command (.literal "h") [.literal ")"] []]]
    [.mk "A" (.array [.concat [.literal "", .substitution
      [.command (.literal "f") [.concat [.literal "", .substitution
        [.command (.literal "g") [] []]]] []]]])]]

theorem readStatements_substituted_sample :
    (readStatements nestedText).result = .ok nestedStatements ∧ ParensOnly nestedText.toList ∧
      nestedText.toList.getLast? ≠ some '\\' ∧
      (∀ e ∈ enclosures nestedText.toList, e.double = true → e.Even) ∧
      readStatements ("x $(" ++ nestedText ++ ")") =
        ⟨.ok [.command (.literal "x") [.substitution nestedStatements] []],
          (readStatements nestedText).ignored⟩ ∧
      readStatements ("x \"$(" ++ nestedText ++ ")\"") =
        ⟨.ok [.command (.literal "x") [.concat [.literal "", .substitution nestedStatements]] []],
          (readStatements nestedText).ignored⟩ := by
  have haccepted : (readStatements nestedText).result = .ok nestedStatements := rfl
  have hparens : ParensOnly nestedText.toList := ⟨by decide, by decide, by decide⟩
  have hlast : nestedText.toList.getLast? ≠ some '\\' := by decide
  have heven : ∀ e ∈ enclosures nestedText.toList, e.double = true → e.Even := by decide +kernel
  obtain ⟨hbare, hquoted⟩ := readStatements_substituted haccepted hparens hlast heven
  exact ⟨haccepted, hparens, hlast, heven, hbare, hquoted⟩

/-- An accepted text is the text of the substitution that is written around it. -/
def EndsWithText (text : String) : Prop :=
  ∀ statements, (readStatements text).result = .ok statements → ParensOnly text.toList →
    text.toList.getLast? ≠ some '\\' →
    (readStatements ("x $(" ++ text ++ ")")).result =
        .ok [.command (.literal "x") [.substitution statements] []] ∧
      (readStatements ("x \"$(" ++ text ++ ")\"")).result =
        .ok [.command (.literal "x") [.concat [.literal "", .substitution statements]] []]

/-- A quoted parenthesis in a substitution between double quotes ends the one around it, and
the next one is refused. -/
theorem not_endsWithText : ¬ EndsWithText "echo \"$(echo \"a)\")\"" := by
  intro h
  have haccepted : (readStatements "echo \"$(echo \"a)\")\"").result =
      .ok [.command (.literal "echo") [.concat [.literal "", .substitution
        [.command (.literal "echo") [.literal "a)"] []]]] []] := rfl
  have hread : (readStatements ("x $(" ++ "echo \"$(echo \"a)\")\"" ++ ")")).result =
      .error (.refused (.unexpected ')')) := rfl
  have hbare := (h _ haccepted ⟨by decide, by decide, by decide⟩ (by decide)).1
  rw [hread] at hbare
  cases hbare

end ScriptRunner
