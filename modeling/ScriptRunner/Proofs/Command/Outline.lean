import ScriptRunner.Proofs.Command.Phase

/-!
# ScriptRunner.Proofs.Command.Outline

The quotes, the array parentheses and the enclosures of an accepted text.

An outline takes a text apart into characters that the flat rules agree about, the parentheses
of arrays, and enclosures: comments, and the expansions with an end mark of their own. Every
accepted text that does not end in a backslash has one (`outline_of_accepted`), from the step
lemma `step_phase` and an induction that goes over an enclosure as a whole (`exists_close`).
What a flat scan makes of an accepted text is then an induction on its outline.
-/

namespace ScriptRunner.Reader

/-! ## Accepted texts -/

/-- Where an accepted text can end, unless it ends in a backslash. -/
def Phase.Final : Phase → Prop
  | .free q level _ => q = .outside ∧ level = 0
  | .inside e double level => e = .comment ∧ double = false ∧ level = 0
  | .lost => False

theorem foldl_lost (inner : List Char → Reading) {s : State} (hs : s.phase = .lost)
    (text : List Char) : (text.foldl (step inner) s).phase = .lost := by
  induction text generalizing s with
  | nil => exact hs
  | cons c rest ih =>
      refine ih ?_
      have hstep := step_phase inner s c
      rw [hs] at hstep
      generalize (step inner s c).phase = phase at hstep ⊢
      cases hstep
      rfl

theorem level_of_finishWord {f : Frame} {place : Place} {p : Pieces} {statements : List Statement}
    (h : (finishWord f place p).result = .ok statements) : place.level = 0 := by
  cases place with
  | element name elements => cases h
  | _ => rfl

theorem level_of_finishExpansion {double : Bool} {f : Frame} {place : Place} {p : Pieces}
    {statements : List Statement} (h : (finishExpansion double f place p).result = .ok statements) :
    double = false ∧ place.level = 0 := by
  cases double with
  | true => cases h
  | false => exact ⟨rfl, level_of_finishWord h⟩

theorem final_of_accepted {s : State} {statements : List Statement}
    (h : (finish s).result = .ok statements)
    (hescape : s.At (fun q => ∀ place p, q ≠ .word place p .escape)) : s.phase.Final := by
  cases s with
  | halted halt ignored => cases h
  | running done draft position ignored =>
      cases position with
      | gap => exact ⟨rfl, rfl⟩
      | comment => exact ⟨rfl, rfl, rfl⟩
      | operator redirection run => cases redirection <;> cases h
      | letters text => exact ⟨rfl, rfl⟩
      | valueStart name => exact ⟨rfl, rfl⟩
      | arrayGap name elements => cases h
      | arrayComment name elements => cases h
      | arrayEnd name elements => exact ⟨rfl, rfl⟩
      | word place p mode =>
          cases mode with
          | tilde => exact ⟨rfl, level_of_finishWord h⟩
          | bare => exact ⟨rfl, level_of_finishWord h⟩
          | escape => exact absurd rfl (hescape place p)
          | dollar double =>
              obtain ⟨rfl, hlevel⟩ := level_of_finishExpansion h
              exact ⟨rfl, hlevel⟩
          | name double letters =>
              obtain ⟨rfl, hlevel⟩ := level_of_finishExpansion h
              exact ⟨rfl, hlevel⟩
          | _ => cases h

/-- A comment, or an expansion with an end mark: the character it begins with, whether it stands
between double quotes, and the text up to its end. -/
structure Enclosure where
  opener : Char
  double : Bool
  text : List Char
  deriving DecidableEq, Repr

/-- The enclosures of a text that the reader goes on with; `current` is what it has read of
the one that it is inside of. -/
def enclosuresFrom (s : State) (current : List Char) : List Char → List Enclosure
  | [] =>
    match s.phase with
    | .inside e double _ => [⟨e.opener, double, current⟩]
    | _ => []
  | c :: rest =>
    match s.phase, (step read s c).phase with
    | .inside .., .inside .. => enclosuresFrom (step read s c) (current ++ [c]) rest
    | .inside e double _, _ =>
        ⟨e.opener, double, current⟩ :: enclosuresFrom (step read s c) [] rest
    | _, _ => enclosuresFrom (step read s c) [] rest

/-- The enclosures of a text, without those inside of others. -/
def enclosures (text : List Char) : List Enclosure :=
  enclosuresFrom State.start [] text

section Enclosures

variable {s : State} {c : Char} {e e' : Enclosing} {q : Quotes} {double double' dollar : Bool}
  {level level' : Nat}

theorem enclosuresFrom_free (hs : s.phase = .free q level dollar) (current : List Char)
    (rest : List Char) :
    enclosuresFrom s current (c :: rest) = enclosuresFrom (step read s c) [] rest := by
  rw [enclosuresFrom, hs]

theorem enclosuresFrom_goesOn (hs : s.phase = .inside e double level)
    (hnext : (step read s c).phase = .inside e' double' level') (current rest : List Char) :
    enclosuresFrom s current (c :: rest) =
      enclosuresFrom (step read s c) (current ++ [c]) rest := by
  rw [enclosuresFrom, hs, hnext]

theorem enclosuresFrom_closes (hs : s.phase = .inside e double level)
    (hnext : (step read s c).phase = .free q level' dollar) (current rest : List Char) :
    enclosuresFrom s current (c :: rest) =
      ⟨e.opener, double, current⟩ :: enclosuresFrom (step read s c) [] rest := by
  rw [enclosuresFrom, hs, hnext]

/-- Inside of an enclosure the reader reads on to its end, or to the end of the text. -/
theorem exists_close {rest : List Char} (hs : s.phase = .inside e double level)
    (hend : (rest.foldl (step read) s).phase.Final) (current : List Char) :
    (e.opener = '#' ∧ double = false ∧ level = 0 ∧
      enclosuresFrom s current rest = [⟨e.opener, double, current ++ rest⟩]) ∨
    ∃ body close after e' s', rest = body ++ close :: after ∧ e.run body = some e' ∧
      e'.next close = none ∧ s'.phase = .free (.within double) level false ∧
      rest.foldl (step read) s = after.foldl (step read) s' ∧
      enclosuresFrom s current rest =
        ⟨e.opener, double, current ++ body⟩ :: enclosuresFrom s' [] after := by
  induction rest generalizing s e current with
  | nil =>
      rw [List.foldl_nil, hs] at hend
      obtain ⟨rfl, rfl, rfl⟩ := hend
      refine Or.inl ⟨rfl, rfl, rfl, ?_⟩
      rw [enclosuresFrom, hs, List.append_nil]
  | cons c rest ih =>
      have hstep := step_phase read s c
      rw [List.foldl_cons] at hend
      rw [hs] at hstep
      generalize hphase : (step read s c).phase = phase at hstep
      cases hstep with
      | stops => exact absurd hend (by rw [foldl_lost read hphase]; exact id)
      | goesOn hnext =>
          rw [enclosuresFrom_goesOn hs hphase]
          have hopener := Enclosing.opener_of_next hnext
          rcases ih hphase hend (current ++ [c]) with
            ⟨hcomment, hdouble, hlevel, hlist⟩ |
              ⟨body, close, after, e₁, s', rfl, hrun, hclose, hs', hfold, hlist⟩
          · refine Or.inl ⟨hopener ▸ hcomment, hdouble, hlevel, ?_⟩
            rw [hlist, hopener, List.append_assoc, List.singleton_append]
          · refine Or.inr ⟨c :: body, close, after, e₁, s', rfl, ?_, hclose, hs', hfold, ?_⟩
            · rw [Enclosing.run_cons, hnext]
              exact hrun
            · rw [hlist, hopener, List.append_assoc, List.singleton_append]
      | closes hnext =>
          refine Or.inr ⟨[], c, rest, e, step read s c, rfl, rfl, hnext, hphase, rfl, ?_⟩
          rw [enclosuresFrom_closes hs hphase, List.append_nil]

end Enclosures

/-! ## Outlines -/

/-- The rest of an accepted text, from these quotes on, in an array or not, after a dollar sign
or not: what the flat rules make of its characters, and its enclosures. -/
inductive Outline : Quotes → Nat → Bool → List Char → List Enclosure → Prop
  | done {dollar : Bool} : Outline .outside 0 dollar [] []
  | char {q : Quotes} {level : Nat} {dollar dollar' : Bool} {c : Char} {rest : List Char}
      {enclosures : List Enclosure} (hplain : q = .outside → c ≠ '<' ∧ c ≠ '(' ∧ c ≠ ')')
      (hdollar : dollar' = true → c = '$')
      (hrest : Outline (q.next c) level dollar' rest enclosures) :
      Outline q level dollar (c :: rest) enclosures
  | opensArray {dollar : Bool} {rest : List Char} {enclosures : List Enclosure}
      (hrest : Outline .outside 1 false rest enclosures) :
      Outline .outside 0 dollar ('(' :: rest) enclosures
  | closesArray {dollar : Bool} {rest : List Char} {enclosures : List Enclosure}
      (hrest : Outline .outside 0 false rest enclosures) :
      Outline .outside 1 dollar (')' :: rest) enclosures
  /-- A comment that the text ends with. -/
  | comment {dollar : Bool} (body : List Char) :
      Outline .outside 0 dollar ('#' :: body) [⟨'#', false, body⟩]
  | enclosed {double dollar : Bool} {level : Nat} {c close : Char} {e e' : Enclosing}
      {body rest : List Char} {enclosures : List Enclosure}
      (hopen : Enclosing.opened c dollar = some e) (hbody : e.run body = some e')
      (hclose : e'.next close = none)
      (hrest : Outline (.within double) level false rest enclosures) :
      Outline (.within double) level dollar (c :: (body ++ close :: rest))
        (⟨c, double, body⟩ :: enclosures)

theorem outline_of_final {s : State} {q : Quotes} {level : Nat} {dollar : Bool}
    (hs : s.phase = .free q level dollar) (text : List Char)
    (hend : (text.foldl (step read) s).phase.Final) :
    Outline q level dollar text (enclosuresFrom s [] text) := by
  -- The text after an enclosure is shorter by more than one character.
  induction hlength : text.length using Nat.strongRecOn
    generalizing s q level dollar text with
  | _ length ih =>
      cases text with
      | nil =>
          rw [List.foldl_nil, hs] at hend
          obtain ⟨rfl, rfl⟩ := hend
          rw [enclosuresFrom, hs]
          exact .done
      | cons c rest =>
          rw [List.length_cons] at hlength
          rw [List.foldl_cons] at hend
          rw [enclosuresFrom_free hs]
          have hstep := step_phase read s c
          rw [hs] at hstep
          generalize hphase : (step read s c).phase = phase at hstep
          cases hstep with
          | stops => exact absurd hend (by rw [foldl_lost read hphase]; exact id)
          | char hplain hdollar =>
              exact .char hplain hdollar (ih rest.length (by omega) hphase rest hend rfl)
          | opensArray h =>
              subst h
              exact .opensArray (ih rest.length (by omega) hphase rest hend rfl)
          | closesArray h =>
              subst h
              exact .closesArray (ih rest.length (by omega) hphase rest hend rfl)
          | opens h =>
              have hopener := Enclosing.opener_of_opened h
              rcases exists_close hphase hend [] with
                ⟨hcomment, rfl, rfl, hlist⟩ |
                  ⟨body, close, after, e', s', rfl, hrun, hclose, hs', hfold, hlist⟩
              · rw [hlist, hcomment, List.nil_append, ← hopener, hcomment]
                exact .comment rest
              · rw [hlist, hopener, List.nil_append]
                rw [hfold] at hend
                rw [List.length_append, List.length_cons] at hlength
                exact .enclosed h hrun hclose (ih after.length (by omega) hs' after hend rfl)

/-- Every accepted text that does not end in a backslash has an outline. -/
theorem outline_of_accepted {text : List Char} {statements : List Statement}
    (h : (read text).result = .ok statements) (hlast : text.getLast? ≠ some '\\') :
    Outline .outside 0 false text (enclosures text) := by
  rw [read_eq] at h
  exact outline_of_final rfl text (final_of_accepted h (foldl_step_not_escape read hlast))

example : enclosures "f \"$(g 'a')\" # b".toList =
    [⟨'(', true, "g 'a'".toList⟩, ⟨'#', false, " b".toList⟩] := by
  decide +kernel

end ScriptRunner.Reader
