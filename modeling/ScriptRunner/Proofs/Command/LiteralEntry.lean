import ScriptRunner.Command.EntryText
import ScriptRunner.Proofs.Command.LiteralCommand

/-!
# ScriptRunner.Proofs.Command.LiteralEntry

A written command as a script entry of one line.

Before a line is read as a command it is gone through twice more: for the marker of an
input, by a scan that follows quotes in its own way, and for white space and a backslash at
its ends. Neither finds anything in a written command. The scan passes over a quoted word
and is outside quotes again after it (`Unmarked`), and a written command begins and ends
with a character that is neither white space nor a backslash (`Begins`, `Ends`).

So a written command without line breaks is an entry whose command line is the same text
(`ofLines_of_edges`). Together with what reading and expanding make of that text this says
that writing a command loses nothing (`read_and_expand_write`).
-/

namespace ScriptRunner

namespace EntryText

/-! ## No marker in quoted words -/

/-- One character of the scan, where it is not a `<` outside quotes. -/
theorem lastMarker_cons (seen : List Char) (found : Option (List Char × List Char))
    {inSingle inDouble escaped : Bool} {c : Char} (rest : List Char)
    (h : c = '<' → inSingle = true ∨ inDouble = true ∨ escaped = true) :
    lastMarker seen found inSingle inDouble escaped (c :: rest) =
      if escaped then lastMarker (seen ++ [c]) found inSingle inDouble false rest
      else if c = '\\' ∧ inSingle = false then
        lastMarker (seen ++ [c]) found inSingle inDouble true rest
      else if c = '\'' ∧ inDouble = false then
        lastMarker (seen ++ [c]) found (!inSingle) inDouble false rest
      else if c = '"' ∧ inSingle = false then
        lastMarker (seen ++ [c]) found inSingle (!inDouble) false rest
      else lastMarker (seen ++ [c]) found inSingle inDouble false rest := by
  rw [lastMarker.eq_def]
  cases escaped with
  | true => rfl
  | false =>
      have hmarker : ¬(c = '<' ∧ inSingle = false ∧ inDouble = false) := by
        rintro ⟨hc, rfl, rfl⟩
        simpa using h hc
      simp only [hmarker, if_false]

/-- The scan for markers passes over `text` and finds nothing: it ends outside quotes. -/
def Unmarked (text : List Char) : Prop :=
  ∀ seen found rest, lastMarker seen found false false false (text ++ rest) =
    lastMarker (seen ++ text) found false false false rest

theorem Unmarked.nil : Unmarked [] := by
  intro seen found rest
  rw [List.nil_append, List.append_nil]

theorem Unmarked.append {a b : List Char} (ha : Unmarked a) (hb : Unmarked b) :
    Unmarked (a ++ b) := by
  intro seen found rest
  rw [List.append_assoc, ha, hb, List.append_assoc]

theorem Unmarked.flatMap {α : Type} {f : α → List Char} {xs : List α}
    (h : ∀ x ∈ xs, Unmarked (f x)) : Unmarked (xs.flatMap f) := by
  induction xs with
  | nil => exact Unmarked.nil
  | cons x rest ih =>
      rw [List.flatMap_cons]
      exact (h x (by simp)).append (ih (fun y hy => h y (List.mem_cons_of_mem _ hy)))

/-- A character that is neither a quote, a backslash nor `<` is no part of a marker. -/
theorem Unmarked.char {c : Char} (h : c ≠ '\\' ∧ c ≠ '\'' ∧ c ≠ '"' ∧ c ≠ '<') :
    Unmarked [c] := by
  intro seen found rest
  rw [List.singleton_append, lastMarker_cons _ _ _ (fun hc => absurd hc h.2.2.2)]
  simp [h]

theorem Unmarked.of_forall {text : List Char}
    (h : ∀ c ∈ text, c ≠ '\\' ∧ c ≠ '\'' ∧ c ≠ '"' ∧ c ≠ '<') : Unmarked text := by
  have hchars : Unmarked (text.flatMap (fun c => [c])) :=
    Unmarked.flatMap (fun c hc => Unmarked.char (h c hc))
  rwa [List.flatMap_singleton'] at hchars

theorem Unmarked.plain {text : List Char} (h : ∀ c ∈ text, isPlain c = true) :
    Unmarked text := by
  refine Unmarked.of_forall (fun c hc => ?_)
  obtain ⟨h₁, h₂, h₃, -⟩ := ne_of_isPlain (h c hc)
  obtain ⟨-, -, -, -, h₄, -⟩ := ne_of_not_isWordEnd (isWordEnd_of_isPlain (h c hc))
  exact ⟨h₁, h₂, h₃, h₄⟩

/-- Between apostrophes the scan waits for the next apostrophe. -/
theorem lastMarker_single (seen : List Char) (found : Option (List Char × List Char))
    {text : List Char} (h : ∀ c ∈ text, c ≠ '\'') (rest : List Char) :
    lastMarker seen found true false false (text ++ rest) =
      lastMarker (seen ++ text) found true false false rest := by
  induction text generalizing seen with
  | nil => rw [List.nil_append, List.append_nil]
  | cons c more ih =>
      have hc : c ≠ '\'' := h c (by simp)
      rw [List.cons_append, lastMarker_cons _ _ _ (fun _ => Or.inl rfl)]
      simp only [hc, Bool.false_eq_true, Bool.true_eq_false, false_and, and_false, if_false]
      rw [ih _ (fun d hd => h d (List.mem_cons_of_mem _ hd)), List.append_assoc,
        List.singleton_append]

/-- Between double quotes it waits for the next one without a backslash. -/
theorem lastMarker_double (seen : List Char) (found : Option (List Char × List Char))
    (text rest : List Char) :
    lastMarker seen found false true false (text.flatMap Reader.writeDouble ++ rest) =
      lastMarker (seen ++ text.flatMap Reader.writeDouble) found false true false rest := by
  induction text generalizing seen with
  | nil => rw [List.flatMap_nil, List.nil_append, List.append_nil]
  | cons c more ih =>
      have hchar : lastMarker seen found false true false
          (Reader.writeDouble c ++ (more.flatMap Reader.writeDouble ++ rest)) =
          lastMarker (seen ++ Reader.writeDouble c) found false true false
            (more.flatMap Reader.writeDouble ++ rest) := by
        unfold Reader.writeDouble
        split
        · rw [List.cons_append, lastMarker_cons _ _ _ (fun _ => Or.inr (Or.inl rfl)),
            List.singleton_append]
          simp [lastMarker_cons]
        · next hesc =>
            rw [not_or] at hesc
            rw [List.singleton_append, lastMarker_cons _ _ _ (fun _ => Or.inr (Or.inl rfl))]
            simp [hesc]
      rw [List.flatMap_cons, List.append_assoc, hchar, ih, List.append_assoc]

/-- No chunk has a marker, whatever it holds between its quotes. -/
theorem Unmarked.write {style : QuoteStyle} {chunk : List Char}
    (h : ∀ c ∈ chunk, style.admits c = true) : Unmarked (style.write chunk) := by
  cases style with
  | bare => exact Unmarked.plain (fun c hc => isPlain_of_isBareSafe (h c hc))
  | single =>
      intro seen found rest
      have htext : ∀ c ∈ chunk, c ≠ '\'' := fun c hc => bne_iff_ne.1 (h c hc)
      rw [QuoteStyle.write, List.cons_append, lastMarker_cons _ _ _ (by simp)]
      simp only [Bool.false_eq_true, if_false, Char.reduceEq, false_and, true_and, if_true]
      rw [List.append_assoc, Bool.not_false, lastMarker_single _ _ htext,
        List.singleton_append, lastMarker_cons _ _ _ (by simp)]
      simp
  | double =>
      intro seen found rest
      have hwrite : QuoteStyle.double.write chunk =
          '"' :: (chunk.flatMap Reader.writeDouble ++ ['"']) := rfl
      rw [hwrite, List.cons_append, lastMarker_cons _ _ _ (by simp)]
      simp only [Bool.false_eq_true, if_false, Char.reduceEq, false_and, true_and, if_true]
      rw [List.append_assoc, Bool.not_false, lastMarker_double, List.singleton_append,
        lastMarker_cons _ _ _ (by simp)]
      simp

theorem Unmarked.quoteWord (word : List Char) : Unmarked (Quoting.quoteWord word) := by
  unfold Quoting.quoteWord
  split
  · have hnone : ∀ c ∈ ([] : List Char), QuoteStyle.single.admits c = true := nofun
    exact Unmarked.write hnone
  · rw [Quoting.writeChunks_eq]
    exact Unmarked.flatMap (fun k hk => Unmarked.write (Quoting.admits_of_mem_chunks hk).2)

theorem Unmarked.joinWords {words : List String} (h : ∀ w ∈ words, '\x00' ∉ w.toList) :
    Unmarked (joinWords words).toList := by
  rw [toList_joinWords h]
  cases words with
  | nil => exact Unmarked.nil
  | cons word rest =>
      rw [List.map_cons, Text.join_cons, List.flatMap_map]
      exact (Unmarked.quoteWord _).append (Unmarked.flatMap (fun w _ =>
        (Unmarked.char (by decide)).append (Unmarked.quoteWord _)))

theorem marker?_of_unmarked {text : List Char} (h : Unmarked text) : marker? text = none := by
  have hscan := h [] none []
  rw [List.append_nil, List.nil_append] at hscan
  rw [marker?, hscan]
  rfl

/-! ## The ends of a written command -/

/-- Whether `c` may stand at either end of a written command: a plain character or a
quote. -/
def isEdge (c : Char) : Bool :=
  isPlain c || c == '\'' || c == '"'

/-- The text begins with such a character. -/
def Begins (text : List Char) : Prop := ∃ c rest, text = c :: rest ∧ isEdge c = true

/-- The text ends with such a character. -/
def Ends (text : List Char) : Prop := ∃ front c, text = front ++ [c] ∧ isEdge c = true

theorem Begins.append {a : List Char} (h : Begins a) (b : List Char) : Begins (a ++ b) := by
  obtain ⟨c, rest, rfl, hc⟩ := h
  exact ⟨c, rest ++ b, rfl, hc⟩

theorem Ends.append {b : List Char} (h : Ends b) (a : List Char) : Ends (a ++ b) := by
  obtain ⟨front, c, rfl, hc⟩ := h
  exact ⟨a ++ front, c, by rw [List.append_assoc], hc⟩

theorem ne_of_isEdge {c : Char} (h : isEdge c = true) :
    isBlank c = false ∧ c ≠ '#' ∧ c ≠ '\\' := by
  simp only [isEdge, Bool.or_eq_true, beq_iff_eq] at h
  rcases h with (h | rfl) | rfl
  · obtain ⟨hbackslash, -, -, -, -, -, hhash, -⟩ := ne_of_isPlain h
    exact ⟨(ne_of_not_isWordEnd (isWordEnd_of_isPlain h)).1, hhash, hbackslash⟩
  · decide
  · decide

theorem begins_write {style : QuoteStyle} {chunk : List Char} (hne : chunk ≠ [])
    (h : ∀ c ∈ chunk, style.admits c = true) :
    Begins (style.write chunk) ∧ Ends (style.write chunk) := by
  cases style with
  -- A bare chunk has its own first and last character, the others have quotes there.
  | bare =>
      obtain ⟨front, z, hz⟩ := (List.eq_nil_or_concat chunk).resolve_left hne
      rw [List.concat_eq_append] at hz
      obtain ⟨c, rest, hc⟩ := List.exists_cons_of_ne_nil hne
      have hedge : ∀ d ∈ chunk, isEdge d = true := by
        intro d hd
        simp [isEdge, isPlain_of_isBareSafe (h d hd)]
      exact ⟨⟨c, rest, hc, hedge c (by simp [hc])⟩, ⟨front, z, hz, hedge z (by simp [hz])⟩⟩
  | single => exact ⟨⟨'\'', _, rfl, by decide⟩, ⟨'\'' :: chunk, '\'', rfl, by decide⟩⟩
  | double => exact ⟨⟨'"', _, rfl, by decide⟩, ⟨'"' :: chunk.flatMap Reader.writeDouble, '"',
      rfl, by decide⟩⟩

theorem begins_quoteWord (word : List Char) :
    Begins (Quoting.quoteWord word) ∧ Ends (Quoting.quoteWord word) := by
  unfold Quoting.quoteWord
  split
  · exact ⟨⟨'\'', ['\''], rfl, by decide⟩, ⟨['\''], '\'', rfl, by decide⟩⟩
  · next hword =>
      rw [Quoting.writeChunks_eq]
      have hne : Quoting.chunks word ≠ [] := by
        intro hnil
        have hflat := Quoting.flatten_chunks word
        rw [hnil, List.flatMap_nil] at hflat
        exact hword (by rw [← hflat]; rfl)
      have hchunk := fun k (hk : k ∈ Quoting.chunks word) => Quoting.admits_of_mem_chunks hk
      constructor
      · obtain ⟨k, rest, hk⟩ := List.exists_cons_of_ne_nil hne
        obtain ⟨hnil, hadmits⟩ := hchunk k (by simp [hk])
        rw [hk, List.flatMap_cons]
        exact (begins_write hnil hadmits).1.append _
      · obtain ⟨front, k, hk⟩ := (List.eq_nil_or_concat (Quoting.chunks word)).resolve_left hne
        rw [List.concat_eq_append] at hk
        obtain ⟨hnil, hadmits⟩ := hchunk k (by simp [hk])
        rw [hk, List.flatMap_append, List.flatMap_singleton]
        exact (begins_write hnil hadmits).2.append _

theorem begins_joinWords {words : List String} (hne : words ≠ [])
    (h : ∀ w ∈ words, '\x00' ∉ w.toList) :
    Begins (joinWords words).toList ∧ Ends (joinWords words).toList := by
  rw [toList_joinWords h]
  constructor
  · obtain ⟨word, rest, rfl⟩ := List.exists_cons_of_ne_nil hne
    rw [List.map_cons, Text.join_cons]
    exact (begins_quoteWord _).1.append _
  · obtain ⟨front, word, rfl⟩ := (List.eq_nil_or_concat words).resolve_left hne
    rw [List.concat_eq_append, List.map_append, List.map_singleton, Text.join_concat]
    exact (begins_quoteWord _).2.append _

/-- Between two such characters nothing is trimmed off. -/
theorem commandPart_of_edges {text : List Char} (hb : Begins text) (he : Ends text) :
    commandPart text = text := by
  obtain ⟨c, rest, hc, hcEdge⟩ := hb
  obtain ⟨front, z, hz, hzEdge⟩ := he
  have hstart : Text.trimStart text = text := by
    rw [hc, Text.trimStart, List.dropWhile_cons_of_neg (by simp [(ne_of_isEdge hcEdge).1])]
  have hend : Text.trimEnd text = text := by
    rw [hz, Text.trimEnd, Text.dropEndWhile, List.reverse_append, List.reverse_singleton,
      List.singleton_append, List.dropWhile_cons_of_neg (by simp [(ne_of_isEdge hzEdge).1]),
      List.reverse_cons, List.reverse_reverse]
  have hstrip : Text.stripLast '\\' text = text := by
    rw [hz, Text.stripLast, List.reverse_append, List.reverse_singleton, List.singleton_append]
    exact if_neg (ne_of_isEdge hzEdge).2.2
  rw [commandPart, Text.trim, hstart, hend, hstrip, hend]

theorem not_isComment_of_begins {text : List Char} (h : Begins text) : isComment text = false := by
  obtain ⟨c, rest, rfl, hc⟩ := h
  rw [isComment, Text.trimStart,
    List.dropWhile_cons_of_neg (by simp [(ne_of_isEdge hc).1]), List.head?_cons]
  simpa using (ne_of_isEdge hc).2.1

/-! ## One line -/

theorem linesFrom_of_no_newline (current : List Char) {text : List Char} (h : '\n' ∉ text) :
    Text.linesFrom current text =
      if (current ++ text).isEmpty then [] else [current ++ text] := by
  induction text generalizing current with
  | nil => rw [List.append_nil]; rfl
  | cons c rest ih =>
      rw [List.mem_cons, not_or] at h
      rw [Text.linesFrom, if_neg (fun heq => h.1 heq.symm), ih _ h.2, List.append_assoc,
        List.singleton_append]

/-- A text of one line, with such ends and without a marker, is an entry as it stands. -/
theorem ofLines_of_edges {text : String} (hb : Begins text.toList) (he : Ends text.toList)
    (hm : Unmarked text.toList) (hn : '\n' ∉ text.toList) :
    ofLines [text] = ⟨text, none⟩ := by
  have hne : text.toList.isEmpty = false := by
    obtain ⟨c, rest, hc, -⟩ := hb
    rw [hc]
    rfl
  have hlines : Text.lines text.toList = [text.toList] := by
    rw [Text.lines, linesFrom_of_no_newline [] hn, List.nil_append, if_neg (by simp [hne])]
  have hcollect : collect [text.toList] = ([text.toList], none) := by
    rw [collect, if_neg (by simp [not_isComment_of_begins hb]), marker?_of_unmarked hm,
      commandPart_of_edges hb he]
    rfl
  rw [ofLines, List.flatMap_singleton, hlines, hcollect]
  simp [hne, String.ofList_toList]

/-! ## Line breaks -/

theorem newline_not_mem_quoteWord {word : List Char} (h : '\n' ∉ word) :
    '\n' ∉ Quoting.quoteWord word := by
  have hwrite : ∀ (style : QuoteStyle) (chunk : List Char), '\n' ∉ chunk →
      '\n' ∉ style.write chunk := by
    intro style chunk hchunk
    cases style with
    | bare => exact hchunk
    | single => simp [QuoteStyle.write, hchunk]
    | double =>
        have hchar : ∀ c ∈ chunk, '\n' ∉ Reader.writeDouble c := by
          intro c hc
          have hne : '\n' ≠ c := fun heq => hchunk (heq ▸ hc)
          unfold Reader.writeDouble
          split <;> simp [hne]
        have hquoted : QuoteStyle.double.write chunk =
            '"' :: (chunk.flatMap Reader.writeDouble ++ ['"']) := rfl
        rw [hquoted]
        simpa using hchar
  unfold Quoting.quoteWord
  split
  · decide
  · rw [Quoting.writeChunks_eq, List.mem_flatMap]
    rintro ⟨k, hk, hmem⟩
    refine hwrite k.1 k.2 (fun hchunk => h ?_) hmem
    rw [← Quoting.flatten_chunks word]
    exact List.mem_flatMap.2 ⟨k, hk, hchunk⟩

theorem newline_not_mem_joinWords {words : List String} (hnul : ∀ w ∈ words, '\x00' ∉ w.toList)
    (h : ∀ w ∈ words, '\n' ∉ w.toList) : '\n' ∉ (joinWords words).toList := by
  rw [toList_joinWords hnul]
  cases words with
  | nil => exact List.not_mem_nil
  | cons word rest =>
      rw [List.map_cons, Text.join_cons, List.flatMap_map, List.mem_append, List.mem_flatMap]
      rintro (hword | ⟨w, hw, hmem⟩)
      · exact newline_not_mem_quoteWord (h word (by simp)) hword
      · rw [List.singleton_append, List.mem_cons] at hmem
        refine newline_not_mem_quoteWord (h w (by simp [hw])) (hmem.resolve_left (by decide))

end EntryText

/-! ## Written commands -/

namespace LiteralCommand

open EntryText

variable {c : LiteralCommand}

theorem unmarked_bindingText {b : String × LiteralValue} (hname : isValidName b.1 = true)
    (htexts : ∀ t ∈ b.2.texts, '\x00' ∉ t.toList) : Unmarked (bindingText b) := by
  have hplain : Unmarked b.1.toList := Unmarked.plain
    (fun c hc => isPlain_of_isNameChar (isNameChar_of_isValidName hname c hc))
  have hsplit : bindingText b = b.1.toList ++ (['='] ++ b.2.write.toList) := rfl
  rw [hsplit]
  refine hplain.append ((Unmarked.char (by decide)).append ?_)
  cases hvalue : b.2 with
  | text value =>
      rw [hvalue] at htexts
      exact Unmarked.joinWords htexts
  | list elements =>
      rw [hvalue] at htexts
      have hwrite : (LiteralValue.list elements).write.toList =
          ['('] ++ ((joinWords elements).toList ++ [')']) := by
        simp [LiteralValue.write]
      rw [hwrite]
      exact (Unmarked.char (by decide)).append
        ((Unmarked.joinWords htexts).append (Unmarked.char (by decide)))

theorem unmarked_write (h : c.Writable) : Unmarked c.write.toList := by
  rw [toList_write]
  refine Unmarked.append (Unmarked.flatMap (fun b hb => ?_)) (Unmarked.joinWords h.quotable.1)
  exact (unmarked_bindingText (h.names b hb) (h.quotable.2 b hb)).append
    (Unmarked.char (by decide))

theorem begins_write (h : c.Writable) : Begins c.write.toList ∧ Ends c.write.toList := by
  rw [toList_write]
  have hne : c.words ≠ [] := List.cons_ne_nil _ _
  have hwords := begins_joinWords hne h.quotable.1
  refine ⟨?_, hwords.2.append _⟩
  cases hbindings : c.bindings with
  | nil => exact hwords.1
  | cons b rest =>
      obtain ⟨d, letters, hname, hstart, -⟩ :=
        letters_of_isValidName (h.names b (by simp [hbindings]))
      have hedge : isEdge d = true := by
        simp [isEdge, isPlain_of_isNameChar (isNameChar_of_isNameStart hstart)]
      have hbegins : Begins b.1.toList := ⟨d, letters, hname, hedge⟩
      rw [List.flatMap_cons, bindingText]
      exact (((hbegins.append _).append _).append _).append _

theorem newline_not_mem_write (h : c.Writable) (hn : ∀ t ∈ c.texts, '\n' ∉ t.toList) :
    '\n' ∉ c.write.toList := by
  have hwords : ∀ w ∈ c.words, '\n' ∉ w.toList :=
    fun w hw => hn w (List.mem_append_right _ hw)
  rw [toList_write, List.mem_append, not_or, List.mem_flatMap]
  refine ⟨?_, newline_not_mem_joinWords h.quotable.1 hwords⟩
  rintro ⟨b, hb, hmem⟩
  have hname : '\n' ∉ b.1.toList := fun hchar =>
    absurd (isNameChar_of_isValidName (h.names b hb) _ hchar) (by decide)
  have htexts : ∀ t ∈ b.2.texts, '\n' ∉ t.toList :=
    fun t ht => hn t (List.mem_append_left _ (List.mem_flatMap.2 ⟨b, hb, ht⟩))
  have hvalue : '\n' ∉ b.2.write.toList := by
    have hnul := h.quotable.2 b hb
    cases hb2 : b.2 with
    | text value =>
        rw [hb2] at htexts hnul
        exact newline_not_mem_joinWords hnul htexts
    | list elements =>
        rw [hb2] at htexts hnul
        have hjoined : '\n' ∉ (joinWords elements).toList :=
          newline_not_mem_joinWords hnul htexts
        simpa [LiteralValue.write] using hjoined
  simp [bindingText, hname, hvalue] at hmem

/-- Writing a command loses nothing. The command line reads back as the one statement that
says the same. Its expansion has the same words, and each name the value of its last
binding, whatever the session's names are bound to, and the oracle is not asked. Where no
text has a line break, the command line is an entry without an input. -/
theorem read_and_expand_write (h : c.Writable) :
    readStatements c.write = ⟨.ok [c.statement], []⟩ ∧
    (∃ r : Resolved, r.argv = c.words ∧
      (∀ name, r.env.lookup name = Bindings.lastIn name c.values) ∧
      ∀ {σ : Type} (oracle : Expansion.Oracle σ) (vars env : Env),
        Expansion.expand oracle vars env c.statement = pure r) ∧
    ((∀ t ∈ c.texts, '\n' ∉ t.toList) →
      (EntryText.ofLines [c.write]).command = c.write ∧
      (EntryText.ofLines [c.write]).input = none ∧
      readStatements (EntryText.ofLines [c.write]).command = ⟨.ok [c.statement], []⟩) := by
  have hread := readStatements_write h
  refine ⟨hread, ?_, fun hn => ?_⟩
  · exact ⟨⟨some c.program, c.args, Bindings.ofList c.values⟩, rfl,
      fun name => Bindings.lookup_ofList c.values name,
      fun oracle vars env => expand_statement oracle vars env c⟩
  · have hentry := ofLines_of_edges (begins_write h).1 (begins_write h).2 (unmarked_write h)
      (newline_not_mem_write h hn)
    rw [hentry]
    exact ⟨rfl, rfl, hread⟩

/-- A command with quotes of all styles, a list, and a name that is bound twice. -/
def sample : LiteralCommand :=
  ⟨[("A", .text "x"), ("L", .list ["it's", ""]), ("A", .text "$y")], "~", ["a^b", "#=<<"]⟩

theorem read_and_expand_write_sample :
    sample.Writable ∧
    sample.write = "A=x L=(\"it's\" '') A='$y' '~' a'^b' '#=<<'" ∧
    readStatements sample.write = ⟨.ok [.command (.literal "~")
      [.literal "a^b", .literal "#=<<"]
      [.mk "A" (.literal "x"), .mk "L" (.array [.literal "it's", .literal ""]),
        .mk "A" (.literal "$y")]], []⟩ ∧
    (∃ r : Resolved, r.argv = ["~", "a^b", "#=<<"] ∧ r.env.lookup "A" = some "$y" ∧
      r.env.lookup "L" = some "it's ") ∧
    (EntryText.ofLines [sample.write]).input = none := by
  have hnames : ∀ b ∈ sample.bindings, isValidName b.1 = true := by decide
  have htexts : ∀ t ∈ sample.texts, '\x00' ∉ t.toList := by decide
  have hlines : ∀ t ∈ sample.texts, '\n' ∉ t.toList := by decide
  obtain ⟨hread, ⟨r, hargv, henv, -⟩, hentry⟩ :=
    read_and_expand_write (c := sample) ⟨hnames, htexts⟩
  refine ⟨⟨hnames, htexts⟩, by decide +kernel, hread, ⟨r, hargv, ?_, ?_⟩, (hentry hlines).2.1⟩
  · rw [henv]
    decide
  · rw [henv]
    decide

end LiteralCommand

end ScriptRunner
