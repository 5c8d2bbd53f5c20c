import ScriptRunner.Expansion
import ScriptRunner.Proofs.Bindings
import ScriptRunner.Proofs.Command.WordReading
import ScriptRunner.Proofs.Text.Joining

/-!
# ScriptRunner.Proofs.Command.LiteralCommand

Commands whose words and values are given texts, written down with quotes.

A `LiteralCommand` is what someone wants a command line to say: bindings of names to
texts or lists of texts, a program, and its arguments. `LiteralCommand.write` quotes all of
them. Reading the line gives back the one statement that says the same, word for word
(`readStatements_write`), and expanding that statement gives the same words and values,
whatever the names of the session are bound to and without running anything
(`expand_statement`).
-/

namespace ScriptRunner

/-- What a name is bound to on a command line: a text, or a list of texts. -/
inductive LiteralValue
  | text (value : String)
  | list (elements : List String)

namespace LiteralValue

/-- The texts of a value. -/
def texts : LiteralValue → List String
  | text value => [value]
  | list elements => elements

/-- A value as it is written after `NAME=`. -/
def write : LiteralValue → String
  | text value => joinWords [value]
  | list elements => "(" ++ joinWords elements ++ ")"

/-- The word that says the same. -/
def word : LiteralValue → Word
  | text value => .literal value
  | list elements => .array (elements.map .literal)

/-- The value as one text. -/
def joined : LiteralValue → String
  | text value => value
  | list elements => joinBySpace elements

end LiteralValue

/-- A command with the bindings that hold for it. -/
structure LiteralCommand where
  bindings : List (String × LiteralValue)
  program : String
  args : List String

namespace LiteralCommand

/-- The program and its arguments. -/
def words (c : LiteralCommand) : List String := c.program :: c.args

/-- All texts of a command. -/
def texts (c : LiteralCommand) : List String :=
  c.bindings.flatMap (fun b => b.2.texts) ++ c.words

/-- The command line: the bindings, then the words, with single spaces between them. -/
def write (c : LiteralCommand) : String :=
  joinBySpace (c.bindings.map (fun b => b.1 ++ "=" ++ b.2.write) ++ [joinWords c.words])

/-- The statement that says the same. -/
def statement (c : LiteralCommand) : Statement :=
  .command (.literal c.program) (c.args.map .literal)
    (c.bindings.map (fun b => .mk b.1 b.2.word))

/-- The bindings with their values as one text each. -/
def values (c : LiteralCommand) : List (String × String) :=
  c.bindings.map (fun b => (b.1, b.2.joined))

/-- A command that can be written: its names are names, and no text has a NUL. -/
structure Writable (c : LiteralCommand) : Prop where
  names : ∀ b ∈ c.bindings, isValidName b.1 = true
  texts : ∀ t ∈ c.texts, '\x00' ∉ t.toList

/-- The texts of a writable command can be quoted. -/
theorem Writable.quotable {c : LiteralCommand} (h : c.Writable) :
    (∀ w ∈ c.words, '\x00' ∉ w.toList) ∧
      ∀ b ∈ c.bindings, ∀ t ∈ b.2.texts, '\x00' ∉ t.toList :=
  ⟨fun w hw => h.texts w (List.mem_append_right _ hw),
    fun b hb t ht => h.texts t (List.mem_append_left _ (List.mem_flatMap.2 ⟨b, hb, ht⟩))⟩

/-- A binding on a command line. -/
def bindingText (b : String × LiteralValue) : List Char :=
  b.1.toList ++ '=' :: b.2.write.toList

theorem toList_write (c : LiteralCommand) :
    c.write.toList =
      c.bindings.flatMap (fun b => bindingText b ++ [' ']) ++ (joinWords c.words).toList := by
  have hbinding : ∀ b : String × LiteralValue,
      (b.1 ++ "=" ++ b.2.write).toList = bindingText b := by
    intro b
    simp [bindingText]
  rw [write, toList_joinBySpace, List.map_append, List.map_singleton, Text.join_concat,
    List.map_map, List.flatMap_map]
  simp only [Function.comp, hbinding]

end LiteralCommand

namespace Reader

/-! ## Where the reader goes from word to word -/

namespace Frame

/-- The reader before a word for `place`. -/
def before (f : Frame) : Place → State
  | .plain => f.goTo .gap
  | .value name => f.goTo (.valueStart name)
  | .element name elements => f.goTo (.arrayGap name elements)

/-- The frame after `w` was read for `place`, and what the next word is for. -/
def next (f : Frame) (place : Place) (w : Word) : Frame × Place :=
  match place with
  | .plain => (⟨f.done, f.draft.addWord w, f.ignored⟩, .plain)
  | .value name => (assigned f name w, .plain)
  | .element name elements => (f, .element name (elements ++ [w]))

/-- The same after several words. -/
def nextAll (fp : Frame × Place) (ws : List Word) : Frame × Place :=
  ws.foldl (fun fp w => fp.1.next fp.2 w) fp

theorem nextAll_plain (f : Frame) (ws : List Word) :
    nextAll (f, .plain) ws = (⟨f.done, ws.foldl Draft.addWord f.draft, f.ignored⟩, .plain) := by
  induction ws generalizing f with
  | nil => rfl
  | cons w rest ih =>
      have hstep : nextAll (f, .plain) (w :: rest) = nextAll (f.next .plain w) rest := rfl
      rw [hstep, next, ih, List.foldl_cons]

theorem nextAll_element (f : Frame) (name : String) (elements ws : List Word) :
    nextAll (f, .element name elements) ws = (f, .element name (elements ++ ws)) := by
  induction ws generalizing elements with
  | nil => rw [List.append_nil]; rfl
  | cons w rest ih =>
      have hstep : nextAll (f, .element name elements) (w :: rest) =
          nextAll (f.next (.element name elements) w) rest := rfl
      rw [hstep, next, ih, List.append_assoc, List.singleton_append]

end Frame

theorem atWord_before (f : Frame) (place : Place) :
    AtWord f place Pieces.start (f.before place) := by
  cases place with
  | plain => exact .gap
  | value name => exact .valueStart name
  | element name elements => exact .arrayGap name elements

/-- The first word of a statement is its program, the others are its arguments. -/
theorem foldl_addWord (assignments : List Assignment) (program : Word) (args : List Word) :
    (program :: args).foldl Draft.addWord ⟨assignments, none, []⟩ =
      ⟨assignments, some program, args⟩ := by
  have hargs : ∀ before, args.foldl Draft.addWord ⟨assignments, some program, before⟩ =
      ⟨assignments, some program, before ++ args⟩ := by
    induction args with
    | nil => intro before; rw [List.append_nil]; rfl
    | cons w rest ih =>
        intro before
        have hstep : Draft.addWord ⟨assignments, some program, before⟩ w =
            ⟨assignments, some program, before ++ [w]⟩ := rfl
        rw [List.foldl_cons, hstep, ih, List.append_assoc, List.singleton_append]
  exact hargs []

section Words

variable (inner : List Char → Reading) {f : Frame} {place : Place} {s : State}

/-- A space after a literal word leads to the next word. -/
theorem step_space {text : List Char} {quoted : Bool} (hne : text = [] → quoted = true)
    (h : AtWord f place ⟨[], text, quoted⟩ s) :
    step inner s ' ' =
      (f.next place (.literal (String.ofList text))).1.before
        (f.next place (.literal (String.ofList text))).2 := by
  rw [h.step_blank, stepAfterWord]
  cases place with
  | plain => rw [endWord, Pieces.word?_text hne]; rfl
  | value name => rw [endWord, Pieces.word?_text hne]; rfl
  | element name elements => rw [endWord, Pieces.word?_text hne]; rfl

/-- Quoted words joined by spaces are read one after another. The reader ends up in the
last of them. -/
theorem foldl_quotedWords (word : String) (rest : List String)
    (h : AtWord f place Pieces.start s) :
    ∃ (g : Frame) (last : Place) (text : List Char) (quoted : Bool),
      (text = [] → quoted = true) ∧
      AtWord g last ⟨[], text, quoted⟩
        ((Text.join [' '] ((word :: rest).map (fun w => Quoting.quoteWord w.toList))).foldl
          (step inner) s) ∧
      g.next last (.literal (String.ofList text)) =
        Frame.nextAll (f, place) ((word :: rest).map .literal) := by
  induction rest generalizing word f place s with
  | nil =>
      obtain ⟨quoted, hne, hword⟩ := h.foldl_quoteWord inner word.toList
      refine ⟨f, place, word.toList, quoted, fun hnil => hne hnil, hword, ?_⟩
      rw [String.ofList_toList]
      rfl
  | cons second rest ih =>
      obtain ⟨quoted, hne, hword⟩ := h.foldl_quoteWord inner word.toList
      have hspace := step_space inner (fun hnil => hne hnil) hword
      rw [String.ofList_toList] at hspace
      -- The space leads to a state that reads the next word, whatever it is for.
      obtain ⟨g, last, text, quoted', hne', hlast, hnext⟩ :=
        ih second (atWord_before (f.next place (.literal word)).1 (f.next place (.literal word)).2)
      refine ⟨g, last, text, quoted', hne', ?_, hnext⟩
      rw [List.map_cons, List.map_cons, Text.join_cons_cons, List.append_assoc,
        List.foldl_append, List.singleton_append, List.foldl_cons, hspace]
      exact hlast

end Words

/-! ## Bindings -/

section Bindings

variable (inner : List Char → Reading) (f : Frame)

/-- The characters of a name are held back as long as it could become an assignment. -/
theorem foldl_letters (text : List Char) {rest : List Char}
    (h : ∀ c ∈ rest, isNameChar c = true) :
    rest.foldl (step inner) (f.goTo (.letters text)) = f.goTo (.letters (text ++ rest)) := by
  induction rest generalizing text with
  | nil => rw [List.append_nil]; rfl
  | cons c rest ih =>
      have hstep : step inner (f.goTo (.letters text)) c = f.goTo (.letters (text ++ [c])) := by
        simp only [Frame.goTo, step, h c (by simp), if_true]
      rw [List.foldl_cons, hstep, ih _ (fun d hd => h d (List.mem_cons_of_mem _ hd)),
        List.append_assoc, List.singleton_append]

/-- Before the program, `NAME=` is the start of an assignment. -/
theorem foldl_name {name : String} (hname : isValidName name = true)
    (hdraft : f.draft.name = none) :
    (name.toList ++ ['=']).foldl (step inner) (f.before .plain) = f.before (.value name) := by
  obtain ⟨c, rest, hletters, hstart, hrest⟩ := letters_of_isValidName hname
  have hplain := isPlain_of_isNameChar (isNameChar_of_isNameStart hstart)
  obtain ⟨-, -, -, -, -, -, hhash, -⟩ := ne_of_isPlain hplain
  have hfirst : step inner (f.before .plain) c = f.goTo (.letters [c]) := by
    simp only [Frame.before, Frame.goTo, step]
    rw [stepGap_word (isWordEnd_of_isPlain hplain) hhash, if_pos (by simp [hdraft, hstart])]
    rfl
  have hequals : ∀ text, step inner (f.goTo (.letters text)) '=' =
      f.before (.value (String.ofList text)) := fun _ => rfl
  rw [hletters, List.cons_append, List.foldl_cons, hfirst, List.foldl_append,
    foldl_letters inner f [c] hrest, List.foldl_cons, List.foldl_nil, hequals,
    List.singleton_append, ← hletters, String.ofList_toList]

/-- A list of quoted words between parentheses is read as an array. -/
theorem foldl_elements (name : String) {elements : List String}
    (h : ∀ t ∈ elements, '\x00' ∉ t.toList) :
    ((joinWords elements).toList ++ [')']).foldl (step inner) (f.before (.element name [])) =
      f.goTo (.arrayEnd name (elements.map .literal)) := by
  rw [toList_joinWords h]
  cases elements with
  | nil => rfl
  | cons word rest =>
      obtain ⟨g, last, text, quoted, hne, hlast, hnext⟩ :=
        foldl_quotedWords inner word rest (atWord_before f (.element name []))
      rw [Frame.nextAll_element, List.nil_append] at hnext
      rw [List.foldl_append, List.foldl_cons, List.foldl_nil]
      cases last with
      | plain => simp [Frame.next] at hnext
      | value _ => simp [Frame.next] at hnext
      | element name' elements' =>
          simp only [Frame.next, Prod.mk.injEq, Place.element.injEq] at hnext
          obtain ⟨rfl, rfl, helements⟩ := hnext
          rw [hlast.step_close, Pieces.word?_text hne, Option.toList_some, helements]

/-- A written binding, with the space after it, is read as that binding. -/
theorem foldl_binding {b : String × LiteralValue} (hname : isValidName b.1 = true)
    (htexts : ∀ t ∈ b.2.texts, '\x00' ∉ t.toList) (hdraft : f.draft.name = none) :
    (LiteralCommand.bindingText b ++ [' ']).foldl (step inner) (f.before .plain) =
      (assigned f b.1 b.2.word).before .plain := by
  obtain ⟨name, value⟩ := b
  have hsplit : LiteralCommand.bindingText (name, value) ++ [' '] =
      (name.toList ++ ['=']) ++ (value.write.toList ++ [' ']) := by
    simp [LiteralCommand.bindingText]
  rw [hsplit, List.foldl_append, foldl_name inner f hname hdraft]
  cases value with
  | text value =>
      have hvalue : ∀ t ∈ [value], '\x00' ∉ t.toList := htexts
      obtain ⟨g, last, text, quoted, hne, hlast, hnext⟩ :=
        foldl_quotedWords inner value [] (atWord_before f (.value name))
      rw [LiteralValue.write, toList_joinWords hvalue, List.foldl_append, List.foldl_cons,
        List.foldl_nil, step_space inner hne hlast, hnext]
      rfl
  | list elements =>
      have helements : ∀ t ∈ elements, '\x00' ∉ t.toList := htexts
      have hopen : step inner (f.before (.value name)) '(' = f.before (.element name []) := rfl
      have hwrite : (LiteralValue.list elements).write.toList ++ [' '] =
          '(' :: (((joinWords elements).toList ++ [')']) ++ [' ']) := by
        simp [LiteralValue.write]
      rw [hwrite, List.foldl_cons, hopen, List.foldl_append,
        foldl_elements inner f name helements]
      rfl

/-- Written bindings before the program are all read. -/
theorem foldl_bindings {bindings : List (String × LiteralValue)}
    (hnames : ∀ b ∈ bindings, isValidName b.1 = true)
    (htexts : ∀ b ∈ bindings, ∀ t ∈ b.2.texts, '\x00' ∉ t.toList)
    (hdraft : f.draft.name = none) :
    (bindings.flatMap (fun b => LiteralCommand.bindingText b ++ [' '])).foldl (step inner)
        (f.before .plain) =
      Frame.before ⟨f.done, ⟨f.draft.assignments ++ bindings.map (fun b => .mk b.1 b.2.word),
        f.draft.name, f.draft.args⟩, f.ignored⟩ .plain := by
  induction bindings generalizing f with
  | nil => simp
  | cons b rest ih =>
      rw [List.flatMap_cons, List.foldl_append,
        foldl_binding inner f (hnames b (by simp)) (htexts b (by simp)) hdraft,
        ih (assigned f b.1 b.2.word) (fun d hd => hnames d (List.mem_cons_of_mem _ hd))
          (fun d hd => htexts d (List.mem_cons_of_mem _ hd)) hdraft]
      simp [assigned, Draft.addAssignment]

end Bindings

end Reader

/-! ## Whole commands -/

namespace LiteralCommand

open Reader

/-- A written command reads back as its statement, and nothing is ignored. -/
theorem readStatements_write {c : LiteralCommand} (h : c.Writable) :
    readStatements c.write = ⟨.ok [c.statement], []⟩ := by
  obtain ⟨hwords, htexts⟩ := h.quotable
  let start : Frame := ⟨[], Draft.start, []⟩
  have hread : ∀ inner, readWith inner c.write.toList = ⟨.ok [c.statement], []⟩ := by
    intro inner
    have hstart : State.start = start.before .plain := rfl
    rw [readWith, toList_write, List.foldl_append, hstart,
      foldl_bindings inner start h.names htexts rfl, toList_joinWords hwords]
    obtain ⟨g, last, text, quoted, hne, hlast, hnext⟩ :=
      foldl_quotedWords inner c.program c.args (atWord_before
        ⟨[], ⟨c.bindings.map (fun b => .mk b.1 b.2.word), none, []⟩, []⟩ .plain)
    rw [Frame.nextAll_plain, List.map_cons, foldl_addWord] at hnext
    -- The end of the text takes in the last word as a space would.
    have hfinish := hlast.finish_eq
    cases last with
    | plain =>
        simp only [finishWord, endWord, Pieces.word?_text hne] at hfinish
        simp only [Frame.next, Prod.mk.injEq, and_true] at hnext
        rw [hnext] at hfinish
        exact hfinish
    | value name =>
        simp only [finishWord, endWord, Pieces.word?_text hne, Option.getD_some] at hfinish
        simp only [Frame.next, Prod.mk.injEq, and_true] at hnext
        rw [hnext] at hfinish
        exact hfinish
    | element name elements => simp [Frame.next] at hnext
  exact hread (readWithin c.write.toList.length)

/-! ### Expansion -/

section Expansion

variable {σ : Type} (oracle : Expansion.Oracle σ)

/-- Literal words are themselves. -/
theorem evaluateEach_literals (scope : Scope) (texts : List String) :
    Expansion.evaluateEach oracle scope (texts.map .literal) =
      pure (texts.map (fun t => [t])) := by
  induction texts with
  | nil => rfl
  | cons t rest ih =>
      rw [List.map_cons, Expansion.evaluateEach, Expansion.evaluate, ih, pure_bind, pure_bind]
      rfl

/-- A literal value is its texts. -/
theorem evaluate_value (scope : Scope) (v : LiteralValue) :
    Expansion.evaluate oracle scope v.word = pure v.texts := by
  cases v with
  | text value => rfl
  | list elements =>
      rw [LiteralValue.word, Expansion.evaluate, evaluateEach_literals, pure_bind,
        ← List.flatMap_def, List.flatMap_singleton']
      rfl

theorem joinBySpace_texts (v : LiteralValue) : joinBySpace v.texts = v.joined := by
  cases v with
  | text value => exact joinBySpace_singleton value
  | list elements => rfl

/-- Literal bindings are made one after another. -/
theorem bindEach_values (scope : Scope) (bindings : List (String × LiteralValue)) :
    Expansion.bindEach oracle scope (bindings.map (fun b => .mk b.1 b.2.word)) =
      pure (scope.pending.bindAll (bindings.map (fun b => (b.1, b.2.joined)))) := by
  induction bindings generalizing scope with
  | nil => rfl
  | cons b rest ih =>
      rw [List.map_cons, Expansion.bindEach, Assignment.value, evaluate_value, pure_bind, ih,
        Assignment.name, joinBySpace_texts]
      rfl

/-- Expanding the statement of a literal command asks nothing of the session and of the
oracle, and gives its words and values. -/
theorem expand_statement (vars env : Env) (c : LiteralCommand) :
    Expansion.expand oracle vars env c.statement =
      pure ⟨some c.program, c.args, Bindings.ofList c.values⟩ := by
  have hwords := evaluateEach_literals oracle (Scope.start vars env) (c.program :: c.args)
  rw [statement, Expansion.expand, ← List.map_cons, hwords, pure_bind, bindEach_values,
    pure_bind, ← List.flatMap_def, List.flatMap_singleton']
  rfl

end Expansion

end LiteralCommand

end ScriptRunner
