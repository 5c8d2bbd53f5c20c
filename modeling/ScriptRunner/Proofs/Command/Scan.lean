import Mathlib.Tactic.SplitIfs
import ScriptRunner.Proofs.Command.Cursor
import ScriptRunner.Proofs.Text.Characters

/-!
# ScriptRunner.Proofs.Command.Scan

The parts of a command text.

Each part is a function of the cursor behind the characters that open it. It looks at the next
characters to decide what comes, and gives its value with the cursor behind it. Where a part has
other parts in it again and again, that it ends is read off what is known about those: `Passes` is
shown for each part before the next one is defined.

A round (`turn`) is what is done between two words of a statement: blanks are skipped, and then one
word or assignment is read, or what stands there instead. A word that begins with a character that
ends no word is at least that character (`word_lt`), so a round moves the cursor on (`turn_lt`),
unless it finds white space that is no blank: that ends a word and begins none (`turn_blocked`).
-/

namespace ScriptRunner.Scan

open Reader

variable (inner : List Char → Reading) (text : List Char)

/-! ## Quotes and expansions -/

/-- Behind an apostrophe: literal text, up to the next one. -/
def singleQuoted (p : Pieces) (cur : Cursor) : Scanned Pieces :=
  match _hc : peek text cur with
  | none => ⟨.error (.refused .unterminatedSingleQuote), cur⟩
  | some c => if c = '\'' then ⟨.ok p, cur.bump⟩ else singleQuoted (p.addChar c) cur.bump
termination_by text.length - cur.pos
decreasing_by exact bump_lt _hc

/-- Behind the brace after a `$`: the text up to the brace that closes it. -/
def braces (depth : Nat) (taken : List Char) (cur : Cursor) : Scanned (List Char) :=
  match _hc : peek text cur with
  | none => ⟨.error (.refused .unterminatedBraces), cur⟩
  | some c =>
    if c = '\x7b' then braces (depth + 1) (taken ++ [c]) cur.bump
    else if c = '\x7d' then
      if depth ≤ 1 then ⟨.ok taken, cur.bump⟩ else braces (depth - 1) (taken ++ [c]) cur.bump
    else braces depth (taken ++ [c]) cur.bump
termination_by text.length - cur.pos
decreasing_by all_goals exact bump_lt _hc

/-- Behind `$(`: the text up to the parenthesis that closes it. Quotes and escapes are followed only
as far as to know which parentheses count. -/
def balancedParens (depth : Nat) (inSingle inDouble escaped : Bool) (taken : List Char)
    (cur : Cursor) : Scanned (List Char) :=
  match _hc : peek text cur with
  | none => ⟨.error (.refused .unterminatedSubstitution), cur⟩
  | some c =>
    if escaped then balancedParens depth inSingle inDouble false (taken ++ [c]) cur.bump
    else if c = '\\' ∧ inSingle = false then
      balancedParens depth inSingle inDouble true (taken ++ [c]) cur.bump
    else if c = '\'' ∧ inDouble = false then
      balancedParens depth (!inSingle) inDouble false (taken ++ [c]) cur.bump
    else if c = '"' ∧ inSingle = false then
      balancedParens depth inSingle (!inDouble) false (taken ++ [c]) cur.bump
    else if inSingle = false ∧ inDouble = false ∧ c = '(' then
      balancedParens (depth + 1) inSingle inDouble false (taken ++ [c]) cur.bump
    else if inSingle = false ∧ inDouble = false ∧ c = ')' then
      if depth ≤ 1 then ⟨.ok taken, cur.bump⟩
      else balancedParens (depth - 1) inSingle inDouble false (taken ++ [c]) cur.bump
    else balancedParens depth inSingle inDouble false (taken ++ [c]) cur.bump
termination_by text.length - cur.pos
decreasing_by all_goals exact bump_lt _hc

/-- Behind a backquote: the text up to the next one, without the backslashes that are escapes. -/
def backquotedText (taken : List Char) (cur : Cursor) : Scanned (List Char) :=
  match _hc : peek text cur with
  | none => ⟨.error (.refused .unterminatedBackquote), cur⟩
  | some c =>
    if c = '\x60' then ⟨.ok taken, cur.bump⟩
    else if c = '\\' then
      match _hd : peek text cur.bump with
      | none => ⟨.error (.refused .unterminatedBackquote), cur.bump⟩
      | some d =>
        backquotedText
          (taken ++ if d = '\x60' ∨ d = '\\' ∨ d = '$' then [d] else ['\\', d]) cur.bump.bump
    else backquotedText (taken ++ [c]) cur.bump
termination_by text.length - cur.pos
decreasing_by
  · exact Nat.lt_trans (bump_lt _hd) (bump_lt _hc)
  · exact bump_lt _hc

/-- The text of a substitution is read by itself, and is ignored where it is refused. -/
def substitution (part : List Char) (cur : Cursor) : Scanned Word :=
  match (inner part).result with
  | .ok statements => ⟨.ok (.substitution statements), cur.hand part⟩
  | .error (.refused _) => ⟨.ok (.substitution []), cur.hand part⟩
  | .error .stalled => ⟨.error .stalled, cur.hand part⟩

/-- Behind a backquote: the substitution up to the next one. -/
def backquoted (cur : Cursor) : Scanned Word :=
  (backquotedText text [] cur).bind (substitution inner)

/-- Behind a `$`: the expansion, or nothing where the `$` means itself. -/
def dollar (cur : Cursor) : Scanned (Option Word) :=
  match peek text cur with
  | none => ⟨.ok none, cur⟩
  | some c =>
    if c = '\x7b' then
      (braces text 1 [] cur.bump).bind (fun expression next =>
        ⟨.ok (some (.parameter (String.ofList expression))), next⟩)
    else if c = '(' then
      ((balancedParens text 1 false false false [] cur.bump).bind (substitution inner)).bind
        (fun w next => ⟨.ok (some w), next⟩)
    else if isNameStart c then
      let (letters, next) := collect text isNameChar [] cur
      ⟨.ok (some (.variable (String.ofList letters))), next⟩
    else if isSpecialParameter c then ⟨.ok (some (.variable c.toString)), cur.bump⟩
    else ⟨.ok none, cur⟩

/-- Behind a `$` or a backquote, which is the character given: the pieces with the expansion. -/
def expansion (p : Pieces) (c : Char) (cur : Cursor) : Scanned Pieces :=
  if c = '$' then
    (dollar inner text cur).bind (fun found next =>
      match found with
      | some w => ⟨.ok (p.addExpansion w), next⟩
      | none => ⟨.ok (p.addChar '$'), next⟩)
  else (backquoted inner text cur).bind (fun w next => ⟨.ok (p.addExpansion w), next⟩)

section Expansions

variable {inner text} {taken : List Char} {cur : Cursor} {c : Char}

theorem passes_singleQuoted (p : Pieces) (cur : Cursor) :
    Passes inner text cur (singleQuoted text p cur) := by
  fun_induction singleQuoted text p cur with
  | case1 p cur hc => exact .refused cur _
  | case2 p cur hc => exact .bump hc p
  | case3 p cur c hc hquote ih => exact (Passes.bump hc ()).trans ih

theorem passes_braces (depth : Nat) (taken : List Char) (cur : Cursor) :
    Passes inner text cur (braces text depth taken cur) := by
  fun_induction braces text depth taken cur with
  | case1 => exact .refused _ _
  | case3 => exact .bump ‹_› _
  | _ => exact (Passes.bump ‹_› ()).trans ‹_›

theorem passes_balancedParens (depth : Nat) (inSingle inDouble escaped : Bool) (taken : List Char)
    (cur : Cursor) :
    Passes inner text cur (balancedParens text depth inSingle inDouble escaped taken cur) := by
  fun_induction balancedParens text depth inSingle inDouble escaped taken cur with
  | case1 => exact .refused _ _
  | case7 => exact .bump ‹_› _
  | _ => exact (Passes.bump ‹_› ()).trans ‹_›

theorem passes_backquotedText (taken : List Char) (cur : Cursor) :
    Passes inner text cur (backquotedText text taken cur) := by
  fun_induction backquotedText text taken cur with
  | case1 taken cur hc => exact .refused cur _
  | case2 taken cur hc => exact .bump hc taken
  | case3 taken cur hd hc => exact (Passes.bump hc ()).trans (.refused cur.bump _)
  | case4 taken cur d hd hc _ ih => exact (Passes.bump hc ()).trans ((Passes.bump hd ()).trans ih)
  | case5 taken cur c hc _ _ ih => exact (Passes.bump hc ()).trans ih

/-- The text that is found for a substitution is shorter than what was read for it, and of the same
characters. -/
def Collects (text taken : List Char) (cur : Cursor) (r : Scanned (List Char)) : Prop :=
  ∀ part, r.result = .ok part →
    part.length + cur.pos < taken.length + r.cursor.pos ∧ r.cursor.pos ≤ text.length ∧
      (taken ⊆ text → part ⊆ text)

theorem Collects.closed (h : peek text cur = some c) :
    Collects text taken cur ⟨.ok taken, cur.bump⟩ := by
  rintro part hpart
  obtain rfl := Except.ok.inj hpart
  exact ⟨Nat.lt_succ_self _, lt_of_peek h, id⟩

theorem Collects.passed {more : List Char} {next : Cursor} {r : Scanned (List Char)}
    (h : Collects text (taken ++ more) next r) (hlength : more.length + cur.pos ≤ next.pos)
    (hmore : more ⊆ text) : Collects text taken cur r := by
  intro part hpart
  obtain ⟨hread, hend, hsub⟩ := h part hpart
  refine ⟨?_, hend, fun htaken => hsub (List.append_subset.2 ⟨htaken, hmore⟩)⟩
  rw [List.length_append] at hread
  omega

theorem Collects.bump {r : Scanned (List Char)} (h : Collects text (taken ++ [c]) cur.bump r)
    (hc : peek text cur = some c) : Collects text taken cur r :=
  h.passed (Nat.le_of_eq (Nat.add_comm 1 cur.pos)) (by simpa using mem_of_peek hc)

theorem collects_balancedParens (depth : Nat) (inSingle inDouble escaped : Bool)
    (taken : List Char) (cur : Cursor) :
    Collects text taken cur
      (balancedParens text depth inSingle inDouble escaped taken cur) := by
  fun_induction balancedParens text depth inSingle inDouble escaped taken cur with
  | case1 => exact nofun
  | case7 => exact .closed ‹_›
  | _ => exact Collects.bump ‹_› ‹_›

theorem collects_backquotedText (taken : List Char) (cur : Cursor) :
    Collects text taken cur (backquotedText text taken cur) := by
  fun_induction backquotedText text taken cur with
  | case1 taken cur hc => exact nofun
  | case2 taken cur hc => exact .closed hc
  | case3 taken cur hc => exact nofun
  | case4 taken cur d hd hc _ ih =>
      -- a backslash that stays is one of the two characters that were read
      refine ih.passed (Nat.le_trans (Nat.add_le_add_right (m := 2) ?_ cur.pos) ?_) ?_
      · split <;> simp
      · simp only [Cursor.bump]
        omega
      · split <;> simp [mem_of_peek hc, mem_of_peek hd]
  | case5 taken cur c hc _ _ ih => exact ih.bump hc

/-- What is found for a substitution is handed on. -/
theorem Passes.substitution {r : Scanned (List Char)} (h : Passes inner text cur r)
    (hcollects : Collects text [] cur r) :
    Passes inner text cur (r.bind (Scan.substitution inner)) := by
  refine h.bind (fun part next hr => ?_)
  obtain ⟨hlength, hend, hsub⟩ := hcollects part (congrArg Scanned.result hr)
  have hpart : part.length < text.length ∧ part ⊆ text := by
    refine ⟨?_, hsub (List.nil_subset _)⟩
    rw [List.length_nil] at hlength
    omega
  have hhand : ∀ result : Except Halt Word,
      (result = .error .stalled ↔ (inner part).result = .error .stalled) →
      Passes inner text next ⟨result, next.hand part⟩ := by
    intro result hresult
    exact ⟨Nat.le_refl _, id, [part], rfl, by simpa using hpart, by simpa using hresult⟩
  rw [Scan.substitution]
  split <;> next hinner => exact hhand _ (by simp [hinner])

theorem passes_backquoted (cur : Cursor) : Passes inner text cur (backquoted inner text cur) :=
  (passes_backquotedText [] cur).substitution (collects_backquotedText [] cur)

theorem passes_dollar (cur : Cursor) : Passes inner text cur (dollar inner text cur) := by
  rw [dollar]
  split
  · exact .here cur _
  · next c hc =>
      split_ifs
      · exact (Passes.bump hc ()).trans
          ((passes_braces 1 [] cur.bump).bind (fun _ next _ => .here next _))
      · refine (Passes.bump hc ()).trans (Passes.bind ?_ (fun _ next _ => .here next _))
        exact (passes_balancedParens 1 false false false [] cur.bump).substitution
          (collects_balancedParens 1 false false false [] cur.bump)
      · exact passes_collect isNameChar [] cur _
      · exact .bump hc _
      · exact .here cur _

theorem passes_expansion (p : Pieces) (c : Char) (cur : Cursor) :
    Passes inner text cur (expansion inner text p c cur) := by
  rw [expansion]
  split
  · refine (passes_dollar cur).bind (fun found next _ => ?_)
    cases found <;> exact .here next _
  · exact (passes_backquoted cur).bind (fun _ next _ => .here next _)

end Expansions

/-! ## Words -/

/-- Behind a double quote: the pieces up to the next one. -/
def doubleQuoted (p : Pieces) (cur : Cursor) : Scanned Pieces :=
  match _hc : peek text cur with
  | none => ⟨.error (.refused .unterminatedDoubleQuote), cur⟩
  | some c =>
    if c = '"' then ⟨.ok p, cur.bump⟩
    else if c = '\\' then
      match _hd : peek text cur.bump with
      | none => doubleQuoted (p.addChar '\\') cur.bump
      | some d =>
        if d = '\n' then doubleQuoted p cur.bump.bump
        else if isDoubleEscapable d then doubleQuoted (p.addChar d) cur.bump.bump
        else doubleQuoted (p.addChar '\\') cur.bump
    else if c = '$' ∨ c = '\x60' then
      match _hr : expansion inner text p c cur.bump with
      | ⟨.ok q, next⟩ => doubleQuoted q next
      | ⟨.error halt, next⟩ => ⟨.error halt, next⟩
    else doubleQuoted (p.addChar c) cur.bump
termination_by text.length - cur.pos
decreasing_by
  · exact bump_lt _hc
  · exact Nat.lt_trans (bump_lt _hd) (bump_lt _hc)
  · exact Nat.lt_trans (bump_lt _hd) (bump_lt _hc)
  · exact bump_lt _hc
  · have hpasses : Passes inner text cur.bump ⟨.ok q, next⟩ := _hr ▸ passes_expansion p c cur.bump
    exact sub_lt_of_passed _hc hpasses.le
  · exact bump_lt _hc

variable {inner text} in
theorem passes_doubleQuoted (p : Pieces) (cur : Cursor) :
    Passes inner text cur (doubleQuoted inner text p cur) := by
  fun_induction doubleQuoted inner text p cur with
  | case1 p cur hc => exact .refused cur _
  | case2 p cur hc => exact .bump hc p
  | case3 p cur hd hc _ ih => exact (Passes.bump hc ()).trans ih
  | case4 p cur hc _ hd ih => exact (Passes.bump hc ()).trans ((Passes.bump hd ()).trans ih)
  | case5 p cur d hd _ _ hc _ ih => exact (Passes.bump hc ()).trans ((Passes.bump hd ()).trans ih)
  | case6 p cur d hd _ _ hc _ ih => exact (Passes.bump hc ()).trans ih
  | case7 p cur c hc _ _ _ q next hr ih =>
      have hpasses : Passes inner text cur.bump ⟨.ok q, next⟩ := hr ▸ passes_expansion p c cur.bump
      exact (Passes.bump hc ()).trans (hpasses.trans ih)
  | case8 p cur c hc _ _ _ halt next hr =>
      have hpasses : Passes inner text cur.bump ⟨.error halt, next⟩ :=
        hr ▸ passes_expansion p c cur.bump
      exact (Passes.bump hc ()).trans hpasses.error
  | case9 p cur c hc _ _ _ ih => exact (Passes.bump hc ()).trans ih

/-- One part of a word, which begins with the character right before the cursor. -/
def wordPart (p : Pieces) (c : Char) (cur : Cursor) : Scanned Pieces :=
  if c = '\\' then
    match peek text cur with
    | some d => ⟨.ok (if d = '\n' then p else p.addChar d), cur.bump⟩
    | none => ⟨.ok (p.addChar '\\'), cur⟩
  else if c = '\'' then singleQuoted text p.openQuote cur
  else if c = '"' then doubleQuoted inner text p.openQuote cur
  else if c = '$' ∨ c = '\x60' then expansion inner text p c cur
  else ⟨.ok (p.addChar c), cur⟩

variable {inner text} in
theorem passes_wordPart (p : Pieces) (c : Char) (cur : Cursor) :
    Passes inner text cur (wordPart inner text p c cur) := by
  rw [wordPart]
  split_ifs
  · split
    · next d hd => exact .bump hd _
    · exact .here cur _
  · exact passes_singleQuoted p.openQuote cur
  · exact passes_doubleQuoted p.openQuote cur
  · exact passes_expansion p c cur
  · exact .here cur _

/-- The parts of a word, up to the character that ends it. -/
def wordParts (p : Pieces) (cur : Cursor) : Scanned Pieces :=
  match _hc : peek text cur with
  | none => ⟨.ok p, cur⟩
  | some c =>
    if isWordEnd c then ⟨.ok p, cur⟩
    else
      match _hr : wordPart inner text p c cur.bump with
      | ⟨.ok q, next⟩ => wordParts q next
      | ⟨.error halt, next⟩ => ⟨.error halt, next⟩
termination_by text.length - cur.pos
decreasing_by
  have hpasses : Passes inner text cur.bump ⟨.ok q, next⟩ := _hr ▸ passes_wordPart p c cur.bump
  exact sub_lt_of_passed _hc hpasses.le

variable {inner text} in
theorem passes_wordParts (p : Pieces) (cur : Cursor) :
    Passes inner text cur (wordParts inner text p cur) := by
  fun_induction wordParts inner text p cur with
  | case1 p cur hc => exact .here cur p
  | case2 p cur c hc hend => exact .here cur p
  | case3 p cur c hc hend q next hr ih =>
      have hpasses : Passes inner text cur.bump ⟨.ok q, next⟩ := hr ▸ passes_wordPart p c cur.bump
      exact (Passes.bump hc ()).trans (hpasses.trans ih)
  | case4 p cur c hc hend halt next hr =>
      exact (Passes.bump hc ()).trans (hr ▸ passes_wordPart p c cur.bump)

/-- A word, or nothing where nothing was written that could be one. A `~` at its beginning is the
home directory, if a slash or the end of the word follows. -/
def word (cur : Cursor) : Scanned (Option Word) :=
  let home := peek text cur == some '~' &&
    (peek text cur.bump).all (fun c => c == '/' || isWordEnd c)
  let parts :=
    if home then wordParts inner text (Pieces.start.addExpansion (.variable "HOME")) cur.bump
    else wordParts inner text Pieces.start cur
  parts.bind (fun p next => ⟨.ok p.word?, next⟩)

section Words

variable {inner text} {cur : Cursor} {c : Char}

theorem passes_word (cur : Cursor) : Passes inner text cur (word inner text cur) := by
  refine Passes.bind ?_ (fun p next _ => .here next _)
  split
  · next hhome =>
      simp only [Bool.and_eq_true, beq_iff_eq] at hhome
      exact (Passes.bump hhome.1 ()).trans (passes_wordParts _ cur.bump)
  · exact passes_wordParts Pieces.start cur

theorem bind_pos {α β : Type} {r : Scanned α} {k : α → Cursor → Scanned β}
    (h : cur.pos < r.cursor.pos) (hk : ∀ a next, (k a next).cursor = next) :
    cur.pos < (r.bind k).cursor.pos := by
  obtain ⟨result, next⟩ := r
  cases result with
  | ok a =>
      rw [Scanned.bind, hk a next]
      exact h
  | error halt => exact h

/-- A character that ends no word is read as a part of one. -/
theorem wordParts_lt (p : Pieces) (hc : peek text cur = some c) (hend : isWordEnd c = false) :
    cur.pos < (wordParts inner text p cur).cursor.pos := by
  fun_cases wordParts inner text p cur with
  | case1 => simp_all
  | case2 => simp_all
  | case3 d hd _ q next hr =>
      have hpasses : Passes inner text cur.bump ⟨.ok q, next⟩ := hr ▸ passes_wordPart p d cur.bump
      exact Nat.le_trans hpasses.le (passes_wordParts q next).le
  | case4 d hd _ halt next hr =>
      have hpasses : Passes inner text cur.bump ⟨.error halt, next⟩ :=
        hr ▸ passes_wordPart p d cur.bump
      exact hpasses.le

theorem word_lt (hc : peek text cur = some c) (hend : isWordEnd c = false) :
    cur.pos < (word inner text cur).cursor.pos := by
  refine bind_pos ?_ (fun _ _ => rfl)
  split
  · exact (@passes_wordParts inner text _ cur.bump).le
  · exact wordParts_lt _ hc hend

/-- A character that ends a word is left. -/
theorem word_of_isWordEnd (hc : peek text cur = some c) (hend : isWordEnd c = true) :
    word inner text cur = ⟨.ok none, cur⟩ := by
  have hparts : wordParts inner text Pieces.start cur = ⟨.ok Pieces.start, cur⟩ := by
    fun_cases wordParts inner text Pieces.start cur with
    | case1 => rfl
    | case2 => rfl
    | case3 d hd hnot => simp_all
    | case4 d hd hnot => simp_all
  have hhome : c ≠ '~' := by
    rintro rfl
    exact absurd hend (by decide)
  rw [word, hc, if_neg (by simp [hhome]), hparts]
  rfl

end Words

/-! ## Assignments -/

/-- Behind the `(` of an array: its elements, up to the `)`, behind which a word must end. -/
def array (name : String) (elements : List Word) (cur : Cursor) : Scanned Word :=
  let here := skip text isBlank cur
  match _hc : peek text here with
  | none => ⟨.error (.refused (.unmatchedArray name)), here⟩
  | some c =>
    if c = ')' then
      match peek text here.bump with
      | none => ⟨.ok (.array elements), here.bump⟩
      | some d =>
        if isWordEnd d then ⟨.ok (.array elements), here.bump⟩
        else ⟨.error (.refused (.unexpectedAfterArray d name)), here.bump⟩
    else if _hcomment : c = '#' then array name elements (skip text (· != '\n') here)
    else if _hend : isWordEnd c then ⟨.error (.refused (.unexpectedInArray c name)), here⟩
    else
      match _hr : word inner text here with
      | ⟨.ok w, next⟩ => array name (elements ++ w.toList) next
      | ⟨.error halt, next⟩ => ⟨.error halt, next⟩
termination_by text.length - cur.pos
decreasing_by
  · have hlt := skip_lt (p := (· != '\n')) _hc (by simp [_hcomment])
    exact sub_lt_of_lt (le_skip isBlank cur) (lt_of_peek _hc) hlt
  · have hlt : here.pos < (word inner text here).cursor.pos :=
      word_lt _hc (eq_false_of_ne_true _hend)
    rw [_hr] at hlt
    exact sub_lt_of_lt (le_skip isBlank cur) (lt_of_peek _hc) hlt

variable {inner text} in
theorem passes_array (name : String) (elements : List Word) (cur : Cursor) :
    Passes inner text cur (array inner text name elements cur) := by
  fun_induction array inner text name elements cur with
  | case1 elements cur here hc => exact (passes_skip isBlank cur ()).trans (.refused here _)
  | case2 elements cur here _ hc => exact (passes_skip isBlank cur ()).trans (.bump hc _)
  | case3 elements cur here d _ _ hc => exact (passes_skip isBlank cur ()).trans (.bump hc _)
  | case4 elements cur here d _ _ hc =>
      exact (passes_skip isBlank cur ()).trans ((Passes.bump hc ()).trans (.refused here.bump _))
  | case5 elements cur here hc _ ih =>
      exact (passes_skip isBlank cur ()).trans ((passes_skip _ here ()).trans ih)
  | case6 elements cur here c hc _ _ hend =>
      exact (passes_skip isBlank cur ()).trans (.refused here _)
  | case7 elements cur here c hc _ _ hend w next hr ih =>
      have hpasses : Passes inner text here ⟨.ok w, next⟩ := hr ▸ passes_word here
      exact (passes_skip isBlank cur ()).trans (hpasses.trans ih)
  | case8 elements cur here c hc _ _ hend halt next hr =>
      have hpasses : Passes inner text here ⟨.error halt, next⟩ := hr ▸ passes_word here
      exact (passes_skip isBlank cur ()).trans hpasses.error

/-- Behind the `=` of an assignment: its value. -/
def value (name : String) (cur : Cursor) : Scanned Word :=
  match peek text cur with
  | none => ⟨.ok (.literal ""), cur⟩
  | some c =>
    if c = '(' then array inner text name [] cur.bump
    else if isWordEnd c then ⟨.ok (.literal ""), cur⟩
    else (word inner text cur).bind (fun w next => ⟨.ok (w.getD (.literal "")), next⟩)

/-- A name with `=` right behind it, and the value; or nothing where the next word is no assignment,
and nothing is read then. -/
def assignment (cur : Cursor) : Scanned (Option (String × Word)) :=
  let (letters, next) := collect text isNameChar [] cur
  let name := String.ofList letters
  if (peek text cur).any isNameStart && peek text next == some '=' then
    (value inner text name next.bump).bind (fun w next => ⟨.ok (some (name, w)), next⟩)
  else ⟨.ok none, cur⟩

section Assignments

variable {inner text} {cur next : Cursor}

theorem passes_value (name : String) (cur : Cursor) :
    Passes inner text cur (value inner text name cur) := by
  rw [value]
  split
  · exact .here cur _
  · next c hc =>
      split_ifs
      · exact (Passes.bump hc ()).trans (passes_array name [] cur.bump)
      · exact .here cur _
      · exact (passes_word cur).bind (fun _ next _ => .here next _)

theorem passes_assignment (cur : Cursor) :
    Passes inner text cur (assignment inner text cur) := by
  rw [assignment]
  dsimp only
  split
  · next hassigns =>
      simp only [Bool.and_eq_true, beq_iff_eq] at hassigns
      refine (passes_collect isNameChar [] cur ()).trans ((Passes.bump hassigns.2 ()).trans ?_)
      exact (passes_value _ _).bind (fun _ next _ => .here next _)
  · exact .here cur _

/-- Where the next word is no assignment, nothing is read. -/
theorem assignment_none (h : assignment inner text cur = ⟨.ok none, next⟩) :
    next = cur := by
  rw [assignment] at h
  dsimp only at h
  split at h
  · obtain ⟨w, behind, -, hnone⟩ := Scanned.bind_ok h
    cases hnone
  · exact (congrArg Scanned.cursor h).symm

theorem assignment_of_not_isNameStart {c : Char} (hc : peek text cur = some c)
    (hname : isNameStart c = false) : assignment inner text cur = ⟨.ok none, cur⟩ := by
  simp [assignment, hc, hname]

/-- An assignment begins with a name. -/
theorem assignment_lt {found : String × Word}
    (h : assignment inner text cur = ⟨.ok (some found), next⟩) : cur.pos < next.pos := by
  rw [assignment] at h
  dsimp only at h
  split at h
  · obtain ⟨w, behind, hvalue, hfound⟩ := Scanned.bind_ok h
    obtain rfl : behind = next := congrArg Scanned.cursor hfound
    have hname : Passes inner text cur ⟨.ok (), (collect text isNameChar [] cur).2⟩ :=
      passes_collect isNameChar [] cur ()
    have hpasses : Passes inner text (collect text isNameChar [] cur).2.bump ⟨.ok w, behind⟩ :=
      hvalue ▸ passes_value _ _
    exact Nat.lt_of_lt_of_le (Nat.lt_succ_of_le hname.le) hpasses.le
  · cases h

end Assignments

/-! ## Rounds -/

/-- An assignment, as long as there is no program, or else a word. -/
def draftWord (draft : Draft) (cur : Cursor) : Scanned Draft :=
  let assigned := if draft.name.isNone then assignment inner text cur else ⟨.ok none, cur⟩
  assigned.bind (fun found next =>
    match found with
    | some (name, w) => ⟨.ok (draft.addAssignment name w), next⟩
    | none =>
      (word inner text next).bind (fun found next =>
        match found with
        | some w => ⟨.ok (draft.addWord w), next⟩
        | none => ⟨.ok draft, next⟩))

/-- Where reading stands between two words: the finished statements, the one that is being built,
and the cursor. -/
structure Loop where
  done : List Statement
  draft : Draft
  cursor : Cursor

/-- Before the first round. -/
def Loop.start : Loop := ⟨[], Draft.start, Cursor.start⟩

/-- What a round comes to. -/
inductive Turn
  /-- There is nothing left to be read. -/
  | ended (cursor : Cursor)
  | stopped (halt : Halt) (cursor : Cursor)
  /-- There may be more. -/
  | next (l : Loop)

/-- One round: the blanks before the next word, and then that word or what stands there instead. -/
def turn (l : Loop) : Turn :=
  let here := skip text isCommandBlank l.cursor
  match peek text here with
  | none => .ended here
  | some c =>
    if c = ';' ∨ c = '\n' then .next ⟨l.done ++ l.draft.statements, Draft.start, here.bump⟩
    else if c = '#' then .next ⟨l.done, l.draft, skip text (· != '\n') here⟩
    else if c = '|' ∨ c = '&' then
      let (run, next) := collect text isOperatorChar [] here
      .stopped (.refused (.unsupportedOperator (String.ofList run))) next
    else if c = '<' ∨ c = '>' then
      let (run, next) := collect text isOperatorChar [] here
      .stopped (.refused (.unsupportedRedirection (String.ofList run))) next
    else if c = '(' ∨ c = ')' then .stopped (.refused (.unexpected c)) here
    else
      match draftWord inner text l.draft here with
      | ⟨.ok draft, next⟩ => .next ⟨l.done, draft, next⟩
      | ⟨.error halt, next⟩ => .stopped halt next

/-- White space that separates no words of a statement. -/
def isStray (c : Char) : Bool := isBlank c && !isCommandBlank c && c != '\n'

theorem ne_of_isStray {c d : Char} (hc : isStray c = true) (hd : isStray d = false) : c ≠ d := by
  rintro rfl
  exact absurd hc (by simp [hd])

/-- Behind the blanks before the next word. -/
def Loop.ahead (text : List Char) (l : Loop) : Loop :=
  ⟨l.done, l.draft, skip text isCommandBlank l.cursor⟩

/-- The next character after the blanks is white space that separates no words. -/
def Loop.Blocked (text : List Char) (l : Loop) : Prop :=
  ∃ c, peek text (l.ahead text).cursor = some c ∧ isStray c = true

/-- Why a round stops, if it does, and where the cursor is after it. -/
def Turn.scanned : Turn → Scanned Unit
  | .ended cur => ⟨.ok (), cur⟩
  | .stopped halt cur => ⟨.error halt, cur⟩
  | .next l => ⟨.ok (), l.cursor⟩

/-- A character that is nothing else where a word could start does not end a word. -/
theorem not_isWordEnd {c : Char} (hspace : isCommandBlank c = false) (hstray : isStray c = false)
    (hends : ¬(c = ';' ∨ c = '\n')) (hoperator : ¬(c = '|' ∨ c = '&'))
    (hredirection : ¬(c = '<' ∨ c = '>')) (hparen : ¬(c = '(' ∨ c = ')')) :
    isWordEnd c = false := by
  rw [not_or] at hends hoperator hredirection hparen
  have hblank : isBlank c = false := by simpa [isStray, hspace, hends.2] using hstray
  simp [isWordEnd, hblank, hends.1, hoperator.1, hoperator.2, hredirection.1, hredirection.2,
    hparen.1, hparen.2]

section Rounds

variable {inner text} {l l' : Loop}

theorem passes_draftWord (draft : Draft) (cur : Cursor) :
    Passes inner text cur (draftWord inner text draft cur) := by
  refine Passes.bind ?_ (fun found next _ => ?_)
  · split
    · exact passes_assignment cur
    · exact .here cur _
  · cases found with
    | some _ => exact .here next _
    | none =>
        refine (passes_word next).bind (fun found next _ => ?_)
        cases found <;> exact .here next _

/-- The first character of a word is read. -/
theorem draftWord_lt {draft d : Draft} {cur next : Cursor} {c : Char} (hc : peek text cur = some c)
    (hend : isWordEnd c = false) (h : draftWord inner text draft cur = ⟨.ok d, next⟩) :
    cur.pos < next.pos := by
  obtain ⟨found, behind, hassigned, hdraft⟩ := Scanned.bind_ok h
  cases found with
  | some found =>
      obtain rfl : behind = next := congrArg Scanned.cursor hdraft
      split at hassigned
      · exact assignment_lt hassigned
      · cases hassigned
  | none =>
      obtain rfl : behind = cur := by
        split at hassigned
        · exact assignment_none hassigned
        · exact (congrArg Scanned.cursor hassigned).symm
      obtain ⟨found, last, hfound, hdraft⟩ := Scanned.bind_ok hdraft
      obtain rfl : last = next := by
        cases found <;> exact congrArg Scanned.cursor hdraft
      have hlt : behind.pos < (word inner text behind).cursor.pos := word_lt hc hend
      rwa [hfound] at hlt

theorem passes_turn (l : Loop) : Passes inner text l.cursor (turn inner text l).scanned := by
  refine (passes_skip isCommandBlank l.cursor ()).trans ?_
  rw [turn]
  split
  · exact .here _ _
  · next c hc =>
      split_ifs
      · exact .bump hc ()
      · exact passes_skip _ _ ()
      · exact (passes_collect isOperatorChar [] _ ()).trans (.refused _ _)
      · exact (passes_collect isOperatorChar [] _ ()).trans (.refused _ _)
      · exact .refused _ _
      · split
        · next d next hr =>
            have hpasses : Passes inner text _ ⟨.ok d, next⟩ := hr ▸ passes_draftWord _ _
            exact hpasses.trans (.here next ())
        · next halt next hr =>
            have hpasses : Passes inner text _ (⟨.error halt, next⟩ : Scanned Draft) :=
              hr ▸ passes_draftWord _ _
            exact hpasses.error

/-- Where no white space is in the way, a round moves the cursor past the blanks and on. -/
theorem turn_lt (h : ¬l.Blocked text) (hturn : turn inner text l = .next l') :
    (l.ahead text).cursor.pos < l'.cursor.pos := by
  rw [turn] at hturn
  split at hturn
  · cases hturn
  · next c hc =>
      split_ifs at hturn with hends hhash hoperator hredirection hparen
      · obtain rfl := Turn.next.inj hturn
        exact Nat.lt_succ_self _
      · obtain rfl := Turn.next.inj hturn
        exact skip_lt hc (by simp [hhash])
      · have hstray : isStray c = false := eq_false_of_ne_true (fun hstray => h ⟨c, hc, hstray⟩)
        have hend := not_isWordEnd (peek_skip hc) hstray hends hoperator hredirection hparen
        split at hturn
        · next d next hr =>
            obtain rfl := Turn.next.inj hturn
            exact draftWord_lt hc hend hr
        · cases hturn

theorem passes_of_turn (hturn : turn inner text l = .next l') :
    Passes inner text l.cursor ⟨.ok (), l'.cursor⟩ := by
  have hpasses : Passes inner text l.cursor (turn inner text l).scanned := passes_turn l
  rwa [hturn] at hpasses

/-- Behind the round less of the text is left. -/
theorem left_lt (hcursor : l.cursor.pos ≤ text.length) (h : ¬l.Blocked text)
    (hturn : turn inner text l = .next l') :
    l'.cursor.pos ≤ text.length ∧ text.length - l'.cursor.pos < text.length - l.cursor.pos := by
  have hend : l'.cursor.pos ≤ text.length := (passes_of_turn hturn).within hcursor
  have hlt := Nat.lt_of_le_of_lt (le_skip isCommandBlank l.cursor) (turn_lt h hturn)
  omega

/-- Where white space is in the way, a round reads nothing but the blanks before it. -/
theorem turn_blocked (h : l.Blocked text) : turn inner text l = .next (l.ahead text) := by
  obtain ⟨c, hahead, hstray⟩ := h
  have hc : peek text (skip text isCommandBlank l.cursor) = some c := hahead
  have hne : ∀ d, isStray d = false → c ≠ d := fun _ => ne_of_isStray hstray
  have hend : isWordEnd c = true := by
    simp only [isStray, Bool.and_eq_true] at hstray
    simp [isWordEnd, hstray.1.1]
  have hname : isNameStart c = false := by
    refine eq_false_of_ne_true (fun hname => ?_)
    rw [isWordEnd_of_isPlain (isPlain_of_isNameChar (isNameChar_of_isNameStart hname))] at hend
    cases hend
  have hdraft : draftWord inner text l.draft (skip text isCommandBlank l.cursor) =
      ⟨.ok l.draft, skip text isCommandBlank l.cursor⟩ := by
    rw [draftWord, assignment_of_not_isNameStart hc hname, ite_self, Scanned.bind,
      word_of_isWordEnd hc hend]
    rfl
  rw [turn, hc]
  dsimp only
  rw [if_neg (not_or.2 ⟨hne _ (by decide), hne _ (by decide)⟩), if_neg (hne _ (by decide)),
    if_neg (not_or.2 ⟨hne _ (by decide), hne _ (by decide)⟩),
    if_neg (not_or.2 ⟨hne _ (by decide), hne _ (by decide)⟩),
    if_neg (not_or.2 ⟨hne _ (by decide), hne _ (by decide)⟩), hdraft]
  rfl

end Rounds

end ScriptRunner.Scan
