import Mathlib.Data.List.Forall2
import Mathlib.Data.List.Infix
import Mathlib.Data.List.Monad
import Mathlib.Data.List.Nodup
import ScriptRunner.Batch.Selection

/-!
# ScriptRunner.Proofs.Batch.Ranges

What selectors denote: single actions, and contiguous ranges of the actions.

A selector is taken apart at its first `..` (`exists_first_dots`); in a longer run of dots that
is the leftmost pair, and the dots after it belong to what follows. `Denotes` says of each form
what it stands for, by the places of the actions, and `Invalid` what is wrong with the others.
Between them they cover every text (`denotes_or_invalid`), and selection does what they say, one
selector after the other.

Main statement: `select_denotes`.
-/

namespace ScriptRunner

namespace Selection

/-- The text has a `..` in it. -/
abbrev HasDots (text : List Char) : Prop := ['.', '.'] <:+: text

/-! ## The first `..` of a text -/

theorem hasDots_cons {c : Char} {rest : List Char} :
    HasDots (c :: rest) ↔ (c = '.' ∧ rest.head? = some '.') ∨ HasDots rest := by
  rw [HasDots, List.infix_cons_iff]
  refine or_congr_left ?_
  rw [List.cons_prefix_cons, eq_comm]
  refine and_congr_right (fun _ => ?_)
  cases rest with
  | nil => simp
  | cons d more => simp [eq_comm]

/-- A character that begins no `..` is a part of what comes first. -/
theorem parts_cons {c : Char} {rest part : List Char} {others : List (List Char)}
    (h : ¬ (c = '.' ∧ rest.head? = some '.')) (hparts : parts rest = part :: others) :
    parts (c :: rest) = (c :: part) :: others := by
  have hfront : ∀ more : List Char, c = '.' → rest = '.' :: more → False := by
    rintro more rfl rfl
    exact h ⟨rfl, rfl⟩
  rw [parts.eq_3 c rest hfront, hparts]

/-- A text without `..` is one part. -/
theorem parts_of_not_hasDots {text : List Char} (h : ¬ HasDots text) : parts text = [text] := by
  induction text with
  | nil => rfl
  | cons c rest ih =>
      rw [hasDots_cons, not_or] at h
      exact parts_cons h.1 (ih h.2)

/-- The first `..` ends the first part. -/
theorem parts_append {first : List Char} (h : ¬ HasDots (first ++ ['.'])) (rest : List Char) :
    parts (first ++ '.' :: '.' :: rest) = first :: parts rest := by
  induction first with
  | nil => rfl
  | cons c more ih =>
      rw [List.cons_append, hasDots_cons, not_or] at h
      refine parts_cons (fun hboth => h.1 ⟨hboth.1, ?_⟩) (ih h.2)
      -- if `c` is the last of the first part, it is the dot behind `c` that counts
      cases more with
      | nil => rfl
      | cons d others => exact hboth.2

theorem parts_ne_nil (text : List Char) : parts text ≠ [] := by
  fun_induction parts text <;> simp_all

theorem exists_first_dots {text : List Char} (h : HasDots text) :
    ∃ first rest, text = first ++ '.' :: '.' :: rest ∧ ¬ HasDots (first ++ ['.']) := by
  induction text with
  | nil => exact absurd h (by decide)
  | cons c rest ih =>
      by_cases hfront : c = '.' ∧ rest.head? = some '.'
      · obtain ⟨rfl, hhead⟩ := hfront
        obtain ⟨more, rfl⟩ := List.head?_eq_some_iff.1 hhead
        exact ⟨[], more, rfl, by decide⟩
      · obtain ⟨first, more, rfl, hfirst⟩ := ih ((hasDots_cons.1 h).resolve_left hfront)
        refine ⟨c :: first, more, rfl, ?_⟩
        rw [List.cons_append, hasDots_cons, not_or]
        refine ⟨fun hboth => hfront ⟨hboth.1, ?_⟩, hfirst⟩
        cases first with
        | nil => rfl
        | cons d others => exact hboth.2

section Parse

variable {text first last : String}

theorem parse_name (hne : text ≠ "") (hsingle : ¬ HasDots text.toList) :
    Selector.parse text = .ok (.name text) := by
  have htext : text.toList ≠ [] := by simpa using hne
  rw [Selector.parse, parts_of_not_hasDots hsingle]
  split
  · next heq => exact absurd (List.singleton_inj.1 heq) htext
  · next heq => rw [← List.singleton_inj.1 heq, String.ofList_toList]
  · next heq => cases heq
  · next hname _ => exact absurd rfl (hname text.toList)

/-- The text of a range, as characters. -/
theorem toList_range (first rest : String) :
    (first ++ ".." ++ rest).toList = first.toList ++ '.' :: '.' :: rest.toList := by
  simp

theorem parse_range (hfirst : ¬ HasDots (first ++ ".").toList) (hlast : ¬ HasDots last.toList) :
    Selector.parse (first ++ ".." ++ last) = .ok (.range first last) := by
  rw [String.toList_append] at hfirst
  rw [Selector.parse, toList_range, parts_append hfirst, parts_of_not_hasDots hlast]
  simp only [String.ofList_toList]

theorem parse_several {rest : String} (hfirst : ¬ HasDots (first ++ ".").toList)
    (hrest : HasDots rest.toList) :
    Selector.parse (first ++ ".." ++ rest) = .error .severalRanges := by
  obtain ⟨second, more, hsplit, hsecond⟩ := exists_first_dots hrest
  rw [String.toList_append] at hfirst
  rw [Selector.parse, toList_range, parts_append hfirst, hsplit, parts_append hsecond]
  obtain ⟨part, others, hparts⟩ := List.exists_cons_of_ne_nil (parts_ne_nil more)
  rw [hparts]
  cases first.toList <;> rfl

end Parse

/-! ## What a selector stands for -/

/-- The place of the first action of a range. Without a name it is the first of all. -/
inductive Starts (names : List String) : String → Nat → Prop
  | unnamed : Starts names "" 0
  | named {first : String} {i : Nat} (hne : first ≠ "") (h : names[i]? = some first) :
    Starts names first i

/-- The place after the last action of a range. Without a name that is the last of all. -/
inductive Stops (names : List String) : String → Nat → Prop
  | unnamed : Stops names "" names.length
  | named {last : String} {j : Nat} (hne : last ≠ "") (h : names[j]? = some last) :
    Stops names last (j + 1)

/-- The actions from the place `start` up to the place `stop`, which is not one of theirs. -/
inductive Spans (names : List String) (start stop : Nat) : List String → Prop
  | range {before selected after : List String} (h : names = before ++ selected ++ after)
    (hstart : before.length = start) (hstop : (before ++ selected).length = stop) :
    Spans names start stop selected
  /-- The ends are in the wrong order. -/
  | reversed (h : stop < start) : Spans names start stop []

/-- What a selector stands for. -/
inductive Denotes (names : List String) : String → List String → Prop
  /-- A name stands for itself, known or not. -/
  | name {text : String} (hne : text ≠ "") (hsingle : ¬ HasDots text.toList) :
    Denotes names text [text]
  /-- The `..` is the first one and the only one. -/
  | range {first last : String} {start stop : Nat} {selected : List String}
    (hfirst : ¬ HasDots (first ++ ".").toList) (hlast : ¬ HasDots last.toList)
    (hstart : Starts names first start) (hstop : Stops names last stop)
    (hspans : Spans names start stop selected) : Denotes names (first ++ ".." ++ last) selected

/-- What is wrong with a selector. Of two unknown ends the first counts. -/
inductive Invalid (names : List String) : String → SelectorFault → Prop
  | empty : Invalid names "" .empty
  | unknownFirst {first last : String} (hfirst : ¬ HasDots (first ++ ".").toList)
    (hlast : ¬ HasDots last.toList) (hne : first ≠ "") (hunknown : first ∉ names) :
    Invalid names (first ++ ".." ++ last) (.unknownAction first)
  | unknownLast {first last : String} {start : Nat} (hfirst : ¬ HasDots (first ++ ".").toList)
    (hlast : ¬ HasDots last.toList) (hstart : Starts names first start) (hne : last ≠ "")
    (hunknown : last ∉ names) :
    Invalid names (first ++ ".." ++ last) (.unknownAction last)
  | severalRanges {first rest : String} (hfirst : ¬ HasDots (first ++ ".").toList)
    (hrest : HasDots rest.toList) : Invalid names (first ++ ".." ++ rest) .severalRanges

section Places

variable {names : List String}

theorem position_of_not_mem {name : String} (h : name ∉ names) :
    position names name = .error (.unknownAction name) := by
  rw [position, List.idxOf?_eq_none_iff.2 h]

/-- Among names without duplicates each has one place. -/
theorem position_of_getElem? (hnodup : names.Nodup) {name : String} {i : Nat}
    (h : names[i]? = some name) : position names name = .ok i := by
  obtain ⟨hi, hname⟩ := List.getElem?_eq_some_iff.1 h
  have hfirst : names.idxOf? name = some i := by
    rw [List.idxOf?_eq_some_iff]
    refine ⟨hi, hname, fun j hj heq => ?_⟩
    -- an earlier place with this name would be a second one
    have hplace : j = i := hnodup.getElem_inj_iff.1 (heq.trans hname.symm)
    omega
  rw [position, hfirst]

theorem Starts.startOf_eq (hnodup : names.Nodup) {first : String} {start : Nat}
    (h : Starts names first start) : startOf names first = .ok start := by
  cases h with
  | unnamed => rfl
  | named hne h => rw [startOf, if_neg (by simpa using hne), position_of_getElem? hnodup h]

theorem Stops.stopOf_eq (hnodup : names.Nodup) {last : String} {stop : Nat}
    (h : Stops names last stop) : stopOf names last = .ok stop := by
  cases h with
  | unnamed => rfl
  | named hne h =>
      rw [stopOf, if_neg (by simpa using hne), position_of_getElem? hnodup h]
      rfl

theorem Spans.eq {start stop : Nat} {selected : List String} (h : Spans names start stop selected) :
    (names.take stop).drop start = selected := by
  cases h with
  | range hsplit hstart hstop =>
      rw [hsplit, ← hstop, List.take_left, ← hstart, List.drop_left]
  | reversed h =>
      refine List.drop_eq_nil_of_le ?_
      rw [List.length_take]
      omega

theorem exists_starts {first : String} (h : first = "" ∨ first ∈ names) :
    ∃ start, Starts names first start := by
  by_cases hempty : first = ""
  · exact ⟨0, hempty ▸ .unnamed⟩
  · obtain ⟨i, hi⟩ := List.mem_iff_getElem?.1 (h.resolve_left hempty)
    exact ⟨i, .named hempty hi⟩

theorem exists_stops {last : String} (h : last = "" ∨ last ∈ names) :
    ∃ stop ≤ names.length, Stops names last stop := by
  by_cases hempty : last = ""
  · exact ⟨names.length, Nat.le_refl _, hempty ▸ .unnamed⟩
  · obtain ⟨j, hj⟩ := List.mem_iff_getElem?.1 (h.resolve_left hempty)
    obtain ⟨hlt, -⟩ := List.getElem?_eq_some_iff.1 hj
    exact ⟨j + 1, hlt, .named hempty hj⟩

theorem exists_spans (start : Nat) {stop : Nat} (h : stop ≤ names.length) :
    ∃ selected, Spans names start stop selected := by
  by_cases horder : stop < start
  · exact ⟨[], .reversed horder⟩
  · have hsplit : names = names.take start ++ (names.take stop).drop start ++ names.drop stop := by
      have hbefore : names.take start = (names.take stop).take start := by
        rw [List.take_take, Nat.min_eq_left (by omega)]
      rw [hbefore, List.take_append_drop, List.take_append_drop]
    refine ⟨(names.take stop).drop start, .range hsplit ?_ ?_⟩
    · rw [List.length_take]
      omega
    · rw [List.length_append, List.length_drop, List.length_take, List.length_take]
      omega

/-- Every selector stands for some actions, or something is wrong with it. -/
theorem denotes_or_invalid (names : List String) (text : String) :
    (∃ selected, Denotes names text selected) ∨ ∃ reason, Invalid names text reason := by
  by_cases hdots : HasDots text.toList
  · -- the text is taken apart at its first `..`, and what is behind it at the next one
    obtain ⟨front, back, hsplit, hfront⟩ := exists_first_dots hdots
    obtain ⟨first, rfl⟩ : ∃ first : String, first.toList = front := ⟨_, String.toList_ofList⟩
    obtain ⟨rest, rfl⟩ : ∃ rest : String, rest.toList = back := ⟨_, String.toList_ofList⟩
    obtain rfl : text = first ++ ".." ++ rest := by
      rw [← String.toList_inj, hsplit, toList_range]
    have hfirst : ¬ HasDots (first ++ ".").toList := by rwa [String.toList_append]
    by_cases hrest : HasDots rest.toList
    · exact Or.inr ⟨_, .severalRanges hfirst hrest⟩
    by_cases hknown : first = "" ∨ first ∈ names
    · obtain ⟨start, hstart⟩ := exists_starts hknown
      by_cases hlast : rest = "" ∨ rest ∈ names
      · obtain ⟨stop, hle, hstop⟩ := exists_stops hlast
        obtain ⟨selected, hspans⟩ := exists_spans start hle
        exact Or.inl ⟨selected, .range hfirst hrest hstart hstop hspans⟩
      · rw [not_or] at hlast
        exact Or.inr ⟨_, .unknownLast hfirst hrest hstart hlast.1 hlast.2⟩
    · rw [not_or] at hknown
      exact Or.inr ⟨_, .unknownFirst hfirst hrest hknown.1 hknown.2⟩
  · by_cases hempty : text = ""
    · exact Or.inr ⟨.empty, hempty ▸ .empty⟩
    · exact Or.inl ⟨[text], .name hempty hdots⟩

end Places

/-! ## One selector -/

section One

variable {names : List String} (hnodup : names.Nodup) {text : String}

include hnodup

theorem Denotes.resolveText_eq {selected : List String} (h : Denotes names text selected) :
    resolveText names text = .ok selected := by
  cases h with
  | name hne hsingle => rw [resolveText, parse_name hne hsingle]; rfl
  | range hfirst hlast hstart hstop hspans =>
      simp only [resolveText, parse_range hfirst hlast, Except.bind, resolve,
        hstart.startOf_eq hnodup, hstop.stopOf_eq hnodup, bind, pure, Except.pure, hspans.eq]

theorem Invalid.resolveText_eq {reason : SelectorFault} (h : Invalid names text reason) :
    resolveText names text = .error (.badSelector text reason) := by
  cases h with
  | empty => rfl
  | @unknownFirst first last hfirst hlast hne hunknown =>
      have hstart : startOf names first = .error (.unknownAction first) := by
        rw [startOf, if_neg (by simpa using hne), position_of_not_mem hunknown]
      simp only [resolveText, parse_range hfirst hlast, Except.bind, resolve, hstart, bind]
  | @unknownLast first last start hfirst hlast hstart hne hunknown =>
      have hstop : stopOf names last = .error (.unknownAction last) := by
        rw [stopOf, if_neg (by simpa using hne), position_of_not_mem hunknown]
        rfl
      simp only [resolveText, parse_range hfirst hlast, Except.bind, resolve,
        hstart.startOf_eq hnodup, hstop, bind]
  | severalRanges hfirst hrest => rw [resolveText, parse_several hfirst hrest]; rfl

theorem resolveText_eq_ok_iff {selected : List String} :
    resolveText names text = .ok selected ↔ Denotes names text selected := by
  refine ⟨fun h => ?_, fun h => h.resolveText_eq hnodup⟩
  rcases denotes_or_invalid names text with ⟨other, hother⟩ | ⟨reason, hreason⟩
  · rw [hother.resolveText_eq hnodup, Except.ok.injEq] at h
    exact h ▸ hother
  · rw [hreason.resolveText_eq hnodup] at h
    cases h

theorem resolveText_eq_error_iff {failure : Failure} :
    resolveText names text = .error failure ↔
      ∃ reason, Invalid names text reason ∧ failure = .badSelector text reason := by
  constructor
  · intro h
    rcases denotes_or_invalid names text with ⟨selected, hselected⟩ | ⟨reason, hreason⟩
    · rw [hselected.resolveText_eq hnodup] at h
      cases h
    · rw [hreason.resolveText_eq hnodup, Except.error.injEq] at h
      exact ⟨reason, hreason, h.symm⟩
  · rintro ⟨reason, hreason, rfl⟩
    exact hreason.resolveText_eq hnodup

end One

/-! ## Several selectors -/

theorem resolveEach_cons (names : List String) (text : String) (rest : List String) :
    resolveEach names (text :: rest) = (do
      let selected ← resolveText names text
      let others ← resolveEach names rest
      pure (selected ++ others)) := rfl

theorem resolveEach_append (names a b : List String) :
    resolveEach names (a ++ b) = (do
      let first ← resolveEach names a
      let second ← resolveEach names b
      pure (first ++ second)) := by
  induction a with
  | nil =>
      cases hb : resolveEach names b <;> simp [resolveEach, hb, bind, Except.bind, pure,
        Except.pure]
  | cons text rest ih =>
      rw [List.cons_append, resolveEach_cons, resolveEach_cons, ih]
      cases resolveText names text with
      | error failure => rfl
      | ok selected =>
          cases resolveEach names rest with
          | error failure => rfl
          | ok others =>
              cases resolveEach names b with
              | error failure => rfl
              | ok second => simp [bind, Except.bind, pure, Except.pure]

section Several

variable {names : List String} (hnodup : names.Nodup) {selectors : List String}

include hnodup

theorem resolveEach_eq_ok_iff {selected : List String} :
    resolveEach names selectors = .ok selected ↔
      ∃ parts, List.Forall₂ (Denotes names) selectors parts ∧ selected = parts.flatten := by
  induction selectors generalizing selected with
  | nil => simp [resolveEach, eq_comm]
  | cons text rest ih =>
      rw [resolveEach_cons]
      constructor
      · intro h
        cases htext : resolveText names text with
        | error failure => simp [htext, bind, Except.bind] at h
        | ok first =>
            cases hrest : resolveEach names rest with
            | error failure => simp [htext, hrest, bind, Except.bind] at h
            | ok others =>
                simp only [htext, hrest, bind, Except.bind, pure, Except.pure,
                  Except.ok.injEq] at h
                obtain ⟨parts, hparts, rfl⟩ := ih.1 hrest
                exact ⟨first :: parts, .cons ((resolveText_eq_ok_iff hnodup).1 htext) hparts,
                  h.symm⟩
      · rintro ⟨parts, hparts, rfl⟩
        cases hparts with
        | cons hfirst hothers =>
            rw [hfirst.resolveText_eq hnodup, ih.2 ⟨_, hothers, rfl⟩]
            rfl

/-- The first selector that is invalid decides. -/
theorem resolveEach_eq_error_iff {failure : Failure} :
    resolveEach names selectors = .error failure ↔
      ∃ before text after reason, selectors = before ++ text :: after ∧
        (∀ earlier ∈ before, ∃ selected, Denotes names earlier selected) ∧
        Invalid names text reason ∧ failure = .badSelector text reason := by
  constructor
  · intro h
    induction selectors with
    | nil => cases h
    | cons text rest ih =>
        rw [resolveEach_cons] at h
        cases htext : resolveText names text with
        | error other =>
            simp only [htext, bind, Except.bind, Except.error.injEq] at h
            obtain ⟨reason, hreason, hfailure⟩ := (resolveText_eq_error_iff hnodup).1 htext
            exact ⟨[], text, rest, reason, rfl, nofun, hreason, h ▸ hfailure⟩
        | ok selected =>
            have hrest : resolveEach names rest = .error failure := by
              cases hrest : resolveEach names rest with
              | error other => simpa [htext, hrest, bind, Except.bind] using h
              | ok others => simp [htext, hrest, bind, Except.bind, pure, Except.pure] at h
            obtain ⟨before, bad, after, reason, rfl, hbefore, hreason, hfailure⟩ := ih hrest
            refine ⟨text :: before, bad, after, reason, rfl, ?_, hreason, hfailure⟩
            intro earlier hmem
            rcases List.mem_cons.1 hmem with rfl | hmem
            · exact ⟨selected, (resolveText_eq_ok_iff hnodup).1 htext⟩
            · exact hbefore earlier hmem
  · rintro ⟨before, text, after, reason, rfl, hbefore, hreason, rfl⟩
    induction before with
    | nil =>
        rw [List.nil_append, resolveEach_cons, hreason.resolveText_eq hnodup]
        rfl
    | cons earlier before ih =>
        obtain ⟨selected, hselected⟩ := hbefore earlier List.mem_cons_self
        have hrest := ih (fun other hother => hbefore other (List.mem_cons_of_mem _ hother))
        rw [List.cons_append, resolveEach_cons, hselected.resolveText_eq hnodup, hrest]
        rfl

end Several

/-! ## Ranges side by side -/

/-- A name that can be either end of a range. -/
structure IsEnd (name : String) : Prop where
  nonempty : name ≠ ""
  single : ¬ HasDots name.toList
  last : name.toList.getLast? ≠ some '.'

instance (name : String) : Decidable (IsEnd name) :=
  decidable_of_iff (name ≠ "" ∧ ¬ HasDots name.toList ∧ name.toList.getLast? ≠ some '.')
    ⟨fun ⟨hne, hsingle, hlast⟩ => ⟨hne, hsingle, hlast⟩, fun h => ⟨h.nonempty, h.single, h.last⟩⟩

theorem hasDots_concat {text : List Char} :
    HasDots (text ++ ['.']) ↔ HasDots text ∨ text.getLast? = some '.' := by
  induction text with
  | nil => decide
  | cons c rest ih =>
      rw [List.cons_append, hasDots_cons, ih, hasDots_cons]
      cases rest with
      | nil =>
          have hnone : ¬ HasDots [] := by decide
          simp [hnone]
      | cons d more =>
          rw [List.getLast?_cons_cons, List.cons_append, List.head?_cons, List.head?_cons, or_assoc]

theorem IsEnd.first {name : String} (h : IsEnd name) : ¬ HasDots (name ++ ".").toList := by
  have hdot : (name ++ ".").toList = name.toList ++ ['.'] := String.toList_append ..
  rw [hdot, hasDots_concat, not_or]
  exact ⟨h.single, h.last⟩

section Adjacent

variable {names before selected after : List String} {a b c : String}

/-- The range up to a name. -/
theorem denotes_upTo (hnames : names = before ++ a :: after) (ha : IsEnd a) :
    Denotes names (".." ++ a) (before ++ [a]) := by
  have hplace : names[before.length]? = some a := by simp [hnames]
  have hsplit : names = [] ++ (before ++ [a]) ++ after := by simp [hnames]
  have hspans : Spans names 0 (before.length + 1) (before ++ [a]) :=
    .range hsplit rfl (by simp)
  have hdenotes : Denotes names ("" ++ ".." ++ a) (before ++ [a]) :=
    .range (by decide) ha.single .unnamed (.named ha.nonempty hplace) hspans
  rwa [String.empty_append] at hdenotes

/-- The range from a name on. -/
theorem denotes_from (hnames : names = before ++ c :: after) (hc : IsEnd c) :
    Denotes names (c ++ "..") (c :: after) := by
  have hplace : names[before.length]? = some c := by simp [hnames]
  have hsplit : names = before ++ (c :: after) ++ [] := by simp [hnames]
  have hspans : Spans names before.length names.length (c :: after) :=
    .range hsplit rfl (by simp [hnames])
  have hdenotes : Denotes names (c ++ ".." ++ "") (c :: after) :=
    .range hc.first (by decide) (.named hc.nonempty hplace) .unnamed hspans
  rwa [String.append_empty] at hdenotes

/-- A contiguous part of the actions is the range from its first to its last one. -/
theorem denotes_part (hnames : names = before ++ selected ++ after)
    (hfirst : selected.head? = some c) (hlast : selected.getLast? = some b) (hc : IsEnd c)
    (hb : IsEnd b) : Denotes names (c ++ ".." ++ b) selected := by
  obtain ⟨rest, hrest⟩ := List.head?_eq_some_iff.1 hfirst
  obtain ⟨front, hfront⟩ := List.getLast?_eq_some_iff.1 hlast
  have hplace : names[before.length]? = some c := by simp [hnames, hrest]
  have hend : names[(before ++ front).length]? = some b := by
    have hsplit : names = (before ++ front) ++ b :: after := by simp [hnames, hfront]
    rw [hsplit, List.getElem?_append_right (Nat.le_refl _), Nat.sub_self, List.getElem?_cons_zero]
  have hspans : Spans names before.length ((before ++ front).length + 1) selected :=
    .range hnames rfl (by simp [hfront, Nat.add_assoc])
  exact .range hc.first hb.single (.named hc.nonempty hplace) (.named hb.nonempty hend) hspans

end Adjacent

theorem select_eq_resolveEach (names : List String) {selectors : List String}
    (h : selectors ≠ []) : select names selectors = resolveEach names selectors := by
  rw [select, if_neg (by simpa using h)]

end Selection

open Selection

/-- Selectors denote contiguous ranges. Without any selector all actions are selected. Otherwise
the selection is what the selectors denote, one after the other, or what is wrong with the first
that is invalid. So selections can be put together, and ranges side by side make up the range
from the first end to the last. -/
theorem select_denotes {names : List String} (hnodup : names.Nodup) :
    select names [] = .ok names ∧
    (∀ selectors selected, selectors ≠ [] →
      (select names selectors = .ok selected ↔
        ∃ parts, List.Forall₂ (Denotes names) selectors parts ∧ selected = parts.flatten)) ∧
    (∀ selectors failure, select names selectors = .error failure ↔
      ∃ before text after reason, selectors = before ++ text :: after ∧
        (∀ earlier ∈ before, ∃ selected, Denotes names earlier selected) ∧
        Invalid names text reason ∧ failure = .badSelector text reason) ∧
    (∀ first second, first ≠ [] → second ≠ [] →
      select names (first ++ second) = (do
        let selected ← select names first
        let others ← select names second
        pure (selected ++ others))) ∧
    (∀ before a c after, names = before ++ a :: c :: after → IsEnd a → IsEnd c →
      select names [".." ++ a, c ++ ".."] = .ok names ∧
      ∀ b ∈ c :: after, IsEnd b → ∃ selected, select names [".." ++ b] = .ok selected ∧
        select names [".." ++ a, c ++ ".." ++ b] = .ok selected) := by
  have hok : ∀ selectors selected, selectors ≠ [] →
      (select names selectors = .ok selected ↔
        ∃ parts, List.Forall₂ (Denotes names) selectors parts ∧ selected = parts.flatten) := by
    intro selectors selected hne
    rw [select_eq_resolveEach names hne]
    exact resolveEach_eq_ok_iff hnodup
  refine ⟨rfl, hok, fun selectors failure => ?_, fun first second hfirst hsecond => ?_, ?_⟩
  · cases selectors with
    | nil => simp [select]
    | cons text rest =>
        rw [select_eq_resolveEach names (List.cons_ne_nil text rest)]
        exact resolveEach_eq_error_iff hnodup
  · rw [select_eq_resolveEach names hfirst, select_eq_resolveEach names hsecond,
      select_eq_resolveEach names (List.append_ne_nil_of_left_ne_nil hfirst second)]
    exact resolveEach_append names first second
  · intro before a c after hnames ha hc
    have hhead := denotes_upTo hnames ha
    rw [List.append_cons] at hnames
    refine ⟨?_, fun b hmem hb => ?_⟩
    · have htail := denotes_from hnames hc
      rw [hok _ _ (by simp)]
      exact ⟨_, .cons hhead (.cons htail .nil), by simp [hnames]⟩
    · -- `b` ends the second range, and the first names of both are those of the whole
      obtain ⟨front, back, hsplit⟩ := List.append_of_mem hmem
      have hfirst : (front ++ [b]).head? = some c := by
        cases front <;> simp_all
      have hparts : names = (before ++ [a]) ++ (front ++ [b]) ++ back := by
        simp [hnames, hsplit]
      have htail := denotes_part hparts hfirst (by simp) hc hb
      have hend : names = before ++ [a] ++ front ++ b :: back := by simp [hparts]
      have hwhole : Denotes names (".." ++ b) (before ++ [a] ++ front ++ [b]) :=
        denotes_upTo hend hb
      refine ⟨before ++ [a] ++ front ++ [b], ?_, ?_⟩
      · rw [hok _ _ (by simp)]
        exact ⟨_, .cons hwhole .nil, by simp⟩
      · rw [hok _ _ (by simp)]
        exact ⟨_, .cons hhead (.cons htail .nil), by simp⟩

/-- Names with single dots, an unknown name, a range in the wrong order, and three dots. -/
theorem select_denotes_sample :
    let names := ["a", "b.c", ".d", "e"]
    names.Nodup ∧ select names ["x.y", "e..a", "b.c...d"] = .ok ["x.y", "b.c", ".d"] ∧
      select names ["..a", "b....e", ".."] =
        .error (.badSelector "b....e" .severalRanges) ∧
      select names ["..a", "b.c.."] = .ok names ∧
      ∃ selected, select names ["..e"] = .ok selected ∧
        select names ["..a", "b.c..e"] = .ok selected := by
  intro names
  have hnodup : names.Nodup := by decide
  obtain ⟨-, hok, herror, -, hadjacent⟩ := select_denotes hnodup
  have ha : IsEnd "a" := by decide
  have hb : IsEnd "b.c" := by decide
  have hd : IsEnd ".d" := by decide
  have he : IsEnd "e" := by decide
  obtain ⟨hall, hpart⟩ := hadjacent [] "a" "b.c" [".d", "e"] rfl ha hb
  refine ⟨hnodup, ?_, ?_, hall, hpart "e" (by decide) he⟩
  · rw [hok _ _ (by simp)]
    have hstart : Starts names "e" 3 := .named (by decide) rfl
    have hstop : Stops names "a" 1 := .named (by decide) rfl
    have hreversed : Denotes names ("e" ++ ".." ++ "a") [] :=
      .range (by decide) (by decide) hstart hstop (.reversed (by decide))
    have hsplit : names = ["a"] ++ ["b.c", ".d"] ++ ["e"] := rfl
    have hrange : Denotes names ("b.c" ++ ".." ++ ".d") ["b.c", ".d"] :=
      denotes_part hsplit rfl rfl hb hd
    exact ⟨_, .cons (.name (by decide) (by decide)) (.cons hreversed (.cons hrange .nil)), rfl⟩
  · rw [herror]
    refine ⟨["..a"], "b....e", [".."], .severalRanges, rfl, ?_, ?_, rfl⟩
    · intro earlier hearlier
      have hsplit : names = [] ++ "a" :: ["b.c", ".d", "e"] := rfl
      rw [List.mem_singleton.1 hearlier]
      exact ⟨_, denotes_upTo hsplit ha⟩
    · have hseveral : Invalid names ("b" ++ ".." ++ "..e") .severalRanges :=
        .severalRanges (by decide) (by decide)
      exact hseveral

end ScriptRunner
