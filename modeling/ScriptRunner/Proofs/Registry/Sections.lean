import Mathlib.Data.List.Induction
import Mathlib.Data.List.Nodup
import Mathlib.Data.Option.Basic
import ScriptRunner.Proofs.Batch.Operations
import ScriptRunner.Proofs.Bindings
import ScriptRunner.Proofs.Registry.Entries

/-!
# ScriptRunner.Proofs.Registry.Sections

What a registry keeps of the document that it is read from.

`Registry.Written` is a registry as it is written: for each section that is there, the names of
its actions and their values, in order and with repetitions. To read a registry is to take these
out of the document and then to read every value (`Decode.registry?_eq`); a name that is defined
again keeps its first place and takes the last script (`Section.names_ofDefinitions`,
`Section.lookup_ofDefinitions`).

Main statement: `Registry.parse_written`.
-/

namespace ScriptRunner

namespace Bindings

/-- A last entry is the last one of its name. -/
theorem lastIn_concat {α : Type u} (name : String) (es : List (String × α)) (e : String × α) :
    lastIn name (es ++ [e]) = if e.1 = name then some e.2 else lastIn name es := by
  unfold lastIn
  by_cases h : e.1 = name
  · rw [if_pos h, List.filter_append, List.filter_cons_of_pos (by simp [h]), List.filter_nil,
      List.getLast?_concat]
    rfl
  · rw [if_neg h, List.filter_append, List.filter_cons_of_neg (by simp [h]), List.filter_nil,
      List.append_nil]

theorem mem_of_lastIn {α : Type u} {name : String} {es : List (String × α)} {value : α}
    (h : lastIn name es = some value) : (name, value) ∈ es := by
  obtain ⟨e, he, rfl⟩ := Option.map_eq_some_iff.1 h
  obtain ⟨hmem, hname⟩ := List.mem_filter.1 (List.mem_of_getLast? he)
  rwa [← beq_iff_eq.1 hname]

theorem lastIn_eq_none_iff {α : Type u} {name : String} {es : List (String × α)} :
    lastIn name es = none ↔ name ∉ es.map Prod.fst := by
  rw [lastIn, Option.map_eq_none_iff, List.getLast?_eq_none_iff, List.filter_eq_nil_iff,
    List.mem_map, not_exists]
  refine forall_congr' (fun e => ?_)
  rw [not_and, beq_iff_eq]

end Bindings

namespace Section

/-! ## Definitions -/

theorem lookup_define (s : Section) (name other : String) (script : Script) :
    (s.define name script).lookup other = if name = other then some script else s.lookup other := by
  obtain ⟨actions⟩ := s
  rw [lookup, define, lookup]
  induction actions with
  | nil => rfl
  | cons a rest ih =>
      by_cases hname : a.1 = name
      · by_cases hother : name = other
        · simp [defineIn, lookupIn, hname, hother]
        · simp [defineIn, lookupIn, hname, hother]
      · rw [defineIn, if_neg hname, lookupIn, ih, lookupIn]
        by_cases hother : a.1 = other
        · rw [if_pos hother, if_pos hother, if_neg (fun h => hname (hother.trans h.symm))]
        · rw [if_neg hother, if_neg hother]

theorem names_define (s : Section) (name : String) (script : Script) :
    (s.define name script).names = if name ∈ s.names then s.names else s.names ++ [name] := by
  obtain ⟨actions⟩ := s
  rw [names, define, names]
  induction actions with
  | nil => rfl
  | cons a rest ih =>
      by_cases hname : a.1 = name
      · simp [defineIn, hname]
      · rw [defineIn, if_neg hname, List.map_cons, ih, List.map_cons]
        simp only [List.mem_cons, Ne.symm hname, false_or]
        split <;> rfl

theorem ofDefinitions_concat (definitions : List (String × Script)) (d : String × Script) :
    ofDefinitions (definitions ++ [d]) = (ofDefinitions definitions).define d.1 d.2 :=
  List.foldl_concat ..

/-- A name has the script of its last definition. -/
theorem lookup_ofDefinitions (definitions : List (String × Script)) (name : String) :
    (ofDefinitions definitions).lookup name = Bindings.lastIn name definitions := by
  induction definitions using List.reverseRecOn with
  | nil => rfl
  | append_singleton definitions d ih =>
      rw [ofDefinitions_concat, lookup_define, Bindings.lastIn_concat, ih]

/-- The names stand in the order of their first definitions. -/
theorem names_ofDefinitions (definitions : List (String × Script)) :
    (ofDefinitions definitions).names = (definitions.map Prod.fst).eraseDups := by
  induction definitions using List.reverseRecOn with
  | nil => rfl
  | append_singleton definitions d ih =>
      rw [ofDefinitions_concat, names_define, List.map_append, List.eraseDups_append, ih]
      -- `eraseDups` adds the last name behind the others unless it is one of them
      by_cases hname : d.1 ∈ definitions.map Prod.fst
      · rw [if_pos (List.mem_eraseDups.2 hname)]
        simp [List.removeAll, hname]
      · rw [if_neg (fun h => hname (List.mem_eraseDups.1 h))]
        simp [List.removeAll, hname, List.eraseDups_cons]

theorem nodup_names_ofDefinitions (definitions : List (String × Script)) :
    (ofDefinitions definitions).names.Nodup := by
  induction definitions using List.reverseRecOn with
  | nil => exact List.nodup_nil
  | append_singleton definitions d ih =>
      rw [ofDefinitions_concat, names_define]
      split
      · exact ih
      · next hnew => exact List.concat_eq_append ▸ ih.concat hnew

end Section

/-! ## Registries as they are written -/

/-- The actions of a section as they are written: names with values, in order. -/
abbrev WrittenSection := List (String × Document)

/-- A registry as it is written: the sections that are there. -/
structure Registry.Written where
  primary : Option WrittenSection
  optional : Option WrittenSection
  recipes : Option WrittenSection

namespace Registry.Written

/-- All actions of all sections. -/
def actions (r : Written) : WrittenSection :=
  r.primary.getD [] ++ (r.optional.getD [] ++ r.recipes.getD [])

/-- The entries of a map by the texts of their keys. -/
def named? : List (Document × Document) → Option (List (String × Document))
  | [] => some []
  | (key, value) :: rest => do
    let name ← key.key?
    let others ← named? rest
    pure ((name, value) :: others)

/-- The actions that a document writes down as a section. -/
def section? (d : Document) : Option WrittenSection :=
  match d.untagged with
  | .map entries => named? entries
  | .scalar (some "") .null => some []
  | _ => none

/-- Whether an entry of a map is for this section. -/
def isSection (own : String) (e : String × Document) : Bool :=
  e.1 == own

theorem isSection_self (own : String) (value : Document) : isSection own (own, value) = true :=
  beq_self_eq_true own

theorem isSection_other {own name : String} (h : name ≠ own) (value : Document) :
    isSection own (name, value) = false :=
  beq_eq_false_iff_ne.2 h

/-- A section among the entries of a map, which may have one entry for it. -/
def only? (own : String) (entries : List (String × Document)) : Option (Option WrittenSection) :=
  match entries.filter (isSection own) with
  | [] => some none
  | [e] => (section? e.2).map some
  | _ => none

theorem only?_eq_some_iff {own : String} {entries : List (String × Document)}
    {written : Option WrittenSection} :
    only? own entries = some written ↔
      (entries.filter (isSection own) = [] ∧ none = written) ∨
        ∃ e actions, entries.filter (isSection own) = [e] ∧ section? e.2 = some actions ∧
          some actions = written := by
  rw [only?]
  split
  · next hnone => simp [hnone]
  · next e hone => simp [hone]
  · next hnone hone =>
      simp only [reduceCtorEq, false_iff, not_or, not_and, not_exists]
      exact ⟨fun h => absurd h hnone, fun e _ h => absurd h (hone e)⟩

/-- The sections that a document writes down by their names. -/
def ofEntries? (entries : List (String × Document)) : Option Written := do
  pure ⟨← only? "scripts" entries, ← only? "optional" entries, ← only? "recipes" entries⟩

/-- The sections that a document writes down in a list. -/
def ofItems? : List Document → Option Written
  | [] => some ⟨none, none, none⟩
  | [a] => do pure ⟨some (← section? a), none, none⟩
  | [a, b] => do pure ⟨some (← section? a), some (← section? b), none⟩
  | [a, b, c] => do pure ⟨some (← section? a), some (← section? b), some (← section? c)⟩
  | _ => none

/-- The sections that a document writes down. -/
def ofDocument? (lists : Bool) (d : Document) : Option Written :=
  match d.untagged with
  | .map entries => (named? entries).bind ofEntries?
  | .list items => if lists then ofItems? items else none
  | .scalar (some "") .null => some ⟨none, none, none⟩
  | _ => none

/-- The definitions of a section, where `action?` says what its values mean. -/
def definitions? (action? : Document → Option Script) :
    WrittenSection → Option (List (String × Script))
  | [] => some []
  | (name, value) :: rest => do
    let script ← action? value
    let others ← definitions? action? rest
    pure ((name, script) :: others)

/-- What a section means. A section that is not there is empty. -/
def readSection? (action? : Document → Option Script) (s : Option WrittenSection) :
    Option Section :=
  (definitions? action? (s.getD [])).map Section.ofDefinitions

/-- What a registry means. -/
def read? (action? : Document → Option Script) (r : Written) : Option Registry := do
  pure ⟨← readSection? action? r.primary, ← readSection? action? r.optional,
    ← readSection? action? r.recipes⟩

end Registry.Written

namespace Decode

open Registry (Written)
open Registry.Written (isSection isSection_self isSection_other)

/-! ## Reading in two steps -/

theorem definitions?_eq (room : Nat) (entries : List (Document × Document)) :
    definitions? room entries =
      (Written.named? entries).bind (Written.definitions? (actionWithin? room)) := by
  induction entries with
  | nil => rfl
  | cons e rest ih =>
      rw [definitions?, Written.named?, ih]
      cases e.1.key? with
      | none => rfl
      | some name =>
          cases Written.named? rest with
          -- a bad key further on is fatal, whether or not this value is an action
          | none => cases actionWithin? room e.2 <;> rfl
          | some others => rfl

theorem section?_eq (room : Nat) (d : Document) : section? room d =
    (Written.section? d).bind (fun actions =>
      Written.readSection? (actionWithin? (room - 1)) (some actions)) := by
  rw [section?, Written.section?]
  generalize d.untagged = content
  split
  · rw [definitions?_eq, Option.map_bind]
    rfl
  · rfl
  · simp_all

theorem readSection_eq_some_iff {room : Nat} {s t : Sections} {key value : Document} :
    readSection room s key value = some t ↔
      ∃ name, key.key? = some name ∧
        Slot.Takes (isSection "scripts") (fun e => section? room e.2) (name, value) s.primary
          t.primary ∧
        Slot.Takes (isSection "optional") (fun e => section? room e.2) (name, value) s.optional
          t.optional ∧
        Slot.Takes (isSection "recipes") (fun e => section? room e.2) (name, value) s.recipes
          t.recipes := by
  obtain ⟨primary, optional, recipes⟩ := s
  obtain ⟨primary', optional', recipes'⟩ := t
  rw [readSection]
  cases hkey : key.key? with
  | none => simp
  | some name =>
      simp only [Option.bind_eq_bind, Option.bind_some, Option.some.injEq, exists_eq_left']
      by_cases hscripts : name = "scripts"
      · subst hscripts
        rw [Slot.takes_own (isSection_self _ _), Slot.takes_other (isSection_other (by decide) _),
          Slot.takes_other (isSection_other (by decide) _)]
        cases primary with
        | none => cases section? room value <;> simp [and_comm]
        | some earlier => simp
      by_cases hoptional : name = "optional"
      · subst hoptional
        rw [Slot.takes_other (isSection_other (by decide) _), Slot.takes_own (isSection_self _ _),
          Slot.takes_other (isSection_other (by decide) _)]
        cases optional with
        | none => cases section? room value <;> simp [and_comm]
        | some earlier => simp
      by_cases hrecipes : name = "recipes"
      · subst hrecipes
        rw [Slot.takes_other (isSection_other (by decide) _),
          Slot.takes_other (isSection_other (by decide) _), Slot.takes_own (isSection_self _ _)]
        cases recipes with
        | none => cases section? room value <;> simp [and_comm]
        | some earlier => simp
      · rw [Slot.takes_other (isSection_other hscripts _),
          Slot.takes_other (isSection_other hoptional _),
          Slot.takes_other (isSection_other hrecipes _)]
        simp

theorem readSections_eq_some_iff {room : Nat} {s t : Sections}
    {entries : List (Document × Document)} :
    readSections room s entries = some t ↔
      ∃ named, Written.named? entries = some named ∧
        Slot.TakesAll (isSection "scripts") (fun e => section? room e.2) named s.primary
          t.primary ∧
        Slot.TakesAll (isSection "optional") (fun e => section? room e.2) named s.optional
          t.optional ∧
        Slot.TakesAll (isSection "recipes") (fun e => section? room e.2) named s.recipes
          t.recipes := by
  induction entries generalizing s with
  | nil =>
      obtain ⟨primary, optional, recipes⟩ := s
      obtain ⟨primary', optional', recipes'⟩ := t
      simp [readSections, Written.named?, Slot.TakesAll]
  | cons e rest ih =>
      obtain ⟨key, value⟩ := e
      simp only [readSections, Written.named?, Option.bind_eq_bind, Option.bind_eq_some_iff, ih,
        readSection_eq_some_iff]
      constructor
      · rintro ⟨next, ⟨name, hname, hp, ho, hr⟩, named, hnamed, hps, hos, hrs⟩
        exact ⟨(name, value) :: named, ⟨name, hname, named, hnamed, rfl⟩, ⟨_, hp, hps⟩,
          ⟨_, ho, hos⟩, ⟨_, hr, hrs⟩⟩
      · rintro ⟨_, ⟨name, hname, named, hnamed, hcons⟩, hps, hos, hrs⟩
        obtain rfl : _ = (name, value) :: named := (Option.some.inj hcons).symm
        obtain ⟨primary, hp, hps⟩ := hps
        obtain ⟨optional, ho, hos⟩ := hos
        obtain ⟨recipes, hr, hrs⟩ := hrs
        exact ⟨⟨primary, optional, recipes⟩, ⟨name, hname, hp, ho, hr⟩, named, hnamed, hps, hos,
          hrs⟩

/-- What is read of a section is what is written for it, at one place at most. -/
theorem exists_takesAll_section {room : Nat} {own : String} {named : List (String × Document)}
    {found : Section} :
    (∃ after, Slot.TakesAll (isSection own) (fun e => section? room e.2) named none after ∧
        after.getD Section.empty = found) ↔
      ∃ written, Written.only? own named = some written ∧
        Written.readSection? (actionWithin? (room - 1)) written = some found := by
  simp only [Slot.takesAll_none, section?_eq, Option.bind_eq_some_iff, Written.only?_eq_some_iff]
  constructor
  · rintro ⟨_, ⟨hnone, rfl⟩ | ⟨e, _, hone, ⟨actions, hactions, hread⟩, rfl⟩, rfl⟩
    · exact ⟨none, Or.inl ⟨hnone, rfl⟩, rfl⟩
    · exact ⟨some actions, Or.inr ⟨e, actions, hone, hactions, rfl⟩, hread⟩
  · rintro ⟨_, ⟨hnone, rfl⟩ | ⟨e, actions, hone, hactions, rfl⟩, hread⟩
    · exact ⟨none, Or.inl ⟨hnone, rfl⟩, Option.some.inj hread⟩
    · exact ⟨some found, Or.inr ⟨e, found, hone, ⟨actions, hactions, hread⟩, rfl⟩, rfl⟩

theorem readEntries_eq (room : Nat) (entries : List (Document × Document)) :
    (readSections room ⟨none, none, none⟩ entries).map Sections.registry =
      ((Written.named? entries).bind Written.ofEntries?).bind
        (Written.read? (actionWithin? (room - 1))) := by
  refine Option.ext (fun r => ?_)
  simp only [Option.map_eq_some_iff, readSections_eq_some_iff, Option.bind_eq_some_iff,
    Written.ofEntries?, Written.read?, Option.bind_eq_bind, Option.pure_def, Option.some.injEq]
  constructor
  · rintro ⟨t, ⟨named, hnamed, hprimary, hoptional, hrecipes⟩, rfl⟩
    obtain ⟨primary, hp, hpread⟩ := exists_takesAll_section.1 ⟨_, hprimary, rfl⟩
    obtain ⟨optional, ho, horead⟩ := exists_takesAll_section.1 ⟨_, hoptional, rfl⟩
    obtain ⟨recipes, hr, hrread⟩ := exists_takesAll_section.1 ⟨_, hrecipes, rfl⟩
    exact ⟨_, ⟨named, hnamed, primary, hp, optional, ho, recipes, hr, rfl⟩, _, hpread, _, horead, _,
      hrread, rfl⟩
  · rintro ⟨_, ⟨named, hnamed, primary, hp, optional, ho, recipes, hr, rfl⟩, _, hpread, _, horead,
      _, hrread, rfl⟩
    obtain ⟨_, hprimary, rfl⟩ := exists_takesAll_section.2 ⟨primary, hp, hpread⟩
    obtain ⟨_, hoptional, rfl⟩ := exists_takesAll_section.2 ⟨optional, ho, horead⟩
    obtain ⟨_, hrecipes, rfl⟩ := exists_takesAll_section.2 ⟨recipes, hr, hrread⟩
    exact ⟨⟨_, _, _⟩, ⟨named, hnamed, hprimary, hoptional, hrecipes⟩, rfl⟩

theorem positional?_eq (room : Nat) (items : List Document) :
    positional? room items =
      (Written.ofItems? items).bind (Written.read? (actionWithin? (room - 1))) := by
  have habsent : Written.readSection? (actionWithin? (room - 1)) none = some Section.empty := rfl
  match items with
  | [] => rfl
  | [a] =>
      cases ha : Written.section? a <;>
        simp [positional?, Written.ofItems?, Written.read?, section?_eq, habsent, ha]
  | [a, b] =>
      cases ha : Written.section? a <;> cases hb : Written.section? b <;>
        simp [positional?, Written.ofItems?, Written.read?, section?_eq, habsent, ha, hb]
  | [a, b, c] =>
      cases ha : Written.section? a <;> cases hb : Written.section? b <;>
        cases hc : Written.section? c <;>
        simp [positional?, Written.ofItems?, Written.read?, section?_eq, ha, hb, hc]
  | a :: b :: c :: d :: rest => rfl

/-- To read a registry is to take its sections out of the document and then to read the values. -/
theorem registry?_eq (lists : Bool) (room : Nat) (d : Document) :
    registry? lists room d =
      (Written.ofDocument? lists d).bind (Written.read? (actionWithin? (room - 2))) := by
  unfold registry? Written.ofDocument?
  generalize d.untagged = content
  split
  · rw [readEntries_eq]
    rfl
  · cases lists with
    | false => rfl
    | true => exact positional?_eq (room - 1) _
  · rfl
  · simp_all

end Decode

/-! ## What is kept -/

/-- The section has every name that is written down, each at its first place and with its last
value. -/
structure Section.Keeps (s : Section) (action? : Document → Option Script)
    (written : WrittenSection) : Prop where
  nodup : s.names.Nodup
  names : s.names = (written.map Prod.fst).eraseDups
  lookup : ∀ name, s.lookup name = (Bindings.lastIn name written).bind action?

namespace Registry.Written

variable {action? : Document → Option Script}

theorem definitions?_eq_none_iff {written : WrittenSection} :
    definitions? action? written = none ↔ ∃ e ∈ written, action? e.2 = none := by
  induction written with
  | nil => simp [definitions?]
  | cons e rest ih =>
      rw [definitions?]
      cases hvalue : action? e.2 with
      | none => simp [hvalue]
      | some script =>
          simp only [List.mem_cons, exists_eq_or_imp, hvalue, reduceCtorEq, false_or, ← ih]
          cases definitions? action? rest <;> simp

theorem definitions?_eq_some {written : WrittenSection} {definitions : List (String × Script)}
    (h : definitions? action? written = some definitions) :
    definitions.map Prod.fst = written.map Prod.fst ∧
      ∀ name, Bindings.lastIn name definitions = (Bindings.lastIn name written).bind action? := by
  induction written generalizing definitions with
  | nil =>
      obtain rfl := Option.some.inj h
      exact ⟨rfl, fun _ => rfl⟩
  | cons e rest ih =>
      simp only [definitions?, Option.bind_eq_bind, Option.bind_eq_some_iff] at h
      obtain ⟨script, hscript, others, hothers, hcons⟩ := h
      obtain rfl := Option.some.inj hcons
      obtain ⟨hnames, hlast⟩ := ih hothers
      refine ⟨by rw [List.map_cons, hnames, List.map_cons], fun name => ?_⟩
      rw [Bindings.lastIn_cons, Bindings.lastIn_cons, hlast]
      cases hvalue : Bindings.lastIn name rest with
      | none =>
          rw [Option.bind_none, Option.none_or, Option.none_or]
          split
          · exact hscript.symm
          · rfl
      | some value =>
          -- a later value of the name has been read, so that it is the one that counts
          have hmem : Bindings.lastIn name others ≠ none := by
            rw [Ne, Bindings.lastIn_eq_none_iff, hnames, ← Bindings.lastIn_eq_none_iff, hvalue]
            exact Option.some_ne_none value
          rw [hlast, hvalue, Option.bind_some] at hmem
          obtain ⟨later, hlater⟩ := Option.ne_none_iff_exists'.1 hmem
          rw [Option.bind_some, Option.some_or, Option.bind_some, hlater, Option.some_or]

theorem readSection?_keeps {written : Option WrittenSection} {s : Section}
    (h : readSection? action? written = some s) : s.Keeps action? (written.getD []) := by
  obtain ⟨definitions, hdefinitions, rfl⟩ := Option.map_eq_some_iff.1 h
  obtain ⟨hnames, hlast⟩ := definitions?_eq_some hdefinitions
  exact {
    nodup := Section.nodup_names_ofDefinitions definitions
    names := by rw [Section.names_ofDefinitions, hnames]
    lookup := fun name => by rw [Section.lookup_ofDefinitions, hlast] }

theorem read?_eq_none_iff {written : Written} :
    written.read? action? = none ↔ ∃ e ∈ written.actions, action? e.2 = none := by
  have hsection : ∀ s : Option WrittenSection,
      readSection? action? s = none ↔ ∃ e ∈ s.getD [], action? e.2 = none := by
    intro s
    rw [readSection?, Option.map_eq_none_iff, definitions?_eq_none_iff]
  simp only [actions, List.mem_append, or_and_right, exists_or, ← hsection, read?]
  cases readSection? action? written.primary <;> cases readSection? action? written.optional <;>
    cases readSection? action? written.recipes <;> simp

/-- What is read of a registry, section by section. -/
structure Keeps (written : Written) (action? : Document → Option Script) (r : Registry) : Prop where
  primary : r.primary.Keeps action? (written.primary.getD [])
  optional : r.optional.Keeps action? (written.optional.getD [])
  recipes : r.recipes.Keeps action? (written.recipes.getD [])

theorem read?_keeps {written : Written} {r : Registry} (h : written.read? action? = some r) :
    written.Keeps action? r := by
  simp only [read?, Option.bind_eq_bind, Option.bind_eq_some_iff] at h
  obtain ⟨primary, hprimary, optional, hoptional, recipes, hrecipes, hr⟩ := h
  obtain rfl := Option.some.inj hr
  exact ⟨readSection?_keeps hprimary, readSection?_keeps hoptional, readSection?_keeps hrecipes⟩

/-- The value that counts for a name: the last one in the first section that has the name. -/
def value? (written : Written) (name : String) : Option Document :=
  (Bindings.lastIn name (written.primary.getD [])).or
    ((Bindings.lastIn name (written.optional.getD [])).or
      (Bindings.lastIn name (written.recipes.getD [])))

end Registry.Written

namespace Registry

theorem parse_eq {format : DocumentFormat} {text : String} {d : Document} {written : Written}
    (hdocument : format.document? text = some d)
    (hwritten : Written.ofDocument? format.admitsList d = some written) :
    parse format text =
      match written.read? format.action? with
      | some registry => .ok registry
      | none => .error (.badDocument format) := by
  rw [parse, hdocument, Option.bind_some, Decode.registry?_eq, hwritten, Option.bind_some]
  rfl

theorem Written.mem_of_value? {written : Written} {name : String} {value : Document}
    (h : written.value? name = some value) : (name, value) ∈ written.actions := by
  rw [Written.value?, Option.or_eq_some_iff, Option.or_eq_some_iff] at h
  rw [Written.actions, List.mem_append, List.mem_append]
  rcases h with hprimary | ⟨-, hoptional | ⟨-, hrecipes⟩⟩
  · exact Or.inl (Bindings.mem_of_lastIn hprimary)
  · exact Or.inr (Or.inl (Bindings.mem_of_lastIn hoptional))
  · exact Or.inr (Or.inr (Bindings.mem_of_lastIn hrecipes))

theorem Written.Keeps.lookup_eq {written : Written} {action? : Document → Option Script}
    {r : Registry} (h : written.Keeps action? r)
    (hvalid : ∀ e ∈ written.actions, action? e.2 ≠ none) (name : String) :
    r.lookup name = (written.value? name).bind action? := by
  rw [lookup, h.primary.lookup, h.optional.lookup, h.recipes.lookup, Written.value?]
  -- a value that is found has a script, so that no later section is asked
  have hread : ∀ {s : WrittenSection}, s ⊆ written.actions → ∀ other : Option Document,
      ((Bindings.lastIn name s).bind action?).or (other.bind action?) =
        ((Bindings.lastIn name s).or other).bind action? := by
    intro s hs other
    cases hlast : Bindings.lastIn name s with
    | none => rfl
    | some value =>
        obtain ⟨script, hscript⟩ := Option.ne_none_iff_exists'.1
          (hvalid _ (hs (Bindings.mem_of_lastIn hlast)))
        rw [Option.bind_some, Option.some_or, Option.bind_some, hscript, Option.some_or]
  rw [hread, hread]
  · exact List.subset_append_left _ _
  · exact List.Subset.trans (List.subset_append_left _ _) (List.subset_append_right _ _)

/-- A registry keeps the first place of a name and its last script. If any value is no action, even
one that is replaced later on, there is no registry. Otherwise each section has the names that are
written in it, in the order in which they come up first. A name stands for its last script in the
first section that has it, and a name that no section has for itself. Without selectors, the primary
actions are selected, each once. -/
theorem parse_written {format : DocumentFormat} {text : String} {d : Document} {written : Written}
    (hdocument : format.document? text = some d)
    (hwritten : Written.ofDocument? format.admitsList d = some written) :
    ((∃ e ∈ written.actions, format.action? e.2 = none) →
      parse format text = .error (.badDocument format)) ∧
    ((∀ e ∈ written.actions, format.action? e.2 ≠ none) →
      ∃ r, parse format text = .ok r ∧ written.Keeps format.action? r ∧
        (∀ name value, written.value? name = some value →
          ∃ script, format.action? value = some script ∧ r.lookup name = some script ∧
            r.script name = script) ∧
        (∀ name, written.value? name = none →
          r.lookup name = none ∧ r.script name = [.plain (.line name)]) ∧
        r.names = ((written.primary.getD []).map Prod.fst).eraseDups ∧
        (∀ name ∈ (written.primary.getD []).map Prod.fst, r.names.count name = 1) ∧
        ∀ (σ : Type) (w : BatchWorld σ), w.batch.registry = some r →
          (Batch.parseActions [] w).value = .ok r.names) := by
  rw [parse_eq hdocument hwritten]
  refine ⟨fun hbad => ?_, fun hvalid => ?_⟩
  · rw [Written.read?_eq_none_iff.2 hbad]
  have hsome : written.read? format.action? ≠ none := by
    rw [Ne, Written.read?_eq_none_iff]
    rintro ⟨e, hmem, hnone⟩
    exact hvalid e hmem hnone
  obtain ⟨r, hr⟩ := Option.ne_none_iff_exists'.1 hsome
  have hkeeps := Written.read?_keeps hr
  rw [hr]
  refine ⟨r, rfl, hkeeps, fun name value hvalue => ?_, fun name hnone => ?_, hkeeps.primary.names,
    fun name hname => ?_, fun σ w hw => ?_⟩
  · have hlookup := hkeeps.lookup_eq hvalid name
    rw [hvalue, Option.bind_some] at hlookup
    obtain ⟨script, hscript⟩ := Option.ne_none_iff_exists'.1
      (hvalid _ (Written.mem_of_value? hvalue))
    rw [hscript] at hlookup
    exact ⟨script, hscript, hlookup, by rw [Registry.script, hlookup]; rfl⟩
  · have hlookup := hkeeps.lookup_eq hvalid name
    rw [hnone, Option.bind_none] at hlookup
    exact ⟨hlookup, by rw [Registry.script, hlookup]; rfl⟩
  · rw [← List.mem_eraseDups, ← hkeeps.primary.names] at hname
    exact List.count_eq_one_of_mem hkeeps.primary.nodup hname
  · rw [Batch.parseActions_apply, Batch.actionsOf, hw]
    rfl

/-- A registry with two sections, in which names come up again and again. -/
def repeatedText : String :=
  "\x7b\"recipes\": \x7b\"b\": [\"x\", [\"y\"]], \"c\": \"z\"\x7d, \"more\": 1, " ++
    "\"scripts\": \x7b\"a\": \"1\", \"b\": \"2\", \"a\": \x7b\"cmd\": \"3\"\x7d\x7d\x7d"

/-- What that text says. -/
def repeatedDocument : Document :=
  .map [
    (.text "recipes",
      .map [(.text "b", .list [.text "x", .list [.text "y"]]), (.text "c", .text "z")]),
    (.text "more", .scalar none (.natural 1)),
    (.text "scripts", .map [(.text "a", .text "1"), (.text "b", .text "2"),
      (.text "a", .map [(.text "cmd", .text "3")])])]

theorem document?_repeatedText :
    DocumentFormat.document? .json repeatedText = some repeatedDocument := by
  decide +kernel

/-- The sections of that document. -/
def repeatedWritten : Written where
  primary := some [("a", .text "1"), ("b", .text "2"), ("a", .map [(.text "cmd", .text "3")])]
  optional := none
  recipes := some [("b", .list [.text "x", .list [.text "y"]]), ("c", .text "z")]

/-- A registry in which a value that is no action is replaced. -/
def spoiledText : String :=
  "\x7b\"scripts\": \x7b\"a\": true, \"a\": \"x\"\x7d\x7d"

/-- What that text says. -/
def spoiledDocument : Document :=
  .map [(.text "scripts", .map [(.text "a", .scalar none (.boolean true)), (.text "a", .text "x")])]

theorem document?_spoiledText :
    DocumentFormat.document? .json spoiledText = some spoiledDocument := by
  decide +kernel

/-- The sections of that document. -/
def spoiledWritten : Written where
  primary := some [("a", .scalar none (.boolean true)), ("a", .text "x")]
  optional := none
  recipes := none

theorem parse_written_sample :
    DocumentFormat.document? .json repeatedText = some repeatedDocument ∧
    Written.ofDocument? true repeatedDocument = some repeatedWritten ∧
    (∃ r, parse .json repeatedText = .ok r ∧ r.names = ["a", "b"] ∧
      r.script "a" = [.structured (.line "3") .stop none] ∧ r.script "b" = [.plain (.line "2")] ∧
      r.script "c" = [.plain (.line "z")] ∧ r.script "d e" = [.plain (.line "d e")] ∧
      (Batch.parseActions [] ⟨(), some r, .ofPath "build", none, []⟩).value = .ok ["a", "b"]) ∧
    DocumentFormat.document? .json spoiledText = some spoiledDocument ∧
    Written.ofDocument? true spoiledDocument = some spoiledWritten ∧
    parse .json spoiledText = .error (.badDocument .json) := by
  have hwritten : Written.ofDocument? true repeatedDocument = some repeatedWritten := by
    rfl
  have hvalid : ∀ e ∈ repeatedWritten.actions, DocumentFormat.action? .json e.2 ≠ none := by
    decide
  have hsections : Written.ofDocument? true spoiledDocument = some spoiledWritten := by
    rfl
  have hbad : ∃ e ∈ spoiledWritten.actions, DocumentFormat.action? .json e.2 = none :=
    ⟨_, List.mem_cons_self, rfl⟩
  obtain ⟨r, hr, -, hfound, hliteral, hnames, -, hselected⟩ :=
    (parse_written document?_repeatedText hwritten).2 hvalid
  have hscript : ∀ name value script, repeatedWritten.value? name = some value →
      DocumentFormat.action? .json value = some script → r.script name = script := by
    intro name value script hvalue hmeans
    obtain ⟨found, hfound, -, hscript⟩ := hfound name value hvalue
    rw [hscript, ← Option.some.injEq, ← hfound, hmeans]
  refine ⟨document?_repeatedText, hwritten, ⟨r, hr, hnames, hscript "a" _ _ rfl ?_,
    hscript "b" _ _ rfl ?_, hscript "c" _ _ rfl ?_, (hliteral "d e" rfl).2, ?_⟩,
    document?_spoiledText, hsections, (parse_written document?_spoiledText hsections).1 hbad⟩
  · rfl
  · rfl
  · rfl
  · rw [hselected Unit _ rfl, hnames]
    rfl

end Registry

end ScriptRunner
