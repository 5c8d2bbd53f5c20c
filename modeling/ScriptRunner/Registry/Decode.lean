import ScriptRunner.Document.Basic
import ScriptRunner.Registry.Basic

/-!
# ScriptRunner.Registry.Decode

What a document has to look like to be a registry.

A value is tried in a fixed order: an entry is a text, else a list of texts, else a map
with a `cmd`; an action is a list of entries, else one entry. A choice among names may be
written as the name or as a map from the name to nothing. In a map of options a key may
be written as the number of its option, and other keys mean nothing, but no option may
occur twice.

Where a map is a registry or a section, keys count by the text they are written with.
-/

namespace ScriptRunner

namespace Decode

/-- The texts of a list of texts. -/
def texts? : List Document → Option (List String)
  | [] => some []
  | d :: rest => do
    let text ← d.text?
    let others ← texts? rest
    pure (text :: others)

/-- The text of a command: a text, or a list of texts. -/
def commandText? : Document → Option CommandText
  | .list items => (texts? items).map .lines
  | other => other.text?.map .line

/-- The option that a key means. `none` inside stands for a key that means nothing. -/
def option? (names : List String) : Document → Option (Option Nat)
  | .scalar _ (.text name) => some (names.idxOf? name)
  | .scalar _ (.natural n) => some (if n < names.length then some n else none)
  | _ => none

/-- One of several values, by name: the name, or a map from it to nothing. -/
def choice? {α : Type} (all : List α) (name : α → String) : Document → Option α
  | .scalar _ (.text text) => all.find? (fun a => name a == text)
  | .map [(key, .scalar _ .null)] => do
    let index ← option? (all.map name) key
    all[← index]?
  | _ => none

/-- The options of an entry that have been read. -/
structure Options where
  text : Option CommandText
  fail : Option FailPolicy
  /-- Read and empty where the document says that there is none. -/
  precedence : Option (Option Precedence)

/-- The names of the options of an entry, by number. -/
def optionNames : List String := ["cmd", "fail", "precedence"]

/-- The precedence of an entry, which may be null. -/
def precedence? : Document → Option (Option Precedence)
  | .scalar _ .null => some none
  | other => (choice? Precedence.all Precedence.name other).map some

/-- The options with one more entry of their map read. -/
def readOption (o : Options) (key value : Document) : Option Options := do
  match ← option? optionNames key with
  | some 0 => if o.text.isSome then none else return { o with text := some (← commandText? value) }
  | some 1 =>
    if o.fail.isSome then none
    else return { o with fail := some (← choice? FailPolicy.all FailPolicy.name value) }
  | some 2 =>
    if o.precedence.isSome then none
    else return { o with precedence := some (← precedence? value) }
  | _ => return o

/-- The options of an entry from the entries of a map. -/
def readOptions (o : Options) : List (Document × Document) → Option Options
  | [] => some o
  | (key, value) :: rest => do
    let next ← readOption o key value
    readOptions next rest

/-- An entry with options. -/
def structured? (entries : List (Document × Document)) : Option Entry := do
  let o ← readOptions ⟨none, none, none⟩ entries
  let text ← o.text
  pure (.structured text (o.fail.getD .stop) (o.precedence.getD none))

/-- An entry of a script. -/
def entryOf : Document → Option Entry
  | .map entries => structured? entries
  | other => (commandText? other).map .plain

/-- A list of entries. -/
def script? : List Document → Option Script
  | [] => some []
  | d :: rest => do
    let entry ← entryOf d
    let others ← script? rest
    pure (entry :: others)

/-- The script of an action: a list of entries, or one entry. -/
def action? : Document → Option Script
  | .list items => script? items
  | other => (entryOf other).map (fun e => [e])

/-- An action within a document in which lists and maps may be nested `room` deep. -/
def actionWithin? (room : Nat) (d : Document) : Option Script :=
  if d.usable && decide (d.depth ≤ room) then action? d else none

/-- The definitions of a section. -/
def definitions? (room : Nat) : List (Document × Document) → Option (List (String × Script))
  | [] => some []
  | (key, value) :: rest => do
    let name ← key.key?
    let script ← actionWithin? room value
    let others ← definitions? room rest
    pure ((name, script) :: others)

/-- A section: a map of actions. Nothing at all, not even a null, is a map too. -/
def section? (room : Nat) (d : Document) : Option Section :=
  match d.untagged with
  | .map entries => (definitions? (room - 1) entries).map Section.ofDefinitions
  | .scalar (some "") .null => some Section.empty
  | _ => none

/-- The sections of a registry that have been read. -/
structure Sections where
  primary : Option Section
  optional : Option Section
  recipes : Option Section

/-- Sections read so far as a registry; the others are empty. -/
def Sections.registry (s : Sections) : Registry :=
  ⟨s.primary.getD Section.empty, s.optional.getD Section.empty, s.recipes.getD Section.empty⟩

/-- The sections with one more entry of the map of a registry read. -/
def readSection (room : Nat) (s : Sections) (key value : Document) : Option Sections := do
  match ← key.key? with
  | "scripts" =>
    if s.primary.isSome then none else return { s with primary := some (← section? room value) }
  | "optional" =>
    if s.optional.isSome then none
    else return { s with optional := some (← section? room value) }
  | "recipes" =>
    if s.recipes.isSome then none else return { s with recipes := some (← section? room value) }
  | _ => return s

/-- The sections from the entries of the map of a registry. -/
def readSections (room : Nat) (s : Sections) : List (Document × Document) → Option Sections
  | [] => some s
  | (key, value) :: rest => do
    let next ← readSection room s key value
    readSections room next rest

/-- A registry written as the list of its sections. -/
def positional? (room : Nat) : List Document → Option Registry
  | [] => some Registry.empty
  | [a] => do return ⟨← section? room a, Section.empty, Section.empty⟩
  | [a, b] => do return ⟨← section? room a, ← section? room b, Section.empty⟩
  | [a, b, c] => do return ⟨← section? room a, ← section? room b, ← section? room c⟩
  | _ => none

/-- A registry in a document whose lists and maps may be nested `room` deep where their
values matter. `lists` says whether a registry may be the list of its sections. -/
def registry? (lists : Bool) (room : Nat) (d : Document) : Option Registry :=
  match d.untagged with
  | .map entries => (readSections (room - 1) ⟨none, none, none⟩ entries).map Sections.registry
  | .list items => if lists then positional? (room - 1) items else none
  | .scalar (some "") .null => some Registry.empty
  | _ => none

end Decode

end ScriptRunner
