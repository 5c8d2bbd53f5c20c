import ScriptRunner.Script

/-!
# ScriptRunner.Registry.Basic

Registries of actions: scripts by name, in up to three sections.

The primary section says which actions there are and in which order. All three sections
are searched for the script of a name, the primary one first. A name that no section has
is itself the command to run.
-/

namespace ScriptRunner

/-- Scripts by name, in the order of the document. Where a name occurs twice, the first
one counts. -/
structure Section where
  actions : List (String × Script)
  deriving DecidableEq, Repr

namespace Section

/-- The section without actions. -/
def empty : Section := ⟨[]⟩

/-- The names, in order. -/
def names (s : Section) : List String := s.actions.map Prod.fst

/-- The script of a name in a list of actions. -/
def lookupIn (name : String) : List (String × Script) → Option Script
  | [] => none
  | (n, script) :: rest => if n = name then some script else lookupIn name rest

/-- The script of a name. -/
def lookup (s : Section) (name : String) : Option Script := lookupIn name s.actions

/-- The actions with a script defined for `name`: in place of an earlier one, else at the
end. -/
def defineIn (name : String) (script : Script) :
    List (String × Script) → List (String × Script)
  | [] => [(name, script)]
  | (n, s) :: rest => if n = name then (n, script) :: rest else (n, s) :: defineIn name script rest

/-- The section with a script defined for `name`. -/
def define (s : Section) (name : String) (script : Script) : Section :=
  ⟨defineIn name script s.actions⟩

/-- The section of a list of definitions, in which a later one of a name replaces an
earlier one. -/
def ofDefinitions (definitions : List (String × Script)) : Section :=
  definitions.foldl (fun s d => s.define d.1 d.2) empty

end Section

/-- A registry of actions. -/
structure Registry where
  /-- The actions that run when none are selected. -/
  primary : Section
  optional : Section
  recipes : Section
  deriving DecidableEq, Repr

namespace Registry

/-- The registry without actions. -/
def empty : Registry := ⟨Section.empty, Section.empty, Section.empty⟩

/-- The registry that has only primary actions. -/
def ofPrimary (primary : Section) : Registry := ⟨primary, Section.empty, Section.empty⟩

/-- The names of the primary actions, in order. -/
def names (r : Registry) : List String := r.primary.names

/-- The script of a name, from the first section that has it. -/
def lookup (r : Registry) (name : String) : Option Script :=
  (r.primary.lookup name).or ((r.optional.lookup name).or (r.recipes.lookup name))

/-- The script that a name that is no action stands for. -/
def literalScript (name : String) : Script := [.plain (.line name)]

/-- The script to run for a name. -/
def script (r : Registry) (name : String) : Script :=
  (r.lookup name).getD (literalScript name)

end Registry

end ScriptRunner
