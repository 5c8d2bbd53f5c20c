/-!
# ScriptRunner.Script

Scripts, as lists of entries. An entry is a command text, on one line or several, with
options: what to do when the command fails, and how firmly the bindings hold that the
entry makes.
-/

namespace ScriptRunner

/-- How firmly a binding holds. -/
inductive Precedence
  /-- For the session's own expansions; programs do not see it. -/
  | localOnly
  /-- Programs see it. -/
  | exported
  /-- Programs see it, and only another binding of this kind replaces it. -/
  | pinned
  deriving DecidableEq, Repr

namespace Precedence

/-- The name of a precedence in a registry. -/
def name : Precedence → String
  | localOnly => "local"
  | exported => "export"
  | pinned => "override"

/-- All precedences. -/
def all : List Precedence := [localOnly, exported, pinned]

/-- The precedence of this name. -/
def ofName? (text : String) : Option Precedence :=
  all.find? (fun p => p.name == text)

end Precedence

/-- What to do when a command fails. -/
inductive FailPolicy
  | stop
  | carryOn
  deriving DecidableEq, Repr

namespace FailPolicy

/-- The name of a policy in a registry. -/
def name : FailPolicy → String
  | stop => "stop"
  | carryOn => "continue"

/-- All policies. -/
def all : List FailPolicy := [stop, carryOn]

/-- The policy of this name. -/
def ofName? (text : String) : Option FailPolicy :=
  all.find? (fun p => p.name == text)

end FailPolicy

/-- The text of a command. One line and a list with one line mean the same but are
written differently. -/
inductive CommandText
  | line (text : String)
  | lines (texts : List String)
  deriving DecidableEq, Repr

/-- The lines of a command text. -/
def CommandText.toLines : CommandText → List String
  | line text => [text]
  | lines texts => texts

/-- An entry of a script. -/
inductive Entry
  /-- A command text alone. -/
  | plain (text : CommandText)
  /-- A command text with options. -/
  | structured (text : CommandText) (fail : FailPolicy) (precedence : Option Precedence)
  deriving DecidableEq, Repr

namespace Entry

/-- The lines of the command. -/
def lines : Entry → List String
  | plain text => text.toLines
  | structured text _ _ => text.toLines

/-- What to do when the command fails. -/
def failPolicy : Entry → FailPolicy
  | plain _ => .stop
  | structured _ fail _ => fail

/-- The precedence, if the entry says one. -/
def precedence? : Entry → Option Precedence
  | plain _ => none
  | structured _ _ precedence => precedence

/-- How firmly the bindings of the entry hold. -/
def precedence (e : Entry) : Precedence :=
  e.precedence?.getD .exported

end Entry

/-- A script: entries to run in order. -/
abbrev Script := List Entry

end ScriptRunner
