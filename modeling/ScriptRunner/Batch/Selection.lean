import ScriptRunner.Failure
import ScriptRunner.Text.Blank

/-!
# ScriptRunner.Batch.Selection

Selectors of actions: a name, `from..to`, `from..`, `..to` and `..`.

A name stands for itself, known or not. A range stands for the actions from the one end to
the other, both included, in the order of the registry; a missing end is the first or the
last action, and a range whose ends are in the wrong order is empty. Without any selector
all actions are selected.
-/

namespace ScriptRunner

namespace Selection

/-- The parts of a selector between its `..`, read from left to right. -/
def parts : List Char → List (List Char)
  | [] => [[]]
  | '.' :: '.' :: rest => [] :: parts rest
  | c :: rest =>
    match parts rest with
    | [] => [[c]]
    | part :: others => (c :: part) :: others

/-- A selector by its form. -/
inductive Selector
  | name (text : String)
  | range (first last : String)
  deriving DecidableEq, Repr

/-- The form of a selector. -/
def Selector.parse (text : String) : Except SelectorFault Selector :=
  match parts text.toList with
  | [[]] => .error .empty
  | [single] => .ok (.name (String.ofList single))
  | [first, last] => .ok (.range (String.ofList first) (String.ofList last))
  | _ => .error .severalRanges

/-- The place of an action among the names. -/
def position (names : List String) (name : String) : Except SelectorFault Nat :=
  match names.idxOf? name with
  | some i => .ok i
  | none => .error (.unknownAction name)

/-- The number of names before the first of a range. -/
def startOf (names : List String) (first : String) : Except SelectorFault Nat :=
  if first.isEmpty then .ok 0 else position names first

/-- The number of names up to the last of a range. -/
def stopOf (names : List String) (last : String) : Except SelectorFault Nat :=
  if last.isEmpty then .ok names.length else (position names last).map (· + 1)

/-- The actions that a selector stands for. -/
def resolve (names : List String) : Selector → Except SelectorFault (List String)
  | .name text => .ok [text]
  | .range first last => do
    let start ← startOf names first
    let stop ← stopOf names last
    pure ((names.take stop).drop start)

/-- The actions that the text of a selector stands for. -/
def resolveText (names : List String) (text : String) : Except Failure (List String) :=
  match (Selector.parse text).bind (resolve names) with
  | .ok selected => .ok selected
  | .error reason => .error (.badSelector text reason)

/-- The actions that several selectors stand for, one selector after the other. -/
def resolveEach (names : List String) : List String → Except Failure (List String)
  | [] => .ok []
  | text :: rest => do
    let selected ← resolveText names text
    let others ← resolveEach names rest
    pure (selected ++ others)

end Selection

/-- The actions that selectors stand for, among these names. -/
def select (names selectors : List String) : Except Failure (List String) :=
  if selectors.isEmpty then .ok names else Selection.resolveEach names selectors

end ScriptRunner
