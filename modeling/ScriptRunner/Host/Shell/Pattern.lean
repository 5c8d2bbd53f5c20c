import ScriptRunner.Host.Console

/-!
# ScriptRunner.Host.Shell.Pattern

Patterns of file names, and the fields that an expanded word comes to.

An expanded word is a list of marks. Quoted characters are kept as they are; the others
may separate fields and may stand for other characters in a pattern.
-/

namespace ScriptRunner.Shell

/-- A part of an expanded word. -/
inductive Mark
  | char (kept : Bool) (c : Char)
  /-- Quotes around nothing: there is a field, even if it stays empty. -/
  | nothing
  /-- The end of a field. -/
  | separator
  deriving DecidableEq

/-- A field: characters, and which of them are kept as they are. -/
abbrev Field := List (Bool × Char)

namespace Field

/-- The text of a field. -/
def text (f : Field) : String := String.ofList (f.map Prod.snd)

/-- The blanks that separate fields. -/
def isSeparator (c : Char) : Bool := c == ' ' || c == '\t' || c == '\n'

/-- The fields of marks, given the field so far, if there is one. -/
def split (current : Option Field) : List Mark → List Field
  | [] => current.toList
  | .separator :: rest => current.toList ++ split none rest
  | .nothing :: rest => split (some (current.getD [])) rest
  | .char kept c :: rest =>
    if !kept && isSeparator c then current.toList ++ split none rest
    else split (some (current.getD [] ++ [(kept, c)])) rest

/-- All marks as one field. -/
def ofMarks (marks : List Mark) : Field :=
  marks.filterMap (fun m =>
    match m with
    | .char kept c => some (kept, c)
    | .nothing => none
    | .separator => some (true, ' '))

/-- Whether a field has characters that stand for others. -/
def isPattern (f : Field) : Bool := f.any (fun m => !m.1 && ['*', '?', '['].contains m.2)

end Field

/-! ## Patterns -/

/-- What one part of a pattern stands for. -/
inductive Item
  | star
  | any
  | oneOf (negated : Bool) (ranges : List (Char × Char))
  | exactly (c : Char)

namespace Item

/-- The ranges of a set in brackets, up to its end, and the rest. -/
def ranges : Field → Option (List (Char × Char) × Field)
  | [] => none
  | (false, ']') :: rest => some ([], rest)
  | (_, a) :: (false, '-') :: (kept, b) :: rest =>
    if !kept && b == ']' then some ([(a, a), ('-', '-')], rest)
    else (ranges rest).map (fun r => ((a, b) :: r.1, r.2))
  | (_, a) :: rest => (ranges rest).map (fun r => ((a, a) :: r.1, r.2))

/-- The items of a field. `steps` bounds their number. -/
def ofFieldWithin : Nat → Field → List Item
  | 0, _ => []
  | _, [] => []
  | steps + 1, (false, '*') :: rest => .star :: ofFieldWithin steps rest
  | steps + 1, (false, '?') :: rest => .any :: ofFieldWithin steps rest
  | steps + 1, (false, '[') :: rest =>
    let negated := rest.head?.any (fun m => !m.1 && (m.2 == '!' || m.2 == '^'))
    match ranges (if negated then rest.tail else rest) with
    | some (set, after) => .oneOf negated set :: ofFieldWithin steps after
    | none => .exactly '[' :: ofFieldWithin steps rest
  | steps + 1, (_, c) :: rest => .exactly c :: ofFieldWithin steps rest

/-- The items of a field. -/
def ofField (f : Field) : List Item := ofFieldWithin f.length f

/-- Whether an item other than a star stands for a character. -/
def accepts (c : Char) : Item → Bool
  | star => false
  | any => true
  | oneOf negated set => set.any (fun r => r.1 ≤ c && c ≤ r.2) != negated
  | exactly d => c == d

/-- Whether items stand for a text. -/
def matchAll : List Item → List Char → Bool
  | [], text => text.isEmpty
  | .star :: items, text =>
    (List.range (text.length + 1)).any (fun n => matchAll items (text.drop n))
  | item :: items, c :: text => item.accepts c && matchAll items text
  | _ :: _, [] => false

end Item

/-! ## Names that match -/

/-- A field between its slashes. -/
def Field.components : Field → List Field
  | [] => [[]]
  | (kept, c) :: rest =>
    if c = '/' then [] :: components rest
    else
      match components rest with
      | [] => [[(kept, c)]]
      | piece :: pieces => ((kept, c) :: piece) :: pieces

/-- The paths that a pattern stands for, given the path of the components before it. -/
def pathsMatching (t : FileTree) (cwd : Place) (before : String) : List Field → List String
  | [] => []
  | component :: rest =>
    let here := if before.isEmpty then "." else before
    let names :=
      if component.isPattern then
        match t.directory? cwd here with
        | .error _ => []
        | .ok place =>
          ((t.children place).filter (fun name =>
            (name.toList.head? != some '.' || component.head? == some (false, '.')) &&
              Item.matchAll (Item.ofField component) name.toList)).mergeSort
            (fun a b => !nameLt b a)
      else if component.isEmpty || t.has cwd (before ++ component.text) then [component.text]
      else []
    names.flatMap (fun name =>
      if rest.isEmpty then [before ++ name]
      else pathsMatching t cwd (before ++ name ++ "/") rest)

/-- What a field comes to: the paths it stands for if it is a pattern and there are any, else
its own text. -/
def Field.words (t : FileTree) (cwd : Place) (f : Field) : List String :=
  if f.isPattern then
    match pathsMatching t cwd "" f.components with
    | [] => [f.text]
    | paths => paths
  else [f.text]

end ScriptRunner.Shell
