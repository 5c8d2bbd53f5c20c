import ScriptRunner.Text.Blank

/-!
# ScriptRunner.Path

File paths as texts, and what can be said about them without a file system: joining,
components, and the lexical resolution of `.` and `..`.

A path is absolute when it starts with a slash. Its components are what stands
between the slashes; empty ones and `.` mean nothing and are skipped, except that a
relative path may start with `.`.
-/

namespace ScriptRunner

/-- A file path. -/
abbrev Path := String

namespace Path

/-- The pieces of a text between slashes, empty ones included. -/
def splitSlash : List Char → List (List Char)
  | [] => [[]]
  | c :: rest =>
    if c = '/' then [] :: splitSlash rest
    else
      match splitSlash rest with
      | [] => [[c]]
      | piece :: pieces => (c :: piece) :: pieces

/-- Whether the path starts at the root. -/
def isAbsolute (path : Path) : Bool :=
  path.toList.head? == some '/'

/-- The names between the slashes, without empty ones and `.`. A `..` stays. -/
def components (path : Path) : List String :=
  ((splitSlash path.toList).map String.ofList).filter (fun name => name != "" && name != ".")

/-- `target` as seen from `base`: an absolute target stands alone. -/
def join (base target : Path) : Path :=
  if isAbsolute target then target
  else if base.isEmpty then target
  else if base.toList.getLast? == some '/' then base ++ target
  else base ++ "/" ++ target

/-- The path with these components. -/
def ofComponents (absolute : Bool) (names : List String) : Path :=
  (if absolute then "/" else "") ++ "/".intercalate names

/-- One component read on top of the directories walked so far, the innermost first:
`..` leaves the innermost, and does nothing where there is none. -/
def climb (stack : List String) (name : String) : List String :=
  if name = ".." then stack.tail else name :: stack

/-- The path with `.` and `..` resolved by their text alone. At the root, and where a
relative path has nothing left to leave, `..` does nothing. -/
def normalize (path : Path) : Path :=
  ofComponents (isAbsolute path) ((components path).foldl climb []).reverse

/-- The last component, unless the path ends in `..` or has none. -/
def fileName (path : Path) : Option String :=
  match (components path).getLast? with
  | some name => if name = ".." then none else some name
  | none => none

/-- The part of a file name after its last dot. A name that only starts with a dot, or
has none, has no extension. -/
def extension (path : Path) : Option String :=
  match fileName path with
  | none => none
  | some name =>
    let tail := name.toList.reverse.takeWhile (· != '.')
    if tail.length + 1 < name.toList.length then some (String.ofList tail.reverse) else none

/-- The path without its last component; `none` at the root and for the empty path. -/
def parent (path : Path) : Option Path :=
  match components path with
  | [] => none
  | names => some (ofComponents (isAbsolute path) names.dropLast)

/-- A leading `~`, alone or before a slash, stands for the home directory. Without a home
directory the text stays as it is. -/
def expandTilde (home : Option String) (path : Path) : Path :=
  match path.toList with
  | '~' :: rest =>
    match rest with
    | [] => home.getD path
    | '/' :: _ =>
      match home with
      | some dir => dir ++ String.ofList rest
      | none => path
    | _ => path
  | _ => path

end Path

end ScriptRunner
