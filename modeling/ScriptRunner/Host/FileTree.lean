import ScriptRunner.Failure
import ScriptRunner.Path
import ScriptRunner.Text.Utf8

/-!
# ScriptRunner.Host.FileTree

A tree of files, and the operations of the operating system on it.

A place in the tree is the list of names that leads to it from the root. The tree is the
list of its places with what is there. A path is followed name by name: every name but the
last has to lead to a directory that exists, `..` leads back to the directory around, and a
slash at the end asks for a directory.
-/

namespace ScriptRunner

/-- The programs that a machine comes with. -/
inductive Tool
  | echo
  | printf
  | cat
  | tee
  | cp
  | touch
  | mkdir
  | pwd
  | printenv
  | succeed
  | fail
  | sh
  | seq
  | expr
  | basename
  | dirname
  deriving DecidableEq, Repr

namespace Tool

/-- The name of a program. -/
def name : Tool → String
  | echo => "echo"
  | printf => "printf"
  | cat => "cat"
  | tee => "tee"
  | cp => "cp"
  | touch => "touch"
  | mkdir => "mkdir"
  | pwd => "pwd"
  | printenv => "printenv"
  | succeed => "true"
  | fail => "false"
  | sh => "sh"
  | seq => "seq"
  | expr => "expr"
  | basename => "basename"
  | dirname => "dirname"

/-- All programs. -/
def all : List Tool :=
  [echo, printf, cat, tee, cp, touch, mkdir, pwd, printenv, succeed, fail, sh, seq, expr, basename,
    dirname]

end Tool

/-- A place: the names that lead to it from the root. -/
abbrev Place := List String

/-- What can be at a place. -/
inductive FileNode
  | file (content : Bytes) (executable : Bool)
  | directory
  | tool (tool : Tool)
  /-- Takes everything and holds nothing. -/
  | sink
  deriving DecidableEq, Repr

/-- A tree of files. -/
structure FileTree where
  nodes : List (Place × FileNode)
  deriving Repr

namespace FileTree

/-- What is at a place. The root is always a directory. -/
def lookup (t : FileTree) (place : Place) : Option FileNode :=
  if place.isEmpty then some .directory
  else (t.nodes.find? (fun n => n.1 == place)).map Prod.snd

/-- The tree with something put at a place. -/
def put (t : FileTree) (place : Place) (node : FileNode) : FileTree :=
  if t.nodes.any (fun n => n.1 == place) then
    ⟨t.nodes.map (fun n => if n.1 == place then (place, node) else n)⟩
  else ⟨t.nodes ++ [(place, node)]⟩

/-- The tree without what is at a place. -/
def erase (t : FileTree) (place : Place) : FileTree :=
  ⟨t.nodes.filter (fun n => n.1 != place)⟩

/-- The tree without everything below a place. -/
def eraseBelow (t : FileTree) (place : Place) : FileTree :=
  ⟨t.nodes.filter (fun n => !(place.isPrefixOf n.1 && n.1 != place))⟩

/-- The names in a directory, in the order in which they were made. -/
def children (t : FileTree) (place : Place) : List String :=
  t.nodes.filterMap (fun n =>
    if n.1.length = place.length + 1 ∧ place.isPrefixOf n.1 then n.1.getLast? else none)

/-- Everything below a place, by the names that lead there from it. -/
def below (t : FileTree) (place : Place) : List (Place × FileNode) :=
  t.nodes.filterMap (fun n =>
    if place.isPrefixOf n.1 && n.1 != place then some (n.1.drop place.length, n.2) else none)

/-! ## Following paths -/

/-- The longest name of a file, and the length that no path may have, in bytes. -/
def nameLimit : Nat := 255

/-- See `nameLimit`. -/
def pathLimit : Nat := 4096

/-- Follows names from a place. The last one need not lead anywhere. -/
def follow (t : FileTree) (here : Place) : List String → Except Errno Place
  | [] => .ok here
  | name :: rest =>
    match t.lookup here with
    | none => .error .noEntry
    | some .directory =>
      if name = "." then t.follow here rest
      else if name = ".." then t.follow here.dropLast rest
      else if nameLimit < name.utf8ByteSize then .error .nameTooLong
      else t.follow (here ++ [name]) rest
    | some _ => .error .notDirectory

/-- The names of a path. A slash at the end asks for a directory, as a last `.` does. -/
def namesOf (path : Path) : List String :=
  let names := ((Path.splitSlash path.toList).filter (fun n => !n.isEmpty)).map String.ofList
  if path.toList.getLast? == some '/' then names ++ ["."] else names

/-- The place that a path leads to from a directory. -/
def locate (t : FileTree) (cwd : Place) (path : Path) : Except Errno Place :=
  if path.isEmpty then .error .noEntry
  else if pathLimit ≤ path.utf8ByteSize then .error .nameTooLong
  else t.follow (if Path.isAbsolute path then [] else cwd) (namesOf path)

/-- The place that a path leads to, and what is there. -/
def stat (t : FileTree) (cwd : Place) (path : Path) : Except Errno (Place × FileNode) := do
  let place ← t.locate cwd path
  match t.lookup place with
  | some node => .ok (place, node)
  | none => .error .noEntry

/-- Whether a path leads to something. -/
def has (t : FileTree) (cwd : Place) (path : Path) : Bool :=
  (t.stat cwd path).toBool

/-- The directory that a path leads to. -/
def directory? (t : FileTree) (cwd : Place) (path : Path) : Except Errno Place := do
  match ← t.stat cwd path with
  | (place, .directory) => .ok place
  | _ => .error .notDirectory

/-- Whether a path leads to a directory. -/
def isDirectory (t : FileTree) (cwd : Place) (path : Path) : Bool :=
  (t.directory? cwd path).toBool

/-- Whether a path leads to something that is no directory. -/
def isFile (t : FileTree) (cwd : Place) (path : Path) : Bool :=
  match t.stat cwd path with
  | .ok (_, .file _ _) => true
  | .ok (_, .tool _) => true
  | _ => false

/-! ## Files -/

/-- The content of a file. -/
def read (t : FileTree) (cwd : Place) (path : Path) : Except Errno Bytes := do
  match ← t.stat cwd path with
  | (_, .directory) => .error .isDirectory
  | (_, .file content _) => .ok content
  | _ => .ok []

/-- The text of a file. -/
def readText (t : FileTree) (cwd : Place) (path : Path) : Except FileFault String :=
  if path.toList.contains '\x00' then .error .nulInName
  else
    match t.read cwd path with
    | .error e => .error (.refused e)
    | .ok content =>
      match Utf8.decode? content with
      | some text => .ok text
      | none => .error .notText

/-- Writes a file, with `content` in place of what `kept` does not keep of the old one. A new
file is not executable. -/
def writeWith (kept : Bytes → Bytes) (t : FileTree) (cwd : Place) (path : Path)
    (content : Bytes) : Except Errno FileTree := do
  let place ← t.locate cwd path
  match t.lookup place with
  | some .directory => .error .isDirectory
  | some (.file old executable) => .ok (t.put place (.file (kept old ++ content) executable))
  | some .sink => .ok t
  | some (.tool _) => .error .accessDenied
  | none =>
    if path.toList.getLast? == some '/' then .error .isDirectory
    else
      match t.lookup place.dropLast with
      | some .directory => .ok (t.put place (.file content false))
      | some _ => .error .notDirectory
      | none => .error .noEntry

/-- Writes a file anew. -/
def write (t : FileTree) (cwd : Place) (path : Path) (content : Bytes) : Except Errno FileTree :=
  writeWith (fun _ => []) t cwd path content

/-- Writes at the end of a file. -/
def append (t : FileTree) (cwd : Place) (path : Path) (content : Bytes) : Except Errno FileTree :=
  writeWith id t cwd path content

/-! ## Directories -/

/-- A path without slashes at its end. -/
def withoutLastSlashes (path : Path) : Path :=
  if path.toList.all (· == '/') then path
  else String.ofList (Text.dropEndWhile (· == '/') path.toList)

/-- Makes a directory. -/
def makeDirectory (t : FileTree) (cwd : Place) (path : Path) : Except Errno FileTree := do
  let place ← t.locate cwd (withoutLastSlashes path)
  match t.lookup place with
  | some _ => .error .alreadyExists
  | none =>
    match t.lookup place.dropLast with
    | some .directory => .ok (t.put place .directory)
    | some _ => .error .notDirectory
    | none => .error .noEntry

/-- Makes a directory and the missing ones around it. `steps` bounds how many. One that is
there already is fine. What has been made stays, even where the last one is refused. -/
def makeDirectoriesWithin (t : FileTree) (cwd : Place) :
    Nat → Path → FileTree × Except Errno Unit
  | 0, _ => (t, .ok ())
  | steps + 1, path =>
    if path.isEmpty then (t, .ok ())
    else
      match t.makeDirectory cwd path with
      | .ok made => (made, .ok ())
      | .error .noEntry =>
        match Path.parent path with
        | none => (t, .error .noEntry)
        | some around =>
          match t.makeDirectoriesWithin cwd steps around with
          | (made, .error e) => (made, .error e)
          | (made, .ok ()) =>
            match made.makeDirectory cwd path with
            | .ok all => (all, .ok ())
            | .error e => (made, if made.isDirectory cwd path then .ok () else .error e)
      | .error e => (t, if t.isDirectory cwd path then .ok () else .error e)

/-- Makes a directory and the missing ones around it. -/
def makeDirectories (t : FileTree) (cwd : Place) (path : Path) :
    FileTree × Except FileFault Unit :=
  if path.toList.contains '\x00' then (t, .error .nulInName)
  else
    let (made, result) := t.makeDirectoriesWithin cwd ((Path.components path).length + 1) path
    (made, result.mapError FileFault.refused)

/-- Removes the empty directory that a path leads to. -/
def removeEmpty (t : FileTree) (cwd : Place) (path : Path) : Except Errno FileTree := do
  let place ← t.directory? cwd path
  match (namesOf (withoutLastSlashes path)).getLast? with
  | some "." => .error .invalidArgument
  | some ".." => .error .notEmpty
  | _ => .ok (t.erase place)

/-- Removes a directory with everything in it. What was in it is gone even where the
directory itself cannot be removed. -/
def removeAll (t : FileTree) (cwd : Place) (path : Path) : FileTree × Except FileFault Unit :=
  if path.toList.contains '\x00' then (t, .error .nulInName)
  else
    match t.directory? cwd path with
    | .error e => (t, .error (.refused e))
    | .ok place =>
      let emptied := t.eraseBelow place
      match emptied.removeEmpty cwd path with
      | .ok t' => (t', .ok ())
      | .error e => (emptied, .error (.refused e))

end FileTree

end ScriptRunner
