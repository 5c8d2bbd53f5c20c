import ScriptRunner.Host.Tool.Calculate
import ScriptRunner.Host.Tool.Files

/-!
# ScriptRunner.Host.Image

What executing a file comes to, and where programs are searched.

A script names its interpreter in its first line, after `#!`; the interpreter may be a
script itself. A file that can be executed and is of no known format is refused; programs
that start others may then hand it to `sh`.
-/

namespace ScriptRunner

/-- What a file to be executed holds. -/
inductive Image
  /-- A program of the machine, the name it is called by, and its arguments. -/
  | tool (tool : Tool) (name : String) (args : List String)
  /-- A file without a format, and the arguments it was called with. -/
  | plain (file : Path) (args : List String)

namespace Image

/-- How many interpreters of interpreters are followed. -/
def interpreterLimit : Nat := 5

/-- The interpreter that a first line names, and the argument it is given. -/
def interpreter? (content : Bytes) : Option (Path × List String) :=
  match content with
  | 35 :: 33 :: rest =>
    let isSpace := fun (b : UInt8) => b == 32 || b == 9
    let line := (rest.takeWhile (· != 10)).dropWhile isSpace
    let argument := ((line.dropWhile (fun b => !isSpace b)).dropWhile isSpace).reverse.dropWhile isSpace
    some (Utf8.decodeLossy (line.takeWhile (fun b => !isSpace b)),
      if argument.isEmpty then [] else [Utf8.decodeLossy argument.reverse])
  | _ => none

/-- What executing the file at a path comes to. -/
def ofFileWithin (t : FileTree) (cwd : Place) :
    Nat → Path → String → List String → Except Errno Image
  | 0, _, _, _ => .error .tooManyLinks
  | depth + 1, path, name, args => do
    match ← t.stat cwd path with
    | (_, .tool found) => .ok (.tool found name args)
    | (_, .file content true) =>
      match interpreter? content with
      | some (interpreter, argument) =>
        if interpreter.isEmpty then .error .notExecutableFormat
        else ofFileWithin t cwd depth interpreter interpreter (argument ++ path :: args)
      | none => .ok (.plain path args)
    | _ => .error .accessDenied

/-- What executing the file at a path comes to, when it is called by a name. -/
def ofFile (t : FileTree) (cwd : Place) (path : Path) (name : String) (args : List String) :
    Except Errno Image :=
  ofFileWithin t cwd interpreterLimit path name args

/-- The place of the program that takes files without a format. -/
def scriptInterpreter : Path := "/bin/sh"

/-- The image of a file without a format that `sh` takes. -/
def scriptOf (file : Path) (args : List String) : Image :=
  .tool .sh scriptInterpreter (file :: args)

end Image

/-! ## The search path -/

namespace SearchPath

/-- The directories of a search path, in order. An empty one is the current directory. -/
def directories (path : String) : List Path :=
  go [] path.toList
where
  go (current : List Char) : List Char → List Path
    | [] => [String.ofList current]
    | c :: rest =>
      if c = ':' then String.ofList current :: go [] rest else go (current ++ [c]) rest

/-- The paths at which a name is searched. -/
def candidates (path name : String) : List Path :=
  (directories path).map (fun d => Path.join d name)

end SearchPath

/-! ## Running a tool -/

/-- Runs a program of the machine, where `shell` is what `sh` does. -/
def Tool.runWith (shell : Call → Running Exit) (tool : Tool) (call : Call) : Running Exit :=
  match tool with
  | .echo => Echo.run call
  | .printf => Printf.run call
  | .cat => FileTools.cat call
  | .tee => FileTools.tee call
  | .cp => FileTools.cp call
  | .touch => FileTools.touch call
  | .mkdir => FileTools.mkdir call
  | .pwd => FileTools.pwd call
  | .printenv => FileTools.printenv call
  | .succeed => return Exit.success
  | .fail => return Exit.ofCode 1
  | .sh => shell call
  | .seq => Counting.run call
  | .expr => Expression.run call
  | .basename => PathText.runBaseName call
  | .dirname => PathText.runDirectoryName call

end ScriptRunner
