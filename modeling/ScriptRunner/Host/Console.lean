import ScriptRunner.Bindings
import ScriptRunner.Host.FileTree

/-!
# ScriptRunner.Host.Console

What the programs of a machine work on: its files, the input that is left to read, and
what has been printed so far.

Output and errors are kept in one list in the order in which they were printed. A terminal
shows that list as it is, and a pipe for one of the two streams takes its part of it
(`Console.streamed`).
-/

namespace ScriptRunner

/-- The two streams that a program prints to. -/
inductive Stream
  | output
  | errors
  deriving DecidableEq, Repr

/-- What running programs share. -/
structure Console where
  tree : FileTree
  /-- What has not been read yet. -/
  input : Bytes
  /-- What has been printed, the first first. -/
  printed : List (Stream × Bytes)
  /-- The numbers of the standard streams that are a terminal. -/
  terminals : List Nat

/-- A program at work. -/
abbrev Running := StateM Console

/-- How a program was called: its own name, its arguments, and where it runs. -/
structure Call where
  name : String
  args : List String
  env : Env
  cwd : Place

namespace Console

/-- What has been printed to one stream. -/
def streamed (c : Console) (stream : Stream) : Bytes :=
  (c.printed.filter (fun chunk => chunk.1 == stream)).flatMap Prod.snd

/-- What has been printed, to both streams together. -/
def merged (c : Console) : Bytes :=
  c.printed.flatMap Prod.snd

end Console

namespace Running

/-- Prints bytes. -/
def emit (stream : Stream) (bytes : Bytes) : Running Unit :=
  modify (fun c => if bytes.isEmpty then c else { c with printed := c.printed ++ [(stream, bytes)] })

/-- Prints a text. -/
def print (text : String) : Running Unit := emit .output (Utf8.encode text)

/-- Prints a line of complaint. -/
def complain (text : String) : Running Unit := emit .errors (Utf8.encode (text ++ "\n"))

/-- Reads all the input that is left. -/
def readInput : Running Bytes :=
  modifyGet (fun c => (c.input, { c with input := [] }))

/-- The files. -/
def files : Running FileTree := return (← get).tree

/-- Changes the files, or says why not. -/
def changeFiles (f : FileTree → Except Errno FileTree) : Running (Option Errno) := do
  match f (← files) with
  | .ok tree =>
    modify (fun c => { c with tree := tree })
    return none
  | .error e => return some e

end Running

/-- A text in the quotes that complaints put around operands. -/
def quoted (text : String) : String := "'" ++ text ++ "'"

namespace Call

/-- Complains under the program's own name. -/
def complain (call : Call) (text : String) : Running Unit :=
  Running.complain (call.name ++ ": " ++ text)

/-- Complains about the way of calling. -/
def misused (call : Call) (text : String) : Running Exit := do
  call.complain text
  Running.complain ("Try '" ++ call.name ++ " --help' for more information.")
  return Exit.ofCode 1

/-- The exit of a program that has done all, or all but something, of its work. -/
def exitOf (clean : Bool) : Exit := if clean then Exit.success else Exit.ofCode 1

end Call

end ScriptRunner
