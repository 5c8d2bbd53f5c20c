import ScriptRunner.Effect
import ScriptRunner.Host.Shell.Run

/-!
# ScriptRunner.Host.Machine

A machine held in memory: a tree of files with programs in it, and the ways in which a
session starts them.

* A command without an input runs on a terminal (`onTerminal`). The terminal shows output
  and errors as one stream and writes every line feed as a line break. If the directory of
  the session does not exist, the program runs in the home directory.
* A command with an input runs on pipes (`onPipes`), in a directory that has to exist.
* A command substitution runs with an empty input, and its output and errors are kept
  (`captured`).

Before either kind of command the program is looked for (`finds`), so that a command that
does not exist is told from one that cannot be started. A command substitution just tries.

Left out are time and the size of a terminal. A program runs to its end at once, and what it
prints is reported as one piece; a launcher in general may cut it as it likes.
-/

namespace ScriptRunner

/-- A machine: its files, and the directory that relative paths are seen from. -/
structure Machine where
  tree : FileTree
  here : Place

namespace Machine

/-! ## The machine at its start -/

/-- The directories with programs. -/
def programDirectories : List Place := [["bin"], ["usr", "bin"]]

/-- The directories that hold nothing yet. -/
def emptyDirectories : List Place :=
  [["dev"], ["etc"], ["home"], ["root"], ["tmp"], ["usr", "local"], ["usr", "local", "bin"],
    ["var"], ["var", "tmp"]]

/-- The files of a new machine. -/
def standardTree : FileTree :=
  ⟨[(["usr"], FileNode.directory), (["bin"], .directory), (["usr", "bin"], .directory)] ++
    emptyDirectories.map (fun place => (place, FileNode.directory)) ++
    [(["dev", "null"], .sink)] ++
    programDirectories.flatMap (fun place =>
      Tool.all.map (fun tool => (place ++ [tool.name], FileNode.tool tool)))⟩

/-- A new machine. -/
def standard : Machine := ⟨standardTree, []⟩

/-- The shell and the home directory of a user without others. -/
def defaultShell : String := "/bin/bash"

/-- See `defaultShell`. -/
def defaultHome : String := "/root"

/-! ## Running programs -/

/-- How deep running may go. -/
def depth : Nat := 10000

/-- Runs what executing a file comes to, and gives what was printed. -/
def execute (m : Machine) (image : Image) (env : Env) (cwd : Place) (input : Bytes)
    (terminals : List Nat) : Machine × Console × Exit :=
  let (exit, console) := (Shell.runImage depth env cwd image).run ⟨m.tree, input, [], terminals⟩
  ({ m with tree := console.tree }, console, exit)

/-- Whether a text contains a NUL character. -/
def hasNul (text : String) : Bool := text.toList.contains '\x00'

/-- Whether some part of a request contains a NUL character. -/
def requestHasNul (i : Invocation) : Bool :=
  i.argv.any hasNul || hasNul i.cwd || i.env.toList.any (fun b => hasNul b.1 || hasNul b.2)

/-- What a path in a directory names, if a program is wanted. A file without a format is
handed to `sh` if `scripts` says so. -/
def imageAt (m : Machine) (scripts : Bool) (cwd : Place) (path : Path) (name : String)
    (args : List String) : Except Errno Image := do
  match ← Image.ofFile m.tree cwd path name args with
  | .plain file args => if scripts then .ok (Image.scriptOf file args) else .error .notExecutableFormat
  | image => .ok image

/-- The first program of paths. A refused one does not end the search, but is the reason
when nothing better is found. -/
def firstImage (m : Machine) (cwd : Place) (name : String) (args : List String) (reason : Errno) :
    List Path → Except Errno Image
  | [] => .error reason
  | path :: rest =>
    match m.imageAt true cwd path name args with
    | .ok image => .ok image
    | .error .accessDenied => m.firstImage cwd name args .accessDenied rest
    | .error .noEntry => m.firstImage cwd name args (kept .noEntry) rest
    | .error .notDirectory => m.firstImage cwd name args (kept .notDirectory) rest
    | .error e => .error e
where
  kept (e : Errno) : Errno := if reason = .accessDenied then reason else e

/-- Where programs are searched without a search path. -/
def fallbackSearchPath : String := "/bin:/usr/bin"

/-- What a request on pipes runs, and where. -/
def imageOf (m : Machine) (i : Invocation) : Except LaunchFault (Image × Place) :=
  if requestHasNul i then .error .nulCharacter
  else
    match m.tree.directory? m.here i.cwd with
    | .error e => .error (.refused e)
    | .ok cwd =>
      let image :=
        if i.program.toList.contains '/' then m.imageAt false cwd i.program i.program i.args
        else if i.program.isEmpty then .error .noEntry
        else
          m.firstImage cwd i.program i.args .noEntry
            (SearchPath.candidates ((i.env.lookup "PATH").getD fallbackSearchPath) i.program)
      match image with
      | .ok image => .ok (image, cwd)
      | .error e => .error (.refused e)

/-! ## Commands -/

/-- Whether there is a program for a command. -/
def finds (m : Machine) (i : Invocation) : Bool :=
  if i.program.toList.contains '/' then
    !hasNul i.program && m.tree.has m.here (Path.join i.cwd i.program)
  else
    match i.env.lookup "PATH" with
    | none => false
    | some search =>
      (SearchPath.directories search).any (fun d =>
        let file := Path.join (Path.join i.cwd d) i.program
        !hasNul file && m.tree.isFile m.here file)

/-- Whether the file at a path can be executed. -/
def canExecute (m : Machine) (path : Path) : Bool :=
  match m.tree.stat m.here path with
  | .ok (_, .tool _) => true
  | .ok (_, .file _ executable) => executable
  | .ok (_, .directory) => true
  | _ => false

/-- Whether a path is relative to a directory by its first component. -/
def isExplicitlyRelative (path : Path) : Bool :=
  path = "." || path = ".." || path.startsWith "./" || path.startsWith "../"

/-- The program of a path, or what is there instead. -/
def fileAt (m : Machine) (path : Path) : Except LaunchFault Path :=
  if m.tree.isDirectory m.here path then .error (.isDirectory path)
  else if m.canExecute path then .ok path
  else if m.tree.has m.here path then .error (.notExecutable path)
  else .error (.absent path)

/-- The file that a terminal command runs. Only a program without directories in its name,
or with some that are not relative to the current one, is searched. -/
def resolve (m : Machine) (i : Invocation) (directory : Path) : Except LaunchFault Path :=
  if Path.isAbsolute i.program then m.fileAt i.program
  else if isExplicitlyRelative i.program then m.fileAt (Path.join directory i.program)
  else
    match i.env.lookup "PATH" with
    | none => .error (.noCandidate i.program [] none)
    | some search =>
      let tried := (SearchPath.directories search).map (fun d =>
        m.fileAt (Path.join (Path.join directory d) i.program))
      match tried.findSome? Except.toOption with
      | some file => .ok file
      | none =>
        let found := tried.filterMap (fun r =>
          match r with
          | .error (.absent _) => none
          | .error fault => some fault
          | .ok _ => none)
        .error (.noCandidate i.program found (some search))

/-- The environment of a program on a terminal. -/
def terminalEnv (l : Launch) : Env :=
  let env := l.env.bind "TERM" l.term.name
  if (env.lookup "SHELL").isSome then env else env.bind "SHELL" defaultShell

/-- Bytes as a terminal shows them. -/
def shownBytes (bytes : Bytes) : Bytes :=
  bytes.flatMap (fun b => if b == 10 then Pipe.lineBreak else [b])

/-- What a terminal command runs, and where. -/
def terminalImage (m : Machine) (l : Launch) : Except LaunchFault (Image × Place) := do
  let directory :=
    if m.tree.isDirectory m.here l.cwd then l.cwd else (l.env.lookup "HOME").getD defaultHome
  let file ← m.resolve l.toInvocation directory
  if requestHasNul l.toInvocation then .error .nulCharacter
  else
    match m.tree.directory? m.here directory with
    | .error e => .error (.refused e)
    | .ok cwd =>
      match m.imageAt true cwd file l.program l.args with
      | .error e => .error (.refused e)
      | .ok image => .ok (image, cwd)

/-- Reports what a program printed, if it printed anything. -/
def reportOutput (bytes : Bytes) : Effect Machine Unit :=
  if bytes.isEmpty then pure () else Effect.report (.data bytes)

/-- Runs a program and gives what it printed. -/
def perform (image : Image) (env : Env) (cwd : Place) (input : Bytes) (terminals : List Nat) :
    Effect Machine (Console × Exit) :=
  Effect.modifyGet (fun m =>
    let (m', console, exit) := m.execute image env cwd input terminals
    ((console, exit), m'))

/-- Runs a command on a terminal. -/
def onTerminal (l : Launch) : Effect Machine (Except Failure Exit) := do
  match (← Effect.get).terminalImage l with
  | .error fault => pure (.error (.launch l.program fault false))
  | .ok (image, cwd) =>
    let (console, exit) ← perform image (terminalEnv l) cwd [] [0, 1, 2]
    reportOutput (shownBytes console.merged)
    pure exit.toResult

/-- Runs a command on pipes, with an input. -/
def onPipes (l : Launch) (input : String) : Effect Machine (Except Failure Exit) := do
  match (← Effect.get).imageOf l.toInvocation with
  | .error fault =>
    let missing := match fault with
      | .refused .noEntry => true
      | _ => false
    pure (.error (.launch l.program fault missing))
  | .ok (image, cwd) =>
    let (console, exit) ← perform image l.env cwd (Utf8.encode input) []
    reportOutput console.merged
    pure exit.toResult

/-- Runs a command of a session. -/
def start (l : Launch) : Effect Machine (Except Failure Exit) := do
  if (← Effect.get).finds l.toInvocation then
    match l.input with
    | none => onTerminal l
    | some input => onPipes l input
  else pure (.error (.launch l.program .commandNotFound true))

/-- Runs a program of a command substitution. -/
def captured (i : Invocation) : Effect Machine (Except LaunchFault Printed) := do
  match (← Effect.get).imageOf i with
  | .error fault => pure (.error fault)
  | .ok (image, cwd) =>
    let (console, exit) ← perform image i.env cwd [] []
    pure (.ok ⟨console.streamed .output, console.streamed .errors, exit⟩)

/-! ## Files -/

/-- The text of a file. -/
def readText (path : Path) : Effect Machine (Except FileFault String) := do
  let m ← Effect.get
  pure (m.tree.readText m.here path)

/-- Removes a directory with everything in it. -/
def removeTree (path : Path) : Effect Machine (Except FileFault Unit) :=
  Effect.modifyGet (fun m =>
    let (tree, result) := m.tree.removeAll m.here path
    (result, { m with tree := tree }))

/-- Makes a directory and the missing ones around it. -/
def makeDirectories (path : Path) : Effect Machine (Except FileFault Unit) :=
  Effect.modifyGet (fun m =>
    let (tree, result) := m.tree.makeDirectories m.here path
    (result, { m with tree := tree }))

/-- Writes at the end of a file, which is made if it is missing. -/
def appendText (path : Path) (text : String) : Effect Machine (Except FileFault Unit) :=
  Effect.modifyGet (fun m =>
    if hasNul path then (.error .nulInName, m)
    else
      match m.tree.append m.here path (Utf8.encode text) with
      | .ok tree => (.ok (), { m with tree := tree })
      | .error e => (.error (.refused e), m))

/-- The machine as the world of sessions and batches. -/
def host : Host Machine where
  start := start
  capture := captured
  readText := readText
  appendText := appendText
  removeTree := removeTree
  makeDirectories := makeDirectories

end Machine

end ScriptRunner
