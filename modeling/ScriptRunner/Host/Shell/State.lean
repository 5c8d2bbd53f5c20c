import ScriptRunner.Host.Image
import ScriptRunner.Host.Shell.Pattern
import ScriptRunner.Host.Shell.Syntax
import ScriptRunner.Host.Signal

/-!
# ScriptRunner.Host.Shell.State

What a run of `sh` remembers, and its commands that need nothing else: those that change
its variables and its directory, print, test, or end it.
-/

namespace ScriptRunner.Shell

/-- A run of `sh`. -/
structure State where
  /-- What complaints start with. -/
  name : String
  params : List String
  vars : Env
  /-- The variables that programs see. -/
  exported : List String
  cwd : Place
  /-- The line of the command that runs. -/
  line : Nat
  /-- The exit code of the last command. -/
  status : Nat
  /-- The end of the run, once it is decided. -/
  ended : Option Exit
  /-- How many loops are to be left, and whether the last of them goes on. -/
  leaving : Nat
  goesOn : Bool
  /-- Whether the function at work is to be left. -/
  returning : Bool
  functions : List (String × Command)
  /-- The values that the variables of the function at work had before. -/
  locals : Option (List (String × Option String))
  /-- What to run at a signal, by its name, or at the end, by the name `EXIT`. -/
  traps : List (String × String)
  /-- What signals have asked to be run, and has not been. -/
  pending : List String
  /-- The letters of the options that are on. -/
  options : List Char
  /-- Whether a command that fails is part of a condition, and ends nothing. -/
  tested : Bool

/-- A command at work. -/
abbrev Work := StateT State Running

/-- The number of the shell's process. -/
def processNumber : String := "100"

namespace State

/-- The environment of programs. -/
def environment (s : State) : Env :=
  Bindings.ofList (s.vars.toList.filter (fun b => s.exported.contains b.1))

/-- Whether the next command is not to run. -/
def isStopped (s : State) : Bool := s.ended.isSome || s.leaving != 0 || s.returning

/-- The value of a parameter. -/
def value? (s : State) (name : String) : Option String :=
  match name with
  | "?" => some (toString s.status)
  | "#" => some (toString s.params.length)
  | "@" => if s.params.isEmpty then none else some (joinBySpace s.params)
  | "*" => if s.params.isEmpty then none else some (joinBySpace s.params)
  | "$" => some processNumber
  | "0" => some s.name
  | "-" => some (String.ofList s.options)
  | "!" => some ""
  | name =>
    match integer? name with
    | some n => s.params[n.toNat - 1]?
    | none => s.vars.lookup name

/-- The state with a variable bound. -/
def bind (s : State) (name value : String) : State := { s with vars := s.vars.bind name value }

/-- The state with a variable bound, or unbound. -/
def restore (s : State) (name : String) : Option String → State
  | some value => s.bind name value
  | none =>
    { s with vars := Bindings.ofList (s.vars.toList.filter (fun b => b.1 != name)) }

/-- The state with a variable that programs see. -/
def publish (s : State) (name : String) : State :=
  if s.exported.contains name then s else { s with exported := s.exported ++ [name] }

end State

/-- Complains under the shell's name and the number of the line. -/
def complain (text : String) : Work Unit := do
  let s ← get
  Running.complain (s.name ++ ": " ++ toString s.line ++ ": " ++ text)

/-- Sets the exit code. -/
def setStatus (status : Nat) : Work Unit := modify (fun s => { s with status := status })

/-- Complains, and sets the exit code. -/
def fail (status : Nat) (text : String) : Work Unit := do
  complain text
  setStatus status

/-- Ends the shell. -/
def finish (exit : Exit) : Work Unit :=
  modify (fun s => { s with ended := some exit, status := (exit.code % 256).toNat })

/-- A number of an argument that has to be one. -/
def number? (command text : String) : Work (Option Nat) := do
  match (integer? text).filter (0 ≤ ·) with
  | some n => return some n.toNat
  | none =>
    fail 2 (command ++ ": Illegal number: " ++ text)
    finish (Exit.ofCode 2)
    return none

/-! ## test -/

namespace Test

/-- A test of one operand, on a console and in a directory. -/
def unary (c : Console) (cwd : Place) (operator operand : String) : Option Bool :=
  let t := c.tree
  match operator with
  | "-t" => (integer? operand).map (fun n => c.terminals.contains n.toNat)
  | "-h" => some false
  | "-L" => some false
  | "-p" => some false
  | "-n" => some (!operand.isEmpty)
  | "-z" => some operand.isEmpty
  | "-e" => some (t.has cwd operand)
  | "-f" => some (t.isFile cwd operand)
  | "-d" => some (t.isDirectory cwd operand)
  | "-r" => some (t.has cwd operand)
  | "-w" => some (t.has cwd operand)
  | "-x" =>
    some (match t.stat cwd operand with
      | .ok (_, .directory) => true
      | .ok (_, .tool _) => true
      | .ok (_, .file _ executable) => executable
      | _ => false)
  | "-s" =>
    some (match t.stat cwd operand with
      | .ok (_, .file content _) => !content.isEmpty
      | .ok _ => true
      | .error _ => false)
  | _ => none

/-- A test of two operands. -/
def binary (a operator b : String) : Option Bool :=
  let numbers := fun (f : Int → Int → Bool) =>
    match integer? a, integer? b with
    | some x, some y => some (f x y)
    | _, _ => none
  match operator with
  | "=" => some (a == b)
  | "!=" => some (a != b)
  | "<" => some (decide (nameLt a b))
  | ">" => some (decide (nameLt b a))
  | "-eq" => numbers (fun x y => x == y)
  | "-ne" => numbers (fun x y => x != y)
  | "-lt" => numbers (fun x y => x < y)
  | "-le" => numbers (fun x y => x ≤ y)
  | "-gt" => numbers (fun x y => x > y)
  | "-ge" => numbers (fun x y => x ≥ y)
  | _ => none

/-- The result of a test, if it is one. `-o` joins tests more weakly than `-a`. -/
def evaluateWithin (c : Console) (cwd : Place) : Nat → List String → Option Bool
  | 0, _ => none
  | steps + 1, args =>
    match args with
    | [] => some false
    | [a] => some (!a.isEmpty)
    | ["!", a] => some a.isEmpty
    | [operator, a] => unary c cwd operator a
    | [a, operator, b] =>
      match binary a operator b with
      | some result => some result
      | none =>
        if a = "!" then (evaluateWithin c cwd steps [operator, b]).map (!·)
        else joined steps args
    | _ => joined steps args
where
  joined (steps : Nat) (args : List String) : Option Bool :=
    let around := fun (operator : String) =>
      (args.takeWhile (· != operator), (args.dropWhile (· != operator)).tail)
    if args.contains "-o" then
      let (first, second) := around "-o"
      match evaluateWithin c cwd steps first, evaluateWithin c cwd steps second with
      | some a, some b => some (a || b)
      | _, _ => none
    else if args.contains "-a" then
      let (first, second) := around "-a"
      match evaluateWithin c cwd steps first, evaluateWithin c cwd steps second with
      | some a, some b => some (a && b)
      | _, _ => none
    else if args.head? == some "!" then (evaluateWithin c cwd steps args.tail).map (!·)
    else none

/-- The operand among the arguments of a test that should be a number and is none. -/
def illegalNumber? : List String → Option String
  | [] => none
  | [operator, a] => if operator = "-t" ∧ (integer? a).isNone then some a else none
  | [a, operator, b] =>
    if ["-eq", "-ne", "-lt", "-le", "-gt", "-ge"].contains operator then
      [a, b].find? (fun text => (integer? text).isNone)
    else none
  | _ :: rest => illegalNumber? rest

/-- The command `test`, under the name it is called by. -/
def run (name : String) (args : List String) : Work Unit := do
  let s ← get
  match evaluateWithin (← (getThe Console : Running Console)) s.cwd (args.length + 1) args with
  | some true => setStatus 0
  | some false => setStatus 1
  | none =>
    match illegalNumber? args with
    | some text => fail 2 (name ++ ": Illegal number: " ++ text)
    | none => fail 2 (name ++ ": " ++ args.headD "" ++ ": unexpected operator")

end Test

/-! ## Commands of the shell itself -/

/-- The path of the shell's directory. -/
def currentPath (s : State) : Path := (s.value? "PWD").getD (FileTools.pathOf s.cwd)

/-- The command `cd`. -/
def changeTo (args : List String) : Work Unit := do
  let s ← get
  let target :=
    match args with
    | [] => (s.value? "HOME").getD ""
    | "-" :: _ => (s.value? "OLDPWD").getD ""
    | target :: _ => target
  let path := Path.normalize (Path.join (currentPath s) target)
  match (← Running.files).directory? s.cwd path with
  | .error _ => fail 2 ("cd: can't cd to " ++ target)
  | .ok place =>
    set (((({ s with cwd := place }.bind "OLDPWD" (currentPath s)).publish "OLDPWD").bind "PWD"
      path).publish "PWD")
    if args.head? == some "-" then Running.print (path ++ "\n")
    setStatus 0

/-- Names with or without values, as `export` takes them. -/
def exportAll (args : List String) : Work Unit := do
  for arg in args do
    let name := String.ofList (arg.toList.takeWhile (· != '='))
    if arg.toList.contains '=' then
      let value := String.ofList ((arg.toList.dropWhile (· != '=')).drop 1)
      modify (fun s => s.bind name value)
    modify (fun s => s.publish name)
  setStatus 0

/-- The name of the end of the shell, where a trap may be set as at a signal. -/
def endName : String := "EXIT"

/-- The command `trap`: an action, or a dash for none, and signals. -/
def setTraps (args : List String) : Work Unit := do
  match args with
  | [] => setStatus 0
  | action :: texts =>
    for text in texts do
      let name :=
        if text = endName ∨ text = "0" then some endName else (Signal.ofText? text).map Signal.name
      match name with
      | none => fail 1 ("trap: " ++ text ++ ": bad trap")
      | some name =>
        let others := (← get).traps.filter (fun t => t.1 != name)
        modify (fun s => { s with
          traps := if action = "-" then others else (name, action) :: others
          status := 0 })

/-- Sends the shell a signal, which ends it unless a trap is set. -/
def receive (signal : Signal) : Work Unit := do
  let action? := (← get).traps.lookup signal.name
  match action?.filter (fun _ => signal.name != "KILL") with
  | none => finish signal.exit
  | some action =>
    modify (fun s => { s with
      pending := if action.isEmpty then s.pending else s.pending ++ [action]
      status := 0 })

/-- The command `kill`. Only the shell itself can be meant. -/
def kill (args : List String) : Work Unit := do
  let (signal, targets) :=
    match args with
    | "-s" :: name :: rest => (name, rest)
    | arg :: rest =>
      if arg.startsWith "-" then (String.ofList (arg.toList.drop 1), rest) else ("TERM", arg :: rest)
    | [] => ("TERM", [])
  let harmless := signal = "0" || Signal.isHarmless signal
  match Signal.ofText? signal with
  | none =>
    if args.head? = some "-s" && !harmless then
      fail 2 ("kill: invalid signal number or name: " ++ signal)
    else if !harmless then fail 2 ("kill: Illegal option -" ++ String.ofList (signal.toList.take 1))
    else if targets = [processNumber] then setStatus 0
    else fail 1 "kill: No such process\n"
  | some found =>
    match targets.find? (fun target => target.toNat?.isNone) with
    | some target => fail 2 ("kill: Illegal number: " ++ target)
    | none =>
      if targets = [processNumber] then receive found
      else if targets.isEmpty then
        fail 2 ("kill: Usage: kill [-s sigspec | -signum | -sigspec] [pid | job]... or\n" ++
          "kill -l [exitstatus]")
      else fail 1 "kill: No such process\n"

/-- The command `read`: one line of the input, divided among variables. -/
def readLine (names : List String) : Work Unit := do
  let names := names.filter (fun n => !n.startsWith "-")
  let c ← (getThe Console : Running Console)
  let line := c.input.takeWhile (· != 10)
  let rest := c.input.dropWhile (· != 10)
  (set ({ c with input := rest.tail } : Console) : Running Unit)
  assign names ((Utf8.decodeLossy line).toList.dropWhile Field.isSeparator)
  setStatus (if rest.isEmpty then 1 else 0)
where
  assign : List String → List Char → Work Unit
    | [], _ => return ()
    | [name], text =>
      modify (fun s => s.bind name (String.ofList (Text.dropEndWhile Field.isSeparator text)))
    | name :: names, text => do
      modify (fun s => s.bind name (String.ofList (text.takeWhile (fun c => !Field.isSeparator c))))
      assign names
        ((text.dropWhile (fun c => !Field.isSeparator c)).dropWhile Field.isSeparator)

/-- A complaint of `printf` about a number, in the words of the shell. -/
def numberComplaint (c : String × Printf.NumberFault) : String :=
  c.1 ++ ": " ++
    (match c.2 with
      | .notNumeric => "expected numeric value"
      | .notAllNumeric => "not completely converted")

/-- The command `printf`. -/
def printFormat (args : List String) : Work Unit := do
  match (if args.head? == some "--" then args.tail else args) with
  | [] => fail 2 "printf: usage: printf format [arg ...]"
  | format :: args =>
    let p := Printf.format format args
    Running.emit .output p.bytes
    for complaint in p.complaints do
      complain ("printf: " ++ numberComplaint complaint)
    setStatus (if p.complaints.isEmpty then 0 else 1)
    match p.broken with
    | some directive =>
      fail 2 ("printf: " ++ directive ++ ": invalid directive")
    | none => return ()

/-- The command `set`. -/
def setOptions (args : List String) : Work Unit := do
  match args with
  | [] => return ()
  | arg :: rest =>
    if arg = "--" then modify (fun s => { s with params := rest })
    else
      let letters := arg.toList.tail
      match arg.toList.head? with
      | some '-' => modify (fun s => { s with options := (s.options ++ letters).eraseDups })
      | some '+' =>
        modify (fun s => { s with options := s.options.filter (fun c => !letters.contains c) })
      | _ => modify (fun s => { s with params := args })
      if (arg.startsWith "-" || arg.startsWith "+") && !rest.isEmpty then setOptions rest

/-- A command of the shell that runs no other command. -/
def builtin? (name : String) (args : List String) : Option (Work Unit) :=
  match name with
  | ":" => some (setStatus 0)
  | "true" => some (setStatus 0)
  | "false" => some (setStatus 1)
  | "echo" => some do
      let (newline, words) := if args.head? == some "-n" then (false, args.tail) else (true, args)
      Running.emit .output (Echo.output ⟨newline, true⟩ words)
      setStatus 0
  | "printf" => some (printFormat args)
  | "pwd" => some do
      Running.print (currentPath (← get) ++ "\n")
      setStatus 0
  | "cd" => some (changeTo args)
  | "exit" => some do
      match args with
      | [] => finish (Exit.ofCode (← get).status)
      | arg :: _ =>
        match ← number? "exit" arg with
        | some n => finish (Exit.ofCode (n % 256 : Nat))
        | none => return ()
  | "export" => some (exportAll args)
  | "unset" => some do
      let names := args.filter (fun n => !n.startsWith "-")
      modify (fun s => { s with
        vars := Bindings.ofList (s.vars.toList.filter (fun b => !names.contains b.1))
        exported := s.exported.filter (fun n => !names.contains n) })
      setStatus 0
  | "set" => some do
      setOptions args
      setStatus 0
  | "return" => some do
      let status ←
        match args with
        | [] => pure (← get).status
        | arg :: _ => pure ((← number? "return" arg).getD 2)
      modify (fun s => { s with returning := true, status := status % 256 })
  | "local" => some do
      for arg in args do
        let name := String.ofList (arg.toList.takeWhile (· != '='))
        modify (fun s =>
          { s with locals := s.locals.map (fun saved => (name, s.vars.lookup name) :: saved) })
        if arg.toList.contains '=' then
          let value := String.ofList ((arg.toList.dropWhile (· != '=')).drop 1)
          modify (fun s => s.bind name value)
      if (← get).locals.isNone then
        fail 2 "local: not in a function"
        finish (Exit.ofCode 2)
      else setStatus 0
  | "wait" => some (setStatus 0)
  | "umask" => some do
      if args.isEmpty then Running.print "0022\n"
      setStatus 0
  | "shift" => some do
      match ← number? "shift" (args.headD "1") with
      | none => return ()
      | some n =>
        if (← get).params.length < n then
          fail 2 "shift: can't shift that many"
          finish (Exit.ofCode 2)
        else
          modify (fun s => { s with params := s.params.drop n })
          setStatus 0
  | "break" => some do
      match ← number? "break" (args.headD "1") with
      | some n => modify (fun s => { s with leaving := n, goesOn := false, status := 0 })
      | none => return ()
  | "continue" => some do
      match ← number? "continue" (args.headD "1") with
      | some n => modify (fun s => { s with leaving := n, goesOn := true, status := 0 })
      | none => return ()
  | "kill" => some (kill args)
  | "trap" => some (setTraps args)
  | "read" => some (readLine args)
  | "test" => some (Test.run name args)
  | "[" => some do
      if args.getLast? == some "]" then Test.run name args.dropLast
      else fail 2 "[: missing ]"
  | _ => none

end ScriptRunner.Shell
