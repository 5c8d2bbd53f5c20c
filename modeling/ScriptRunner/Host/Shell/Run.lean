import ScriptRunner.Host.Shell.Arithmetic
import ScriptRunner.Host.Shell.State

/-!
# ScriptRunner.Host.Shell.Run

The program `sh`: expanding words and running commands.

A script is read and run one line at a time, so a fault of syntax stops it only when its
line is reached. Every function takes a bound on how deep it may go.

A command with redirections runs with a printing list of its own, whose parts are then
handed to the places they were directed to. The stages of a pipeline run one after the
other.
-/

namespace ScriptRunner.Shell

/-! ## Redirections -/

/-- Where a stream goes. -/
inductive Route
  | stream (stream : Stream)
  | file (path : Path)
  | nowhere

/-- Where the streams of a command go, and what it reads if that is not what the shell
reads. -/
structure Routes where
  output : Route
  errors : Route
  input : Option Bytes

/-- What is said about a file that cannot be opened. -/
def openFault (creating : Bool) : Errno → String
  | .noEntry => if creating then "Directory nonexistent" else "No such file"
  | .notDirectory => if creating then "Directory nonexistent" else "No such file"
  | e => e.text

/-- The routes after one more redirection, whose target is `target`. -/
def redirect (routes : Routes) (stream : Nat) (operator target : String) :
    Work (Option Routes) := do
  let s ← get
  let toStream := fun (route : Route) =>
    if stream = 2 then { routes with errors := route } else { routes with output := route }
  let opened := fun (write : FileTree → Except Errno FileTree) => (do
    match ← (Running.changeFiles write : Running (Option Errno)) with
    | none => return some (toStream (.file target))
    | some e =>
      fail 2 ("cannot create " ++ target ++ ": " ++ openFault true e)
      return none : Work (Option Routes))
  match operator with
  | ">" => opened (fun t => t.write s.cwd target [])
  | ">>" => opened (fun t => t.append s.cwd target [])
  | "<" =>
    match (← Running.files).read s.cwd target with
    | .ok content => return some { routes with input := some content }
    | .error e =>
      fail 2 ("cannot open " ++ target ++ ": " ++ openFault false e)
      return none
  | ">&" =>
    return some (match target with
      | "1" => toStream routes.output
      | "2" => toStream routes.errors
      | _ => toStream .nowhere)
  | _ => return some { routes with input := some [] }

/-- Hands a printed part to where it goes. -/
def deliver (routes : Routes) (chunk : Stream × Bytes) : Work Unit := do
  let s ← get
  match (if chunk.1 = .output then routes.output else routes.errors) with
  | .stream stream => Running.emit stream chunk.2
  | .nowhere => return ()
  | .file path =>
    let _ ← (Running.changeFiles (fun t => t.append s.cwd path chunk.2) : Running (Option Errno))

/-- Runs something with a printing list of its own, and gives that list back. Meanwhile only
the `terminals` among the streams can be a terminal. -/
def printedBy (terminals : List Nat) (work : Work Unit) : Work (List (Stream × Bytes)) := do
  let before ← (getThe Console : Running Console)
  (set ({ before with
    printed := []
    terminals := before.terminals.filter terminals.contains } : Console) : Running Unit)
  work
  let after ← (getThe Console : Running Console)
  (set ({ after with
    printed := before.printed
    terminals := before.terminals } : Console) : Running Unit)
  return after.printed

/-- Runs something with another input. -/
def withInput (input : Bytes) (work : Work Unit) : Work Unit := do
  let before ← (getThe Console : Running Console)
  (set ({ before with
    input := input
    terminals := before.terminals.filter (· != 0) } : Console) : Running Unit)
  work
  (modify (fun c => { c with
    input := before.input
    terminals := before.terminals }) : Running Unit)

/-- The streams that can be a terminal where they go as the routes say. -/
def Routes.terminals (routes : Routes) : List Nat :=
  let isStream := fun (route : Route) =>
    match route with
    | .stream _ => true
    | _ => false
  [0] ++ (if isStream routes.output then [1] else []) ++ (if isStream routes.errors then [2] else [])

/-- Runs something with its streams going where the routes say. -/
def withRoutes (routes : Routes) (work : Work Unit) : Work Unit := do
  let chunks ← printedBy routes.terminals
    (match routes.input with
    | some input => withInput input work
    | none => work)
  for chunk in chunks do
    deliver routes chunk

/-- Runs something in a copy of the shell, of which only the exit code is kept. -/
def inCopy (work : Work Unit) : Work Unit := do
  let s ← get
  work
  let after ← get
  set { s with
    status := after.status
    ended := after.ended.filter (fun e => e.isSignaled) }

/-- Runs something as a condition, in which a command that fails ends nothing. -/
def asCondition (work : Work Unit) : Work Unit := do
  let before := (← get).tested
  modify (fun s => { s with tested := true })
  work
  modify (fun s => { s with tested := before })

/-- Ends the shell after a command that failed, if its options ask for that. -/
def checkFailure : Work Unit := do
  let s ← get
  if s.status != 0 && s.options.contains 'e' && !s.tested && !s.isStopped then
    finish (Exit.ofCode s.status)

/-- Runs the body of a function with these arguments. -/
def withArguments (args : List String) (body : Work Unit) : Work Unit := do
  let before ← get
  set { before with params := args, locals := some [] }
  body
  let after ← get
  let restored := (after.locals.getD []).foldl (fun (acc : State) v => acc.restore v.1 v.2) after
  set { restored with params := before.params, locals := before.locals, returning := false }

/-! ## Parameters -/

/-- The part of a text that `${…%…}` and its kind leave. -/
def stripped (atEnd longest : Bool) (pattern : List Item) (value : String) : String :=
  let chars := value.toList
  let cuts := List.range (chars.length + 1)
  let lengths := if longest then cuts.reverse else cuts
  let matching := lengths.find? (fun n =>
    Item.matchAll pattern (if atEnd then chars.drop (chars.length - n) else chars.take n))
  match matching with
  | some n =>
    String.ofList (if atEnd then chars.take (chars.length - n) else chars.drop n)
  | none => value

/-- A text as marks. -/
def marksOfText (kept : Bool) (text : String) : List Mark :=
  if kept && text.isEmpty then [.nothing] else text.toList.map (Mark.char kept)

/-- The parameters as marks, each a field of its own if quotes keep them. -/
def marksOfParams (kept : Bool) : List String → List Mark
  | [] => []
  | [p] => marksOfText kept p
  | p :: rest => marksOfText kept p ++ .separator :: marksOfParams kept rest

/-- A word with the tilde at its start read as the home directory. -/
def withHome (word : List Piece) : List Piece :=
  match word with
  | .text false ('~' :: chars) :: rest =>
    if (chars.isEmpty && rest.isEmpty) || chars.head? == some '/' then
      .parameter true "HOME" (.instead '-' false [.text true ['~']]) :: .text false chars :: rest
    else word
  | _ => word

/-- A text without the line feeds at its end. -/
def withoutLineEnds (text : String) : String :=
  String.ofList (Text.dropEndWhile (· == '\n') text.toList)

/-- Where a command of this name is: its path, or the exit code and the reason if it cannot
be run. -/
def locateProgram (t : FileTree) (cwd : Place) (search : Option String) (name : String) :
    Except (Nat × String) Path :=
  let canRun := fun (path : Path) =>
    match t.stat cwd path with
    | .ok (_, .tool _) => true
    | .ok (_, .file _ executable) => executable
    | _ => false
  if name.toList.contains '/' then
    match t.stat cwd name with
    | .error .noEntry => .error (127, "not found")
    | .error .notDirectory => .error (127, "not found")
    | .error e => .error (126, e.text)
    | .ok _ => if canRun name then .ok name else .error (126, Errno.accessDenied.text)
  else
    let candidates := (search.map (fun s => SearchPath.candidates s name)).getD []
    match candidates.find? canRun with
    | some path => .ok path
    | none =>
      if candidates.any (t.has cwd) then .error (126, Errno.accessDenied.text)
      else .error (127, "not found")

/-- Where programs are searched without a search path. -/
def defaultSearchPath : String :=
  "/usr/local/sbin:/usr/local/bin:/usr/sbin:/usr/bin:/sbin:/bin"

/-! ## Running -/

/-- Whether a loop is to be left after a run of its body. -/
def leaves : Work Bool := do
  let s ← get
  if s.ended.isSome || s.returning then return true
  else if s.leaving = 0 then return false
  else
    set { s with leaving := s.leaving - 1 }
    return !(s.leaving = 1 && s.goesOn)

/-- What `sh` is asked to run. -/
inductive Request
  | text (name : String) (params : List String) (text : String)
  | file (path : Path) (params : List String)
  | input (params : List String)
  /-- A text that is missing. -/
  | nothing

namespace Request

/-- Whether an argument is flags, one of them this letter. -/
def hasFlag (letter : Char) (arg : String) : Bool :=
  arg.startsWith "-" && arg.toList.contains letter

/-- Whether an argument is flags that only set options. -/
def setsOptions (arg : String) : Bool :=
  arg.startsWith "-" && arg != "-" && arg != "--" && !hasFlag 'c' arg && !hasFlag 's' arg

/-- The options that the arguments of `sh` set. -/
def options (args : List String) : List Char :=
  let setting := args.takeWhile setsOptions
  let last := (args.dropWhile setsOptions).head?.filter (fun a => a.startsWith "-" && a != "--")
  ((setting ++ last.toList).flatMap (fun a => a.toList.tail)).filter (fun c => c != 'c' && c != 's')

/-- What the arguments of `sh` ask for. -/
def ofArgs (name : String) (args : List String) : Request :=
  match args.dropWhile setsOptions with
  | [] => .input []
  | flag :: rest =>
    if hasFlag 'c' flag then
      match rest with
      | [] => .nothing
      | script :: params => .text (params.headD name) params.tail script
    else if hasFlag 's' flag then .input rest
    else if flag = "--" ∨ flag = "-" then
      match rest with
      | [] => .input []
      | path :: params => .file path params
    else .file flag rest

end Request

namespace State

/-- A shell at its start. It takes its directory's path from the environment where that
path is right. -/
def start (t : FileTree) (call : Call) (options : List Char) (name : String)
    (params : List String) : State :=
  let here := FileTools.pathOf call.cwd
  let path :=
    match call.env.lookup "PWD" with
    | some path =>
      if Path.isAbsolute path ∧ (t.directory? call.cwd path).toOption = some call.cwd then path
      else here
    | none => here
  let inherited := call.env.bind "PWD" path
  { name := name
    params := params
    vars :=
      if (inherited.lookup "PATH").isSome then inherited else inherited.bind "PATH" defaultSearchPath
    exported := inherited.toList.map Prod.fst
    cwd := call.cwd
    line := 1
    status := 0
    ended := none
    leaving := 0
    goesOn := false
    returning := false
    functions := []
    locals := none
    traps := []
    pending := []
    options := options
    tested := false }

/-- The exit of a shell that has run everything. -/
def exit (s : State) : Exit := s.ended.getD (Exit.ofCode s.status)

end State

mutual

/-- A piece of a word, expanded. -/
def marksOfPiece : Nat → Piece → Work (List Mark)
  | 0, _ => return []
  | _ + 1, .text kept chars =>
    return if kept && chars.isEmpty then [.nothing] else chars.map (Mark.char kept)
  | steps + 1, .output kept commands => do
    return marksOfText kept (withoutLineEnds (← outputOf steps commands))
  | steps + 1, .arithmetic kept expression => do
    let text ← textOf steps expression
    match Arithmetic.value (← get).vars text with
    | .ok (n, vars) =>
      modify (fun s => { s with vars := vars })
      return marksOfText kept (toString n)
    | .error fault =>
      complain fault
      finish (Exit.ofCode 2)
      return []
  | steps + 1, .parameter kept name use => do
    let s ← get
    let value := s.value? name
    match use with
    | .value =>
      if value.isNone && s.options.contains 'u' && name != "@" && name != "*" then
        complain (name ++ ": parameter not set")
        finish (Exit.ofCode 2)
        return []
      else if name = "@" then
        return if kept then marksOfParams true s.params else marksOfParams false s.params
      else return marksOfText kept (value.getD "")
    | .length => return marksOfText kept (toString (value.getD "").length)
    | .without atEnd longest pattern =>
      let marks ← marksOfWord steps pattern
      return marksOfText kept
        (stripped atEnd longest (Item.ofField (Field.ofMarks marks)) (value.getD ""))
    | .instead operator emptyIsNone word =>
      let isNone := match value with
        | none => true
        | some text => emptyIsNone && text.isEmpty
      match operator, isNone with
      | '-', true => wordAs steps kept word
      | '+', false => wordAs steps kept word
      | '+', true => return marksOfText kept ""
      | '=', true =>
        let marks ← marksOfWord steps word
        let text := Field.text (Field.ofMarks marks)
        modify (fun s => s.bind name text)
        return marksOfText kept text
      | '?', true =>
        let marks ← marksOfWord steps word
        let text := Field.text (Field.ofMarks marks)
        let reason := "parameter not set" ++ (if emptyIsNone then " or null" else "")
        complain (name ++ ": " ++ (if text.isEmpty then reason else text))
        finish (Exit.ofCode 2)
        return []
      | _, _ => return marksOfText kept (value.getD "")

/-- A word in place of a value. -/
def wordAs : Nat → Bool → List Piece → Work (List Mark)
  | 0, _, _ => return []
  | steps + 1, kept, word => do
    let marks ← marksOfWord steps word
    return if kept then marksOfText true (Field.text (Field.ofMarks marks)) else marks

/-- The pieces of a word, expanded. -/
def marksOfWord : Nat → List Piece → Work (List Mark)
  | 0, _ => return []
  | _ + 1, [] => return []
  | steps + 1, piece :: rest => do
    let first ← marksOfPiece steps piece
    return first ++ (← marksOfWord steps rest)

/-- A word as one text. -/
def textOf : Nat → List Piece → Work String
  | 0, _ => return ""
  | steps + 1, word => do
    return Field.text (Field.ofMarks (← marksOfWord steps (withHome word)))

/-- The words that words come to. -/
def wordsOf : Nat → List (List Piece) → Work (List String)
  | 0, _ => return []
  | _ + 1, [] => return []
  | steps + 1, word :: rest => do
    let marks ← marksOfWord steps (withHome word)
    let t ← Running.files
    let s ← get
    let first := (Field.split none marks).flatMap (Field.words t s.cwd)
    return first ++ (← wordsOf steps rest)

/-- What commands print, when they run in a copy of the shell. -/
def outputOf : Nat → List Command → Work String
  | 0, _ => return ""
  | steps + 1, commands => do
    let chunks ← printedBy [0, 2] (inCopy (runAll steps commands))
    for chunk in chunks do
      if chunk.1 = .errors then Running.emit .errors chunk.2
    return Utf8.decodeLossy ((chunks.filter (fun c => c.1 == .output)).flatMap Prod.snd)

/-- The routes of redirections, if all of them can be made. -/
def routesOf : Nat → Routes → List Redirection → Work (Option Routes)
  | 0, routes, _ => return some routes
  | _ + 1, routes, [] => return some routes
  | steps + 1, routes, .mk stream operator target :: rest => do
    let text ← textOf steps target
    match ← redirect routes stream operator text with
    | some routes => routesOf steps routes rest
    | none => return none
  | steps + 1, routes, .here word :: rest => do
    let text := Field.text (Field.ofMarks (← marksOfWord steps word))
    routesOf steps { routes with input := some (Utf8.encode text) } rest

/-- Runs something with redirections. -/
def redirected : Nat → List Redirection → Work Unit → Work Unit
  | 0, _, _ => return ()
  | _ + 1, [], work => work
  | steps + 1, redirections, work => do
    match ← routesOf steps ⟨.stream .output, .stream .errors, none⟩ redirections with
    | some routes => withRoutes routes work
    | none => return ()

/-- Runs commands in order. -/
def runAll : Nat → List Command → Work Unit
  | 0, _ => finish (Exit.ofCode 1)
  | _ + 1, [] => return ()
  | steps + 1, command :: rest => do
    if (← get).isStopped then return ()
    runCommand steps command
    runAll steps rest

/-- Runs a command. -/
def runCommand : Nat → Command → Work Unit
  | 0, _ => finish (Exit.ofCode 1)
  | steps + 1, .simple line bindings words redirections => do
    modify (fun s => { s with line := line })
    let words ← wordsOf steps words
    if (← get).ended.isSome then return ()
    runSimple steps bindings words redirections
    runPending steps
    checkFailure
  | steps + 1, .redirected command redirections =>
    redirected steps redirections (runCommand steps command)
  | steps + 1, .sequence commands => runAll steps commands
  | steps + 1, .subshell command => do
    inCopy (runCommand steps command)
    checkFailure
  | steps + 1, .pipeline true stages => do
    asCondition (runStages steps stages)
    modify (fun s => { s with status := if s.status = 0 then 1 else 0 })
  | steps + 1, .pipeline false stages => do
    runStages steps stages
    checkFailure
  | steps + 1, .both first second => do
    asCondition (runCommand steps first)
    let s ← get
    if !s.isStopped && s.status = 0 then runCommand steps second
  | steps + 1, .either first second => do
    asCondition (runCommand steps first)
    let s ← get
    if !s.isStopped && s.status != 0 then runCommand steps second
  | steps + 1, .branch condition yes no => do
    asCondition (runCommand steps condition)
    let s ← get
    if s.isStopped then return ()
    else if s.status = 0 then runCommand steps yes
    else
      match no with
      | some command => runCommand steps command
      | none => setStatus 0
  | steps + 1, .loop inverted condition body => runLoop steps inverted condition body 0
  | steps + 1, .each name words body => do
    let values ← match words with
      | some words => wordsOf steps words
      | none => pure (← get).params
    setStatus 0
    runEach steps name body values
  | steps + 1, .choice line word arms => do
    modify (fun s => { s with line := line })
    let text ← textOf steps word
    runChoice steps text.toList arms
  | _ + 1, .define name body => do
    modify (fun s => { s with
      functions := (name, body) :: s.functions.filter (fun f => f.1 != name)
      status := 0 })

/-- Runs what signals have asked for. The exit code stays as it was. -/
def runPending : Nat → Work Unit
  | 0 => finish (Exit.ofCode 1)
  | steps + 1 => do
    let before ← get
    match before.pending with
    | [] => return ()
    | action :: rest =>
      set { before with pending := rest }
      runText steps action.toList
      modify (fun s => { s with status := before.status, line := before.line })
      runPending steps

/-- Runs a text as a whole script, and what is to be run at its end. -/
def runScript : Nat → List Char → Work Unit
  | 0, _ => finish (Exit.ofCode 1)
  | steps + 1, text => do
    runText steps text
    let s ← get
    match (if s.ended.any Exit.isSignaled then none else s.traps.lookup endName) with
    | none => return ()
    | some action =>
      let exit := s.ended.getD (Exit.ofCode s.status)
      set { s with ended := none, leaving := 0, returning := false }
      runText steps action.toList
      modify (fun s => { s with ended := some (s.ended.getD exit) })

/-- Runs the commands of the first list with a pattern that a text matches. -/
def runChoice : Nat → List Char → List (List (List Piece) × List Command) → Work Unit
  | 0, _, _ => finish (Exit.ofCode 1)
  | _ + 1, _, [] => setStatus 0
  | steps + 1, text, (patterns, commands) :: rest => do
    if (← get).isStopped then return ()
    if ← matchesAny steps text patterns then
      setStatus 0
      runAll steps commands
    else runChoice steps text rest

/-- Whether a text matches one of several patterns. -/
def matchesAny : Nat → List Char → List (List Piece) → Work Bool
  | 0, _, _ => return false
  | _ + 1, _, [] => return false
  | steps + 1, text, pattern :: rest => do
    let field := Field.ofMarks (← marksOfWord steps (withHome pattern))
    if Item.matchAll (Item.ofField field) text then return true
    else matchesAny steps text rest

/-- Runs a body again and again. -/
def runLoop : Nat → Bool → Command → Command → Nat → Work Unit
  | 0, _, _, _, _ => finish (Exit.ofCode 1)
  | steps + 1, inverted, condition, body, status => do
    asCondition (runCommand steps condition)
    let s ← get
    if s.isStopped then return ()
    else if (s.status = 0) = inverted then setStatus status
    else
      runCommand steps body
      if ← leaves then return ()
      else runLoop steps inverted condition body (← get).status

/-- Runs a body for each value of a variable. -/
def runEach : Nat → String → Command → List String → Work Unit
  | 0, _, _, _ => finish (Exit.ofCode 1)
  | _ + 1, _, _, [] => return ()
  | steps + 1, name, body, value :: rest => do
    modify (fun s => s.bind name value)
    runCommand steps body
    if ← leaves then return ()
    else runEach steps name body rest

/-- Runs the stages of a pipeline, each on what the one before it printed. -/
def runStages : Nat → List Command → Work Unit
  | 0, _ => finish (Exit.ofCode 1)
  | _ + 1, [] => return ()
  | steps + 1, [last] => runCommand steps last
  | steps + 1, stage :: rest => do
    let chunks ← printedBy [0, 2] (inCopy (runCommand steps stage))
    for chunk in chunks do
      if chunk.1 = .errors then Running.emit .errors chunk.2
    withInput ((chunks.filter (fun c => c.1 == .output)).flatMap Prod.snd)
      (inCopy (runStages steps rest))

/-- Binds variables. -/
def bindAll : Nat → List (String × List Piece) → Work Unit
  | 0, _ => return ()
  | _ + 1, [] => return ()
  | steps + 1, (name, word) :: rest => do
    let text ← textOf steps word
    modify (fun s => s.bind name text)
    bindAll steps rest

/-- Runs a simple command whose words are expanded. -/
def runSimple : Nat → List (String × List Piece) → List String → List Redirection → Work Unit
  | 0, _, _, _ => finish (Exit.ofCode 1)
  | steps + 1, bindings, words, redirections =>
    match words with
    | [] => do
      setStatus 0
      bindAll steps bindings
      redirected steps redirections (return ())
    | name :: args =>
      redirected steps redirections (do
        match (← get).functions.lookup name with
        | some body =>
          bindAll steps bindings
          withArguments args (runCommand steps body)
        | none => runBuiltin steps bindings name args)

/-- Runs a command that is no function. -/
def runBuiltin : Nat → List (String × List Piece) → String → List String → Work Unit
  | 0, _, _, _ => finish (Exit.ofCode 1)
  | steps + 1, bindings, name, args =>
    match builtin? name args with
    | some work => do
      bindAll steps bindings
      work
    | none => runNamed steps bindings name args

/-- Runs a command that is not one of the shell's simple own ones. -/
def runNamed : Nat → List (String × List Piece) → String → List String → Work Unit
  | 0, _, _, _ => finish (Exit.ofCode 1)
  | steps + 1, bindings, name, args =>
    match name with
    | "eval" => runText steps (joinBySpace args).toList
    | "." => do
      let s ← get
      match (← Running.files).read s.cwd (args.headD "") with
      | .ok content => runText steps (Utf8.decodeLossy content).toList
      | .error e =>
        fail 2 (".: cannot open " ++ args.headD "" ++ ": " ++ openFault false e)
        finish (Exit.ofCode 2)
    | "command" =>
      match args with
      | "-v" :: name :: _ => do
        let s ← get
        if (builtin? name []).isSome then
          Running.print (name ++ "\n")
          setStatus 0
        else
          match locateProgram (← Running.files) s.cwd (s.value? "PATH") name with
          | .ok path =>
            Running.print (path ++ "\n")
            setStatus 0
          | .error _ => setStatus 127
      | name :: args => runBuiltin steps bindings name args
      | [] => setStatus 0
    | "exec" =>
      match args with
      | [] => return ()
      | name :: args => do
        let exit ← runProgram steps "exec: " bindings name args
        finish exit
    | _ => do
      let exit ← runProgram steps "" bindings name args
      match Signal.ofExit? exit with
      | some signal =>
        if signal.isReported then Running.complain signal.report
        setStatus (128 + signal.number)
      | none => setStatus (exit.code % 256).toNat

/-- Runs a program; `label` stands before its name in complaints. -/
def runProgram : Nat → String → List (String × List Piece) → String → List String → Work Exit
  | 0, _, _, _, _ => return Exit.ofCode 1
  | steps + 1, label, bindings, name, args => do
    let s ← get
    bindAll steps bindings
    let bound ← get
    set { s with status := bound.status }
    let env := (bindings.foldl (fun (acc : State) b => acc.publish b.1) bound).environment
    let t ← Running.files
    match locateProgram t s.cwd (bound.value? "PATH") name with
    | .error (code, reason) =>
      complain (label ++ name ++ ": " ++ reason)
      return Exit.ofCode code
    | .ok path =>
      match Image.ofFile t s.cwd path name args with
      | .error .noEntry =>
        complain (label ++ name ++ ": not found")
        return Exit.ofCode 127
      | .error e =>
        complain (label ++ name ++ ": " ++ e.text)
        return Exit.ofCode 126
      | .ok image => (runImage steps env s.cwd image : Running Exit)

/-- Runs what executing a file comes to. A file without a format is a script. -/
def runImage : Nat → Env → Place → Image → Running Exit
  | 0, _, _, _ => return Exit.ofCode 1
  | steps + 1, env, cwd, .tool tool name args =>
    tool.runWith (runShell steps) ⟨name, args, env, cwd⟩
  | steps + 1, env, cwd, .plain file args =>
    runShell steps ⟨Image.scriptInterpreter, file :: args, env, cwd⟩

/-- Runs the rest of a text line by line. -/
def runLines : Nat → Source → Work Unit
  | 0, _ => finish (Exit.ofCode 1)
  | steps + 1, source => do
    if source.rest.isEmpty || (← get).isStopped then return ()
    match nextCommands source with
    | .error fault =>
      modify (fun s => { s with line := source.line })
      complain fault.message
      finish (Exit.ofCode 2)
    | .ok (commands, rest) =>
      runAll steps commands
      runLines steps rest

/-- Runs a text. -/
def runText : Nat → List Char → Work Unit
  | 0, _ => finish (Exit.ofCode 1)
  | steps + 1, text => runLines steps ⟨text, 1⟩

/-- The program `sh`. -/
def runShell : Nat → Call → Running Exit
  | 0, _ => return Exit.ofCode 1
  | steps + 1, call => do
    let t ← Running.files
    match Request.ofArgs call.name call.args with
    | .text name params text =>
      let (_, s) ← (runScript steps text.toList).run (State.start t call (Request.options call.args) name params)
      return s.exit
    | .input params =>
      let content ← Running.readInput
      let (_, s) ←
        (runScript steps (Utf8.decodeLossy content).toList).run (State.start t call (Request.options call.args) call.name params)
      return s.exit
    | .file file params =>
      match t.read call.cwd file with
      | .ok content =>
        let (_, s) ←
          (runScript steps (Utf8.decodeLossy content).toList).run (State.start t call (Request.options call.args) file params)
        return s.exit
      | .error e =>
        Running.complain (call.name ++ ": 0: cannot open " ++ file ++ ": " ++ openFault false e)
        return Exit.ofCode 2
    | .nothing =>
      Running.complain (call.name ++ ": 0: -c requires an argument")
      return Exit.ofCode 2

end

end ScriptRunner.Shell
