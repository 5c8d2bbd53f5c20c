import ScriptRunner.Host.Tool.Flags

/-!
# ScriptRunner.Host.Tool.Files

Programs that read and write files: `cat`, `tee`, `cp`, `touch`, `mkdir`, and the ones that
show where and how they run: `pwd` and `printenv`.

Each goes on with the next operand after a complaint about one, and then ends with code 1.
-/

namespace ScriptRunner

namespace FileTools

/-- The characters of a name that is shown without quotes. -/
def isPlain (c : Char) : Bool :=
  isAsciiLetter c || isAsciiDigit c || ['/', '.', '_', '-', '+', ',', ':', '@', '%'].contains c

/-- A file name as complaints show it: in quotes only where it needs them. -/
def shown (name : String) : String :=
  if !name.isEmpty && name.toList.all isPlain then name
  else if name.toList.contains '\'' then "\"" ++ name ++ "\""
  else quoted name

/-- Does something for each operand. The work is clean if it is for all of them. -/
def forEach (operands : List String) (work : String → Running Bool) : Running Exit := do
  let mut clean := true
  for operand in operands do
    if !(← work operand) then clean := false
  return Call.exitOf clean

/-- Changes the files, with a complaint if that is refused. -/
def change (call : Call) (what : String) (f : FileTree → Except Errno FileTree) : Running Bool := do
  match ← Running.changeFiles f with
  | none => return true
  | some e =>
    call.complain (what ++ ": " ++ e.text)
    return false

/-! ## cat, tee -/

/-- The lines of a run of bytes, each with the line feed that ends it. -/
def byteLines : Bytes → List Bytes
  | [] => []
  | b :: rest =>
    if b == 10 then [b] :: byteLines rest
    else
      match byteLines rest with
      | [] => [[b]]
      | line :: lines => (b :: line) :: lines

/-- A number at the start of a line. -/
def numbered (n : Nat) (line : Bytes) : Bytes :=
  let digits := (toString n).toList
  Utf8.encode (String.ofList (List.replicate (6 - digits.length) ' ' ++ digits ++ ['\t'])) ++ line

/-- A byte below 128 made visible: a caret stands before what stands for a control
character. -/
def visibleAscii (b : UInt8) : Bytes :=
  if b < 32 then [94, b + 64] else if b == 127 then [94, 63] else [b]

/-- A byte made visible. -/
def visible (b : UInt8) : Bytes :=
  if b < 128 then visibleAscii b else [77, 45] ++ visibleAscii (b - 128)

/-- A line with what the flags ask for made visible: its end, its tabs, and other bytes that
are not seen. -/
def marked (flags : List Char) (line : Bytes) : Bytes :=
  line.flatMap (fun b =>
    if b == 10 then (if flags.contains 'E' then [36, 10] else [10])
    else if b == 9 then (if flags.contains 'T' then [94, 73] else [9])
    else if flags.contains 'v' then visible b
    else [b])

/-- The lines as the flags of `cat` ask for them. -/
def decorate (flags : List Char) (lines : List Bytes) : List Bytes :=
  let squeezed :=
    if flags.contains 's' then
      ((([] : Bytes) :: lines).zip lines).filterMap (fun p =>
        if p.1 == [10] && p.2 == [10] then none else some p.2)
    else lines
  let counted :=
    if flags.contains 'b' then
      (squeezed.foldl
        (fun (acc : Nat × List Bytes) line =>
          if line == [10] then (acc.1, acc.2 ++ [line])
          else (acc.1 + 1, acc.2 ++ [numbered acc.1 line]))
        (1, [])).2
    else if flags.contains 'n' then squeezed.mapIdx (fun i line => numbered (i + 1) line)
    else squeezed
  counted.map (marked flags)

/-- What `cat` prints for the content of its operands. -/
def concatenated (flags : List Char) (content : Bytes) : Bytes :=
  if flags.isEmpty then content else (decorate flags (byteLines content)).flatten

/-- The flags of `cat`. -/
def catForms : List FlagForm :=
  [⟨'n', "number", false⟩, ⟨'b', "number-nonblank", false⟩, ⟨'s', "squeeze-blank", false⟩,
    ⟨'E', "show-ends", false⟩, ⟨'T', "show-tabs", false⟩, ⟨'v', "show-nonprinting", false⟩,
    ⟨'A', "show-all", false⟩, ⟨'e', "", false⟩, ⟨'t', "", false⟩, ⟨'u', "", false⟩]

/-- The letters of the flags of `cat`, those that stand for others resolved. -/
def catLetters (flags : Flags) : List Char :=
  (flags.found.map Prod.fst).flatMap (fun c =>
    match c with
    | 'A' => ['v', 'E', 'T']
    | 'e' => ['v', 'E']
    | 't' => ['v', 'T']
    | 'u' => []
    | c => [c])

/-- The program `cat`. -/
def cat (call : Call) : Running Exit :=
  call.withFlags catForms false 1 (fun found =>
    let flags := catLetters found
    forEach (if found.operands.isEmpty then ["-"] else found.operands) (fun operand => do
      if operand = "-" then
        Running.emit .output (concatenated flags (← Running.readInput))
        return true
      else
        match (← Running.files).read call.cwd operand with
        | .ok content =>
          Running.emit .output (concatenated flags content)
          return true
        | .error e =>
          call.complain (shown operand ++ ": " ++ e.text)
          return false))

/-- The flags of `tee`. -/
def teeForms : List FlagForm :=
  [⟨'a', "append", false⟩, ⟨'i', "ignore-interrupts", false⟩, ⟨'p', "", false⟩]

/-- The program `tee`. -/
def tee (call : Call) : Running Exit :=
  call.withFlags teeForms false 1 (fun flags => do
    let content ← Running.readInput
    let exit ← forEach flags.operands (fun operand =>
      change call (shown operand) (fun t =>
        if flags.has 'a' then t.append call.cwd operand content
        else t.write call.cwd operand content))
    Running.emit .output content
    return exit)

/-! ## cp, touch, mkdir -/

/-- Puts a copy of a file at a path that leads to nothing or to a file. A new file can be
executed if the copied one can. -/
def copyFile (call : Call) (target : String) (content : Bytes) (executable : Bool) :
    Running Bool :=
  change call ("cannot create regular file " ++ quoted target) (fun t => do
    let fresh := !t.has call.cwd target
    let t' ← t.write call.cwd target content
    let place ← t'.locate call.cwd target
    .ok (if fresh then t'.put place (.file content executable) else t'))

/-- The tree with everything below one place also below another. -/
def copyBelow (t : FileTree) (source target : Place) : FileTree :=
  (t.below source).foldl (fun acc n => acc.put (target ++ n.1) n.2) (t.put target .directory)

/-- Shows which file or directory has been copied to which, if `told` asks for it. -/
def tellCopy (told : Bool) (source target : String) : Running Unit :=
  if told then Running.print (quoted source ++ " -> " ++ quoted target ++ "\n") else return ()

/-- Shows the copies of everything below a directory. -/
def tellCopiesBelow (told : Bool) (t : FileTree) (place : Place) (source target : String) :
    Running Unit := do
  tellCopy told source target
  for n in t.below place do
    let rest := "/".intercalate n.1
    tellCopy told (source ++ "/" ++ rest) (target ++ "/" ++ rest)

/-- Copies one operand of `cp` to a path. -/
def copyTo (call : Call) (deep told : Bool) (source target : String) : Running Bool := do
  let t ← Running.files
  match t.stat call.cwd source with
  | .error e =>
    call.complain ("cannot stat " ++ quoted source ++ ": " ++ e.text)
    return false
  | .ok (place, .directory) =>
    if deep then
      match t.locate call.cwd target with
      | .error e =>
        call.complain ("cannot create directory " ++ quoted target ++ ": " ++ e.text)
        return false
      | .ok targetPlace =>
        if place.isPrefixOf targetPlace then
          call.complain
            ("cannot copy a directory, " ++ quoted source ++ ", into itself, " ++ quoted target)
          return false
        else if t.has call.cwd target && !t.isDirectory call.cwd target then
          call.complain
            ("cannot overwrite non-directory " ++ quoted target ++ " with directory " ++
              quoted source)
          return false
        else
          let clean ← change call ("cannot create directory " ++ quoted target) (fun t => do
            let t' ← if t.isDirectory call.cwd target then .ok t else t.makeDirectory call.cwd target
            .ok (copyBelow t' place targetPlace))
          if clean then tellCopiesBelow told t place source target
          return clean
    else
      call.complain ("-r not specified; omitting directory " ++ quoted source)
      return false
  | .ok (place, node) =>
    if (t.stat call.cwd target).toOption.any (fun found => found.1 == place) then
      call.complain (quoted source ++ " and " ++ quoted target ++ " are the same file")
      return false
    else if t.isDirectory call.cwd target then
      call.complain ("cannot overwrite directory " ++ quoted target ++ " with non-directory")
      return false
    else
      let clean ←
        match node with
        | .file content executable => copyFile call target content executable
        | .tool _ => copyFile call target [] true
        | _ => copyFile call target [] false
      if clean then tellCopy told source target
      return clean

/-- The last name of a path. -/
def lastName (path : String) : String :=
  (Path.components path).getLast?.getD path

/-- The flags of `cp`. -/
def cpForms : List FlagForm :=
  [⟨'r', "recursive", false⟩, ⟨'R', "", false⟩, ⟨'a', "archive", false⟩, ⟨'f', "force", false⟩,
    ⟨'p', "", false⟩, ⟨'v', "verbose", false⟩, ⟨'t', "target-directory", true⟩,
    ⟨'T', "no-target-directory", false⟩]

/-- The program `cp`. -/
def cp (call : Call) : Running Exit :=
  call.withFlags cpForms false 1 (fun flags => do
    let deep := flags.has 'r' || flags.has 'R' || flags.has 'a'
    let operands := flags.operands ++ (flags.value? 't').toList
    match operands with
    | [] => call.misused "missing file operand"
    | [source] => call.misused ("missing destination file operand after " ++ quoted source)
    | _ =>
      let target := operands.getLastD ""
      let sources := operands.dropLast
      let intoDirectory := (← Running.files).isDirectory call.cwd target && !flags.has 'T'
      if sources.length > 1 && !intoDirectory then
        call.complain ("target " ++ quoted target ++ ": " ++
          (if (← Running.files).has call.cwd target then Errno.notDirectory else .noEntry).text)
        return Exit.ofCode 1
      else
        forEach sources (fun source =>
          copyTo call deep (flags.has 'v') source
            (if intoDirectory then Path.join target (lastName source) else target)))

/-- The flags of `touch`. -/
def touchForms : List FlagForm :=
  [⟨'a', "", false⟩, ⟨'m', "", false⟩, ⟨'f', "", false⟩, ⟨'c', "no-create", false⟩,
    ⟨'d', "date", true⟩, ⟨'r', "reference", true⟩, ⟨'t', "", true⟩]

/-- The program `touch`. -/
def touch (call : Call) : Running Exit :=
  call.withFlags touchForms false 1 (fun flags =>
    if flags.operands.isEmpty then call.misused "missing file operand"
    else
      forEach flags.operands (fun operand =>
        change call ("cannot touch " ++ quoted operand) (fun t =>
          if t.isDirectory call.cwd operand || (flags.has 'c' && !t.has call.cwd operand) then
            .ok t
          else t.append call.cwd operand [])))

/-- The flags of `mkdir`. -/
def mkdirForms : List FlagForm :=
  [⟨'p', "parents", false⟩, ⟨'v', "verbose", false⟩, ⟨'m', "mode", true⟩]

/-- Makes a directory, and shows its path if the flags ask for that. -/
def makeOne (call : Call) (flags : Flags) (path : String) : Running Bool := do
  let clean ← change call ("cannot create directory " ++ quoted path) (fun t =>
    t.makeDirectory call.cwd path)
  if clean && flags.has 'v' then
    Running.print (call.name ++ ": created directory " ++ quoted path ++ "\n")
  return clean

/-- The paths of the directories on the way to a path, and the path itself. -/
def pathsTo (path : String) : List String :=
  let components := Path.components path
  (List.range components.length).map (fun n =>
    Path.ofComponents (Path.isAbsolute path) (components.take (n + 1)))

/-- Makes those directories of a list that are missing, up to the first fault. -/
def makeMissing (call : Call) (flags : Flags) : List String → Running Bool
  | [] => return true
  | path :: rest => do
    if (← Running.files).isDirectory call.cwd path then makeMissing call flags rest
    else if (← Running.files).has call.cwd path && !rest.isEmpty then
      call.complain
        ("cannot create directory " ++ quoted path ++ ": " ++ Errno.notDirectory.text)
      return false
    else if ← makeOne call flags path then makeMissing call flags rest
    else return false

/-- The program `mkdir`. -/
def mkdir (call : Call) : Running Exit :=
  call.withFlags mkdirForms false 1 (fun flags =>
    if flags.operands.isEmpty then call.misused "missing operand"
    else
      forEach flags.operands (fun operand =>
        if flags.has 'p' && !operand.isEmpty then makeMissing call flags (pathsTo operand)
        else makeOne call flags operand))

/-! ## pwd, printenv -/

/-- The path of a place. -/
def pathOf (place : Place) : Path := "/" ++ "/".intercalate place

/-- The program `pwd`. -/
def pwd (call : Call) : Running Exit :=
  call.withFlags [⟨'L', "logical", false⟩, ⟨'P', "physical", false⟩] false 1 (fun flags => do
    if !flags.operands.isEmpty then call.complain "ignoring non-option arguments"
    Running.print (pathOf call.cwd ++ "\n")
    return Exit.success)

/-- The program `printenv`. -/
def printenv (call : Call) : Running Exit :=
  call.withFlags [⟨'0', "null", false⟩] true 2 (fun flags => do
    let ending := if flags.has '0' then "\x00" else "\n"
    if flags.operands.isEmpty then
      Running.print
        (String.join (call.env.toList.map (fun b => b.1 ++ "=" ++ b.2 ++ ending)))
      return Exit.success
    else
      forEach flags.operands (fun name => do
        match (if name.toList.contains '=' then none else call.env.lookup name) with
        | some value =>
          Running.print (value ++ ending)
          return true
        | none => return false))

end FileTools

end ScriptRunner
