import ScriptRunner.Command.Name
import ScriptRunner.Host.Console

/-!
# ScriptRunner.Host.Shell.Syntax

The language of the program `sh`: its commands, and their reading.

Words are read in pieces, so that expansion knows what was quoted. `Reader` reads one
complete command at a time, as far as its last line: what follows is read only after the
command has run.
-/

namespace ScriptRunner.Shell

mutual

/-- A piece of a word; `kept` if quotes keep it from being split. -/
inductive Piece
  | text (kept : Bool) (chars : List Char)
  | parameter (kept : Bool) (name : String) (use : Use)
  | output (kept : Bool) (commands : List Command)
  | arithmetic (kept : Bool) (expression : List Piece)

/-- How a parameter is used. -/
inductive Use
  | value
  | length
  /-- Another word in place of the value where there is none, or where there is one. -/
  | instead (operator : Char) (emptyIsNone : Bool) (word : List Piece)
  /-- The value without a part at its start or its end. -/
  | without (atEnd longest : Bool) (pattern : List Piece)

/-- Where a stream of a command goes or comes from. -/
inductive Redirection
  | mk (stream : Nat) (operator : String) (target : List Piece)
  /-- From a text in the script itself. -/
  | here (text : List Piece)

/-- A command. -/
inductive Command
  | simple (line : Nat) (bindings : List (String × List Piece)) (words : List (List Piece))
      (redirections : List Redirection)
  | redirected (command : Command) (redirections : List Redirection)
  | sequence (commands : List Command)
  | pipeline (negated : Bool) (stages : List Command)
  | both (first second : Command)
  | either (first second : Command)
  | subshell (command : Command)
  | branch (condition yes : Command) (no : Option Command)
  | loop (inverted : Bool) (condition body : Command)
  | each (name : String) (words : Option (List (List Piece))) (body : Command)
  /-- The commands of the first list with a pattern that a word matches. -/
  | choice (line : Nat) (word : List Piece) (arms : List (List (List Piece) × List Command))
  | define (name : String) (body : Command)

end

/-- Why a script cannot be read. -/
inductive Fault
  | unterminatedQuote
  | endOfFile (expected : String)
  | unexpected (token expected : String)
  | missing (what : String)
  | badName
  | badSubstitution
  deriving DecidableEq

/-- A fault in words. -/
def Fault.message : Fault → String
  | unterminatedQuote => "Syntax error: Unterminated quoted string"
  | endOfFile expected =>
    "Syntax error: end of file unexpected" ++
      (if expected.isEmpty then "" else " (expecting \"" ++ expected ++ "\")")
  | unexpected token expected =>
    "Syntax error: " ++ token ++ " unexpected" ++
      (if expected.isEmpty then "" else " (expecting \"" ++ expected ++ "\")")
  | missing what => "Syntax error: Missing '" ++ what ++ "'"
  | badName => "Syntax error: Bad function name"
  | badSubstitution => "Bad substitution"

/-- What is left of a script, and the number of its line. -/
structure Source where
  rest : List Char
  line : Nat

/-- A reader of a script. -/
abbrev Reader := StateT Source (Except Fault)

namespace Reader

/-- The next character. -/
def peek : Reader (Option Char) := return (← get).rest.head?

/-- Goes past the next character. -/
def skip : Reader Unit :=
  modify (fun s =>
    ⟨s.rest.tail, if s.rest.head? == some '\n' then s.line + 1 else s.line⟩)

/-- Goes past a character if it is the next one. -/
def accept (c : Char) : Reader Bool := do
  if (← peek) == some c then
    skip
    return true
  else return false

/-- The leading characters that satisfy a condition. -/
def takeWhile (p : Char → Bool) : Reader (List Char) :=
  modifyGet (fun s => (s.rest.takeWhile p, ⟨s.rest.dropWhile p, s.line⟩))

/-- Goes past blanks, joined lines and a comment. -/
def skipBlanks : Nat → Reader Unit
  | 0 => return ()
  | steps + 1 => do
    match (← get).rest with
    | ' ' :: _ => skip; skipBlanks steps
    | '\t' :: _ => skip; skipBlanks steps
    | '\\' :: '\n' :: _ => skip; skip; skipBlanks steps
    | '#' :: _ => let _ ← takeWhile (· != '\n')
    | _ => return ()

/-- Goes past everything that may stand between two commands. -/
def skipLines : Nat → Reader Unit
  | 0 => return ()
  | steps + 1 => do
    skipBlanks (← get).rest.length
    match (← get).rest with
    | '\n' :: _ => skip; skipLines steps
    | _ => return ()

/-- Blanks and comments. -/
def blanks : Reader Unit := do skipBlanks (← get).rest.length

/-- Blanks, comments and line ends. -/
def lines : Reader Unit := do skipLines (← get).rest.length

/-- The characters that end a word. -/
def endsWord (c : Char) : Bool :=
  [' ', '\t', '\n', ';', '&', '|', '<', '>', '(', ')'].contains c

/-- The words that mean something where a command starts. -/
def isReserved (word : String) : Bool :=
  ["if", "then", "elif", "else", "fi", "while", "until", "do", "done", "for", "case", "esac", "\x7b",
    "\x7d", "!"].contains word

/-- A piece in front of others; neighbouring texts become one. -/
def consPiece : Piece → List Piece → List Piece
  | .text false a, .text false b :: rest => .text false (a ++ b) :: rest
  | piece, rest => piece :: rest

/-- The name and the value of a word that binds a variable. -/
def binding? (word : List Piece) : Option (String × List Piece) :=
  match word with
  | .text false chars :: rest =>
    let name := chars.takeWhile isNameChar
    match chars.dropWhile isNameChar with
    | '=' :: value =>
      if name.isEmpty || (name.head?.any isAsciiDigit) then none
      else
        some (String.ofList name, if value.isEmpty then rest else .text false value :: rest)
    | _ => none
  | _ => none

/-- The stream and the operator of a redirection, if one stands next. -/
def redirectionOperator? (text : List Char) : Option (Nat × String × List Char) :=
  let digits := text.takeWhile isAsciiDigit
  let stream := fun (standard : Nat) =>
    if digits.isEmpty then standard else digits.foldl (fun n c => n * 10 + (c.toNat - 48)) 0
  match text.dropWhile isAsciiDigit with
  | '>' :: '>' :: rest => some (stream 1, ">>", rest)
  | '>' :: '&' :: rest => some (stream 1, ">&", rest)
  | '>' :: '|' :: rest => some (stream 1, ">", rest)
  | '>' :: rest => some (stream 1, ">", rest)
  | '<' :: '&' :: rest => some (stream 0, "<&", rest)
  | '<' :: '<' :: '-' :: rest => some (stream 0, "<<-", rest)
  | '<' :: '<' :: rest => some (stream 0, "<<", rest)
  | '<' :: rest => some (stream 0, "<", rest)
  | _ => none

/-- The text of a backquoted command without the backslashes that protect it. -/
def unquoteCommand : List Char → List Char
  | [] => []
  | '\\' :: c :: rest =>
    if c == '\x60' || c == '\\' || c == '$' then c :: unquoteCommand rest
    else '\\' :: c :: unquoteCommand rest
  | c :: rest => c :: unquoteCommand rest

/-- The text up to the closing backquote. -/
def backquoted : Nat → Reader (List Char)
  | 0 => throw .unterminatedQuote
  | steps + 1 => do
    match (← get).rest with
    | [] => throw .unterminatedQuote
    | '\x60' :: _ => skip; return []
    | '\\' :: c :: _ => skip; skip; return '\\' :: c :: (← backquoted steps)
    | c :: _ => skip; return c :: (← backquoted steps)

/-- The text of an arithmetic expression, up to the two parentheses that close it. `depth` is
the number of other parentheses that are open. -/
def arithmeticText : Nat → Nat → Reader (List Char)
  | 0, _ => throw (.missing "))")
  | steps + 1, depth => do
    match (← get).rest, depth with
    | [], _ => throw (.missing "))")
    | ')' :: ')' :: _, 0 => skip; skip; return []
    | ')' :: _, depth => skip; return ')' :: (← arithmeticText steps (depth - 1))
    | '(' :: _, depth => skip; return '(' :: (← arithmeticText steps (depth + 1))
    | c :: _, depth => skip; return c :: (← arithmeticText steps depth)

/-- The lines of a text up to one that is `delimiter`, and what follows that line. `strip`
takes the tabs off the start of each line. `steps` bounds the number of lines. -/
def splitHere (strip : Bool) (delimiter : List Char) : Nat → List Char → List Char × List Char
  | 0, text => ([], text)
  | _, [] => ([], [])
  | steps + 1, text =>
    let line := text.takeWhile (· != '\n')
    let rest := text.dropWhile (· != '\n')
    let shown := if strip then line.dropWhile (· == '\t') else line
    if shown = delimiter then ([], rest.tail)
    else
      let (body, after) := splitHere strip delimiter steps rest.tail
      (shown ++ rest.take 1 ++ body, after)

/-- Takes the text up to `delimiter` out of the lines after this one. -/
def takeHere (strip : Bool) (delimiter : List Char) : Reader (List Char) :=
  modifyGet (fun s =>
    let line := s.rest.takeWhile (· != '\n')
    let rest := s.rest.dropWhile (· != '\n')
    let (body, after) := splitHere strip delimiter rest.length rest.tail
    (body, ⟨line ++ rest.take 1 ++ after, s.line⟩))

/-- The text of the pieces of a word, and whether any of it was quoted. -/
def literalText : List Piece → List Char × Bool
  | [] => ([], false)
  | .text kept chars :: rest =>
    let (more, quoted) := literalText rest
    (chars ++ more, kept || quoted)
  | _ :: rest => literalText rest

/-- What stands next, for a complaint. -/
def unexpectedHere : Reader Fault := do
  match (← get).rest with
  | [] => return .endOfFile ""
  | '\n' :: _ => return .unexpected "newline" ""
  | '&' :: '&' :: _ => return .unexpected "\"&&\"" ""
  | '|' :: '|' :: _ => return .unexpected "\"||\"" ""
  | ';' :: ';' :: _ => return .unexpected "\";;\"" ""
  | c :: rest =>
    if endsWord c then return .unexpected ("\"" ++ c.toString ++ "\"") ""
    else
      let word := String.ofList (c :: rest.takeWhile (fun c => !endsWord c))
      return .unexpected (if isReserved word then "\"" ++ word ++ "\"" else "word") ""

/-- The name that a function is defined for, and what follows its parentheses. -/
def definition? (text : List Char) : Option (String × List Char) :=
  let isSpace := fun (c : Char) => c == ' ' || c == '\t'
  let name := text.takeWhile (fun c => !endsWord c)
  match (text.dropWhile (fun c => !endsWord c)).dropWhile isSpace with
  | '(' :: rest =>
    match name, rest.dropWhile isSpace with
    | [], _ => none
    | _, ')' :: rest => some (String.ofList name, rest)
    | _, _ => none
  | _ => none

mutual

/-- The pieces of a word; inside double quotes if `inside`. `stop` says where it ends. -/
def pieces : Nat → Bool → (Char → Bool) → Reader (List Piece)
  | 0, _, _ => throw .badSubstitution
  | steps + 1, inside, stop => do
    match (← get).rest with
    | [] => if inside then throw .unterminatedQuote else return []
    | c :: rest =>
      if stop c then return []
      else if c = '$' then
        skip
        let piece ← dollar steps inside
        return consPiece piece (← pieces steps inside stop)
      else if c = '\x60' then
        skip
        let text ← backquoted (← get).rest.length
        let line := (← get).line
        match (script steps).run ⟨unquoteCommand text, line⟩ with
        | .ok (commands, _) =>
          return .output inside commands :: (← pieces steps inside stop)
        | .error fault => throw fault
      else if c = '\\' then
        match rest with
        | '\n' :: _ => skip; skip; pieces steps inside stop
        | d :: _ =>
          skip
          if inside && !(['$', '\x60', '"', '\\'].contains d) then
            return .text true ['\\'] :: (← pieces steps inside stop)
          else
            skip
            return .text true [d] :: (← pieces steps inside stop)
        | [] => skip; return [.text true ['\\']]
      else if c = '"' ∧ !inside then
        skip
        let body ← pieces steps true (· == '"')
        skip
        let body := if body.isEmpty then [.text true []] else body
        return body ++ (← pieces steps inside stop)
      else if c = '\'' ∧ !inside then
        skip
        let body ← takeWhile (· != '\'')
        if !(← accept '\'') then throw .unterminatedQuote
        modify (fun s => ⟨s.rest, s.line + body.count '\n'⟩)
        return .text true body :: (← pieces steps inside stop)
      else
        skip
        return consPiece (.text inside [c]) (← pieces steps inside stop)

/-- What stands after a dollar sign. -/
def dollar : Nat → Bool → Reader Piece
  | 0, _ => throw .badSubstitution
  | steps + 1, inside => do
    match (← get).rest with
    | '(' :: '(' :: _ =>
      skip; skip
      let text ← arithmeticText (← get).rest.length 0
      return .arithmetic inside (← quotedPieces steps text)
    | '(' :: _ =>
      skip
      let commands ← commandList steps (fun w => w == ")")
      if !(← accept ')') then throw (.endOfFile ")")
      return .output inside commands
    | '\x7b' :: _ =>
      skip
      parameter steps inside
    | c :: _ =>
      if ['@', '*', '#', '?', '$', '!', '-'].contains c || isAsciiDigit c then
        skip
        return .parameter inside c.toString .value
      else if isNameChar c then
        let name ← takeWhile isNameChar
        return .parameter inside (String.ofList name) .value
      else return .text inside ['$']
    | [] => return .text inside ['$']

/-- The pieces of a text that is expanded as between double quotes, but in which these mean
nothing. -/
def quotedPieces : Nat → List Char → Reader (List Piece)
  | 0, _ => throw .badSubstitution
  | steps + 1, text => do
    let around ← get
    set (⟨text ++ ['\x00'], around.line⟩ : Source)
    let body ← pieces steps true (· == '\x00')
    set around
    return body

/-- What stands after a dollar sign and a brace. -/
def parameter : Nat → Bool → Reader Piece
  | 0, _ => throw .badSubstitution
  | steps + 1, inside => do
    let counted ←
      match (← get).rest with
      | '#' :: c :: _ => if isNameChar c then do skip; pure true else pure false
      | _ => pure false
    let name ←
      match (← get).rest with
      | c :: _ =>
        if isNameChar c then takeWhile isNameChar
        else do skip; pure [c]
      | [] => throw (.missing "\x7d")
    if name = ['\x7d'] then throw .badSubstitution
    let name := String.ofList name
    let emptyIsNone ← accept ':'
    let use ←
      match (← get).rest with
      | '\x7d' :: _ => pure (if counted then Use.length else Use.value)
      | '%' :: '%' :: _ => do skip; skip; pure (.without true true (← pieces steps false (· == '\x7d')))
      | '%' :: _ => do skip; pure (.without true false (← pieces steps false (· == '\x7d')))
      | '#' :: '#' :: _ => do skip; skip; pure (.without false true (← pieces steps false (· == '\x7d')))
      | '#' :: _ => do skip; pure (.without false false (← pieces steps false (· == '\x7d')))
      | c :: _ =>
        if ['-', '=', '+', '?'].contains c then do
          skip
          pure (.instead c emptyIsNone (← pieces steps false (· == '\x7d')))
        else throw .badSubstitution
      | [] => throw (.missing "\x7d")
    if !(← accept '\x7d') then throw (.missing "\x7d")
    return .parameter inside name use

/-- The redirections that stand next. -/
def redirections : Nat → Reader (List Redirection)
  | 0 => return []
  | steps + 1 => do
    blanks
    match redirectionOperator? (← get).rest with
    | none => return []
    | some (stream, operator, rest) =>
      modify (fun s => ⟨rest, s.line⟩)
      blanks
      let target ← pieces steps false endsWord
      if target.isEmpty then throw (← unexpectedHere)
      if operator = "<<" ∨ operator = "<<-" then
        let (delimiter, quoted) := literalText target
        let body ← takeHere (operator == "<<-") delimiter
        let text ← if quoted then pure [.text true body] else quotedPieces steps body
        return .here text :: (← redirections steps)
      else return .mk stream operator target :: (← redirections steps)

/-- The bindings, words and redirections of a simple command. -/
def simpleParts : Nat → Bool →
    Reader (List (String × List Piece) × List (List Piece) × List Redirection)
  | 0, _ => return ([], [], [])
  | steps + 1, bindingsAllowed => do
    let before ← redirections steps
    blanks
    let word ← pieces steps false endsWord
    if word.isEmpty then return ([], [], before)
    else
      match (if bindingsAllowed then binding? word else none) with
      | some bound =>
        let (bindings, words, after) ← simpleParts steps true
        return (bound :: bindings, words, before ++ after)
      | none =>
        let (bindings, words, after) ← simpleParts steps false
        return (bindings, word :: words, before ++ after)

/-- A reserved word that has to stand here. -/
def expect : Nat → String → Reader Unit
  | 0, word => throw (.endOfFile word)
  | _ + 1, word => do
    lines
    let start ← get
    let found ← takeWhile (fun c => !endsWord c)
    if String.ofList found != word then
      set start
      match ← unexpectedHere with
      | .endOfFile _ => throw (.endOfFile word)
      | .unexpected token _ => throw (.unexpected token word)
      | fault => throw fault

/-- A command that is no pipeline. -/
def command : Nat → Reader Command
  | 0 => throw (.endOfFile "")
  | steps + 1 => do
    blanks
    let start ← get
    match start.rest with
    | '(' :: _ =>
      skip
      let body ← someCommands steps ")" (fun w => w == ")")
      if !(← accept ')') then throw (.endOfFile ")")
      finishCompound steps (.subshell (.sequence body))
    | _ =>
      match String.ofList (start.rest.takeWhile (fun c => !endsWord c)) with
      | "\x7b" =>
        skip
        let body ← someCommands steps "\x7d" (fun w => w == "\x7d")
        expect steps "\x7d"
        finishCompound steps (.sequence body)
      | "if" =>
        let _ ← takeWhile isNameChar
        let branch ← conditional steps
        finishCompound steps branch
      | "while" => loopCommand steps false
      | "until" => loopCommand steps true
      | "for" =>
        let _ ← takeWhile isNameChar
        blanks
        let name := String.ofList (← takeWhile isNameChar)
        if name.isEmpty then throw (← unexpectedHere)
        blanks
        let words ←
          match String.ofList ((← get).rest.takeWhile (fun c => !endsWord c)) with
          | "in" => do
            let _ ← takeWhile isNameChar
            let (_, words, _) ← simpleParts steps false
            pure (some words)
          | _ => pure none
        let _ ← accept ';'
        let body ← doneBody steps
        finishCompound steps (.each name words body)
      | "case" =>
        let _ ← takeWhile isNameChar
        blanks
        let word ← pieces steps false endsWord
        if word.isEmpty then throw (← unexpectedHere)
        expect steps "in"
        let arms ← caseArms steps
        finishCompound steps (.choice start.line word arms)
      | word =>
        if isReserved word then throw (← unexpectedHere)
        else if let some (name, rest) := definition? start.rest then
          if !isValidName name then throw .badName
          set (⟨rest, start.line⟩ : Source)
          lines
          return .define name (← command steps)
        else
          let (bindings, words, redirected) ← simpleParts steps true
          if bindings.isEmpty && words.isEmpty && redirected.isEmpty then
            throw (← unexpectedHere)
          else return .simple start.line bindings words redirected

/-- A compound command with the redirections after it. -/
def finishCompound : Nat → Command → Reader Command
  | 0, c => return c
  | steps + 1, c => do
    let after ← redirections steps
    return if after.isEmpty then c else .redirected c after

/-- A loop after its first word. -/
def loopCommand : Nat → Bool → Reader Command
  | 0, _ => throw (.endOfFile "do")
  | steps + 1, inverted => do
    let _ ← takeWhile isNameChar
    let condition ← someCommands steps "do" (fun w => w == "do")
    let body ← doneBody steps
    finishCompound steps (.loop inverted (.sequence condition) body)

/-- The body of a loop between `do` and `done`. -/
def doneBody : Nat → Reader Command
  | 0 => throw (.endOfFile "do")
  | steps + 1 => do
    expect steps "do"
    let body ← someCommands steps "done" (fun w => w == "done")
    expect steps "done"
    return .sequence body

/-- The lists of commands of a `case`, with their patterns. -/
def caseArms : Nat → Reader (List (List (List Piece) × List Command))
  | 0 => return []
  | steps + 1 => do
    lines
    let start ← get
    if String.ofList (← takeWhile (fun c => !endsWord c)) = "esac" then return []
    set start
    let _ ← accept '('
    let patterns ← casePatterns steps
    let body ← commandList steps (fun w => w == "esac" || w == ";;")
    match (← get).rest with
    | ';' :: ';' :: _ => skip; skip; return (patterns, body) :: (← caseArms steps)
    | [] => throw (.endOfFile ";;")
    | _ =>
      expect steps "esac"
      return [(patterns, body)]

/-- Patterns with bars between them, and the parenthesis that ends them. -/
def casePatterns : Nat → Reader (List (List Piece))
  | 0 => throw (.endOfFile ")")
  | steps + 1 => do
    blanks
    let pattern ← pieces steps false endsWord
    blanks
    match (← get).rest with
    | [] => throw (.endOfFile ")")
    | '|' :: _ => skip; return pattern :: (← casePatterns steps)
    | ')' :: _ => skip; return [pattern]
    | _ => throw (← unexpectedHere)

/-- Commands of which there has to be one, up to the word `closing`. -/
def someCommands : Nat → String → (String → Bool) → Reader (List Command)
  | 0, closing, _ => throw (.endOfFile closing)
  | steps + 1, closing, stop => do
    let commands ← commandList steps stop
    if commands.isEmpty then
      match ← unexpectedHere with
      | .endOfFile _ => throw (.endOfFile closing)
      | fault => throw fault
    return commands

/-- The condition and the branches after `if` or `elif`. -/
def conditional : Nat → Reader Command
  | 0 => throw (.endOfFile "then")
  | steps + 1 => do
    let condition ← someCommands steps "then" (fun w => w == "then" || w == "fi")
    expect steps "then"
    let yes ← someCommands steps "fi" (fun w => w == "elif" || w == "else" || w == "fi")
    match String.ofList ((← get).rest.takeWhile (fun c => !endsWord c)) with
    | "elif" =>
      let _ ← takeWhile isNameChar
      let no ← conditional steps
      return .branch (.sequence condition) (.sequence yes) (some no)
    | "else" =>
      let _ ← takeWhile isNameChar
      let no ← someCommands steps "fi" (fun w => w == "fi")
      expect steps "fi"
      return .branch (.sequence condition) (.sequence yes) (some (.sequence no))
    | _ =>
      expect steps "fi"
      return .branch (.sequence condition) (.sequence yes) none

/-- A pipeline. -/
def pipeline : Nat → Reader Command
  | 0 => throw (.endOfFile "")
  | steps + 1 => do
    blanks
    let negated ←
      match (← get).rest with
      | '!' :: c :: _ => if endsWord c then do skip; pure true else pure false
      | ['!'] => do skip; pure true
      | _ => pure false
    let first ← command steps
    let stages ← pipelineRest steps
    return if stages.isEmpty && !negated then first else .pipeline negated (first :: stages)

/-- The stages of a pipeline after the first. -/
def pipelineRest : Nat → Reader (List Command)
  | 0 => return []
  | steps + 1 => do
    blanks
    match (← get).rest with
    | '|' :: '|' :: _ => return []
    | '|' :: _ =>
      skip
      lines
      let stage ← command steps
      return stage :: (← pipelineRest steps)
    | _ => return []

/-- Pipelines joined by `&&` and by two bars. -/
def chain : Nat → Reader Command
  | 0 => throw (.endOfFile "")
  | steps + 1 => do
    let first ← pipeline steps
    chainRest steps first

/-- What follows a pipeline in a chain. -/
def chainRest : Nat → Command → Reader Command
  | 0, c => return c
  | steps + 1, first => do
    blanks
    match (← get).rest with
    | '&' :: '&' :: _ =>
      skip; skip; lines
      let second ← pipeline steps
      chainRest steps (.both first second)
    | '|' :: '|' :: _ =>
      skip; skip; lines
      let second ← pipeline steps
      chainRest steps (.either first second)
    | _ => return first

/-- Commands up to a word that ends them, or to the end. -/
def commandList : Nat → (String → Bool) → Reader (List Command)
  | 0, _ => return []
  | steps + 1, stop => do
    lines
    match (← get).rest with
    | [] => return []
    | c :: rest =>
      let word := String.ofList ((c :: rest).takeWhile (fun c => !endsWord c))
      if stop c.toString || stop word || (c = ';' && rest.head? == some ';' && stop ";;") then
        return []
      else
        let first ← chain steps
        blanks
        match (← get).rest with
        | ';' :: ';' :: _ => if stop ";;" then return [first] else throw (← unexpectedHere)
        | ';' :: _ => skip; return first :: (← commandList steps stop)
        | '\n' :: _ => skip; return first :: (← commandList steps stop)
        | '&' :: _ => skip; return first :: (← commandList steps stop)
        | c :: _ => if stop c.toString then return [first] else throw (← unexpectedHere)
        | [] => return [first]

/-- All commands of a text. -/
def script : Nat → Reader (List Command)
  | 0 => return []
  | steps + 1 => commandList steps (fun _ => false)

end

/-- The commands up to the end of a line, joined by semicolons. -/
def lineRest : Nat → Nat → Reader (List Command)
  | _, 0 => return []
  | steps, more + 1 => do
    blanks
    match (← get).rest with
    | [] => return []
    | '\n' :: _ => skip; return []
    | _ =>
      let first ← chain steps
      blanks
      match (← get).rest with
      | ';' :: ';' :: _ => throw (← unexpectedHere)
      | ';' :: _ => skip; return first :: (← lineRest steps more)
      | '&' :: _ => skip; return first :: (← lineRest steps more)
      | '\n' :: _ => skip; return [first]
      | [] => return [first]
      | _ => throw (← unexpectedHere)

end Reader

/-- The commands that end on the next line of a script. -/
def nextCommands (source : Source) : Except Fault (List Command × Source) :=
  let steps := 8 * source.rest.length + 16
  (Reader.lineRest steps steps).run source

end ScriptRunner.Shell
