import ScriptRunner.Command.Reader
import ScriptRunner.Text.Lines

/-!
# ScriptRunner.Command.EntryText

From the lines of a script entry to one command line and the input for its program.

A line whose first character is `#` ends the entry. Lines are joined by spaces, each
without its trailing backslash, up to the first line with a marker `<<`: what stands
before the marker is the last part of the command, and the lines after it are the
input, up to a line that is the marker's word. The input is kept literally.

The marker is the last `<<` of its line outside quotes and escapes, with nothing but
one word after it. `<<<` is no marker.
-/

namespace ScriptRunner

/-- A script entry as one command line and, where it has one, its input. -/
structure EntryText where
  command : String
  input : Option String
  deriving DecidableEq, Repr

namespace EntryText

/-- The text before and after the last `<<` outside quotes. `seen` is what was read
before `text`, `found` the best split so far, and the flags follow quotes and escapes.
A backslash escapes outside single quotes. -/
def lastMarker (seen : List Char) (found : Option (List Char × List Char))
    (inSingle inDouble escaped : Bool) (text : List Char) : Option (List Char × List Char) :=
  match text with
  | [] => found
  | c :: rest =>
    if escaped then lastMarker (seen ++ [c]) found inSingle inDouble false rest
    else if c = '\\' ∧ inSingle = false then
      lastMarker (seen ++ [c]) found inSingle inDouble true rest
    else if c = '\'' ∧ inDouble = false then
      lastMarker (seen ++ [c]) found (!inSingle) inDouble false rest
    else if c = '"' ∧ inSingle = false then
      lastMarker (seen ++ [c]) found inSingle (!inDouble) false rest
    else if c = '<' ∧ inSingle = false ∧ inDouble = false then
      match rest with
      | '<' :: '<' :: rest₂ =>
        lastMarker (seen ++ ['<', '<', '<']) found inSingle inDouble false rest₂
      | '<' :: rest₁ =>
        lastMarker (seen ++ ['<', '<']) (some (seen, rest₁)) inSingle inDouble false rest₁
      | other => lastMarker (seen ++ [c]) found inSingle inDouble false other
    else lastMarker (seen ++ [c]) found inSingle inDouble false rest

/-- The word between a pair of the same quotes, or the text itself. -/
def unquote (word : List Char) : List Char :=
  match word with
  | q :: rest =>
    match rest.reverse with
    | r :: inner => if (q = '\'' ∨ q = '"') ∧ r = q then inner.reverse else word
    | [] => word
  | [] => word

/-- The command before the marker of a line, and the word that ends the input, if the
marker has one. -/
def marker? (line : List Char) : Option (List Char × Option (List Char)) :=
  match lastMarker [] none false false false line with
  | none => none
  | some (head, tail) =>
    let trimmed := Text.trim tail
    let word := match trimmed with
      | '-' :: rest => rest
      | _ => trimmed
    if word.isEmpty then some (head, none)
    else
      let plain := unquote word
      if plain.isEmpty || plain.any isBlank then none else some (head, some plain)

/-- The lines of the input: all of them, or those before the end word. -/
def inputLines (word : Option (List Char)) (lines : List (List Char)) : List (List Char) :=
  match word with
  | none => lines
  | some w => lines.takeWhile (fun line => Text.trim line != w)

/-- A line as a part of the command: trimmed, without a backslash at its end. -/
def commandPart (line : List Char) : List Char :=
  Text.trimEnd (Text.stripLast '\\' (Text.trim line))

/-- Whether the line ends the entry as a comment. -/
def isComment (line : List Char) : Bool :=
  (Text.trimStart line).head? == some '#'

/-- The parts of the command and the lines of the input. -/
def collect : List (List Char) → List (List Char) × Option (List (List Char))
  | [] => ([], none)
  | line :: rest =>
    if isComment line then ([], none)
    else
      match marker? line with
      | some (head, word) => ([Text.trim head], some (inputLines word rest))
      | none =>
        let (parts, input) := collect rest
        (commandPart line :: parts, input)

/-- The entry with these lines; a line may itself hold several. -/
def ofLines (lines : List String) : EntryText :=
  let (parts, input) := collect (lines.flatMap (fun l => Text.lines l.toList))
  { command := String.ofList (Text.join [' '] (parts.filter (fun p => !p.isEmpty)))
    input := input.map (fun body => String.ofList (Text.join ['\n'] body)) }

end EntryText

end ScriptRunner
