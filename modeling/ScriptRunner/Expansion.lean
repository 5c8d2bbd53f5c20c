import ScriptRunner.Command.Name
import ScriptRunner.Command.Statement
import ScriptRunner.Effect
import ScriptRunner.Text.Lines

/-!
# ScriptRunner.Expansion

From a statement to the words of a command and the bindings that go with it.

A word of a statement becomes at most one word of the command. It vanishes when all it
consists of are expansions without a value; a literal piece, even an empty one, makes it
stay. Values are put in as they are: nothing in them is split, unquoted or expanded again.

Expansion never fails. A name without a value, a parameter that is more than a name, and
a substitution that prints nothing contribute nothing. What a substitution prints is
asked of an oracle, so that expansion can be studied apart from running programs.
-/

namespace ScriptRunner

/-- Where a name finds its value: in the bindings made earlier in the same statement,
then in the variables of the session, then in the environment. -/
structure Scope where
  pending : Env
  vars : Env
  env : Env

namespace Scope

/-- The scope at the start of a statement. -/
def start (vars env : Env) : Scope := ⟨Bindings.empty, vars, env⟩

/-- The value of a name. -/
def lookup (s : Scope) (name : String) : Option String :=
  (s.pending.lookup name).or ((s.vars.lookup name).or (s.env.lookup name))

/-- The value of a name as a word. The empty value is no word. -/
def word (s : Scope) (name : String) : List String :=
  match s.lookup name with
  | some value => if value.isEmpty then [] else [value]
  | none => []

end Scope

/-- A statement after expansion. Without a program, the bindings are for the session;
with one, they are for this one command. -/
structure Resolved where
  program : Option String
  args : List String
  env : Env
  deriving DecidableEq

/-- The program followed by its arguments. -/
def Resolved.argv (r : Resolved) : List String :=
  r.program.toList ++ r.args

namespace Expansion

/-- What the statements of a substitution print. -/
abbrev Oracle (σ : Type) := List Statement → Effect σ String

variable {σ : Type}

/-- What is said about a parameter that is not supported. -/
def unsupported (text : String) : String :=
  "unsupported parameter expansion $\x7b" ++ text ++ "\x7d; substituting nothing"

/-- The words of the pieces of one word, put together: one word, unless no piece has
any. -/
def glue (pieces : List (List String)) : List String :=
  if pieces.all List.isEmpty then [] else [String.join pieces.flatten]

/-- The value of captured output as a word. -/
def outputWord (output : String) : List String :=
  let value := collapseOutput output
  if value.isEmpty then [] else [value]

mutual

/-- The words that a word expands to. Only an array has more than one. -/
def evaluate (oracle : Oracle σ) (scope : Scope) : Word → Effect σ (List String)
  | .literal text => pure [text]
  | .variable name => pure (scope.word name)
  | .parameter text =>
    let name := String.ofList (Text.trim text.toList)
    if isValidName name then pure (scope.word name)
    else do
      Effect.warn (unsupported text)
      pure []
  | .substitution [] => pure []
  | .substitution (s :: rest) => do
    let output ← oracle (s :: rest)
    pure (outputWord output)
  | .concat pieces => do
    let words ← evaluateEach oracle scope pieces
    pure (glue words)
  | .array elements => do
    let words ← evaluateEach oracle scope elements
    pure words.flatten

/-- The words of several words, from left to right. -/
def evaluateEach (oracle : Oracle σ) (scope : Scope) : List Word → Effect σ (List (List String))
  | [] => pure []
  | w :: rest => do
    let words ← evaluate oracle scope w
    let others ← evaluateEach oracle scope rest
    pure (words :: others)

end

/-- The bindings that assignments make, from left to right. A later value sees the
earlier ones. -/
def bindEach (oracle : Oracle σ) (scope : Scope) : List Assignment → Effect σ Env
  | [] => pure scope.pending
  | a :: rest => do
    let words ← evaluate oracle scope a.value
    bindEach oracle { scope with pending := scope.pending.bind a.name (joinBySpace words) } rest

/-- Expands a statement. The words of a command do not see its own assignments. The first
word that does not vanish is the program. -/
def expand (oracle : Oracle σ) (vars env : Env) : Statement → Effect σ Resolved
  | .assign assignments => do
    let bindings ← bindEach oracle (Scope.start vars env) assignments
    pure ⟨none, [], bindings⟩
  | .command name args inline => do
    let words ← evaluateEach oracle (Scope.start vars env) (name :: args)
    let bindings ← bindEach oracle (Scope.start vars env) inline
    pure ⟨words.flatten.head?, words.flatten.tail, bindings⟩

end Expansion

end ScriptRunner
