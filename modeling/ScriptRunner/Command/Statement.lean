/-!
# ScriptRunner.Command.Statement

What a command line says: statements made of words.

A word is kept as it was written, quotes resolved and expansions not yet made, so
the same statement can be expanded against any environment. The tree admits more
shapes than reading ever produces (an array inside an array, say); which shapes
reading produces is a matter for the reader.
-/

namespace ScriptRunner

mutual

/-- A word of a command, or a piece of one. -/
inductive Word
  /-- Text that stands for itself. -/
  | literal (text : String)
  /-- `$NAME`, or `$` and one special character. -/
  | variable (name : String)
  /-- A `$` with braces, by the text between them. Only a plain name there means
  anything. -/
  | parameter (text : String)
  /-- `$(…)` or backquotes: the output of these statements. -/
  | substitution (statements : List Statement)
  /-- Pieces written without a blank between them. -/
  | concat (pieces : List Word)
  /-- `( … )` on the right of an assignment. -/
  | array (elements : List Word)

/-- `NAME=value`. -/
inductive Assignment
  | mk (name : String) (value : Word)

/-- One statement of a command line. -/
inductive Statement
  /-- A program with its arguments. The assignments written before the program's name
  hold for this one command. -/
  | command (name : Word) (args : List Word) (inline : List Assignment)
  /-- Assignments alone, which change the session. -/
  | assign (assignments : List Assignment)

end

namespace Assignment

/-- The name that is bound. -/
def name : Assignment → String
  | mk n _ => n

/-- The value it is bound to. -/
def value : Assignment → Word
  | mk _ v => v

end Assignment

/-! ## Nesting

How deep substitutions stand inside substitutions. Running a substitution expands its
statements, whose own substitutions are one level less deep. -/

mutual

/-- The number of substitutions around the innermost part of a word. -/
def Word.nesting : Word → Nat
  | .literal _ => 0
  | .variable _ => 0
  | .parameter _ => 0
  | .substitution statements => Statement.nestingAll statements + 1
  | .concat pieces => Word.nestingAll pieces
  | .array elements => Word.nestingAll elements

/-- The greatest nesting of several words. -/
def Word.nestingAll : List Word → Nat
  | [] => 0
  | w :: ws => max w.nesting (Word.nestingAll ws)

/-- The nesting of an assignment is that of its value. -/
def Assignment.nesting : Assignment → Nat
  | .mk _ value => value.nesting

/-- The greatest nesting of several assignments. -/
def Assignment.nestingAll : List Assignment → Nat
  | [] => 0
  | a :: rest => max a.nesting (Assignment.nestingAll rest)

/-- The greatest nesting of the parts of a statement. -/
def Statement.nesting : Statement → Nat
  | .command name args inline =>
    max name.nesting (max (Word.nestingAll args) (Assignment.nestingAll inline))
  | .assign assignments => Assignment.nestingAll assignments

/-- The greatest nesting of several statements. -/
def Statement.nestingAll : List Statement → Nat
  | [] => 0
  | s :: rest => max s.nesting (Statement.nestingAll rest)

end

end ScriptRunner
