/-!
# ScriptRunner.Host.Errno

The refusals of the operating system that files and programs can meet.
-/

namespace ScriptRunner

/-- Why the operating system refused a request. -/
inductive Errno
  | noEntry
  | notExecutableFormat
  | accessDenied
  | alreadyExists
  | notDirectory
  | isDirectory
  | invalidArgument
  | nameTooLong
  | notEmpty
  | tooManyLinks
  deriving DecidableEq, Repr

namespace Errno

/-- The number of the refusal. -/
def number : Errno → Nat
  | noEntry => 2
  | notExecutableFormat => 8
  | accessDenied => 13
  | alreadyExists => 17
  | notDirectory => 20
  | isDirectory => 21
  | invalidArgument => 22
  | nameTooLong => 36
  | notEmpty => 39
  | tooManyLinks => 40

/-- The refusal in words. -/
def text : Errno → String
  | noEntry => "No such file or directory"
  | notExecutableFormat => "Exec format error"
  | accessDenied => "Permission denied"
  | alreadyExists => "File exists"
  | notDirectory => "Not a directory"
  | isDirectory => "Is a directory"
  | invalidArgument => "Invalid argument"
  | nameTooLong => "File name too long"
  | notEmpty => "Directory not empty"
  | tooManyLinks => "Too many levels of symbolic links"

/-- The refusal in words, with its number. -/
def message (e : Errno) : String :=
  e.text ++ " (os error " ++ toString e.number ++ ")"

end Errno

end ScriptRunner
