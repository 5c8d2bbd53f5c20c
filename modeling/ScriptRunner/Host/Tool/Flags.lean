import ScriptRunner.Host.Console

/-!
# ScriptRunner.Host.Tool.Flags

The flags among the arguments of a program.

A flag has a letter and a long name. Letters stand together after one dash, a long name after
two, where it may be cut short as long as no other flag starts like that. A value stands
after its flag or in the next argument. Flags may stand between operands unless the program
wants them first, and `--` ends them.
-/

namespace ScriptRunner

/-- A flag that a program knows. -/
structure FlagForm where
  letter : Char
  long : String
  /-- Whether a value goes with it. -/
  valued : Bool

/-- The flags of a call, each with its value or the empty text, and the operands. -/
structure Flags where
  found : List (Char × String)
  operands : List String

/-- Why the flags of a call cannot be read. -/
inductive FlagFault
  | unknownLetter (letter : Char)
  | unknownName (arg : String)
  | letterWithoutValue (letter : Char)
  | nameWithoutValue (name : String)
  | nameWithValue (name : String)
  deriving DecidableEq

/-- A fault in words. -/
def FlagFault.message : FlagFault → String
  | unknownLetter letter => "invalid option -- " ++ quoted letter.toString
  | unknownName arg => "unrecognized option " ++ quoted arg
  | letterWithoutValue letter => "option requires an argument -- " ++ quoted letter.toString
  | nameWithoutValue name => "option " ++ quoted ("--" ++ name) ++ " requires an argument"
  | nameWithValue name => "option " ++ quoted ("--" ++ name) ++ " doesn\'t allow an argument"

namespace Flags

/-- Whether a flag was given. -/
def has (flags : Flags) (letter : Char) : Bool := flags.found.any (fun f => f.1 == letter)

/-- The last value of a flag. -/
def value? (flags : Flags) (letter : Char) : Option String :=
  (flags.found.reverse.find? (fun f => f.1 == letter)).map Prod.snd

/-- The flags of the letters of one argument, and the letter whose value is in the next
argument. -/
def ofLetters (forms : List FlagForm) :
    List Char → Except FlagFault (List (Char × String) × Option Char)
  | [] => .ok ([], none)
  | c :: rest =>
    match forms.find? (fun f => f.letter == c) with
    | none => .error (.unknownLetter c)
    | some form =>
      if form.valued then
        if rest.isEmpty then .ok ([], some c) else .ok ([(c, String.ofList rest)], none)
      else do
        let (flags, waiting) ← ofLetters forms rest
        .ok ((c, "") :: flags, waiting)

/-- The flag of a long name, which may be cut short. -/
def named? (forms : List FlagForm) (name : String) : Option FlagForm :=
  match forms.find? (fun f => f.long == name) with
  | some form => some form
  | none =>
    match forms.filter (fun f => name.toList.isPrefixOf f.long.toList) with
    | [form] => some form
    | _ => none

/-- The flag of an argument with two dashes, and the flag whose value is in the next
argument. -/
def ofName (forms : List FlagForm) (arg : String) :
    Except FlagFault (List (Char × String) × Option Char) :=
  let text := arg.toList.drop 2
  match named? forms (String.ofList (text.takeWhile (· != '='))) with
  | none => .error (.unknownName arg)
  | some form =>
    match form.valued, text.contains '=' with
    | true, true => .ok ([(form.letter, String.ofList ((text.dropWhile (· != '=')).drop 1))], none)
    | true, false => .ok ([], some form.letter)
    | false, true => .error (.nameWithValue form.long)
    | false, false => .ok ([(form.letter, "")], none)

/-- What is missing where the value of a flag should be in the next argument. -/
def withoutValue (forms : List FlagForm) (arg : String) (letter : Char) : FlagFault :=
  match arg.startsWith "--", forms.find? (fun f => f.letter == letter) with
  | true, some form => .nameWithoutValue form.long
  | _, _ => .letterWithoutValue letter

/-- Reads the arguments of a program. `first` says that flags have to stand before all
operands. -/
def read (forms : List FlagForm) (first : Bool) : List String → Except FlagFault Flags
  | [] => .ok ⟨[], []⟩
  | arg :: rest =>
    if arg = "--" then .ok ⟨[], rest⟩
    else if !arg.startsWith "-" || arg = "-" then
      if first then .ok ⟨[], arg :: rest⟩
      else do
        let flags ← read forms first rest
        .ok ⟨flags.found, arg :: flags.operands⟩
    else do
      let (found, waiting) ←
        if arg.startsWith "--" then ofName forms arg else ofLetters forms (arg.toList.drop 1)
      match waiting, rest with
      | none, rest =>
        let flags ← read forms first rest
        .ok ⟨found ++ flags.found, flags.operands⟩
      | some letter, value :: rest =>
        let flags ← read forms first rest
        .ok ⟨found ++ (letter, value) :: flags.found, flags.operands⟩
      | some letter, [] => .error (withoutValue forms arg letter)

end Flags

/-- Does something with the flags and operands of a call, or complains about them; `code` is
the exit code in that case. -/
def Call.withFlags (call : Call) (forms : List FlagForm) (first : Bool) (code : Nat)
    (work : Flags → Running Exit) : Running Exit :=
  match Flags.read forms first call.args with
  | .ok flags => work flags
  | .error fault => do
    let _ ← call.misused fault.message
    return Exit.ofCode code

end ScriptRunner
