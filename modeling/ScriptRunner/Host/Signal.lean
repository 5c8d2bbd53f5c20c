import ScriptRunner.Exit

/-!
# ScriptRunner.Host.Signal

The signals that end a process which does nothing about them.
-/

namespace ScriptRunner

/-- A signal: its number, its name, and what it is reported as. -/
structure Signal where
  number : Nat
  name : String
  report : String
  deriving Repr

namespace Signal

/-- The signals. -/
def all : List Signal :=
  [⟨1, "HUP", "Hangup"⟩, ⟨2, "INT", "Interrupt"⟩, ⟨3, "QUIT", "Quit"⟩,
    ⟨4, "ILL", "Illegal instruction"⟩, ⟨5, "TRAP", "Trace/breakpoint trap"⟩,
    ⟨6, "ABRT", "Aborted"⟩, ⟨7, "BUS", "Bus error"⟩, ⟨8, "FPE", "Floating point exception"⟩,
    ⟨9, "KILL", "Killed"⟩, ⟨10, "USR1", "User defined signal 1"⟩,
    ⟨11, "SEGV", "Segmentation fault"⟩, ⟨12, "USR2", "User defined signal 2"⟩,
    ⟨13, "PIPE", "Broken pipe"⟩, ⟨14, "ALRM", "Alarm clock"⟩, ⟨15, "TERM", "Terminated"⟩,
    ⟨24, "XCPU", "CPU time limit exceeded"⟩, ⟨25, "XFSZ", "File size limit exceeded"⟩,
    ⟨26, "VTALRM", "Virtual timer expired"⟩, ⟨27, "PROF", "Profiling timer expired"⟩,
    ⟨29, "IO", "I/O possible"⟩, ⟨30, "PWR", "Power failure"⟩, ⟨31, "SYS", "Bad system call"⟩]

/-- The names of signals that end no process, in the order of their numbers. -/
def harmless : List (Nat × String) :=
  [(17, "CHLD"), (18, "CONT"), (23, "URG"), (28, "WINCH")]

/-- The signal that a text names, by number or by name. -/
def ofText? (text : String) : Option Signal :=
  all.find? (fun s => toString s.number == text || s.name == text || "SIG" ++ s.name == text)

/-- Whether a text names a signal that ends no process. -/
def isHarmless (text : String) : Bool :=
  harmless.any (fun s => toString s.1 == text || s.2 == text)

/-- Whether a shell reports that the signal ended one of its commands. -/
def isReported (s : Signal) : Bool := s.name != "INT" && s.name != "PIPE"

/-- The exit of a process that the signal ended. -/
def exit (s : Signal) : Exit := Exit.ofSignal ("SIG" ++ s.name)

/-- The signal that an exit was caused by. -/
def ofExit? (e : Exit) : Option Signal := e.terminatedBy.bind ofText?

end Signal

end ScriptRunner
