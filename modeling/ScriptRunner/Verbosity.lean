import ScriptRunner.Text.Blank

/-!
# ScriptRunner.Verbosity

How much is logged. The log itself is left out, apart from warnings: these are given notice of
at every level.
-/

namespace ScriptRunner

/-- How much is logged, from nothing to everything. -/
inductive Verbosity
  | off
  | error
  | warn
  | info
  | debug
  | trace
  deriving DecidableEq, Repr

namespace Verbosity

/-- All levels, each logging more than the one before. -/
def all : List Verbosity := [off, error, warn, info, debug, trace]

/-- The name of a level. -/
def name : Verbosity → String
  | off => "OFF"
  | error => "ERROR"
  | warn => "WARN"
  | info => "INFO"
  | debug => "DEBUG"
  | trace => "TRACE"

/-- The level of a name, in capitals or not. -/
def ofName? (text : String) : Option Verbosity :=
  all.find? (fun v => Text.lowerAscii v.name.toList == Text.lowerAscii text.toList)

/-- The place of a level among all. -/
def rank : Verbosity → Nat
  | off => 0
  | error => 1
  | warn => 2
  | info => 3
  | debug => 4
  | trace => 5

/-- The level of a rank; beyond the last it is the last. -/
def ofRank : Nat → Verbosity
  | 0 => off
  | 1 => error
  | 2 => warn
  | 3 => info
  | 4 => debug
  | _ => trace

/-- The level `steps` above this one, as far as there is one. -/
def raise (v : Verbosity) (steps : Nat) : Verbosity :=
  ofRank (v.rank + steps)

end Verbosity

end ScriptRunner
