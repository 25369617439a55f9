/-!
# Log

Records with a level, a threshold that decides which of them are written, and the line a record is
written as. A logger starts with no threshold and writes nothing until it is given one; giving it
another later changes nothing but the threshold.
-/
namespace LS8

inductive Level where
  | error | warn | info | debug | trace
  deriving DecidableEq, Repr

/-- Higher is more verbose. -/
def Level.verbosity : Level → Nat
  | error => 1
  | warn => 2
  | info => 3
  | debug => 4
  | trace => 5

def Level.name : Level → String
  | error => "ERROR"
  | warn => "WARN"
  | info => "INFO"
  | debug => "DEBUG"
  | trace => "TRACE"

/-- The most verbose level that is written; none is a logger that is switched off. -/
abbrev Threshold := Option Level

def Level.within (level : Level) : Threshold → Bool
  | none => false
  | some most => level.verbosity ≤ most.verbosity

structure Record where
  level : Level
  message : String
  deriving DecidableEq, Repr

/-- Terminal sequences that set the colour of a level. -/
def Level.colour : Level → String
  | error => "\x1b[1m\x1b[31m"
  | warn => "\x1b[1m\x1b[33m"
  | info => "\x1b[32m"
  | debug | trace => "\x1b[2m"

/-- Level names are padded so that messages start in one column. -/
def Record.line (coloured : Bool) (r : Record) : String :=
  let tag := "[" ++ String.ofList (r.level.name.toList.rightpad 5 ' ') ++ "]"
  if coloured then
    "\x1b[0m" ++ r.level.colour ++ tag ++ "\x1b[0m " ++ r.message ++ "\n"
  else
    tag ++ " " ++ r.message ++ "\n"

structure Logger where
  threshold : Threshold := none
  coloured : Bool := false
  written : String := ""

namespace Logger

/-- The line of a record, if it is written. -/
def line? (logger : Logger) (r : Record) : Option String :=
  if r.level.within logger.threshold then some (r.line logger.coloured) else none

def log (logger : Logger) (r : Record) : Logger :=
  match logger.line? r with
  | some line => { logger with written := logger.written ++ line }
  | none => logger

/-- The logger of a session. Warnings are written also without a trace. -/
def forTrace (coloured trace : Bool) : Logger :=
  { threshold := some (if trace then .trace else .warn), coloured := coloured }

end Logger
end LS8
