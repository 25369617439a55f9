/-!
# Requests

What the arguments of the program ask for, or what is wrong with them. The arguments of `run` and
`disassemble` are read from left to right: one input, a flag that may stand anywhere and be
repeated, and nothing else. `assemble` looks at fixed places only.
-/
namespace LS8.CommandLine

inductive Command where
  | run | assemble | disassemble
  deriving DecidableEq, Repr

def Command.name : Command → String
  | run => "run"
  | assemble => "assemble"
  | disassemble => "disassemble"

def Command.synopsis : Command → String
  | run => "run <prog.ls8> [--trace]"
  | assemble => "assemble <input.asm> [-o output.ls8]"
  | disassemble => "disassemble <prog.ls8> [--addresses]"

def Command.summary : Command → String
  | run => "Load and execute a program"
  | assemble => "Assemble mnemonics to a .ls8 listing"
  | disassemble => "Disassemble a .ls8 listing"

/-- The summaries start in one column. -/
def Command.help (c : Command) : String :=
  "  " ++ String.ofList (c.synopsis.toList.rightpad 42 ' ') ++ c.summary ++ "\n"

def usage : String :=
  "Usage: ls8 <command> [args]\n\nCommands:\n" ++ Command.run.help ++ Command.assemble.help ++
    Command.disassemble.help

inductive Request where
  | help
  | run (input : String) (trace : Bool)
  | assemble (input output : String)
  | disassemble (input : String) (addresses : Bool)
  deriving DecidableEq, Repr

inductive UsageError where
  | noCommand
  | unknownCommand (name : String)
  | missingInput (command : Command)
  | unknownFlag (flag : String)
  | unexpectedArgument (argument : String)
  deriving DecidableEq, Repr

def UsageError.text : UsageError → String
  | noCommand => usage
  | unknownCommand name => "error: unknown command '" ++ name ++ "'\n\n" ++ usage
  | missingInput command =>
    "error: " ++ command.name ++ " requires an input file\nUsage: ls8 " ++ command.synopsis ++ "\n"
  | unknownFlag flag => "error: unknown flag '" ++ flag ++ "'\n"
  | unexpectedArgument argument => "error: unexpected argument '" ++ argument ++ "'\n"

def isFlag (argument : String) : Bool := "--".toList.isPrefixOf argument.toList

/-- The input and whether the flag was given, after what earlier arguments have settled. -/
def flaggedInput (flag : String) (input : Option String) (given : Bool) :
    List String → Except UsageError (Option String × Bool)
  | [] => .ok (input, given)
  | argument :: rest =>
    if argument = flag then flaggedInput flag input true rest
    else if isFlag argument then .error (.unknownFlag argument)
    else
      match input with
      | none => flaggedInput flag (some argument) given rest
      | some _ => .error (.unexpectedArgument argument)

/-- A source `name.asm` becomes `name.ls8`, any other name gets `.ls8` at its end. -/
def defaultOutput (input : String) : String :=
  let name := input.toList
  let ending := ".asm".toList
  let stem := if ending.isSuffixOf name then name.take (name.length - ending.length) else name
  String.ofList stem ++ ".ls8"

/-- Whatever follows the output name, or an input that `-o` does not follow, is not looked at. -/
def assembleRequest : List String → Except UsageError Request
  | [] => .error (.missingInput .assemble)
  | input :: "-o" :: output :: _ => .ok (.assemble input output)
  | input :: _ => .ok (.assemble input (defaultOutput input))

def flagged (command : Command) (flag : String) (request : String → Bool → Request)
    (arguments : List String) : Except UsageError Request := do
  match ← flaggedInput flag none false arguments with
  | (some input, given) => return request input given
  | (none, _) => .error (.missingInput command)

def Request.ofArguments : List String → Except UsageError Request
  | [] => .error .noCommand
  | name :: rest =>
    if name = Command.run.name then flagged .run "--trace" Request.run rest
    else if name = Command.assemble.name then assembleRequest rest
    else if name = Command.disassemble.name then
      flagged .disassemble "--addresses" Request.disassemble rest
    else if name = "help" ∨ name = "--help" ∨ name = "-h" then .ok .help
    else .error (.unknownCommand name)

end LS8.CommandLine
