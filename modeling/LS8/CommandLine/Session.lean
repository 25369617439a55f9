import LS8.Assembly.Layout
import LS8.CommandLine.Files
import LS8.CommandLine.Request
import LS8.Listing
import LS8.Machine.Basic

/-!
# Sessions

One invocation of the program, from its arguments to its exit code. It is written for any host,
which has the files and the streams: for a process the system is the host, and for a report of an
invocation it is a value that holds the files there are and what has been written so far.

Records are written to the standard error as they are logged, warnings and worse unless a trace is
asked for.
-/
namespace LS8.CommandLine

/-- Everything that ends a command early. -/
inductive Failure where
  | usage (e : UsageError)
  | unreadable (path : String) (e : FileError)
  | unwritable (path : String) (e : FileError)
  | listing (path : String) (e : ListingError)
  | source (e : Assembly.AssemblyError)
  | load (fault : Fault)
  | runtime (fault : Fault)
  /-- The standard output does not take a disassembly. -/
  | stdout (reason : String)
  deriving DecidableEq, Repr

namespace Failure

def text : Failure → String
  | usage e => e.text
  | unreadable path e => "error: cannot read '" ++ path ++ "': " ++ e.message ++ "\n"
  | unwritable path e => "error: cannot write '" ++ path ++ "': " ++ e.message ++ "\n"
  | listing path e => "error: " ++ path ++ ": " ++ e.message ++ "\n"
  | source e => "error: " ++ e.message ++ "\n"
  | load fault => "error: " ++ fault.message ++ "\n"
  | runtime fault => "runtime error: " ++ fault.message ++ "\n"
  | stdout reason => "failed printing to stdout: " ++ reason ++ "\n"

/-- A fault of the program itself has an exit code of its own; output that fails is not one. Nothing
looks at whether a disassembly was printed, so that a failure there is a panic. -/
def code : Failure → Nat
  | runtime (.output _) => 1
  | runtime _ => 3
  | stdout _ => 101
  | _ => 1

end Failure

/-! ## Commands -/

/-- What a command can ask for, with effects of the kind `n`. Its standard output is of the kind
`σ`, and one command holds it at a time. -/
structure Host (n : Type → Type) (σ : Type) where
  read : String → n (Except FileError String)
  write : String → String → n (Except FileError Unit)
  /-- Writes to the standard error. -/
  complain : String → n Unit
  lock : n σ
  unlock : σ → n Unit
  emit : σ → UInt8 → n (σ × Except Fault Unit)
  print : σ → String → n (σ × Except String Unit)
  /-- Runs a machine until it has stopped. -/
  drive : Effects n σ → Machine σ → n (Machine σ × Except Fault Unit)

def disassembly (image : Image) (addresses : Bool) : String :=
  if addresses then disassembleWithAddresses image else disassemble image

def assembledText (image : Image) (output : String) : String :=
  "assembled " ++ Numeral.decimal image.length ++ " bytes -> " ++ output ++ "\n"

section

variable {n : Type → Type} [Monad n] {ε α : Type}

/-- The command goes on with the result, or an error is its failure. -/
def orFail (result : Except ε α) (failure : ε → Failure) : ExceptT Failure n α :=
  match result with
  | .ok a => return a
  | .error e => throw (failure e)

end

namespace Host

variable {n : Type → Type} [Monad n] {σ : Type} (host : Host n σ)

def log (logger : Logger) (r : Record) : n Unit :=
  match logger.line? r with
  | some line => host.complain line
  | none => pure ()

def readText (path : String) : ExceptT Failure n String := do
  let answer ← host.read path
  orFail answer (.unreadable path)

def readImage (log : Record → n Unit) (path : String) : ExceptT Failure n Image := do
  let listing ← host.readText path
  let image ← orFail (Listing.parse listing) (.listing path)
  log (Listing.parsedRecord image)
  return image

def execute (log : Record → n Unit) (image : Image) : ExceptT Failure n Unit := do
  let channel ← host.lock
  let m ← orFail (Machine.load { channel := channel } image) .load
  log (Machine.loadRecord image)
  let (m, result) ← host.drive { emit := host.emit, log := log } m
  host.unlock m.channel
  orFail result .runtime

def run (log : Record → n Unit) (input : String) : ExceptT Failure n Unit := do
  let image ← host.readImage log input
  host.execute log image

def assemble (log : Record → n Unit) (input output : String) : ExceptT Failure n Unit := do
  let source ← host.readText input
  (forM (assembleRecords source) log : n Unit)
  let image ← orFail (LS8.assemble source) .source
  let answer ← host.write output (Listing.render image)
  orFail answer (.unwritable output)
  host.complain (assembledText image output)

def disassemble (log : Record → n Unit) (input : String) (addresses : Bool) :
    ExceptT Failure n Unit := do
  let image ← host.readImage log input
  let channel ← host.lock
  let (channel, answer) ← host.print channel (disassembly image addresses)
  host.unlock channel
  orFail answer .stdout

variable (coloured : Bool)

/-- Only a run can be traced. -/
def obey (request : Request) : ExceptT Failure n Unit :=
  match request with
  | .help => host.complain usage
  | .run input trace => host.run (host.log (.forTrace coloured trace)) input
  | .assemble input output => host.assemble (host.log (.forTrace coloured false)) input output
  | .disassemble input addresses =>
    host.disassemble (host.log (.forTrace coloured false)) input addresses

/-- The exit code. -/
def session (arguments : List String) : n Nat := do
  let result ← ExceptT.run do
    let request ← orFail (Request.ofArguments arguments) .usage
    host.obey coloured request
  match result with
  | .ok () => return 0
  | .error failure =>
    host.complain failure.text
    return failure.code

end Host

/-! ## Reports -/

/-- What an invocation finds. -/
structure Surroundings where
  files : Files := {}
  coloured : Bool := false
  /-- The standard output. -/
  output : LineWriter := {}

structure Report where
  code : Nat := 0
  stdout : String := ""
  stderr : String := ""
  files : Files

/-- What an invocation has left by now. -/
structure Scene where
  files : Files
  output : LineWriter
  stderr : String := ""

/-- A run that reaches the limit leaves nothing. -/
def Scene.host (limit : Nat) : Host (OptionT (StateM Scene)) LineWriter where
  read path := return (← get).files.read path
  write path content := modifyGet fun scene =>
    match scene.files.write path content with
    | .error e => (.error e, scene)
    | .ok files => (.ok (), { scene with files := files })
  complain text := modify fun scene => { scene with stderr := scene.stderr ++ text }
  lock := return (← get).output
  unlock output := modify fun scene => { scene with output := output }
  emit output value := pure (Channel.emit output value)
  print output text := pure (output.write text)
  drive effects m := do
    let (m, ending) ← m.runWith effects limit
    match ending.result? with
    | some result => return (m, result)
    | none => failure

/-- The standard output has been given nothing yet. -/
def Surroundings.scene (s : Surroundings) : Scene :=
  { files := s.files, output := { s.output with text := "" } }

def Scene.report (scene : Scene) (code : Nat) : Report :=
  { code := code, stdout := scene.output.text, stderr := scene.stderr, files := scene.files }

def perform (limit : Nat) (s : Surroundings) (arguments : List String) : Option Report :=
  let (code, last) := ((Scene.host limit).session s.coloured arguments).run.run s.scene
  code.map last.report

end LS8.CommandLine
