import LS8.CommandLine.Session

/-!
# The program

The process as the host of a session: its files, its standard streams, and machines that run for as
long as they do.
-/
namespace LS8.Main
open LS8.CommandLine

/-- Some system calls report the number of an error negated. -/
def errorNumber (code : UInt32) : UInt32 := min code (-code)

def fileError : IO.Error → FileError
  | .noFileOrDirectory .. => .notFound
  | .inappropriateType _ code _ => if errorNumber code = 20 then .notDirectory else .isDirectory
  | .permissionDenied .. => .other "Permission denied (os error 13)"
  | e => .other e.toString

def outputReason : IO.Error → String
  | .resourceExhausted .. => "No space left on device (os error 28)"
  | .resourceVanished .. => "Broken pipe (os error 32)"
  | e => e.toString

def readText (path : String) : IO (Except FileError String) := do
  try
    let bytes ← IO.FS.readBinFile path
    return match String.fromUTF8? bytes with
      | some text => .ok text
      | none => .error .notText
  catch e => return .error (fileError e)

def writeText (path content : String) : IO (Except FileError Unit) := do
  try
    IO.FS.writeFile path content
    return .ok ()
  catch e => return .error (fileError e)

/-- Whatever is written ends with its line, so nothing is held back. -/
def writeOut (stdout : IO.FS.Stream) (text : String) : IO (Except String Unit) := do
  try
    stdout.putStr text
    stdout.flush
    return .ok ()
  catch e => return .error (outputReason e)

/-- One bounded run after the other, until one of them comes to an end. -/
partial def drive {σ : Type} (effects : Effects IO σ) (m : Machine σ) :
    IO (Machine σ × Except Fault Unit) := do
  let (m, ending) ← m.runWith effects 4096
  match ending.result? with
  | some result => return (m, result)
  | none => drive effects m

def host : Host IO IO.FS.Stream where
  read := readText
  write := writeText
  complain := IO.eprint
  lock := IO.getStdout
  unlock _ := pure ()
  emit stdout value := return (stdout, (← writeOut stdout (decimalLine value)).mapError .output)
  print stdout text := return (stdout, ← writeOut stdout text)
  drive := drive

/-- Colours are for terminals that say they have them, unless they are not wanted. -/
def coloured : IO Bool := do
  let terminal ← IO.getEnv "TERM"
  let refused ← IO.getEnv "NO_COLOR"
  return terminal.any (· != "dumb") && refused.isNone

end LS8.Main

def main (arguments : List String) : IO UInt32 := do
  let code ← LS8.Main.host.session (← LS8.Main.coloured) arguments
  return UInt32.ofNat code
