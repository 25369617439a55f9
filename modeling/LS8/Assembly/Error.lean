import LS8.Image

/-!
# Assembly errors

What can be wrong with a line of assembly text, and with the program as a whole. A fault names the
piece of text it is about, names in upper case and numbers in decimal; only a numeral that could not
be read is given as it was written.
-/
namespace LS8.Assembly

inductive LineFault where
  | unknownOpcode (token : String)
  | missingArgument (operation : String) (expected : Nat)
  | invalidNumber (token : String)
  | invalidRegister (token : String)
  | unexpectedToken (token : String)
  | undefinedLabel (label : String)
  | duplicateLabel (label : String)
  deriving DecidableEq, Repr

/-- Lines count from one. -/
inductive AssemblyError where
  | atLine (line : Nat) (fault : LineFault)
  | programTooLarge (size : Nat)
  deriving DecidableEq, Repr

def LineFault.message : LineFault → String
  | unknownOpcode token => "unknown opcode '" ++ token ++ "'"
  | missingArgument operation expected =>
    operation ++ " expects " ++ Numeral.decimal expected ++ " operand(s)"
  | invalidNumber token => "invalid number '" ++ token ++ "'"
  | invalidRegister token => "expected register R0-R7, found '" ++ token ++ "'"
  | unexpectedToken token => "unexpected token '" ++ token ++ "'"
  | undefinedLabel label => "undefined label '" ++ label ++ "'"
  | duplicateLabel label => "label '" ++ label ++ "' already defined"

def AssemblyError.message : AssemblyError → String
  | atLine line fault => "line " ++ Numeral.decimal line ++ ": " ++ fault.message
  | programTooLarge size => Image.tooLargeText size

end LS8.Assembly
