import LS8.Image

/-!
# Faults

Everything that can go wrong in the machine. A cause belongs to one instruction and is reported with
that instruction's address; the other faults have no address in the program.
-/
namespace LS8

/-- Why an instruction cannot be carried out. -/
inductive Cause where
  | unsupportedOpcode (byte : UInt8)
  | unsupportedOperation (opcode : Opcode)
  | stackUnderflow
  | invalidRegister (index : UInt8)
  | divisionByZero
  deriving DecidableEq, Repr

def Cause.message : Cause → String
  | unsupportedOpcode byte => "unsupported opcode " ++ Numeral.byteText byte
  | unsupportedOperation opcode => "unsupported ALU operation " ++ opcode.mnemonic
  | stackUnderflow => "stack underflow"
  | invalidRegister index => "invalid register R" ++ Numeral.decimal index.toNat
  | divisionByZero => "division by zero"

inductive Fault where
  | outOfBounds (address : Nat)
  | programTooLarge (size : Nat)
  | instruction (cause : Cause) (address : UInt8)
  | output (reason : String)
  deriving DecidableEq, Repr

def Fault.message : Fault → String
  | outOfBounds address => "memory address 0x" ++ Numeral.hex 1 address ++ " out of bounds"
  | programTooLarge size => Image.tooLargeText size
  | instruction cause address => cause.message ++ " at address " ++ Numeral.byteText address
  | output reason => "output channel failed: " ++ reason

end LS8
