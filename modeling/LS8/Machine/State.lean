import LS8.Machine.Arithmetic
import LS8.Machine.Storage

/-!
# Machine state

Memory, registers, program counter, stack pointer and flags; and a machine, which is a state,
whether it is still running, and an output channel. The program counter and the stack pointer are
bytes, so they wrap, and the three bytes of an instruction may straddle the end of memory.
-/
namespace LS8

/-- Where the stack pointer starts; it grows downwards. -/
def stackStart : UInt8 := 0xF4

structure State where
  memory : Memory := {}
  registers : Registers := {}
  pc : UInt8 := 0
  sp : UInt8 := stackStart
  flags : Flags := {}
  deriving DecidableEq, Repr

namespace State

/-- The byte so many places after the program counter. -/
def fetch (s : State) (offset : UInt8) : UInt8 := s.memory.fetch (s.pc + offset)

def advance (s : State) (opcode : Opcode) : State :=
  { s with pc := s.pc + UInt8.ofNat opcode.width }

/-- Program counter, the three bytes there and the registers, in upper-case hexadecimal. -/
def traceLine (s : State) : String :=
  let byte (b : UInt8) : String := Numeral.upperHex 2 b.toNat
  let row (bytes : List UInt8) : String := " ".intercalate (bytes.map byte)
  "TRACE: " ++ byte s.pc ++ " | " ++ row [s.fetch 0, s.fetch 1, s.fetch 2] ++ " | " ++
    row s.registers.cells.toList

end State

inductive Status where
  | running | halted
  deriving DecidableEq, Repr

structure Machine (σ : Type) where
  state : State := {}
  status : Status := .running
  channel : σ

inductive Ending where
  | halted
  | faulted (fault : Fault)
  /-- The limit was reached and the machine is still running. -/
  | unfinished
  deriving DecidableEq, Repr

/-- What a run reports at its end, if it has come to one. -/
def Ending.result? : Ending → Option (Except Fault Unit)
  | halted => some (.ok ())
  | faulted fault => some (.error fault)
  | unfinished => none

end LS8
