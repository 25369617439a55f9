/-!
# Opcodes

The nineteen operations of the machine with their bytes, mnemonics and operand layouts. `Opcode.all`
is the one table; looking an opcode up by its byte or by its mnemonic searches that table, so
neither look-up can disagree with `Opcode.byte` or `Opcode.mnemonic`.
-/
namespace LS8

inductive AluOp where
  | add | mul | mod | cmp | and | or | xor | shl | shr | not
  deriving DecidableEq, Repr

inductive Condition where
  | always | equal | notEqual
  deriving DecidableEq, Repr

inductive Opcode where
  | nop | hlt | ldi | prn | push | pop
  | alu (op : AluOp)
  | jump (condition : Condition)
  deriving DecidableEq, Repr

/-- How an operand byte is meant: as the number of a register, or as a value. -/
inductive OperandKind where
  | register | immediate
  deriving DecidableEq, Repr

namespace Opcode

def all : List Opcode :=
  [.nop, .hlt, .ldi, .prn, .alu .add, .alu .mul, .alu .mod, .alu .cmp, .alu .and, .alu .or,
    .alu .xor, .alu .shl, .alu .shr, .alu .not, .push, .pop, .jump .always, .jump .equal,
    .jump .notEqual]

theorem mem_all (op : Opcode) : op ∈ all := by
  rcases op with _ | _ | _ | _ | _ | _ | op | c
  case alu => cases op <;> decide
  case jump => cases c <;> decide
  all_goals decide

def byte : Opcode → UInt8
  | nop => 0x00
  | hlt => 0x01
  | ldi => 0x82
  | prn => 0x47
  | push => 0x45
  | pop => 0x46
  | alu .add => 0xA0
  | alu .mul => 0xA2
  | alu .mod => 0xA4
  | alu .cmp => 0xA7
  | alu .and => 0xA8
  | alu .or => 0xAA
  | alu .xor => 0xAB
  | alu .shl => 0xAC
  | alu .shr => 0xAD
  | alu .not => 0x69
  | jump .always => 0x54
  | jump .equal => 0x55
  | jump .notEqual => 0x56

def mnemonic : Opcode → String
  | nop => "NOP"
  | hlt => "HLT"
  | ldi => "LDI"
  | prn => "PRN"
  | push => "PUSH"
  | pop => "POP"
  | alu .add => "ADD"
  | alu .mul => "MUL"
  | alu .mod => "MOD"
  | alu .cmp => "CMP"
  | alu .and => "AND"
  | alu .or => "OR"
  | alu .xor => "XOR"
  | alu .shl => "SHL"
  | alu .shr => "SHR"
  | alu .not => "NOT"
  | jump .always => "JMP"
  | jump .equal => "JEQ"
  | jump .notEqual => "JNE"

/-- The operand bytes that follow the opcode byte, in order. -/
def operands : Opcode → List OperandKind
  | nop | hlt => []
  | ldi => [.register, .immediate]
  | prn | push | pop | jump _ => [.register]
  | alu _ => [.register, .register]

/-- Bytes an instruction takes, its opcode byte included. -/
def width (op : Opcode) : Nat := 1 + op.operands.length

/-- Whether the instruction itself decides where execution goes on. -/
def setsPc : Opcode → Bool
  | jump _ => true
  | _ => false

def isAlu : Opcode → Bool
  | alu _ => true
  | _ => false

def ofByte? (byte : UInt8) : Option Opcode := all.find? (·.byte == byte)

/-- Finds the exact, upper-case spelling only. -/
def ofMnemonic? (name : String) : Option Opcode := all.find? (·.mnemonic == name)

theorem ofByte?_byte (op : Opcode) : ofByte? op.byte = some op := by
  rcases op with _ | _ | _ | _ | _ | _ | op | c
  case alu => cases op <;> rfl
  case jump => cases c <;> rfl
  all_goals rfl

theorem ofByte?_eq_some_iff {b : UInt8} {op : Opcode} : ofByte? b = some op ↔ op.byte = b := by
  constructor
  · intro h
    simpa using List.find?_some h
  · rintro rfl
    exact ofByte?_byte op

theorem operands_length_le (op : Opcode) : op.operands.length ≤ 2 := by
  cases op <;> simp [operands]

theorem width_pos (op : Opcode) : 0 < op.width := by
  unfold width
  omega

end Opcode
end LS8
