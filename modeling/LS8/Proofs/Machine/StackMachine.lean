import LS8.Machine.Arithmetic
import LS8.Machine.Storage
import Mathlib.Algebra.Group.Nat.Defs

/-!
# A machine for straight-line programs

Carries out a list of instructions one after the other, up to the first HLT or the first fault. It
has neither a memory nor a program counter: the program is the list, and the stack is a list too,
which may grow without end and can be empty. Results are computed in exact numbers, and what is
stored of them is the remainder that fits a byte.
-/
namespace LS8

structure StackMachine where
  registers : Registers := {}
  flags : Flags := {}
  stack : List UInt8 := []
  output : List UInt8 := []

namespace StackMachine

def register (index : UInt8) : Except Cause Register :=
  if h : index.toNat < 8 then .ok ⟨index.toNat, h⟩ else .error (.invalidRegister index)

def read (m : StackMachine) (index : UInt8) : Except Cause UInt8 := do
  let r ← register index
  return m.registers.get r

def setRegister (m : StackMachine) (r : Register) (value : UInt8) : StackMachine :=
  { m with registers := m.registers.set r value }

def write (m : StackMachine) (index : UInt8) (value : Nat) : Except Cause StackMachine := do
  let r ← register index
  return m.setRegister r (UInt8.ofNat value)

/-- What an arithmetic instruction does with the numbers in its two registers, of which `a` is the
first. -/
def compute (m : StackMachine) (a : UInt8) (x y : Nat) : AluOp → Except Cause StackMachine
  | .add => m.write a (x + y)
  | .mul => m.write a (x * y)
  | .mod => if y = 0 then .error .divisionByZero else m.write a (x % y)
  | .cmp => .ok { m with flags := ⟨x = y, y < x, x < y⟩ }
  | .and => m.write a (x &&& y)
  | .or => m.write a (x ||| y)
  | .xor => m.write a (x ^^^ y)
  | .shl => m.write a (x * 2 ^ y)
  | .shr => m.write a (x / 2 ^ y)
  | .not => m.write a (255 - y)

/-- One instruction. HLT and the jumps do nothing here: `run` stops in front of a HLT, and a
straight line has no jumps. -/
def exec (m : StackMachine) (i : Instruction) : Except Cause StackMachine :=
  match i.opcode with
  | .nop | .hlt | .jump _ => .ok m
  | .ldi => m.write i.a i.b.toNat
  | .prn => do
    let value ← m.read i.a
    return { m with output := m.output ++ [value] }
  | .push => do
    let value ← m.read i.a
    return { m with stack := value :: m.stack }
  | .pop =>
    match m.stack with
    | [] => .error .stackUnderflow
    | value :: rest => { m with stack := rest }.write i.a value.toNat
  | .alu op => do
    let x ← m.read i.a
    let y ← m.read i.b
    m.compute i.a x.toNat y.toNat op

/-- What has been printed when the list stops, or the fault that stops it. The first instruction of
the list has the given address. -/
def run (m : StackMachine) (address : Nat) : List Instruction → Except Fault (List UInt8)
  | [] => .ok m.output
  | i :: rest =>
    if i.opcode = .hlt then .ok m.output
    else
      match m.exec i with
      | .error cause => .error (.instruction cause (UInt8.ofNat address))
      | .ok next => next.run (address + i.width) rest

/-- The most values that are on the stack at one time. -/
def peak (m : StackMachine) : List Instruction → Nat
  | [] => m.stack.length
  | i :: rest =>
    if i.opcode = .hlt then m.stack.length
    else
      match m.exec i with
      | .error _ => m.stack.length
      | .ok next => max m.stack.length (next.peak rest)

/-! ## The list -/

theorem run_hlt (m : StackMachine) (address : Nat) {i : Instruction} (h : i.opcode = .hlt)
    (rest : List Instruction) : m.run address (i :: rest) = .ok m.output := if_pos h

theorem run_of_error {m : StackMachine} {i : Instruction} {cause : Cause} (h : i.opcode ≠ .hlt)
    (hexec : m.exec i = .error cause) (address : Nat) (rest : List Instruction) :
    m.run address (i :: rest) = .error (.instruction cause (UInt8.ofNat address)) := by
  rw [run, if_neg h, hexec]

theorem run_of_ok {m next : StackMachine} {i : Instruction} (h : i.opcode ≠ .hlt)
    (hexec : m.exec i = .ok next) (address : Nat) (rest : List Instruction) :
    m.run address (i :: rest) = next.run (address + i.width) rest := by
  rw [run, if_neg h, hexec]

theorem peak_of_ok {m next : StackMachine} {i : Instruction} (h : i.opcode ≠ .hlt)
    (hexec : m.exec i = .ok next) (rest : List Instruction) :
    m.peak (i :: rest) = max m.stack.length (next.peak rest) := by
  rw [peak, if_neg h, hexec]

theorem peak_hlt (m : StackMachine) {i : Instruction} (h : i.opcode = .hlt)
    (rest : List Instruction) : m.peak (i :: rest) = m.stack.length := if_pos h

theorem peak_of_error {m : StackMachine} {i : Instruction} {cause : Cause} (h : i.opcode ≠ .hlt)
    (hexec : m.exec i = .error cause) (rest : List Instruction) :
    m.peak (i :: rest) = m.stack.length := by
  rw [peak, if_neg h, hexec]

theorem stack_le_peak (m : StackMachine) (list : List Instruction) :
    m.stack.length ≤ m.peak list := by
  cases list with
  | nil => exact Nat.le_refl _
  | cons i rest =>
    by_cases h : i.opcode = .hlt
    · exact Nat.le_of_eq (m.peak_hlt h rest).symm
    · cases hexec : m.exec i with
      | error cause => exact Nat.le_of_eq (peak_of_error h hexec rest).symm
      | ok next =>
        rw [peak_of_ok h hexec]
        exact Nat.le_max_left _ _

theorem peak_le_peak_cons {m next : StackMachine} {i : Instruction} (h : i.opcode ≠ .hlt)
    (hexec : m.exec i = .ok next) (rest : List Instruction) :
    next.peak rest ≤ m.peak (i :: rest) := by
  rw [peak_of_ok h hexec]
  exact Nat.le_max_right _ _

/-! ## Operands -/

theorem register_of_ok {index : UInt8} {r : Register} (h : Register.ofByte index = .ok r) :
    register index = .ok r := by
  unfold Register.ofByte at h
  unfold register
  split at h
  · next hlt =>
    obtain rfl := Except.ok.inj h
    exact dif_pos hlt
  · contradiction

theorem register_of_not_accepts {index : UInt8}
    (h : OperandKind.register.accepts index = false) :
    register index = .error (.invalidRegister index) := by
  have hlt : ¬ index.toNat < 8 := by simpa [OperandKind.accepts] using h
  exact dif_neg hlt

theorem read_of_ok {m : StackMachine} {index : UInt8} {r : Register}
    (h : Register.ofByte index = .ok r) : m.read index = .ok (m.registers.get r) := by
  rw [read, register_of_ok h]
  rfl

theorem read_of_not_accepts {m : StackMachine} {index : UInt8}
    (h : OperandKind.register.accepts index = false) :
    m.read index = .error (.invalidRegister index) := by
  rw [read, register_of_not_accepts h]
  rfl

/-- A byte is stored as it is, and a number as the byte that it is modulo 256. -/
theorem write_of_ok {m : StackMachine} {index value : UInt8} {r : Register} {n : Nat}
    (h : Register.ofByte index = .ok r) (hvalue : value.toNat = n % 256) :
    m.write index n = .ok (m.setRegister r value) := by
  have hbyte : UInt8.ofNat n = value := UInt8.toNat_inj.mp hvalue.symm
  rw [write, register_of_ok h, ← hbyte]
  rfl

theorem write_of_not_accepts {m : StackMachine} {index : UInt8} {n : Nat}
    (h : OperandKind.register.accepts index = false) :
    m.write index n = .error (.invalidRegister index) := by
  rw [write, register_of_not_accepts h]
  rfl

/-! ## Instructions -/

section Instructions

variable {m : StackMachine} {x y : UInt8} {r r' : Register}

theorem exec_ldi (h : Register.ofByte x = .ok r) :
    m.exec ⟨.ldi, x, y⟩ = .ok (m.setRegister r y) :=
  write_of_ok h (Nat.mod_eq_of_lt y.toNat_lt).symm

theorem exec_prn (h : Register.ofByte x = .ok r) :
    m.exec ⟨.prn, x, y⟩ = .ok { m with output := m.output ++ [m.registers.get r] } := by
  rw [exec, read_of_ok h]
  rfl

theorem exec_push (h : Register.ofByte x = .ok r) :
    m.exec ⟨.push, x, y⟩ = .ok { m with stack := m.registers.get r :: m.stack } := by
  rw [exec, read_of_ok h]
  rfl

/-- An empty stack is found out before the register is looked at. -/
theorem exec_pop_nil (hstack : m.stack = []) : m.exec ⟨.pop, x, y⟩ = .error .stackUnderflow := by
  simp only [exec, hstack]

theorem exec_pop_cons {value : UInt8} {rest : List UInt8} (hstack : m.stack = value :: rest)
    (h : Register.ofByte x = .ok r) :
    m.exec ⟨.pop, x, y⟩ = .ok ({ m with stack := rest }.setRegister r value) := by
  simp only [exec, hstack]
  exact write_of_ok h (Nat.mod_eq_of_lt value.toNat_lt).symm

theorem exec_alu {op : AluOp} (h : Register.ofByte x = .ok r) (h' : Register.ofByte y = .ok r') :
    m.exec ⟨.alu op, x, y⟩ =
      m.compute x (m.registers.get r).toNat (m.registers.get r').toNat op := by
  rw [exec, read_of_ok h, read_of_ok h']
  rfl

end Instructions

end StackMachine
end LS8
