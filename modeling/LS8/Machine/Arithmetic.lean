import LS8.Machine.Fault

/-!
# Arithmetic unit

A pure function of an operation and two bytes. A result is either stored in the destination register
or replaces the flags; where it goes is part of the result, so the machine has no list of operations
of its own. All arithmetic is on bytes and wraps.
-/
namespace LS8

structure Flags where
  equal : Bool := false
  greater : Bool := false
  less : Bool := false
  deriving DecidableEq, Repr

def Flags.compare (x y : UInt8) : Flags := ⟨x == y, decide (y < x), decide (x < y)⟩

def Condition.holds : Condition → Flags → Bool
  | always, _ => true
  | equal, flags => flags.equal
  | notEqual, flags => !flags.equal

inductive Outcome where
  | store (value : UInt8)
  | compared (flags : Flags)
  deriving DecidableEq, Repr

/-- Shifting by eight or more leaves nothing; core's shift would take the amount modulo eight. -/
def shiftLeft (x y : UInt8) : UInt8 := if y < 8 then x <<< y else 0

def shiftRight (x y : UInt8) : UInt8 := if y < 8 then x >>> y else 0

def AluOp.apply (x y : UInt8) : AluOp → Except Cause Outcome
  | add => .ok (.store (x + y))
  | mul => .ok (.store (x * y))
  | mod => if y = 0 then .error .divisionByZero else .ok (.store (x % y))
  | cmp => .ok (.compared (.compare x y))
  | and => .ok (.store (x &&& y))
  | or => .ok (.store (x ||| y))
  | xor => .ok (.store (x ^^^ y))
  | shl => .ok (.store (shiftLeft x y))
  | shr => .ok (.store (shiftRight x y))
  | not => .ok (.store (~~~y))

/-- Only arithmetic instructions have a result of this kind. -/
def Opcode.evaluate (opcode : Opcode) (x y : UInt8) : Except Cause Outcome :=
  match opcode with
  | .alu op => op.apply x y
  | _ => .error (.unsupportedOperation opcode)

theorem AluOp.apply_eq_error_iff {op : AluOp} {x y : UInt8} {cause : Cause} :
    op.apply x y = .error cause ↔ op = .mod ∧ y = 0 ∧ cause = .divisionByZero := by
  cases op
  case mod =>
    by_cases h : y = 0
    · simp [apply, h, eq_comm]
    · simp [apply, h]
  all_goals simp [apply]

end LS8
