import LS8.Log
import LS8.Machine.Channel
import LS8.Machine.State

/-!
# Carrying out an instruction

The operations of the machine as they take place: they read the machine, check what they have read,
and change one part of it after the other. At a fault they break off, and what they have changed by
then stays changed. So nothing here says that an instruction that faults has changed nothing; that
depends on the order in which each of them checks and changes (`Exec.dispatch_run`).

Where printed values go is left to an effect of any kind, a channel that is a value or the output of
a process.
-/
namespace LS8

/-- Code that works on a machine and may break off, within the effects `n`. -/
abbrev Exec (n : Type → Type) (σ α : Type) : Type := ExceptT Fault (StateT (Machine σ) n) α

namespace Exec

variable {n : Type → Type} [Monad n] {σ : Type}

def modifyState (f : State → State) : Exec n σ Unit :=
  modify fun m => { m with state := f m.state }

/-- What goes wrong is a fault of the instruction at this address. -/
def located {α : Type} (address : UInt8) (result : Except Cause α) : Exec n σ α :=
  liftExcept (result.mapError fun cause => Fault.instruction cause address)

def readRegister (address index : UInt8) : Exec n σ UInt8 := do
  let m ← get
  located address ((m.state.registers.read index).mapError fun _ => .invalidRegister index)

def writeRegister (address index value : UInt8) : Exec n σ Unit := do
  let m ← get
  let registers ← located address ((m.state.registers.write index value).mapError fun _ =>
    .invalidRegister index)
  modifyState fun s => { s with registers := registers }

/-- Both operands are read, and the first one is where the result goes. -/
def compute (address : UInt8) (opcode : Opcode) (a b : UInt8) : Exec n σ Unit := do
  let x ← readRegister address a
  let y ← readRegister address b
  match ← located address (opcode.evaluate x y) with
  | .store value => writeRegister address a value
  | .compared flags => modifyState fun s => { s with flags := flags }

def push (address a : UInt8) : Exec n σ Unit := do
  let value ← readRegister address a
  modifyState fun s => { s with sp := s.sp - 1 }
  modifyState fun s => { s with memory := s.memory.store s.sp value }

/-- The stack is looked at before the operand. -/
def pop (address a : UInt8) : Exec n σ Unit := do
  let m ← get
  if m.state.sp = stackStart then
    located address (.error .stackUnderflow)
  else
    writeRegister address a (m.state.memory.fetch m.state.sp)
    modifyState fun s => { s with sp := s.sp + 1 }

/-- The register is read also where the jump is not taken. -/
def branch (address a : UInt8) (condition : Condition) : Exec n σ Unit := do
  let m ← get
  let target ← readRegister address a
  if condition.holds m.state.flags then
    modifyState fun s => { s with pc := target }
  else
    modifyState fun s => s.advance (.jump condition)

variable (emit : σ → UInt8 → n (σ × Except Fault Unit))

/-- What the output has changed, it has changed also where it fails. Its fault is passed on as it
is. -/
def print (address a : UInt8) : Exec n σ Unit := do
  let value ← readRegister address a
  let m ← get
  let (channel, answer) ← emit m.channel value
  modify fun m => { m with channel := channel }
  liftExcept answer

/-- What an opcode does apart from going on to the next instruction. -/
def operate (address : UInt8) (opcode : Opcode) (a b : UInt8) : Exec n σ Unit :=
  match opcode with
  | .nop => pure ()
  | .hlt => modify fun m => { m with status := .halted }
  | .ldi => writeRegister address a b
  | .prn => print emit address a
  | .push => push address a
  | .pop => pop address a
  | .alu _ => compute address opcode a b
  | .jump condition => branch address a condition

/-- One instruction, given as its address and the three bytes there. A HLT stays where it is. -/
def dispatch (address byte a b : UInt8) : Exec n σ Unit :=
  match Opcode.ofByte? byte with
  | none => located address (.error (.unsupportedOpcode byte))
  | some opcode => do
    operate emit address opcode a b
    unless opcode = .hlt ∨ opcode.setsPc do
      modifyState fun s => s.advance opcode

end Exec

/-- What a machine does to the world around it. -/
structure Effects (n : Type → Type) (σ : Type) where
  emit : σ → UInt8 → n (σ × Except Fault Unit)
  log : Record → n Unit

namespace Effects

variable {n : Type → Type} [Monad n] (σ : Type) [Channel σ]

/-- A channel that is a value, whatever is done with the log. -/
def logging (log : Record → n Unit) : Effects n σ where
  emit channel value := pure (Channel.emit channel value)
  log := log

def silent : Effects Id σ := logging σ fun _ => pure ()

/-- All records are kept. -/
def recording : Effects (StateM (Array Record)) σ := logging σ fun r => modify (·.push r)

end Effects

/-- What is logged before an instruction. -/
def State.traceRecord (s : State) : Record := ⟨.trace, s.traceLine⟩

namespace Machine

def haltRecord (address : UInt8) : Record := ⟨.debug, "halted at " ++ Numeral.byteText address⟩

def faultRecord (address : UInt8) (fault : Fault) : Record :=
  ⟨.debug, "fault at " ++ Numeral.byteText address ++ ": " ++ fault.message⟩

section Steps

variable {n : Type → Type} [Monad n] {σ : Type} (effects : Effects n σ)

/-- A fault stops the machine, wherever the instruction has broken off. -/
def conclude (address : UInt8) (result : Except Fault Unit) (m : Machine σ) :
    n (Machine σ × Except Fault Status) := do
  match result with
  | .ok () =>
    if m.status = .halted then effects.log (haltRecord address)
    return (m, .ok m.status)
  | .error fault =>
    effects.log (faultRecord address fault)
    return ({ m with status := .halted }, .error fault)

/-- Carries out the instruction at the program counter. A machine that has stopped does nothing, and
logs nothing. -/
def stepWith (m : Machine σ) : n (Machine σ × Except Fault Status) :=
  match m.status with
  | .halted => pure (m, .ok .halted)
  | .running => do
    let s := m.state
    effects.log s.traceRecord
    let (result, next) ←
      (Exec.dispatch effects.emit s.pc (s.fetch 0) (s.fetch 1) (s.fetch 2)).run.run m
    conclude effects s.pc result next

/-- At most so many steps, ending at a halt or at the first fault. -/
def runWith (limit : Nat) (m : Machine σ) : n (Machine σ × Ending) :=
  match m.status, limit with
  | .halted, _ => pure (m, .halted)
  | .running, 0 => pure (m, .unfinished)
  | .running, limit + 1 => do
    let (next, result) ← m.stepWith effects
    match result with
    | .ok _ => next.runWith limit
    | .error fault => pure (next, .faulted fault)

end Steps

variable {σ : Type} [Channel σ]

def step (m : Machine σ) : Machine σ × Except Fault Status := (m.stepWith (.silent σ)).run

def run (limit : Nat) (m : Machine σ) : Machine σ × Ending := (m.runWith (.silent σ) limit).run

/-- The records of a step. -/
def stepRecords (m : Machine σ) : List Record := ((m.stepWith (.recording σ)).run #[]).2.toList

/-- The records of at most so many steps, after those already there. -/
def runRecords (limit : Nat) (m : Machine σ) (records : Array Record) : Array Record :=
  ((m.runWith (.recording σ) limit).run records).2

end Machine
end LS8
