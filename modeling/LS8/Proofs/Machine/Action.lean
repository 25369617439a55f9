import LS8.Machine.Basic

/-!
# What an instruction amounts to

An instruction as a function of the state alone: a fault, a next state, a value to be printed
together with the state that holds once the output has taken it, or the end. `State.action` has no
order of checks and changes to keep, so it is what proofs about the machine start from. That the
machine does just this is shown operation by operation; each of them either has done everything or,
at a fault, nothing (`Exec.Amounts`). For the step as a whole there is one equation
(`Machine.stepWith_eq`).
-/
namespace LS8

/-- What an instruction amounts to when it does not fault. -/
inductive Action where
  | proceed (next : State)
  | print (value : UInt8) (next : State)
  | halt
  deriving DecidableEq, Repr

namespace State

def operandRegister (index : UInt8) : Except Cause Register :=
  match Register.ofByte index with
  | .ok r => .ok r
  | .error _ => .error (.invalidRegister index)

def setRegister (s : State) (r : Register) (value : UInt8) : State :=
  { s with registers := s.registers.set r value }

def push (s : State) (value : UInt8) : State :=
  { s with sp := s.sp - 1, memory := s.memory.store (s.sp - 1) value }

/-- Takes the top of the stack into the register. -/
def pop (s : State) (r : Register) : State :=
  { s.setRegister r (s.memory.fetch s.sp) with sp := s.sp + 1 }

def settle (s : State) (r : Register) : Outcome → State
  | .store value => s.setRegister r value
  | .compared flags => { s with flags := flags }

/-- The stack is looked at before the operand of a POP; every other instruction reads its register
operands first, a jump also when it is not taken. -/
def perform (s : State) (opcode : Opcode) (a b : UInt8) : Except Cause Action :=
  match opcode with
  | .nop => .ok (.proceed (s.advance opcode))
  | .hlt => .ok .halt
  | .ldi => do
    let r ← operandRegister a
    return .proceed ((s.setRegister r b).advance opcode)
  | .prn => do
    let r ← operandRegister a
    return .print (s.registers.get r) (s.advance opcode)
  | .push => do
    let r ← operandRegister a
    return .proceed ((s.push (s.registers.get r)).advance opcode)
  | .pop =>
    if s.sp = stackStart then .error .stackUnderflow
    else do
      let r ← operandRegister a
      return .proceed ((s.pop r).advance opcode)
  | .alu op => do
    let r ← operandRegister a
    let r' ← operandRegister b
    let outcome ← op.apply (s.registers.get r) (s.registers.get r')
    return .proceed ((s.settle r outcome).advance opcode)
  | .jump condition => do
    let r ← operandRegister a
    if condition.holds s.flags then
      return .proceed { s with pc := s.registers.get r }
    else
      return .proceed (s.advance opcode)

def action (s : State) : Except Cause Action :=
  match Opcode.ofByte? (s.fetch 0) with
  | none => .error (.unsupportedOpcode (s.fetch 0))
  | some opcode => s.perform opcode (s.fetch 1) (s.fetch 2)

end State

namespace Exec

variable {n : Type → Type} [Monad n] {σ : Type}

/-! ## Running code -/

theorem run_bind {α β : Type} (x : Exec n σ α) (f : α → Exec n σ β) (m : Machine σ) :
    (x >>= f).run.run m = (x.run.run m >>= fun (result, next) =>
      match result with
      | .ok a => (f a).run.run next
      | .error fault => pure (.error fault, next)) := by
  rw [ExceptT.run_bind, StateT.run_bind]
  refine bind_congr fun (result, next) => ?_
  cases result <;> rfl

theorem run_located {α : Type} (address : UInt8) (result : Except Cause α) (m : Machine σ) :
    (located address result : Exec n σ α).run.run m =
      pure (result.mapError (Fault.instruction · address), m) := by
  cases result <;> rfl

variable [LawfulMonad n]

theorem run_get (m : Machine σ) : (get : Exec n σ (Machine σ)).run.run m = pure (.ok m, m) :=
  pure_bind _ _

theorem run_modify (f : Machine σ → Machine σ) (m : Machine σ) :
    (modify f : Exec n σ Unit).run.run m = pure (.ok (), f m) :=
  pure_bind _ _

theorem run_modifyState (f : State → State) (m : Machine σ) :
    (modifyState f : Exec n σ Unit).run.run m = pure (.ok (), { m with state := f m.state }) :=
  run_modify _ m

theorem run_lift {α : Type} (x : n α) (m : Machine σ) :
    (liftM x : Exec n σ α).run.run m = (x >>= fun a => pure (.ok a, m)) := by
  change ((x >>= fun a => pure (a, m)) >>= fun (a, next) => pure (Except.ok a, next)) = _
  rw [bind_assoc]
  exact bind_congr fun a => pure_bind _ _

/-! ## Operations on the machine -/

/-- The machine with the state that results, and nothing else changed; or the cause that results,
and nothing changed at all. -/
def settled (m : Machine σ) : Except Cause State → Except Fault Unit × Machine σ
  | .ok next => (.ok (), { m with state := next })
  | .error cause => (.error (.instruction cause m.state.pc), m)

def Amounts (x : Exec n σ Unit) (m : Machine σ) (result : Except Cause State) : Prop :=
  x.run.run m = pure (settled m result)

variable {m : Machine σ}

theorem readRegister_run (m : Machine σ) (address index : UInt8) :
    (readRegister address index : Exec n σ UInt8).run.run m =
      pure (match State.operandRegister index with
        | .ok r => .ok (m.state.registers.get r)
        | .error cause => .error (.instruction cause address), m) := by
  rw [readRegister, run_bind, run_get, pure_bind]
  simp only [run_located, Registers.read, State.operandRegister]
  cases Register.ofByte index <;> rfl

theorem amounts_writeRegister (m : Machine σ) (index value : UInt8) :
    Amounts (writeRegister m.state.pc index value : Exec n σ Unit) m
      ((m.state.setRegister · value) <$> State.operandRegister index) := by
  rw [Amounts, writeRegister, run_bind, run_get, pure_bind]
  simp only [run_bind, run_located, pure_bind, Registers.write, State.operandRegister]
  cases Register.ofByte index with
  | ok r => exact run_modifyState _ m
  | error e => rfl

/-- Reading an operand comes first, and where it fails nothing has been changed. -/
theorem amounts_of_read {f : UInt8 → Exec n σ Unit} {index : UInt8}
    {next : Register → Except Cause State}
    (h : ∀ r, State.operandRegister index = .ok r →
      Amounts (f (m.state.registers.get r)) m (next r)) :
    Amounts (readRegister m.state.pc index >>= f) m (State.operandRegister index >>= next) := by
  rw [Amounts, run_bind, readRegister_run, pure_bind]
  cases hread : State.operandRegister index with
  | ok r => exact h r hread
  | error cause => rfl

theorem amounts_push (m : Machine σ) (a : UInt8) :
    Amounts (push m.state.pc a : Exec n σ Unit) m
      (State.operandRegister a >>= fun r => pure (m.state.push (m.state.registers.get r))) := by
  refine amounts_of_read fun r _ => ?_
  rw [Amounts, run_bind, run_modifyState, pure_bind]
  exact run_modifyState _ _

/-- The check of the stack and the one of the operand both come before the first change. -/
theorem amounts_pop (m : Machine σ) (a : UInt8) :
    Amounts (pop m.state.pc a : Exec n σ Unit) m
      (if m.state.sp = stackStart then .error .stackUnderflow
        else m.state.pop <$> State.operandRegister a) := by
  rw [Amounts, pop, run_bind, run_get, pure_bind]
  by_cases hsp : m.state.sp = stackStart
  · simp only [if_pos hsp]
    exact run_located _ _ m
  · have hwrite := amounts_writeRegister (n := n) m a (m.state.memory.fetch m.state.sp)
    rw [Amounts] at hwrite
    simp only [if_neg hsp, run_bind, hwrite]
    cases State.operandRegister a with
    | ok r => exact (pure_bind _ _).trans (run_modifyState _ _)
    | error cause => exact pure_bind _ _

theorem amounts_branch (m : Machine σ) (a : UInt8) (condition : Condition) :
    Amounts (branch m.state.pc a condition : Exec n σ Unit) m
      (State.operandRegister a >>= fun r =>
        pure (if condition.holds m.state.flags then { m.state with pc := m.state.registers.get r }
          else m.state.advance (.jump condition))) := by
  rw [branch, Amounts, run_bind, run_get, pure_bind]
  refine amounts_of_read fun r _ => ?_
  cases condition.holds m.state.flags with
  | true => exact run_modifyState (fun s => { s with pc := m.state.registers.get r }) m
  | false => exact run_modifyState (·.advance (.jump condition)) m

/-- Both operands are looked at and the operation is carried out before the result is written, which
is the first change. The arithmetic unit is asked for its own operations only. -/
theorem amounts_compute (m : Machine σ) (op : AluOp) (a b : UInt8) :
    Amounts (compute m.state.pc (.alu op) a b : Exec n σ Unit) m
      (State.operandRegister a >>= fun r => State.operandRegister b >>= fun r' =>
        op.apply (m.state.registers.get r) (m.state.registers.get r') >>= fun outcome =>
          pure (m.state.settle r outcome)) := by
  refine amounts_of_read fun r hread => amounts_of_read fun r' _ => ?_
  rw [Amounts, run_bind, run_located, pure_bind, Opcode.evaluate]
  cases op.apply (m.state.registers.get r) (m.state.registers.get r') with
  | error cause => rfl
  | ok outcome =>
    cases outcome with
    | store value =>
      have hwrite := amounts_writeRegister (n := n) m a value
      rw [hread] at hwrite
      exact hwrite
    | compared flags => exact run_modifyState _ m

/-! ## Whole instructions -/

/-- Going on to the next instruction comes last. -/
theorem Amounts.advance {x : Exec n σ Unit} {result : Except Cause State} (h : Amounts x m result)
    (opcode : Opcode) :
    Amounts (x >>= fun _ => modifyState (·.advance opcode)) m ((·.advance opcode) <$> result) := by
  rw [Amounts, run_bind, show x.run.run m = _ from h, pure_bind]
  cases result with
  | ok next => exact run_modifyState _ _
  | error cause => rfl

/-- What becomes of the machine if its instruction amounts to this. The output is asked for the
value to be printed, and unless it takes the value, the machine stays in the state that it was in.
-/
def undergo (emit : σ → UInt8 → n (σ × Except Fault Unit)) (m : Machine σ) :
    Except Cause Action → n (Except Fault Unit × Machine σ)
  | .error cause => pure (.error (.instruction cause m.state.pc), m)
  | .ok .halt => pure (.ok (), { m with status := .halted })
  | .ok (.proceed next) => pure (.ok (), { m with state := next })
  | .ok (.print value next) => do
    let (channel, answer) ← emit m.channel value
    match answer with
    | .ok () => pure (.ok (), { m with state := next, channel := channel })
    | .error fault => pure (.error fault, { m with channel := channel })

variable {emit : σ → UInt8 → n (σ × Except Fault Unit)}

omit [LawfulMonad n] in
theorem Amounts.run_eq_undergo {x : Exec n σ Unit} {result : Except Cause State}
    {action : Except Cause Action} (h : Amounts x m result)
    (haction : action = .proceed <$> result) : x.run.run m = undergo emit m action := by
  rw [show x.run.run m = _ from h, haction]
  cases result <;> rfl

/-- The output is asked before the machine goes on, so a value that it refuses leaves the program
counter at the PRN. -/
theorem print_run (m : Machine σ) (a b : UInt8) :
    (print emit m.state.pc a >>= fun _ => modifyState (·.advance .prn)).run.run m =
      undergo emit m (m.state.perform .prn a b) := by
  simp only [run_bind, print, readRegister_run, run_get, pure_bind, State.perform]
  cases State.operandRegister a with
  | error cause => exact pure_bind _ _
  | ok r =>
    simp only [run_lift, run_modify, bind_assoc, pure_bind, undergo]
    refine bind_congr fun (channel, answer) => ?_
    cases answer with
    | ok => exact (pure_bind _ _).trans (run_modifyState _ _)
    | error fault => exact pure_bind _ _

/-- An instruction, going on to the next one included. -/
theorem operate_run (m : Machine σ) (opcode : Opcode) (a b : UInt8) :
    (operate emit m.state.pc opcode a b >>= fun _ =>
        if opcode = .hlt ∨ opcode.setsPc then pure ()
        else modifyState (·.advance opcode)).run.run m =
      undergo emit m (m.state.perform opcode a b) := by
  cases opcode with
  | nop =>
    have hnop : Amounts (pure () : Exec n σ Unit) m (.ok m.state) := rfl
    exact (hnop.advance .nop).run_eq_undergo rfl
  | hlt =>
    rw [run_bind]
    exact (congrArg (· >>= _) (run_modify _ m)).trans (pure_bind _ _)
  | ldi =>
    exact ((amounts_writeRegister m a b).advance .ldi).run_eq_undergo (by simp [State.perform])
  | prn => exact print_run m a b
  | push => exact ((amounts_push m a).advance .push).run_eq_undergo (by simp [State.perform])
  | pop =>
    refine ((amounts_pop m a).advance .pop).run_eq_undergo ?_
    rw [State.perform]
    split
    · rfl
    · simp
  | alu op =>
    exact ((amounts_compute m op a b).advance (.alu op)).run_eq_undergo (by simp [State.perform])
  | jump condition =>
    have hbranch := amounts_branch (n := n) m a condition
    rw [Amounts, ← bind_pure_unit (x := branch _ a condition)] at hbranch
    refine Amounts.run_eq_undergo hbranch ?_
    rw [State.perform, map_bind]
    refine bind_congr fun r => ?_
    split <;> rfl

theorem dispatch_run_of_opcode {byte : UInt8} {opcode : Opcode}
    (hop : Opcode.ofByte? byte = some opcode) (m : Machine σ) (a b : UInt8) :
    (dispatch emit m.state.pc byte a b).run.run m =
      undergo emit m (m.state.perform opcode a b) := by
  unfold dispatch
  rw [hop]
  exact operate_run m opcode a b

/-- What the instruction at the program counter comes to. -/
theorem dispatch_run (m : Machine σ) :
    (dispatch emit m.state.pc (m.state.fetch 0) (m.state.fetch 1) (m.state.fetch 2)).run.run m =
      undergo emit m m.state.action := by
  unfold State.action
  cases hop : Opcode.ofByte? (m.state.fetch 0) with
  | none =>
    unfold dispatch
    rw [hop]
    rfl
  | some opcode => exact dispatch_run_of_opcode hop m (m.state.fetch 1) (m.state.fetch 2)

end Exec

namespace Machine

variable {n : Type → Type} [Monad n] [LawfulMonad n] {σ : Type}

/-- What a step of a running machine comes to, with any effects. -/
theorem stepWith_eq (effects : Effects n σ) {m : Machine σ} (h : m.status = .running) :
    m.stepWith effects = (effects.log m.state.traceRecord >>= fun _ =>
      Exec.undergo effects.emit m m.state.action >>= fun (result, next) =>
        conclude effects m.state.pc result next) := by
  unfold stepWith
  rw [h]
  simp only [Exec.dispatch_run]

end Machine
end LS8
