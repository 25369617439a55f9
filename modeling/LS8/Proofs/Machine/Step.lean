import LS8.Proofs.Machine.Action

/-!
# What one step can do

Every way in which an instruction, and a step of the machine, can come out, with the conditions
under which it does. `State.Performs` lists the outcomes of an instruction whose opcode is known and
`Machine.Steps` the outcomes of a step; nothing in the theory of the machine from here on opens
`State.perform` or `Machine.step`.

The operand check is stated apart from the instructions, as the search of `Opcode.refused` for the
first operand byte that its kind does not accept. It knows nothing of the order in which the machine
reads its operands.
-/
namespace LS8

/-- The first operand byte that is no register although it should be one. -/
def Opcode.refused (op : Opcode) (a b : UInt8) : Option UInt8 :=
  ((op.operands.zip [a, b]).find? fun (kind, byte) => !kind.accepts byte).map (·.2)

/-- Reading a byte as a register succeeds exactly where the operand kind accepts it. -/
theorem Register.ofByte_cases (index : UInt8) :
    (OperandKind.register.accepts index = true ∧ ∃ r, Register.ofByte index = .ok r) ∨
      (OperandKind.register.accepts index = false ∧
        Register.ofByte index = .error (.invalidRegister index)) := by
  unfold ofByte OperandKind.accepts
  by_cases h : index.toNat < registerCount
  · exact Or.inl ⟨by simpa using h, _, dif_pos h⟩
  · exact Or.inr ⟨by simpa using h, dif_neg h⟩

theorem Register.accepts_of_ofByte {index : UInt8} {r : Register}
    (h : Register.ofByte index = .ok r) : OperandKind.register.accepts index = true := by
  rcases Register.ofByte_cases index with ⟨haccepts, -⟩ | ⟨-, herr⟩
  · exact haccepts
  · rw [herr] at h
    contradiction

theorem Register.exists_ofByte {index : UInt8} (h : index.toNat < registerCount) :
    ∃ r, Register.ofByte index = .ok r :=
  ⟨⟨index.toNat, h⟩, dif_pos h⟩

@[simp] theorem OperandKind.accepts_immediate (byte : UInt8) : immediate.accepts byte = true := rfl

theorem Registers.read_eq_ok {rs : Registers} {index : UInt8} {r : Register}
    (h : Register.ofByte index = .ok r) : rs.read index = .ok (rs.get r) := by
  rw [read, h]
  rfl

theorem Opcode.refused_of_first {op : Opcode} {a b : UInt8} {rest : List OperandKind}
    (hop : op.operands = .register :: rest) (ha : OperandKind.register.accepts a = false) :
    op.refused a b = some a := by
  simp [refused, hop, ha]

theorem Opcode.refused_of_second {op : Opcode} {a b : UInt8}
    (hop : op.operands = [.register, .register]) (ha : OperandKind.register.accepts a = true)
    (hb : OperandKind.register.accepts b = false) : op.refused a b = some b := by
  simp [refused, hop, ha, hb]

/-- An operand byte that is refused is the first of the operands or, behind a register, the second.
-/
theorem Opcode.refused_eq_some {op : Opcode} {a b index : UInt8}
    (h : op.refused a b = some index) :
    ((∃ rest, op.operands = .register :: rest) ∧ OperandKind.register.accepts a = false ∧
        index = a) ∨
      (op.operands = [.register, .register] ∧ OperandKind.register.accepts a = true ∧
        OperandKind.register.accepts b = false ∧ index = b) := by
  cases ha : OperandKind.register.accepts a with
  | false =>
    cases op with
    | nop | hlt => simp [refused, operands] at h
    | ldi | prn | push | pop | alu | jump =>
      refine Or.inl ⟨⟨_, rfl⟩, rfl, ?_⟩
      simpa [refused, operands, ha, eq_comm] using h
  | true =>
    cases op with
    | alu op =>
      cases hb : OperandKind.register.accepts b with
      | false => exact Or.inr ⟨rfl, rfl, rfl, by simpa [refused, operands, ha, hb, eq_comm] using h⟩
      | true => simp [refused, operands, ha, hb] at h
    | nop | hlt | ldi | prn | push | pop | jump => simp [refused, operands, ha] at h

namespace State

/-- How the instruction `op` with the operand bytes `a` and `b` can come out. -/
inductive Performs (s : State) (a b : UInt8) : Opcode → Except Cause Action → Prop
  | nop : Performs s a b .nop (.ok (.proceed (s.advance .nop)))
  | hlt : Performs s a b .hlt (.ok .halt)
  | ldi {r} (hr : Register.ofByte a = .ok r) :
      Performs s a b .ldi (.ok (.proceed ((s.setRegister r b).advance .ldi)))
  | prn {r} (hr : Register.ofByte a = .ok r) :
      Performs s a b .prn (.ok (.print (s.registers.get r) (s.advance .prn)))
  | push {r} (hr : Register.ofByte a = .ok r) :
      Performs s a b .push (.ok (.proceed ((s.push (s.registers.get r)).advance .push)))
  | pop {r} (hr : Register.ofByte a = .ok r) (hsp : s.sp ≠ stackStart) :
      Performs s a b .pop (.ok (.proceed ((s.pop r).advance .pop)))
  | alu {op r r' outcome} (hr : Register.ofByte a = .ok r) (hr' : Register.ofByte b = .ok r')
      (happly : op.apply (s.registers.get r) (s.registers.get r') = .ok outcome) :
      Performs s a b (.alu op) (.ok (.proceed ((s.settle r outcome).advance (.alu op))))
  | taken {c r} (hr : Register.ofByte a = .ok r) (hc : c.holds s.flags = true) :
      Performs s a b (.jump c) (.ok (.proceed { s with pc := s.registers.get r }))
  | passed {c r} (hr : Register.ofByte a = .ok r) (hc : c.holds s.flags = false) :
      Performs s a b (.jump c) (.ok (.proceed (s.advance (.jump c))))
  | underflow (hsp : s.sp = stackStart) : Performs s a b .pop (.error .stackUnderflow)
  | division {r r'} (hr : Register.ofByte a = .ok r) (hr' : Register.ofByte b = .ok r')
      (hzero : s.registers.get r' = 0) : Performs s a b (.alu .mod) (.error .divisionByZero)
  | refused {op index} (hindex : op.refused a b = some index)
      (hsp : op = .pop → s.sp ≠ stackStart) : Performs s a b op (.error (.invalidRegister index))

/-- An instruction that goes on with a register, once it is known that the instruction is refused
where the byte is no register. -/
private theorem performs_bind {s : State} {a b index : UInt8} {op : Opcode}
    {next : Register → Except Cause Action}
    (hbad : OperandKind.register.accepts index = false → op.refused a b = some index)
    (hsp : op = .pop → s.sp ≠ stackStart)
    (hnext : ∀ r, Register.ofByte index = .ok r → Performs s a b op (next r)) :
    Performs s a b op (operandRegister index >>= next) := by
  rcases Register.ofByte_cases index with ⟨-, r, hr⟩ | ⟨hno, herr⟩
  · have hread : operandRegister index = .ok r := by rw [operandRegister, hr]
    rw [hread]
    exact hnext r hr
  · have hread : operandRegister index = .error (.invalidRegister index) := by
      rw [operandRegister, herr]
    rw [hread]
    exact .refused (hbad hno) hsp

/-- Every instruction comes out in one of these ways. -/
theorem performs (s : State) (a b : UInt8) (op : Opcode) :
    Performs s a b op (s.perform op a b) := by
  cases op with
  | nop => exact .nop
  | hlt => exact .hlt
  | ldi => exact performs_bind (Opcode.refused_of_first rfl) (by simp) fun _ hr => .ldi hr
  | prn => exact performs_bind (Opcode.refused_of_first rfl) (by simp) fun _ hr => .prn hr
  | push => exact performs_bind (Opcode.refused_of_first rfl) (by simp) fun _ hr => .push hr
  | pop =>
    by_cases hsp : s.sp = stackStart
    · rw [perform, if_pos hsp]
      exact .underflow hsp
    · rw [perform, if_neg hsp]
      exact performs_bind (Opcode.refused_of_first rfl) (fun _ => hsp) fun _ hr => .pop hr hsp
  | alu op =>
    -- The second operand is looked at only when the first one is a register.
    refine performs_bind (Opcode.refused_of_first rfl) (by simp) fun r hr => ?_
    refine performs_bind (Opcode.refused_of_second rfl (Register.accepts_of_ofByte hr)) (by simp)
      fun r' hr' => ?_
    cases happly : op.apply (s.registers.get r) (s.registers.get r') with
    | ok outcome => exact .alu hr hr' happly
    | error cause =>
      obtain ⟨rfl, hzero, rfl⟩ := AluOp.apply_eq_error_iff.mp happly
      exact .division hr hr' hzero
  | jump c =>
    refine performs_bind (Opcode.refused_of_first rfl) (by simp) fun r hr => ?_
    cases hc : c.holds s.flags with
    | true => exact .taken hr hc
    | false => exact .passed hr hc

/-- An instruction that does something has all the registers it needs. -/
theorem refused_of_performs {s : State} {a b : UInt8} {op : Opcode} {action : Action}
    (h : Performs s a b op (.ok action)) : op.refused a b = none := by
  cases h with
  | nop | hlt => rfl
  | ldi hr | prn hr | push hr | pop hr | taken hr | passed hr =>
    simp [Opcode.refused, Opcode.operands, Register.accepts_of_ofByte hr]
  | alu hr hr' =>
    simp [Opcode.refused, Opcode.operands, Register.accepts_of_ofByte hr,
      Register.accepts_of_ofByte hr']

theorem action_of_ofByte?_none {s : State} (hop : Opcode.ofByte? (s.fetch 0) = none) :
    s.action = .error (.unsupportedOpcode (s.fetch 0)) := by
  unfold action
  rw [hop]

/-- What the instruction at the program counter amounts to, if it is one. -/
theorem performs_action {s : State} {op : Opcode} (hop : Opcode.ofByte? (s.fetch 0) = some op) :
    Performs s (s.fetch 1) (s.fetch 2) op s.action := by
  unfold action
  rw [hop]
  exact s.performs (s.fetch 1) (s.fetch 2) op

/-- Operand bytes that the opcode does not use make no difference. -/
theorem perform_congr (s : State) {op : Opcode} {a a' b b' : UInt8}
    (ha : 1 ≤ op.operands.length → a = a') (hb : 2 ≤ op.operands.length → b = b') :
    s.perform op a b = s.perform op a' b' := by
  cases op with
  | nop | hlt => rfl
  | prn | push | pop | jump =>
    rw [ha (Nat.le_refl 1)]
    rfl
  | ldi | alu => rw [ha (Nat.le_succ 1), hb (Nat.le_refl 2)]

theorem performs_action_of_operands {s : State} {op : Opcode} {a b : UInt8}
    (hop : Opcode.ofByte? (s.fetch 0) = some op)
    (ha : 1 ≤ op.operands.length → s.fetch 1 = a) (hb : 2 ≤ op.operands.length → s.fetch 2 = b) :
    Performs s a b op s.action := by
  have haction : s.action = s.perform op (s.fetch 1) (s.fetch 2) := by
    unfold action
    rw [hop]
  rw [haction, s.perform_congr ha hb]
  exact s.performs a b op

/-- Printing is what a PRN of a register amounts to, and nothing else does. -/
theorem action_eq_print_iff {s : State} {value : UInt8} {next : State} :
    s.action = .ok (.print value next) ↔ Opcode.ofByte? (s.fetch 0) = some .prn ∧
      s.registers.read (s.fetch 1) = .ok value ∧ next = s.advance .prn := by
  constructor
  · intro haction
    cases hop : Opcode.ofByte? (s.fetch 0) with
    | none => simp [action_of_ofByte?_none hop] at haction
    | some op =>
      have hperforms := performs_action hop
      rw [haction] at hperforms
      cases hperforms with
      | prn hr => exact ⟨rfl, Registers.read_eq_ok hr, rfl⟩
  · rintro ⟨hop, hread, rfl⟩
    have hperforms := performs_action hop
    generalize s.action = action at hperforms
    cases hperforms with
    | prn hr =>
      obtain rfl := Except.ok.inj (hread.symm.trans (Registers.read_eq_ok hr))
      rfl
    | refused hindex =>
      rcases Register.ofByte_cases (s.fetch 1) with ⟨haccepts, -⟩ | ⟨-, herr⟩
      · simp [Opcode.refused, Opcode.operands, haccepts] at hindex
      · simp [Registers.read, herr, Except.map] at hread

/-- Stopping is what a HLT amounts to, and nothing else does. -/
theorem action_eq_halt_iff {s : State} :
    s.action = .ok .halt ↔ Opcode.ofByte? (s.fetch 0) = some .hlt := by
  constructor
  · intro haction
    cases hop : Opcode.ofByte? (s.fetch 0) with
    | none => simp [action_of_ofByte?_none hop] at haction
    | some op =>
      have hperforms := performs_action hop
      rw [haction] at hperforms
      cases hperforms
      rfl
  · intro hop
    have hperforms := performs_action hop
    generalize s.action = action at hperforms
    cases hperforms with
    | hlt => rfl
    | refused hindex => simp [Opcode.refused, Opcode.operands] at hindex

end State

namespace Machine

variable {σ : Type} [Channel σ]

theorem step_of_error {m : Machine σ} {cause : Cause} (h : m.status = .running)
    (haction : m.state.action = .error cause) :
    m.step = ({ m with status := .halted }, .error (.instruction cause m.state.pc)) := by
  rw [step, stepWith_eq _ h, haction]
  rfl

theorem step_of_halt {m : Machine σ} (h : m.status = .running)
    (haction : m.state.action = .ok .halt) :
    m.step = ({ m with status := .halted }, .ok .halted) := by
  rw [step, stepWith_eq _ h, haction]
  rfl

/-- An instruction that has not faulted leaves the status as the answer. -/
theorem conclude_ok (address : UInt8) (m : Machine σ) :
    (conclude (.silent σ) address (.ok ()) m).run = (m, .ok m.status) := by
  rcases m with ⟨state, _ | _, channel⟩ <;> rfl

theorem step_of_proceed {m : Machine σ} {next : State} (h : m.status = .running)
    (haction : m.state.action = .ok (.proceed next)) :
    m.step = ({ m with state := next }, .ok .running) := by
  rw [step, stepWith_eq _ h, haction, ← h]
  exact conclude_ok m.state.pc { m with state := next }

theorem step_of_print {m : Machine σ} {value : UInt8} {next : State} {channel : σ}
    (h : m.status = .running) (haction : m.state.action = .ok (.print value next))
    (hemit : Channel.emit m.channel value = (channel, .ok ())) :
    m.step = ({ m with state := next, channel := channel }, .ok .running) := by
  rw [step, stepWith_eq _ h, haction, ← h]
  simp only [Exec.undergo, Effects.silent, Effects.logging, hemit, pure_bind]
  exact conclude_ok m.state.pc { m with state := next, channel := channel }

theorem step_of_rejected {m : Machine σ} {value : UInt8} {next : State} {channel : σ}
    {fault : Fault} (h : m.status = .running) (haction : m.state.action = .ok (.print value next))
    (hemit : Channel.emit m.channel value = (channel, .error fault)) :
    m.step = ({ m with status := .halted, channel := channel }, .error fault) := by
  rw [step, stepWith_eq _ h, haction]
  simp only [Exec.undergo, Effects.silent, Effects.logging, hemit, pure_bind]
  rfl

/-- How a step of a running machine can come out. -/
inductive Steps (m : Machine σ) : Machine σ × Except Fault Status → Prop
  | refused {cause} (haction : m.state.action = .error cause) :
      Steps m ({ m with status := .halted }, .error (.instruction cause m.state.pc))
  | halted (haction : m.state.action = .ok .halt) :
      Steps m ({ m with status := .halted }, .ok .halted)
  | proceeded {next} (haction : m.state.action = .ok (.proceed next)) :
      Steps m ({ m with state := next, status := .running }, .ok .running)
  | taken {value next channel} (haction : m.state.action = .ok (.print value next))
      (hemit : Channel.emit m.channel value = (channel, .ok ())) :
      Steps m ({ m with state := next, status := .running, channel := channel }, .ok .running)
  | rejected {value next channel fault} (haction : m.state.action = .ok (.print value next))
      (hemit : Channel.emit m.channel value = (channel, .error fault)) :
      Steps m ({ m with status := .halted, channel := channel }, .error fault)

theorem steps {m : Machine σ} (h : m.status = .running) : Steps m m.step := by
  cases haction : m.state.action with
  | error cause => exact step_of_error h haction ▸ .refused haction
  | ok action =>
    cases action with
    | halt => exact step_of_halt h haction ▸ .halted haction
    | proceed next =>
      rw [step_of_proceed h haction, h]
      exact .proceeded haction
    | print value next =>
      rcases hemit : Channel.emit m.channel value with ⟨channel, fault | _⟩
      · exact step_of_rejected h haction hemit ▸ .rejected haction hemit
      · rw [step_of_print h haction hemit, h]
        exact .taken haction hemit

/-- The step of a halted machine reports that it is halted. -/
theorem running_of_step {m : Machine σ} (h : m.step.2 ≠ .ok .halted) : m.status = .running := by
  cases hs : m.status with
  | running => rfl
  | halted => exact absurd (congrArg Prod.snd (step_halted hs)) h

theorem status_of_step {m next : Machine σ} {status : Status} (h : m.step = (next, .ok status)) :
    next.status = status := by
  cases hs : m.status with
  | halted =>
    rw [step_halted hs] at h
    cases h
    exact hs
  | running =>
    have hsteps := steps hs
    rw [h] at hsteps
    cases hsteps <;> rfl

/-- What a step that goes on has carried out: an instruction that leads to the next state, whether
it has printed or not. -/
theorem performs_of_step {m next : Machine σ} (h : m.step = (next, .ok .running)) :
    ∃ op action, Opcode.ofByte? (m.state.fetch 0) = some op ∧
      State.Performs m.state (m.state.fetch 1) (m.state.fetch 2) op (.ok action) ∧
      (action = .proceed next.state ∨ ∃ value, action = .print value next.state) := by
  have hrun : m.status = .running := running_of_step (by simp [h])
  have hsteps := steps hrun
  rw [h] at hsteps
  cases hop : Opcode.ofByte? (m.state.fetch 0) with
  | none =>
    have hfault := State.action_of_ofByte?_none hop
    cases hsteps with
    | proceeded haction => simp [hfault] at haction
    | taken haction => simp [hfault] at haction
  | some op =>
    have hperforms := State.performs_action hop
    cases hsteps with
    | proceeded haction =>
      rw [haction] at hperforms
      exact ⟨op, _, rfl, hperforms, Or.inl rfl⟩
    | taken haction =>
      rw [haction] at hperforms
      exact ⟨op, _, rfl, hperforms, Or.inr ⟨_, rfl⟩⟩

/-- A step fails for the instruction's own reasons or for those of the output. -/
theorem step_eq_error_iff {m : Machine σ} (h : m.status = .running) {fault : Fault} :
    m.step.2 = .error fault ↔
      (∃ cause, m.state.action = .error cause ∧ fault = .instruction cause m.state.pc) ∨
        ∃ value next, m.state.action = .ok (.print value next) ∧
          (Channel.emit m.channel value).2 = .error fault := by
  have hsteps := steps h
  generalize m.step = result at hsteps
  cases hsteps with
  | refused haction => simp [haction, eq_comm]
  | halted haction => simp [haction]
  | proceeded haction => simp [haction]
  | taken haction hemit => simp [haction, hemit]
  | rejected haction hemit => simp [haction, hemit, eq_comm]

end Machine
end LS8
