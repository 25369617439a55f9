import LS8.Proofs.Machine.Run

/-!
# The engine and the decoder

The machine does not decode an instruction before it carries it out: each instruction checks its own
operands, in its own order. Here that is compared with decoding the three bytes at the program
counter. Where those bytes are no instruction, the step fails for the reason that decoding gives,
an empty stack excepted; where they are one, only the stack, a divisor or the output can fail it.
-/
namespace LS8

namespace Opcode

theorem zip_take_operands (op : Opcode) (a b : UInt8) :
    op.operands.zip ([a, b].take op.operands.length) = op.operands.zip [a, b] := by
  cases op <;> rfl

theorem length_take_operands (op : Opcode) (a b : UInt8) :
    ([a, b].take op.operands.length).length = op.operands.length := by
  have := op.operands_length_le
  simp only [List.length_take, List.length_cons, List.length_nil]
  omega

end Opcode

namespace Instruction

/-- The instruction with the operands of its opcode taken from two bytes. -/
def ofWindow (op : Opcode) (a b : UInt8) : Instruction :=
  ⟨op, ([a, b].take op.operands.length).getD 0 0, ([a, b].take op.operands.length).getD 1 0⟩

/-- Three bytes are enough for any instruction: decoding them looks at the opcode and then at the
operand bytes. -/
theorem decode_window (byte a b : UInt8) :
    decode [byte, a, b] =
      match Opcode.ofByte? byte with
      | none => .error (.unsupportedOpcode byte)
      | some op =>
        match op.refused a b with
        | some index => .error (.invalidRegister index)
        | none => .ok (ofWindow op a b) := by
  cases hop : Opcode.ofByte? byte with
  | none => simp [decode, Opcode.ofByte, hop, bind, Except.bind]
  | some op =>
    have hlength := op.length_take_operands a b
    simp only [decode, Opcode.ofByte, hop, bind, Except.bind, hlength, Nat.lt_irrefl, if_false,
      ofOperands, op.zip_take_operands a b, Opcode.refused]
    generalize List.find? _ (op.operands.zip [a, b]) = found
    cases found with
    | none => rfl
    | some operand => rfl

end Instruction

namespace State

/-- The three bytes at the program counter. -/
def window (s : State) : List UInt8 := [s.fetch 0, s.fetch 1, s.fetch 2]

/-- An operand that decoding refuses is refused by the instruction too, if a POP gets that far. -/
theorem action_of_refused {s : State} {op : Opcode} {index : UInt8}
    (hop : Opcode.ofByte? (s.fetch 0) = some op)
    (hrefused : op.refused (s.fetch 1) (s.fetch 2) = some index) :
    s.action = .error (if op = .pop ∧ s.sp = stackStart then .stackUnderflow
      else .invalidRegister index) := by
  have hperforms := performs_action hop
  generalize s.action = action at hperforms
  cases action with
  | ok action =>
    rw [refused_of_performs hperforms] at hrefused
    contradiction
  | error cause =>
    cases hperforms with
    | underflow hsp => rw [if_pos ⟨rfl, hsp⟩]
    | division hr hr' hzero =>
      simp [Opcode.refused, Opcode.operands, Register.accepts_of_ofByte hr,
        Register.accepts_of_ofByte hr'] at hrefused
    | refused hindex hsp =>
      obtain rfl := Option.some.inj (hrefused.symm.trans hindex)
      rw [if_neg fun h => hsp h.1 h.2]

/-- With operands that decoding accepts, an instruction fails on an empty stack or a zero divisor
only. -/
theorem action_eq_error_iff_of_accepted {s : State} {op : Opcode} {cause : Cause}
    (hop : Opcode.ofByte? (s.fetch 0) = some op)
    (haccepted : op.refused (s.fetch 1) (s.fetch 2) = none) :
    s.action = .error cause ↔
      (op = .pop ∧ s.sp = stackStart ∧ cause = .stackUnderflow) ∨
        (op = .alu .mod ∧ s.registers.read (s.fetch 2) = .ok 0 ∧ cause = .divisionByZero) := by
  have hperforms := performs_action hop
  generalize s.action = action at hperforms
  cases hperforms with
  | nop | hlt | ldi | prn | push | taken | passed => simp
  | pop hr hsp => simp [hsp]
  | alu hr hr' happly =>
    simp only [reduceCtorEq, false_and, false_or, false_iff, Opcode.alu.injEq]
    rintro ⟨rfl, hzero, -⟩
    rw [Registers.read_eq_ok hr', Except.ok.injEq] at hzero
    simp [AluOp.apply, hzero] at happly
  | underflow hsp => simp [hsp, eq_comm]
  | division hr hr' hzero => simp [Registers.read_eq_ok hr', hzero, eq_comm]
  | refused hindex =>
    rw [haccepted] at hindex
    contradiction

/-- No instruction reports an operation that the arithmetic unit lacks. -/
theorem action_ne_unsupportedOperation (s : State) (op : Opcode) :
    s.action ≠ .error (.unsupportedOperation op) := by
  intro haction
  cases hop : Opcode.ofByte? (s.fetch 0) with
  | none => simp [action_of_ofByte?_none hop] at haction
  | some op' =>
    have hperforms := performs_action hop
    rw [haction] at hperforms
    cases hperforms

end State

/-- Faults that are none of an instruction. -/
def Fault.Foreign : Fault → Prop
  | .outOfBounds _ | .programTooLarge _ | .instruction (.unsupportedOperation _) _ => True
  | _ => False

namespace Machine

variable {σ : Type} [Channel σ]

/-- The output refuses the value that the instruction prints, with this fault. -/
def Reports (m : Machine σ) (fault : Fault) : Prop :=
  ∃ value, m.state.printed = [value] ∧ (Channel.emit m.channel value).2 = .error fault

/-- A step returns such a fault only if the output has reported it. -/
theorem reports_of_foreign {m : Machine σ} {fault : Fault} (h : m.step.2 = .error fault)
    (hforeign : fault.Foreign) : m.Reports fault := by
  have hrun : m.status = .running := running_of_step (by simp [h])
  rcases (step_eq_error_iff hrun).mp h with ⟨cause, haction, rfl⟩ | ⟨value, next, haction, hemit⟩
  · cases cause with
    | unsupportedOperation op => exact absurd haction (m.state.action_ne_unsupportedOperation op)
    | _ => exact absurd hforeign id
  · exact ⟨value, State.printed_of_print haction, hemit⟩

theorem not_foreign_of_reports {m : Machine σ} {fault : Fault} (hchannel : Channel.FailsAsOutput σ)
    (h : m.Reports fault) : ¬ fault.Foreign := by
  obtain ⟨value, -, hemit⟩ := h
  obtain ⟨reason, rfl⟩ := hchannel _ value fault hemit
  exact id

/-- Why a step fails whose instruction can be decoded. -/
inductive DecodedFault (m : Machine σ) (i : Instruction) : Fault → Prop
  | underflow (hop : i.opcode = .pop) (hsp : m.state.sp = 0xF4) :
      DecodedFault m i (.instruction .stackUnderflow m.state.pc)
  | division (hop : i.opcode = .alu .mod) (hzero : m.state.registers.read i.b = .ok 0) :
      DecodedFault m i (.instruction .divisionByZero m.state.pc)
  | output {value fault} (hop : i.opcode = .prn)
      (hread : m.state.registers.read i.a = .ok value)
      (hemit : (Channel.emit m.channel value).2 = .error fault) : DecodedFault m i fault

theorem step_error_of_action {m : Machine σ} {cause : Cause} (h : m.status = .running)
    (haction : m.state.action = .error cause) :
    m.step.2 = .error (.instruction cause m.state.pc) :=
  (step_eq_error_iff h).mpr (Or.inl ⟨cause, haction, rfl⟩)

/-- The operands of the decoded instruction are the bytes behind the opcode, where it has them. -/
theorem step_eq_error_iff_of_decode {m : Machine σ} {op : Opcode} (h : m.status = .running)
    (hop : Opcode.ofByte? (m.state.fetch 0) = some op)
    (haccepted : op.refused (m.state.fetch 1) (m.state.fetch 2) = none) (fault : Fault) :
    m.step.2 = .error fault ↔
      m.DecodedFault (.ofWindow op (m.state.fetch 1) (m.state.fetch 2)) fault := by
  rw [step_eq_error_iff h]
  constructor
  · rintro (⟨cause, haction, rfl⟩ | ⟨value, next, haction, hemit⟩)
    · rcases (State.action_eq_error_iff_of_accepted hop haccepted).mp haction with
        ⟨rfl, hsp, rfl⟩ | ⟨rfl, hzero, rfl⟩
      · exact .underflow rfl hsp
      · exact .division rfl hzero
    · obtain ⟨hprn, hread, -⟩ := State.action_eq_print_iff.mp haction
      obtain rfl := Option.some.inj (hop.symm.trans hprn)
      exact .output rfl hread hemit
  · intro hfault
    cases hfault with
    | underflow hpop hsp =>
      obtain rfl : op = .pop := hpop
      have haction := (State.action_eq_error_iff_of_accepted hop haccepted).mpr
        (Or.inl ⟨rfl, hsp, rfl⟩)
      exact Or.inl ⟨_, haction, rfl⟩
    | division hmod hzero =>
      obtain rfl : op = .alu .mod := hmod
      have haction := (State.action_eq_error_iff_of_accepted hop haccepted).mpr
        (Or.inr ⟨rfl, hzero, rfl⟩)
      exact Or.inl ⟨_, haction, rfl⟩
    | output hprn hread hemit =>
      obtain rfl : op = .prn := hprn
      have haction := State.action_eq_print_iff.mpr ⟨hop, hread, rfl⟩
      exact Or.inr ⟨_, _, haction, hemit⟩

/-- A running machine and the decoder agree on the three bytes at the program counter. No step of a
run, and no run, returns a fault that no instruction has and that is none of the output either,
unless it is the output that has reported it; and a channel that fails as it should does not: then a
PRN fails with a fault of the output, and such a fault is never returned. -/
theorem step_agrees_with_decode (m : Machine σ) :
    (m.status = .running →
      match Instruction.decode m.state.window with
      | .error (.unsupportedOpcode byte) =>
        m.step.2 = .error (.instruction (.unsupportedOpcode byte) m.state.pc)
      | .error (.invalidRegister index) =>
        m.step.2 = .error (.instruction
          (if m.state.fetch 0 = Opcode.pop.byte ∧ m.state.sp = 0xF4 then .stackUnderflow
            else .invalidRegister index) m.state.pc)
      | .error (.truncated _ _) => False
      | .ok i => ∀ fault, m.step.2 = .error fault ↔ m.DecodedFault i fault) ∧
    (∀ path last fault, m.Executes path last → last.step.2 = .error fault → fault.Foreign →
      last.Reports fault) ∧
    (Channel.FailsAsOutput σ →
      (∀ i fault, m.DecodedFault i fault → i.opcode = .prn → ∃ reason, fault = .output reason) ∧
      (∀ path last fault, m.Executes path last → last.step.2 = .error fault → ¬ fault.Foreign) ∧
      ∀ limit fault, (m.run limit).2 = .faulted fault → ¬ fault.Foreign) := by
  refine ⟨fun h => ?_, fun _ last fault _ => reports_of_foreign, fun hchannel => ?_⟩
  · rw [State.window, Instruction.decode_window]
    cases hop : Opcode.ofByte? (m.state.fetch 0) with
    | none => exact step_error_of_action h (State.action_of_ofByte?_none hop)
    | some op =>
      cases hrefused : op.refused (m.state.fetch 1) (m.state.fetch 2) with
      | none =>
        simp only [hrefused]
        exact step_eq_error_iff_of_decode h hop hrefused
      | some index =>
        have hpop : m.state.fetch 0 = Opcode.pop.byte ↔ op = .pop := by
          rw [← Opcode.ofByte?_eq_some_iff.mp hop]
          exact ⟨fun hbyte => Option.some.inj
            ((Opcode.ofByte?_byte op).symm.trans (Opcode.ofByte?_eq_some_iff.mpr hbyte.symm)),
            congrArg Opcode.byte⟩
        have haction := State.action_of_refused hop hrefused
        simp only [hrefused, hpop]
        exact step_error_of_action h haction
  · have hstep {last : Machine σ} {fault : Fault} (h : last.step.2 = .error fault) :
        ¬ fault.Foreign :=
      fun hforeign => not_foreign_of_reports hchannel (reports_of_foreign h hforeign) hforeign
    refine ⟨fun i fault hfault hprn => ?_, fun _ _ _ _ => hstep, fun limit fault hrun => ?_⟩
    · cases hfault with
      | underflow hop => cases hop.symm.trans hprn
      | division hop => cases hop.symm.trans hprn
      | output hop hread hemit => exact hchannel _ _ fault hemit
    · obtain ⟨path, last, -, hlast⟩ := executes_of_run_faulted
        (show m.run limit = ((m.run limit).1, .faulted fault) by rw [← hrun])
      exact hstep (congrArg Prod.snd hlast)

/-- A POP into a register that does not exist, with nothing on the stack. -/
def doublyWrongPop : Machine (Array UInt8) where
  state := { memory := (({} : Memory).store 0 0x46).store 1 9 }
  channel := #[]

/-- The one place where the reasons differ; and the array that it prints to reports no fault. -/
theorem step_doublyWrongPop :
    Instruction.decode doublyWrongPop.state.window = .error (.invalidRegister 9) ∧
      doublyWrongPop.step.2 = .error (.instruction .stackUnderflow 0) ∧
      ¬ (Fault.instruction .stackUnderflow 0).Foreign := by
  have hagrees := step_agrees_with_decode doublyWrongPop
  have hstep : doublyWrongPop.step.2 = .error (.instruction .stackUnderflow 0) := hagrees.1 rfl
  exact ⟨rfl, hstep, (hagrees.2.2 failsAsOutput_array).2.1 [] _ _ (.refl _) hstep⟩

end Machine
end LS8
