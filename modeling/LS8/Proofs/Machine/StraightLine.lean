import LS8.Proofs.Machine.Catalogue
import LS8.Proofs.Machine.Contents
import LS8.Proofs.Machine.StackMachine

/-!
# Straight-line programs

A program without jumps means what its list of instructions says: running its image prints what the
`StackMachine` prints that carries out the list, or stops with the same fault at the same address
(`outcome_ofInstructions`). The image and the deepest stack together have to fit below the start of
the stack; then the stack never reaches the code.

`Mirrors` is what the two machines have in common between instructions, and `Agrees` what one
instruction comes to on both of them.
-/
namespace LS8

open StackMachine

/-! ## States -/

/-- The state of the machine while the list is carried out: the image is where it was loaded, and
the stack lies between the stack pointer and its start. -/
structure Mirrors (image : Image) (address : Nat) (a : StackMachine) (s : State) : Prop where
  pc : s.pc.toNat = address
  code : s.memory.Holds 0 image
  registers : s.registers = a.registers
  flags : s.flags = a.flags
  sp : s.sp.toNat + a.stack.length = 0xF4
  stack : s.memory.Holds s.sp.toNat a.stack

namespace Mirrors

variable {image : Image} {address : Nat} {a : StackMachine} {s : State}

theorem advance (h : Mirrors image address a s) {op : Opcode} (hfit : address + op.width < 256) :
    Mirrors image (address + op.width) a (s.advance op) where
  pc := by
    have hpc := h.pc
    have hwidth : (UInt8.ofNat op.width).toNat = op.width :=
      UInt8.toNat_ofNat_of_lt' (Nat.lt_of_le_of_lt (Nat.le_add_left _ _) hfit)
    simp only [State.advance, UInt8.toNat_add, hwidth]
    omega
  code := h.code
  registers := h.registers
  flags := h.flags
  sp := h.sp
  stack := h.stack

theorem setRegister (h : Mirrors image address a s) (r : Register) (value : UInt8) :
    Mirrors image address (a.setRegister r value) (s.setRegister r value) where
  pc := h.pc
  code := h.code
  registers := congrArg (·.set r value) h.registers
  flags := h.flags
  sp := h.sp
  stack := h.stack

theorem print (h : Mirrors image address a s) (output : List UInt8) :
    Mirrors image address { a with output := output } s where
  pc := h.pc
  code := h.code
  registers := h.registers
  flags := h.flags
  sp := h.sp
  stack := h.stack

/-- There is room for one more value between the stack and the image. -/
theorem push (h : Mirrors image address a s) (value : UInt8)
    (hroom : image.length + (a.stack.length + 1) ≤ 0xF4) :
    Mirrors image address { a with stack := value :: a.stack } (s.push value) := by
  have hsp := h.sp
  have hbelow : (s.sp - 1).toNat + 1 = s.sp.toNat := by
    rw [UInt8.toNat_sub, UInt8.toNat_one]
    omega
  refine ⟨h.pc, ?_, h.registers, h.flags, ?_, Memory.holds_cons.mpr ⟨?_, ?_⟩⟩
  · exact h.code.store value (by omega) (Or.inr (by omega))
  · simp only [State.push, List.length_cons]
    omega
  · rw [State.push, UInt8.ofNat_toNat, Memory.fetch_store, if_pos rfl]
  · simp only [State.push, hbelow]
    exact h.stack.store value (by omega) (Or.inl (by omega))

theorem pop (h : Mirrors image address a s) {value : UInt8} {rest : List UInt8}
    (hstack : a.stack = value :: rest) (r : Register) :
    Mirrors image address ({ a with stack := rest }.setRegister r value) (s.pop r) := by
  have hsp := h.sp
  have hholds := h.stack
  rw [hstack, List.length_cons] at hsp
  rw [hstack, Memory.holds_cons, UInt8.ofNat_toNat] at hholds
  have habove : (s.sp + 1).toNat = s.sp.toNat + 1 := by
    rw [UInt8.toNat_add, UInt8.toNat_one]
    omega
  refine ⟨h.pc, h.code, ?_, h.flags, ?_, ?_⟩
  · simp only [State.pop, State.setRegister, StackMachine.setRegister, h.registers, hholds.1]
  · simp only [State.pop, StackMachine.setRegister, habove]
    omega
  · simp only [State.pop, StackMachine.setRegister, habove]
    exact hholds.2

/-- The stack pointer is at its start just when the list is empty. -/
theorem sp_eq_stackStart_iff (h : Mirrors image address a s) :
    s.sp = stackStart ↔ a.stack = [] := by
  have hsp := h.sp
  rw [← UInt8.toNat_inj, ← List.length_eq_zero_iff, show stackStart.toNat = 0xF4 from rfl]
  omega

end Mirrors

/-! ## Instructions -/

/-- Where a result of the arithmetic unit goes. -/
def StackMachine.settle (a : StackMachine) (r : Register) : Outcome → StackMachine
  | .store value => a.setRegister r value
  | .compared flags => { a with flags := flags }

/-- The arithmetic unit computes what exact numbers come to in a byte. -/
theorem StackMachine.compute_of_apply {a : StackMachine} {op : AluOp} {index x y : UInt8}
    {r : Register} {outcome : Outcome} (hr : Register.ofByte index = .ok r)
    (happly : op.apply x y = .ok outcome) :
    a.compute index x.toNat y.toNat op = .ok (a.settle r outcome) := by
  have hsmall {value : UInt8} {n : Nat} (h : value.toNat = n) :
      a.write index n = .ok (a.setRegister r value) :=
    write_of_ok hr (by rw [← h, Nat.mod_eq_of_lt value.toNat_lt])
  cases op with
  | add =>
    obtain rfl := Except.ok.inj happly
    exact write_of_ok hr (UInt8.toNat_add x y)
  | mul =>
    obtain rfl := Except.ok.inj happly
    exact write_of_ok hr (UInt8.toNat_mul x y)
  | mod =>
    rw [AluOp.apply] at happly
    split at happly
    · contradiction
    · next hzero =>
      obtain rfl := Except.ok.inj happly
      have hzero' : y.toNat ≠ 0 := fun h => hzero (UInt8.toNat_inj.mp h)
      rw [compute, if_neg hzero']
      exact hsmall (UInt8.toNat_mod x y)
  | cmp =>
    obtain rfl := Except.ok.inj happly
    have hequal : decide (x.toNat = y.toNat) = (x == y) := by
      rw [Bool.eq_iff_iff, beq_iff_eq, decide_eq_true_iff, UInt8.toNat_inj]
    rw [compute, hequal]
    rfl
  | and =>
    obtain rfl := Except.ok.inj happly
    exact hsmall (UInt8.toNat_and x y)
  | or =>
    obtain rfl := Except.ok.inj happly
    exact hsmall (UInt8.toNat_or x y)
  | xor =>
    obtain rfl := Except.ok.inj happly
    exact hsmall (UInt8.toNat_xor x y)
  | shl =>
    obtain rfl := Except.ok.inj happly
    exact write_of_ok hr (shiftLeft_toNat x y)
  | shr =>
    obtain rfl := Except.ok.inj happly
    exact hsmall (shiftRight_toNat x y)
  | not =>
    obtain rfl := Except.ok.inj happly
    exact hsmall (UInt8.toNat_not y)

theorem Mirrors.settle {image : Image} {address : Nat} {a : StackMachine} {s : State}
    (h : Mirrors image address a s) (r : Register) (outcome : Outcome) :
    Mirrors image address (a.settle r outcome) (s.settle r outcome) := by
  cases outcome with
  | store value => exact h.setRegister r value
  | compared flags => exact ⟨h.pc, h.code, h.registers, rfl, h.sp, h.stack⟩

/-- One instruction on both machines: the same fault, or the same values printed and states that
have everything in common again. -/
inductive Agrees (image : Image) (address : Nat) (a : StackMachine) :
    Except Cause Action → Except Cause StackMachine → Prop
  | fault {cause} : Agrees image address a (.error cause) (.error cause)
  | proceed {s next} (hmirrors : Mirrors image address next s) (houtput : next.output = a.output) :
      Agrees image address a (.ok (.proceed s)) (.ok next)
  | print {value s next} (hmirrors : Mirrors image address next s)
      (houtput : next.output = a.output ++ [value]) :
      Agrees image address a (.ok (.print value s)) (.ok next)

/-- The instruction that stands at the program counter is the one that is carried out. -/
theorem performs_of_holds {s : State} {i : Instruction}
    (h : s.memory.Holds s.pc.toNat i.encode) :
    State.Performs s i.a i.b i.opcode s.action := by
  have hbyte : s.fetch 0 = i.opcode.byte := State.fetch_of_holds h (k := 0) rfl
  have hoperand {k : Nat} {b : UInt8} (hk : (i.operands.map (·.2))[k]? = some b) :
      s.fetch (UInt8.ofNat (k + 1)) = b :=
    State.fetch_of_holds h (by simpa [Instruction.encode] using hk)
  refine State.performs_action_of_operands ?_ (fun hlength => ?_) (fun hlength => ?_)
  · rw [hbyte, i.opcode.ofByte?_byte]
  · refine hoperand (k := 0) ?_
    rw [Instruction.operands]
    cases hkinds : i.opcode.operands with
    | nil => simp [hkinds] at hlength
    | cons kind rest => rfl
  · refine hoperand (k := 1) ?_
    simp [Instruction.operands, hlength]

theorem exec_of_refused {a : StackMachine} {i : Instruction} {index : UInt8}
    (h : i.opcode.refused i.a i.b = some index) (hpop : i.opcode = .pop → a.stack ≠ [])
    (hjump : ∀ c, i.opcode ≠ .jump c) : a.exec i = .error (.invalidRegister index) := by
  obtain ⟨op, x, y⟩ := i
  rcases Opcode.refused_eq_some h with ⟨⟨rest, hkinds⟩, hx, rfl⟩ | ⟨hkinds, hx, hy, rfl⟩
  · cases op with
    | nop | hlt => cases hkinds
    | jump c => exact absurd rfl (hjump c)
    | ldi => exact write_of_not_accepts hx
    | prn | push | alu =>
      rw [exec, read_of_not_accepts hx]
      rfl
    | pop =>
      cases hstack : a.stack with
      | nil => exact absurd hstack (hpop rfl)
      | cons value rest =>
        simp only [exec, hstack]
        exact write_of_not_accepts hx
  · cases op with
    | alu op =>
      obtain ⟨-, r, hr⟩ | ⟨hno, -⟩ := Register.ofByte_cases x
      · rw [exec, read_of_ok hr, read_of_not_accepts hy]
        rfl
      · simp [hx] at hno
    | nop | hlt | ldi | prn | push | pop | jump => cases hkinds

theorem Mirrors.agrees {image : Image} {address : Nat} {a : StackMachine} {s : State}
    {i : Instruction} (h : Mirrors image address a s)
    (hcode : s.memory.Holds s.pc.toNat i.encode) (hhlt : i.opcode ≠ .hlt)
    (hjump : ∀ c, i.opcode ≠ .jump c) (hfit : address + i.width < 256)
    (hroom : ∀ next, a.exec i = .ok next → image.length + next.stack.length ≤ 0xF4) :
    Agrees image (address + i.width) a s.action (a.exec i) := by
  have hperforms := performs_of_holds hcode
  generalize s.action = action at hperforms
  obtain ⟨op, x, y⟩ := i
  cases hperforms with
  | nop => exact .proceed (h.advance hfit) rfl
  | hlt => exact absurd rfl hhlt
  | @ldi r hr =>
    rw [exec_ldi hr]
    exact .proceed ((h.setRegister r y).advance hfit) rfl
  | @prn r hr =>
    rw [exec_prn hr, h.registers]
    exact .print ((h.print _).advance hfit) rfl
  | @push r hr =>
    have hpushed := h.push (a.registers.get r) (hroom _ (exec_push hr))
    rw [exec_push hr, h.registers]
    exact .proceed (hpushed.advance hfit) rfl
  | @pop r hr hsp =>
    cases hstack : a.stack with
    | nil => exact absurd (h.sp_eq_stackStart_iff.mpr hstack) hsp
    | cons value rest =>
      rw [exec_pop_cons hstack hr]
      exact .proceed ((h.pop hstack r).advance hfit) rfl
  | @alu op r r' outcome hr hr' happly =>
    rw [h.registers] at happly
    have houtput : (a.settle r outcome).output = a.output := by cases outcome <;> rfl
    rw [exec_alu hr hr', compute_of_apply hr happly]
    exact .proceed ((h.settle r outcome).advance hfit) houtput
  | taken | passed => exact absurd rfl (hjump _)
  | underflow hsp =>
    rw [exec_pop_nil (h.sp_eq_stackStart_iff.mp hsp)]
    exact .fault
  | division hr hr' hzero =>
    rw [h.registers] at hzero
    rw [exec_alu hr hr', hzero]
    exact .fault
  | refused hindex hsp =>
    have hstack (hop : op = .pop) : a.stack ≠ [] :=
      fun hnil => hsp hop (h.sp_eq_stackStart_iff.mpr hnil)
    rw [exec_of_refused hindex hstack hjump]
    exact .fault

/-! ## Runs -/

/-- What a finished run has to show: the values printed, or the fault. -/
def Machine.answer : Machine (Array UInt8) × Ending → Option (Except Fault (List UInt8))
  | (m, .halted) => some (.ok m.channel.toList)
  | (_, .faulted fault) => some (.error fault)
  | (_, .unfinished) => none

/-- What running an image comes to; nothing if the limit is too low for it to end. -/
def outcome (limit : Nat) (image : Image) : Option (Except Fault (List UInt8)) :=
  match execute limit image with
  | .error fault => some (.error fault)
  | .ok finished => Machine.answer finished

/-- The list with a HLT behind it. -/
def halting (list : List Instruction) : List Instruction := list ++ [{ opcode := .hlt }]

theorem Mirrors.holds_encode {image before after : Image} {a : StackMachine} {s : State}
    {i : Instruction} (h : Mirrors image before.length a s)
    (himage : image = before ++ (i.encode ++ after)) :
    s.memory.Holds s.pc.toNat i.encode := by
  have hcode := h.code
  rw [himage] at hcode
  have hrest := hcode.of_append.2.of_append.1
  rwa [Nat.zero_add, ← h.pc] at hrest

namespace Machine

theorem answer_run_hlt {m : Machine (Array UInt8)} {i : Instruction} (hrun : m.status = .running)
    (hcode : m.state.memory.Holds m.state.pc.toNat i.encode) (hhlt : i.opcode = .hlt)
    (limit : Nat) : answer (m.run (limit + 1)) = some (.ok m.channel.toList) := by
  have hperforms := performs_of_holds hcode
  have haction : m.state.action = .ok .halt := by
    rw [hhlt] at hperforms
    generalize m.state.action = action at hperforms
    cases hperforms with
    | hlt => rfl
    | refused hindex => simp [Opcode.refused, Opcode.operands] at hindex
  rw [run_succ_of_step hrun (step_of_halt hrun haction), run_halted rfl]
  rfl

/-- A step goes the way of the other machine's instruction. -/
theorem step_of_agrees {image : Image} {address : Nat} {a : StackMachine}
    {result : Except Cause StackMachine} {m : Machine (Array UInt8)} (hrun : m.status = .running)
    (houtput : m.channel.toList = a.output)
    (hagrees : Agrees image address a m.state.action result) :
    (∃ cause, result = .error cause ∧
        m.step = ({ m with status := .halted }, .error (.instruction cause m.state.pc))) ∨
      ∃ next after, result = .ok next ∧ m.step = (after, .ok .running) ∧
        Mirrors image address next after.state ∧ after.channel.toList = next.output := by
  generalize haction : m.state.action = action at hagrees
  cases hagrees with
  | @fault cause => exact Or.inl ⟨cause, rfl, step_of_error hrun haction⟩
  | @proceed s next hmirrors hnext =>
    exact Or.inr ⟨next, _, rfl, step_of_proceed hrun haction, hmirrors, houtput.trans hnext.symm⟩
  | @print value s next hmirrors hnext =>
    refine Or.inr ⟨next, _, rfl, step_of_print hrun haction rfl, hmirrors, ?_⟩
    rw [Array.toList_push, houtput, hnext]

/-- A fresh machine with the image loaded has everything in common with a fresh stack machine. -/
theorem exists_load {image : Image} (hfits : image.length ≤ memorySize) :
    ∃ m : Machine (Array UInt8), load { channel := #[] } image = .ok m ∧ m.status = .running ∧
      Mirrors image 0 {} m.state ∧ m.channel.toList = [] := by
  obtain ⟨memory, hmemory, hload⟩ :=
    exists_load_eq_ok hfits ({ channel := #[] } : Machine (Array UInt8))
  exact ⟨_, hload, rfl,
    ⟨rfl, Memory.holds_load hmemory, rfl, rfl, rfl, Memory.holds_nil memory 0xF4⟩, rfl⟩

theorem answer_run {image : Image} {list : List Instruction}
    (hjump : ∀ i ∈ list, ∀ c, i.opcode ≠ .jump c) {before : Image}
    (himage : image = before ++ Image.ofInstructions (halting list)) {a : StackMachine}
    (hroom : image.length + a.peak (halting list) ≤ 0xF4) {m : Machine (Array UInt8)}
    (hrun : m.status = .running) (hmirrors : Mirrors image before.length a m.state)
    (houtput : m.channel.toList = a.output) {limit : Nat} (hlimit : list.length < limit) :
    answer (m.run limit) = some (a.run before.length (halting list)) := by
  induction list generalizing before a m limit with
  | nil =>
    obtain ⟨limit, rfl⟩ := Nat.exists_eq_add_of_lt hlimit
    have hcode := hmirrors.holds_encode (i := { opcode := .hlt }) himage
    rw [answer_run_hlt hrun hcode rfl, houtput]
    rfl
  | cons i rest ih =>
    obtain ⟨limit, rfl⟩ : ∃ n, limit = n + 1 := ⟨limit - 1, by omega⟩
    have hcode := hmirrors.holds_encode himage
    have hlist : halting (i :: rest) = i :: halting rest := rfl
    rw [hlist] at hroom ⊢
    by_cases hhlt : i.opcode = .hlt
    · rw [answer_run_hlt hrun hcode hhlt, houtput, run_hlt _ _ hhlt]
    · have hlength : image.length = before.length +
          (i.width + (Image.ofInstructions (halting rest)).length) := by
        rw [himage, ← i.encode_length, ← List.length_append, ← List.length_append]
        rfl
      have hnext {next : StackMachine} (hexec : a.exec i = .ok next) :
          image.length + next.peak (halting rest) ≤ 0xF4 := by
        have hpeak := peak_le_peak_cons hhlt hexec (halting rest)
        omega
      have hstack {next : StackMachine} (hexec : a.exec i = .ok next) :
          image.length + next.stack.length ≤ 0xF4 := by
        have hpeak := next.stack_le_peak (halting rest)
        have hpeaks := hnext hexec
        omega
      have hagrees := hmirrors.agrees hcode hhlt (hjump i List.mem_cons_self) (by omega)
        fun next => hstack
      rcases step_of_agrees hrun houtput hagrees with
        ⟨cause, hexec, hstep⟩ | ⟨next, after, hexec, hstep, hafter, hprinted⟩
      · rw [run_succ_of_fault hrun hstep, run_of_error hhlt hexec, ← hmirrors.pc,
          UInt8.ofNat_toNat]
        rfl
      · have hbefore : (before ++ i.encode).length = before.length + i.width := by
          rw [List.length_append, i.encode_length]
        rw [run_succ_of_step hrun hstep, run_of_ok hhlt hexec, ← hbefore]
        rw [← hbefore] at hafter
        refine ih (fun j hj => hjump j (List.mem_cons_of_mem i hj)) ?_ (hnext hexec)
          (status_of_step hstep) hafter hprinted (Nat.lt_of_succ_lt_succ hlimit)
        rw [himage, List.append_assoc]
        rfl

end Machine

/-- Straight-line programs mean what their lists say: what they print and where they fail is what
the list prints and where it fails, and they end. A fault's address is the number of bytes of the
instructions in front of it. -/
theorem outcome_ofInstructions {list : List Instruction}
    (hjump : ∀ i ∈ list, ∀ c, i.opcode ≠ .jump c)
    (hroom : (Image.ofInstructions (halting list)).length +
      StackMachine.peak {} (halting list) ≤ 0xF4)
    {limit : Nat} (hlimit : list.length < limit) :
    outcome limit (Image.ofInstructions (halting list)) =
      some (StackMachine.run {} 0 (halting list)) := by
  have hfits : (Image.ofInstructions (halting list)).length ≤ memorySize := by
    have hsize : memorySize = 256 := rfl
    omega
  obtain ⟨m, hload, hrun, hmirrors, houtput⟩ := Machine.exists_load hfits
  have hexecute : execute limit (Image.ofInstructions (halting list)) = .ok (m.run limit) := by
    rw [execute, hload]
    rfl
  rw [outcome, hexecute]
  exact Machine.answer_run hjump (List.nil_append _).symm hroom hrun hmirrors houtput hlimit

/-- Takes two values back from the stack, the last one first, and prints their product. -/
def stackedProduct : List Instruction :=
  [⟨.ldi, 0, 200⟩, ⟨.ldi, 1, 3⟩, ⟨.push, 0, 0⟩, ⟨.push, 1, 0⟩, ⟨.pop, 2, 0⟩, ⟨.pop, 3, 0⟩,
    ⟨.alu .mul, 2, 3⟩, ⟨.prn, 2, 0⟩]

/-- One more POP finds the stack empty, and its register is not looked at. -/
theorem outcome_stackedProduct :
    outcome 9 (Image.ofInstructions (halting stackedProduct)) = some (.ok [88]) ∧
      outcome 10 (Image.ofInstructions (halting (stackedProduct ++ [⟨.pop, 9, 0⟩]))) =
        some (.error (.instruction .stackUnderflow 19)) := by
  constructor
  · exact outcome_ofInstructions (by simp [stackedProduct]) (by decide) (by decide)
  · exact outcome_ofInstructions (by simp [stackedProduct]) (by decide) (by decide)

end LS8
