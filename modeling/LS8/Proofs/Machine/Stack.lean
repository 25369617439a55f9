import LS8.Proofs.Machine.Run

/-!
# The stack along a run

The stack pointer counts: along any run it goes down by the number of PUSHes and up by the number of
POPs, modulo the size of memory. Only a PUSH writes to memory, and only the cell it pushes to. So a
cell that was pushed keeps its value for as long as it is on the stack, which is to say until the
stack has grown once around memory, and the POP that meets it there takes what was pushed
(`pop_restores_push`).
-/
namespace LS8

namespace State

/-- The opcode at the program counter, if there is one. -/
def opcode? (s : State) : Option Opcode := Opcode.ofByte? (s.fetch 0)

/-- By how much the instruction at the program counter makes the stack deeper. -/
def growth (s : State) : Int :=
  match s.opcode? with
  | some .push => 1
  | some .pop => -1
  | _ => 0

/-- What an instruction that is carried out does to the stack pointer and to memory. -/
inductive StackEffect (s next : State) : Prop
  | push {r} (hop : s.opcode? = some .push) (hr : Register.ofByte (s.fetch 1) = .ok r)
      (hsp : next.sp = s.sp - 1)
      (hmemory : next.memory = s.memory.store (s.sp - 1) (s.registers.get r))
  | pop (hop : s.opcode? = some .pop) (hsp : next.sp = s.sp + 1)
      (hmemory : next.memory = s.memory)
  | none (hgrowth : s.growth = 0) (hsp : next.sp = s.sp) (hmemory : next.memory = s.memory)

theorem growth_of_push {s : State} (h : s.opcode? = some .push) : s.growth = 1 := by
  rw [growth, h]

theorem growth_of_pop {s : State} (h : s.opcode? = some .pop) : s.growth = -1 := by
  rw [growth, h]

theorem sp_settle (s : State) (r : Register) (outcome : Outcome) :
    (s.settle r outcome).sp = s.sp ∧ (s.settle r outcome).memory = s.memory := by
  cases outcome <;> exact ⟨rfl, rfl⟩

/-- How a POP into a register comes out. -/
theorem action_of_pop {s : State} {r : Register} (hop : s.opcode? = some .pop)
    (hr : Register.ofByte (s.fetch 1) = .ok r) :
    s.action = if s.sp = stackStart then .error .stackUnderflow
      else .ok (.proceed ((s.pop r).advance .pop)) := by
  have hperforms := performs_action hop
  generalize s.action = action at hperforms
  cases hperforms with
  | pop hr' hsp =>
    obtain rfl := Except.ok.inj (hr.symm.trans hr')
    rw [if_neg hsp]
  | underflow hsp => rw [if_pos hsp]
  | refused hindex =>
    simp [Opcode.refused, Opcode.operands, Register.accepts_of_ofByte hr] at hindex

end State

open State

/-- PUSHes minus POPs among the instructions at these states. -/
def depth : List State → Int
  | [] => 0
  | s :: path => s.growth + depth path

@[simp] theorem depth_nil : depth [] = 0 := rfl

@[simp] theorem depth_cons (s : State) (path : List State) :
    depth (s :: path) = s.growth + depth path := rfl

namespace Machine

variable {σ : Type} [Channel σ]

theorem stackEffect_of_step {m next : Machine σ} (h : m.step = (next, .ok .running)) :
    StackEffect m.state next.state := by
  obtain ⟨op, action, hop, hperforms, hnext⟩ := performs_of_step h
  have hquiet (hpush : op ≠ .push) (hpop : op ≠ .pop) : m.state.growth = 0 := by
    simp only [growth, opcode?, hop]
    split <;> simp_all
  rcases hnext with rfl | ⟨value, rfl⟩
  · generalize next.state = after at hperforms
    cases hperforms with
    | push hr => exact .push hop hr rfl rfl
    | pop hr hsp => exact .pop hop rfl rfl
    | @alu op r r' outcome hr hr' happly =>
      obtain ⟨hsp, hmemory⟩ := sp_settle m.state r outcome
      exact .none (hquiet nofun nofun) hsp hmemory
    | nop | ldi | taken | passed => exact .none (hquiet nofun nofun) rfl rfl
  · generalize next.state = after at hperforms
    cases hperforms with
    | prn hr => exact .none (hquiet nofun nofun) rfl rfl

/-- A property of the depth and the state that every instruction keeps, as long as the depth stays
within bounds, holds along a run that stays within them. -/
theorem Executes.invariant (P : Int → State → Prop) (Bounds : Int → Prop)
    (hkeep : ∀ d s next, StackEffect s next → P d s → Bounds (d + s.growth) →
      P (d + s.growth) next)
    {m last : Machine σ} {path : List State} (h : m.Executes path last) {d : Int}
    (hstart : P d m.state)
    (hbounds : ∀ i, 1 ≤ i → i ≤ path.length → Bounds (d + depth (path.take i))) :
    P (d + depth path) last.state := by
  induction h generalizing d with
  | refl m => simpa using hstart
  | @step m next last path hstep rest ih =>
    have hfirst : Bounds (d + m.state.growth) := by simpa using hbounds 1 (by simp) (by simp)
    have hnext := hkeep d m.state next.state (stackEffect_of_step hstep) hstart hfirst
    have hrest := ih hnext fun i hone hlength => by
      simpa [Int.add_assoc] using hbounds (i + 1) (by simp) (by simpa using hlength)
    simpa [Int.add_assoc] using hrest

/-- The value pushed at the stack pointer `start` is on the stack, at this depth counted from just
before the push. -/
structure OnStack (start value : UInt8) (d : Int) (s : State) : Prop where
  deep : 1 ≤ d
  sp : (s.sp.toNat + d) % 256 = start.toNat
  cell : s.memory.fetch (start - 1) = value

theorem OnStack.keep {start value : UInt8} {d : Int} {s next : State}
    (heffect : StackEffect s next) (h : OnStack start value d s)
    (hbounds : 1 ≤ d + s.growth ∧ d + s.growth ≤ 256) :
    OnStack start value (d + s.growth) next := by
  obtain ⟨hdeep, hsp, hcell⟩ := h
  have hlt := s.sp.toNat_lt
  cases heffect with
  | push hop hr hnext hmemory =>
    rw [growth_of_push hop] at hbounds ⊢
    -- The value lies where the push at depth zero went; this one goes to one of the next 255 cells.
    have hother : s.sp - 1 ≠ start - 1 := by
      intro heq
      have hnumber := congrArg UInt8.toNat heq
      simp only [UInt8.toNat_sub, UInt8.toNat_one] at hnumber
      omega
    refine ⟨hbounds.1, ?_, ?_⟩
    · rw [hnext, UInt8.toNat_sub, UInt8.toNat_one]
      omega
    · rw [hmemory, Memory.fetch_store, if_neg hother, hcell]
  | pop hop hnext hmemory =>
    rw [growth_of_pop hop] at hbounds ⊢
    refine ⟨hbounds.1, ?_, ?_⟩
    · rw [hnext, UInt8.toNat_add, UInt8.toNat_one]
      omega
    · rw [hmemory, hcell]
  | none hgrowth hnext hmemory =>
    rw [hgrowth, Int.add_zero]
    exact ⟨hdeep, hnext ▸ hsp, hmemory ▸ hcell⟩

theorem onStack_of_push {s next : State} {value : UInt8} (heffect : StackEffect s next)
    (hop : s.opcode? = some .push) (hvalue : s.registers.read (s.fetch 1) = .ok value) :
    OnStack s.sp value 1 next := by
  have hlt := s.sp.toNat_lt
  cases heffect with
  | push _ hr hnext hmemory =>
    obtain rfl := Except.ok.inj (hvalue.symm.trans (Registers.read_eq_ok hr))
    refine ⟨Int.le_refl 1, ?_, ?_⟩
    · rw [hnext, UInt8.toNat_sub, UInt8.toNat_one]
      omega
    · rw [hmemory, Memory.fetch_store, if_pos rfl]
  | pop hpop => simp [hop] at hpop
  | none hgrowth => simp [growth_of_push hop] at hgrowth

theorem OnStack.sp_add_one {start value : UInt8} {s : State} (h : OnStack start value 1 s) :
    s.sp + 1 = start := by
  refine UInt8.toNat_inj.mp ?_
  have hnumber := h.sp
  rw [UInt8.toNat_add, UInt8.toNat_one]
  omega

/-- The value on top of the stack is what a POP takes, unless the stack pointer stands at the start,
where the stack counts as empty. -/
theorem OnStack.pop {start value : UInt8} {m : Machine σ} (h : OnStack start value 1 m.state)
    (hrun : m.status = .running) (hpop : m.state.opcode? = some .pop)
    (hregister : (m.state.fetch 1).toNat < 8) :
    if start = 0xF5 then m.step.2 = .error (.instruction .stackUnderflow m.state.pc)
    else
      ∃ next, m.step = (next, .ok .running) ∧
        next.state.registers.read (m.state.fetch 1) = .ok value ∧ next.state.sp = start := by
  obtain ⟨r, hr⟩ := Register.exists_ofByte hregister
  have haction := action_of_pop hpop hr
  have hbelow : m.state.sp = start - 1 := by rw [← h.sp_add_one, UInt8.add_sub_cancel]
  by_cases hstart : start = 0xF5
  · have hempty : m.state.sp = stackStart := by rw [hbelow, hstart]; rfl
    rw [if_pos hempty] at haction
    rw [if_pos hstart, step_eq_error_iff hrun]
    exact Or.inl ⟨_, haction, rfl⟩
  · have hempty : m.state.sp ≠ stackStart := by
      intro heq
      rw [← h.sp_add_one, heq] at hstart
      exact hstart rfl
    rw [if_neg hempty] at haction
    rw [if_neg hstart]
    refine ⟨_, step_of_proceed hrun haction, ?_, h.sp_add_one⟩
    rw [Registers.read_eq_ok hr]
    simp [State.advance, State.pop, State.setRegister, Registers.get_set, hbelow, h.cell]

/-- A value is taken back by the POP that meets it on top of the stack, whatever the instructions
between its PUSH and that POP do: the depth is one before the POP, and on the way there it is never
zero and never more than memory has cells. Where the PUSH was made one above the start of the
stack, the POP finds the stack pointer at the start and reports that there is nothing to take. -/
theorem pop_restores_push {m last : Machine σ} {path : List State} {value : UInt8}
    (hrun : m.Executes path last) (hpush : m.state.opcode? = some .push)
    (hvalue : m.state.registers.read (m.state.fetch 1) = .ok value)
    (hdepth : ∀ i, 1 ≤ i → i ≤ path.length →
      1 ≤ depth (path.take i) ∧ depth (path.take i) ≤ 256)
    (hlast : depth path = 1) (hpop : last.state.opcode? = some .pop)
    (hregister : (last.state.fetch 1).toNat < 8) :
    if m.state.sp = 0xF5 then
      last.step.2 = .error (.instruction .stackUnderflow last.state.pc)
    else
      ∃ next, last.step = (next, .ok .running) ∧
        next.state.registers.read (last.state.fetch 1) = .ok value ∧
        next.state.sp = m.state.sp := by
  cases hrun with
  | refl => simp at hlast
  | @step _ next _ path hstep rest =>
    rw [depth_cons, growth_of_push hpush] at hlast
    have hbounds : ∀ i, 1 ≤ i → i ≤ path.length →
        1 ≤ 1 + depth (path.take i) ∧ 1 + depth (path.take i) ≤ 256 := by
      intro i _ hlength
      simpa [growth_of_push hpush] using hdepth (i + 1) (by omega) (by simpa using hlength)
    have htop : OnStack m.state.sp value 1 last.state := by
      have hstart := onStack_of_push (stackEffect_of_step hstep) hpush hvalue
      have hkept := rest.invariant (OnStack m.state.sp value) (fun d => 1 ≤ d ∧ d ≤ 256)
        (fun _ _ _ => OnStack.keep) hstart hbounds
      rwa [hlast] at hkept
    have hrunning : last.status = .running :=
      (Executes.step hstep rest).running (List.cons_ne_nil _ _)
    exact htop.pop hrunning hpop hregister

/-- Pushes 3 and then 70 over the next instruction. That instruction is now a POP into R3, and it
takes the 70; the POP behind it meets the 3. -/
def selfWriting : Machine (Array UInt8) where
  state := {
    memory := ((((((({} : Memory).store 0x10 0x45).store 0x11 0).store 0x12 0x45).store 0x13 1).store
      0x16 0x46).store 0x17 2)
    registers := (({} : Registers).set ⟨0, by decide⟩ 3).set ⟨1, by decide⟩ 70
    pc := 0x10
    sp := 0x16 }
  channel := #[]

theorem pop_restores_push_selfWriting :
    ∃ path last next, selfWriting.Executes path last ∧ depth path = 1 ∧
      path.map State.growth = [1, 1, -1] ∧ last.state.registers.read 3 = .ok 70 ∧
      last.step = (next, .ok .running) ∧ next.state.registers.read 2 = .ok 3 ∧
      next.state.sp = 0x16 := by
  have hrun : selfWriting.Executes
      [selfWriting.state, (selfWriting.run 1).1.state, (selfWriting.run 2).1.state]
      (selfWriting.run 3).1 := .step rfl (.step rfl (.step rfl (.refl _)))
  have hdepth : ∀ i, 1 ≤ i → i ≤ 3 →
      1 ≤ depth ([selfWriting.state, (selfWriting.run 1).1.state,
        (selfWriting.run 2).1.state].take i) ∧
      depth ([selfWriting.state, (selfWriting.run 1).1.state,
        (selfWriting.run 2).1.state].take i) ≤ 256 := by
    intro i hone hthree
    obtain rfl | rfl | rfl : i = 1 ∨ i = 2 ∨ i = 3 := by omega
    all_goals decide
  obtain ⟨next, hstep, hvalue, hsp⟩ :=
    pop_restores_push hrun rfl rfl hdepth rfl rfl (by decide)
  exact ⟨_, _, next, hrun, rfl, rfl, rfl, hstep, hvalue, hsp⟩

end Machine
end LS8
