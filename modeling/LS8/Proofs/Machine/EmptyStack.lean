import LS8.Proofs.Machine.Contents
import LS8.Proofs.Machine.History
import LS8.Proofs.Machine.Stack

/-!
# The empty stack

The machine takes its stack to be empty where the stack pointer stands at the start. On a machine
that was switched on and driven by any calls, that is where the PUSHes carried out are as many as
the POPs, or 256 more, or 512 more: the stack pointer is a byte, and a PUSH does not look at how far
down it is. There are never more POPs than PUSHes. So a POP reports an underflow where the two
counts agree modulo 256 (`underflow_iff_counts_agree`), and the 256th value on the stack makes it
look empty (`refilled_underflows`).
-/
namespace LS8

open State

/-- How many of the instructions at these states have the opcode. -/
def executions (opcode : Opcode) (path : List State) : Nat :=
  (path.map State.opcode?).count (some opcode)

theorem growth_eq_executions (s : State) :
    s.growth = executions .push [s] - executions .pop [s] := by
  unfold growth executions
  split <;> simp_all

theorem executions_append (opcode : Opcode) (path more : List State) :
    executions opcode (path ++ more) = executions opcode path + executions opcode more := by
  rw [executions, List.map_append, List.count_append, executions, executions]

theorem depth_eq_executions (path : List State) :
    depth path = executions .push path - executions .pop path := by
  induction path with
  | nil => rfl
  | cons s path ih =>
    have hpush := executions_append .push [s] path
    have hpop := executions_append .pop [s] path
    rw [List.singleton_append] at hpush hpop
    rw [depth_cons, ih, growth_eq_executions, hpush, hpop]
    omega

/-- The depth only takes from the states how much each makes the stack grow. -/
theorem depth_eq_foldr (path : List State) :
    depth path = (path.map growth).foldr (· + ·) 0 := by
  induction path with
  | nil => rfl
  | cons s path ih => rw [depth_cons, ih, List.map_cons, List.foldr_cons]

theorem depth_append (path more : List State) : depth (path ++ more) = depth path + depth more := by
  simp only [depth_eq_executions, executions_append]
  omega

namespace Machine

variable {σ : Type} [Channel σ]

theorem sp_ne_stackStart_of_pop {m next : Machine σ} (h : m.step = (next, .ok .running))
    (hpop : m.state.opcode? = some .pop) : m.state.sp ≠ stackStart := by
  obtain ⟨op, action, hop, hperforms, -⟩ := performs_of_step h
  obtain rfl : op = .pop := Option.some.inj (hop.symm.trans hpop)
  cases hperforms with
  | pop hr hsp => exact hsp

/-- The stack pointer, counted from the start of the stack, where so many more values have been
pushed than popped. -/
structure Counted (d : Int) (s : State) : Prop where
  nonneg : 0 ≤ d
  sp : (s.sp.toNat + d) % 256 = 0xF4

theorem Counted.sp_eq_stackStart_iff {d : Int} {s : State} (h : Counted d s) :
    s.sp = stackStart ↔ d % 256 = 0 := by
  have hlt := s.sp.toNat_lt
  have hsp := h.sp
  rw [← UInt8.toNat_inj, show stackStart.toNat = 0xF4 from rfl]
  omega

theorem Counted.step {d : Int} {m next : Machine σ} (h : Counted d m.state)
    (hstep : m.step = (next, .ok .running)) : Counted (d + m.state.growth) next.state := by
  have hempty := h.sp_eq_stackStart_iff
  obtain ⟨hnonneg, hsp⟩ := h
  have hlt := m.state.sp.toNat_lt
  cases stackEffect_of_step hstep with
  | push hop hr hnext =>
    rw [growth_of_push hop]
    refine ⟨by omega, ?_⟩
    rw [hnext, UInt8.toNat_sub, UInt8.toNat_one]
    omega
  | pop hop hnext =>
    -- With nothing on the stack the POP would have been refused.
    have hne : d % 256 ≠ 0 := fun hd => sp_ne_stackStart_of_pop hstep hop (hempty.mpr hd)
    rw [growth_of_pop hop]
    refine ⟨by omega, ?_⟩
    rw [hnext, UInt8.toNat_add, UInt8.toNat_one]
    omega
  | none hgrowth hnext =>
    rw [hgrowth, Int.add_zero]
    exact ⟨hnonneg, hnext ▸ hsp⟩

theorem growth_of_halt {s : State} (h : s.action = .ok .halt) : s.growth = 0 := by
  cases hop : s.opcode? with
  | none => simp [growth, hop]
  | some op =>
    have hperforms := performs_action hop
    rw [h] at hperforms
    cases hperforms with
    | hlt => simp [growth, hop]

theorem Counted.call {d : Int} {m next : Machine σ} {c : Call} {done : List State}
    (h : Counted d m.state) (heffect : CallEffect m c done next) :
    Counted (d + depth done) next.state := by
  cases heffect with
  | loaded | tooLarge | idle =>
    rw [depth_nil, Int.add_zero]
    exact ⟨h.nonneg, h.sp⟩
  | faulted hstep hstate =>
    rw [depth_nil, Int.add_zero, hstate]
    exact h
  | stopped hrun haction =>
    rw [depth_cons, growth_of_halt haction, depth_nil, Int.add_zero, Int.add_zero]
    exact ⟨h.nonneg, h.sp⟩
  | proceeded hstep =>
    rw [depth_cons, depth_nil, Int.add_zero]
    exact h.step hstep

theorem counted_history (channel : σ) (list : List Call) :
    Counted (depth ((fresh channel).history list)) ((fresh channel).calls list).state := by
  refine history_invariant (P := fun past m => Counted (depth past) m.state) ⟨Int.le_refl 0, rfl⟩ ?_
  intro past m c done next _ heffect hpast
  rw [depth_append]
  exact hpast.call heffect

/-- How a POP into a register fails for want of a value. -/
theorem underflow_iff_sp_eq {m : Machine σ} (hrun : m.status = .running)
    (hpop : m.state.opcode? = some .pop) (hregister : (m.state.fetch 1).toNat < 8) :
    (∃ address, m.step.2 = .error (.instruction .stackUnderflow address)) ↔
      m.state.sp = stackStart := by
  obtain ⟨r, hr⟩ := Register.exists_ofByte hregister
  have haction := action_of_pop hpop hr
  by_cases hsp : m.state.sp = stackStart
  · rw [if_pos hsp] at haction
    have hstep := step_of_error hrun haction
    simp [hstep, hsp]
  · rw [if_neg hsp] at haction
    have hstep := step_of_proceed hrun haction
    simp [hstep, hsp]

/-- Whatever calls drove the machine since it was switched on: there were no more POPs than PUSHes,
and a POP into a register underflows where the PUSHes and the POPs carried out so far agree modulo
256. As long as the two differ by less than that, they agree only where the stack is empty. -/
theorem underflow_iff_counts_agree (channel : σ) (list : List Call) :
    let m := (fresh channel).calls list
    let past := (fresh channel).history list
    executions .pop past ≤ executions .push past ∧
      (m.status = .running → m.state.opcode? = some .pop → (m.state.fetch 1).toNat < 8 →
        ((∃ address, m.step.2 = .error (.instruction .stackUnderflow address)) ↔
          executions .push past % 256 = executions .pop past % 256)) := by
  intro m past
  have hcounted : Counted (depth past) m.state := counted_history channel list
  have hdepth := depth_eq_executions past
  have hnonneg := hcounted.nonneg
  refine ⟨by omega, fun hrun hpop hregister => ?_⟩
  rw [underflow_iff_sp_eq hrun hpop hregister, hcounted.sp_eq_stackStart_iff]
  omega

/-- Takes back the one value that it pushed, and asks for another one. -/
def balanced : List Call := [.load [0x45, 0, 0x46, 1, 0x46, 1], .step, .step]

theorem underflow_iff_counts_agree_balanced :
    executions .push ((fresh (#[] : Array UInt8)).history balanced) = 1 ∧
      executions .pop ((fresh (#[] : Array UInt8)).history balanced) = 1 ∧
      ∃ address, ((fresh (#[] : Array UInt8)).calls balanced).step.2 =
        .error (.instruction .stackUnderflow address) := by
  have hrun : ((fresh (#[] : Array UInt8)).calls balanced).status = .running := by decide +kernel
  have hpopping : ((fresh (#[] : Array UInt8)).calls balanced).state.opcode? = some .pop := by
    decide +kernel
  have hregister : (((fresh (#[] : Array UInt8)).calls balanced).state.fetch 1).toNat < 8 := by
    decide +kernel
  have hpush : executions .push ((fresh (#[] : Array UInt8)).history balanced) = 1 := by
    decide +kernel
  have hpop : executions .pop ((fresh (#[] : Array UInt8)).history balanced) = 1 := by
    decide +kernel
  refine ⟨hpush, hpop, ?_⟩
  exact ((underflow_iff_counts_agree #[] balanced).2 hrun hpopping hregister).mpr
    (by rw [hpush, hpop])

/-! ## A stack that has grown once around memory -/

/-- A PUSH of the first register and a jump to the address in it. -/
def pushing : Image := [0x45, 0, 0x54, 0]

/-- One instruction; the image is loaded before it, since the stack may have been pushed over it. -/
def refill : List Call := [.load pushing, .step]

/-- So many PUSHes, each with the jump back. -/
def laps : Nat → List Call
  | 0 => []
  | n + 1 => refill ++ refill ++ laps n

/-- A running machine at this address, with zero in all registers. -/
structure ClearedAt (pc : UInt8) (m : Machine σ) : Prop where
  running : m.status = .running
  pc_eq : m.state.pc = pc
  registers : m.state.registers = {}

namespace ClearedAt

variable {pc : UInt8} {m : Machine σ}

/-- Loading puts that part of the image where the program counter is. -/
theorem load {image before after : Image} (h : ClearedAt pc m) (hfits : image.length ≤ memorySize)
    (himage : image = before ++ after) (hpc : pc.toNat = before.length) :
    ClearedAt pc (m.call (.load image)) ∧
      ∀ k b, after[k]? = some b → (m.call (.load image)).state.fetch (UInt8.ofNat k) = b := by
  obtain ⟨memory, hmemory, hload⟩ := Machine.exists_load_eq_ok hfits m
  have hholds := Memory.holds_load hmemory
  rw [himage] at hholds
  have hafter := hholds.of_append.2
  rw [Nat.zero_add, ← hpc, ← h.pc_eq] at hafter
  simp only [Machine.call, hload]
  exact ⟨⟨h.running, h.pc_eq, h.registers⟩, fun k b hk => State.fetch_of_holds hafter hk⟩

/-- What one round does whose instruction, with the first register as its operand, proceeds. -/
theorem refill_of_perform {before rest : Image} {byte : UInt8} {opcode : Opcode}
    {next : State → State} (h : ClearedAt pc m) (himage : pushing = before ++ byte :: 0 :: rest)
    (hpc : pc.toNat = before.length) (hop : Opcode.ofByte? byte = some opcode)
    (hperform : ∀ (s : State) b, s.perform opcode 0 b = .ok (.proceed (next s))) :
    ∃ loaded : Machine σ, ClearedAt pc loaded ∧
      m.calls refill = { loaded with state := next loaded.state } ∧
      (m.history refill).map opcode? = [some opcode] := by
  obtain ⟨hloaded, hcode⟩ := h.load (by decide) himage hpc
  generalize hload : m.call (.load pushing) = loaded at hloaded hcode
  have hfetch : loaded.state.fetch 0 = byte := hcode 0 byte rfl
  have ha : loaded.state.fetch 1 = 0 := hcode 1 0 rfl
  have haction : loaded.state.action = .ok (.proceed (next loaded.state)) := by
    simp only [State.action, hfetch, ha, hop, hperform]
  have hstep := step_of_proceed hloaded.running haction
  refine ⟨loaded, hloaded, ?_, ?_⟩
  · rw [refill, calls_cons, hload, calls_cons, calls_nil, call, hstep]
  · rw [refill, history_cons, hload]
    simp [carriedOut, hloaded.running, hstep, opcode?, hfetch, hop]

/-- The PUSH is carried out. -/
theorem refill_push (h : ClearedAt 0 m) :
    ClearedAt 2 (m.calls refill) ∧ (m.history refill).map opcode? = [some .push] := by
  have hpushing : pushing = [] ++ 0x45 :: 0 :: [0x54, 0] := rfl
  have hperform (s : State) (b : UInt8) : s.perform .push 0 b =
      .ok (.proceed ((s.push (s.registers.get 0)).advance .push)) := rfl
  obtain ⟨loaded, hloaded, hcalls, hhistory⟩ := h.refill_of_perform hpushing rfl rfl hperform
  rw [hcalls]
  refine ⟨⟨hloaded.running, ?_, hloaded.registers⟩, hhistory⟩
  simp only [State.advance, State.push, hloaded.pc_eq]
  rfl

/-- The jump is carried out, back to the PUSH. -/
theorem refill_jump (h : ClearedAt 2 m) :
    ClearedAt 0 (m.calls refill) ∧ (m.history refill).map opcode? = [some (.jump .always)] := by
  have hpushing : pushing = [0x45, 0] ++ 0x54 :: 0 :: [] := rfl
  have hperform (s : State) (b : UInt8) : s.perform (.jump .always) 0 b =
      .ok (.proceed { s with pc := s.registers.get 0 }) := rfl
  obtain ⟨loaded, hloaded, hcalls, hhistory⟩ := h.refill_of_perform hpushing rfl rfl hperform
  rw [hcalls]
  refine ⟨⟨hloaded.running, ?_, hloaded.registers⟩, hhistory⟩
  simp only [hloaded.registers]
  rfl

theorem laps (h : ClearedAt 0 m) (n : Nat) :
    ClearedAt 0 (m.calls (laps n)) ∧ executions .push (m.history (laps n)) = n ∧
      executions .pop (m.history (laps n)) = 0 := by
  induction n generalizing m with
  | zero => exact ⟨h, rfl, rfl⟩
  | succ n ih =>
    obtain ⟨hpushed, hpush⟩ := h.refill_push
    obtain ⟨hback, hjump⟩ := hpushed.refill_jump
    obtain ⟨hlast, hpushes, hpops⟩ := ih hback
    have hcount (opcode : Opcode) : executions opcode (m.history (Machine.laps (n + 1))) =
        [some Opcode.push, some (.jump .always)].count (some opcode) +
          executions opcode (((m.calls refill).calls refill).history (Machine.laps n)) := by
      rw [Machine.laps, history_append, history_append, calls_append, executions_append,
        executions_append, executions, executions, hpush, hjump, ← List.count_append]
      rfl
    refine ⟨?_, ?_, ?_⟩
    · rwa [Machine.laps, calls_append, calls_append]
    · rw [hcount, hpushes]
      exact Nat.add_comm 1 n
    · rw [hcount, hpops]
      rfl

end ClearedAt

/-- 256 PUSHes; then a POP of the first register is loaded. -/
def refilled : List Call := laps 256 ++ [.load [0x46, 0]]

/-- The POP finds the stack pointer back at the start of the stack. It is refused as if there were
nothing on the stack, where 256 values have been pushed and none has been popped. -/
theorem refilled_underflows :
    let m := (fresh (#[] : Array UInt8)).calls refilled
    let past := (fresh (#[] : Array UInt8)).history refilled
    m.status = .running ∧ m.state.opcode? = some .pop ∧ (m.state.fetch 1).toNat < 8 ∧
      executions .push past = 256 ∧ executions .pop past = 0 ∧
      ∃ address, m.step.2 = .error (.instruction .stackUnderflow address) := by
  intro m past
  have hfresh : ClearedAt 0 (fresh (#[] : Array UInt8)) := ⟨rfl, rfl, rfl⟩
  obtain ⟨hlast, hpushes, hpops⟩ := hfresh.laps 256
  have hpopping : ([0x46, 0] : Image) = [] ++ [0x46, 0] := rfl
  obtain ⟨hloaded, hcode⟩ := hlast.load (by decide) hpopping rfl
  have hm : m = ((fresh (#[] : Array UInt8)).calls (laps 256)).call (.load [0x46, 0]) :=
    calls_append _ _ _
  have hpast : past = (fresh (#[] : Array UInt8)).history (laps 256) := by
    rw [show past = _ from history_append _ _ _, history_cons, history_nil]
    exact List.append_nil _
  rw [← hm] at hloaded hcode
  have hop : m.state.opcode? = some .pop := by
    rw [opcode?, show m.state.fetch 0 = 0x46 from hcode 0 0x46 rfl]
    rfl
  have hregister : (m.state.fetch 1).toNat < 8 := by
    rw [show m.state.fetch 1 = 0 from hcode 1 0 rfl]
    decide
  have hcounted : Counted (depth past) m.state := counted_history #[] refilled
  rw [hpast] at hcounted ⊢
  refine ⟨hloaded.running, hop, hregister, hpushes, hpops, ?_⟩
  rw [underflow_iff_sp_eq hloaded.running hop hregister, hcounted.sp_eq_stackStart_iff,
    depth_eq_executions, hpushes, hpops]
  rfl

end Machine
end LS8
