import LS8.Proofs.Machine.Run
import Mathlib.Algebra.Group.Nat.Defs
import Mathlib.Logic.Function.Basic

/-!
# The instruction catalogue

What each instruction does, said once more in plain numbers. A `View` holds a state as natural
numbers and functions on them, and `View.after` is the catalogue: one line for each of the nineteen
instructions, with exact arithmetic and explicit remainders and without the machine's bytes, shifts
or tables. A step of the machine does what its line says, and nothing else: two states with the same
view are the same state (`State.view_injective`).
-/
namespace LS8

theorem Register.ofByte_eq_ok {index : UInt8} {r : Register} (h : Register.ofByte index = .ok r) :
    index.toNat = r.val := by
  unfold ofByte at h
  split at h
  · exact congrArg Fin.val (Except.ok.inj h)
  · contradiction

/-- A machine state in numbers: registers by number, cells by address. -/
structure View where
  register : Nat → Nat
  cell : Nat → Nat
  pc : Nat
  sp : Nat
  equal : Bool
  greater : Bool
  less : Bool

namespace View

/-- The two bytes behind the program counter; the last address is followed by the first. -/
def a (v : View) : Nat := v.cell ((v.pc + 1) % 256)

def b (v : View) : Nat := v.cell ((v.pc + 2) % 256)

/-- What the registers hold that these bytes number. -/
def x (v : View) : Nat := v.register v.a

def y (v : View) : Nat := v.register v.b

def advance (v : View) (width : Nat) : View := { v with pc := (v.pc + width) % 256 }

def put (v : View) (value : Nat) : View :=
  { v with register := Function.update v.register v.a value }

/-- The view after an instruction that meets no fault. -/
def after (v : View) : Opcode → View
  | .nop => v.advance 1
  | .hlt => v
  | .ldi => (v.put v.b).advance 3
  | .prn => v.advance 2
  | .push =>
    let sp := (v.sp + 255) % 256
    { v with sp := sp, cell := Function.update v.cell sp v.x }.advance 2
  | .pop => { v.put (v.cell v.sp) with sp := (v.sp + 1) % 256 }.advance 2
  | .alu .add => (v.put ((v.x + v.y) % 256)).advance 3
  | .alu .mul => (v.put (v.x * v.y % 256)).advance 3
  | .alu .mod => (v.put (v.x % v.y)).advance 3
  | .alu .cmp => { v with equal := v.x = v.y, greater := v.x > v.y, less := v.x < v.y }.advance 3
  | .alu .and => (v.put (v.x &&& v.y)).advance 3
  | .alu .or => (v.put (v.x ||| v.y)).advance 3
  | .alu .xor => (v.put (v.x ^^^ v.y)).advance 3
  | .alu .shl => (v.put (v.x * 2 ^ v.y % 256)).advance 3
  | .alu .shr => (v.put (v.x / 2 ^ v.y)).advance 3
  | .alu .not => (v.put (255 - v.y)).advance 3
  | .jump .always => { v with pc := v.x }
  | .jump .equal => if v.equal then { v with pc := v.x } else v.advance 2
  | .jump .notEqual => if v.equal then v.advance 2 else { v with pc := v.x }

/-- No condition of the view makes the instruction fault. -/
def Unfaulted (v : View) : Opcode → Prop
  | .nop | .hlt => True
  | .ldi | .prn | .push | .jump _ => v.a < 8
  | .pop => v.a < 8 ∧ v.sp ≠ 0xF4
  | .alu .mod => v.a < 8 ∧ v.b < 8 ∧ v.y ≠ 0
  | .alu _ => v.a < 8 ∧ v.b < 8

/-- What the instruction gives to the output. -/
def printed (v : View) : Opcode → List UInt8
  | .prn => [UInt8.ofNat v.x]
  | _ => []

end View

/-- Whether the machine runs on after the instruction. -/
def Opcode.statusAfter : Opcode → Status
  | .hlt => .halted
  | _ => .running

theorem shiftLeft_toNat (x y : UInt8) : (shiftLeft x y).toNat = x.toNat * 2 ^ y.toNat % 256 := by
  unfold shiftLeft
  split
  · next hy =>
    have hy' : y.toNat % 8 = y.toNat := Nat.mod_eq_of_lt hy
    rw [UInt8.toNat_shiftLeft, hy', Nat.shiftLeft_eq]
  · next hy =>
    have hy' : 8 ≤ y.toNat := Nat.le_of_not_lt hy
    obtain ⟨k, hk⟩ := Nat.exists_eq_add_of_le hy'
    rw [hk, Nat.pow_add, Nat.mul_left_comm, Nat.mul_mod_right]
    rfl

theorem shiftRight_toNat (x y : UInt8) : (shiftRight x y).toNat = x.toNat / 2 ^ y.toNat := by
  unfold shiftRight
  split
  · next hy =>
    have hy' : y.toNat % 8 = y.toNat := Nat.mod_eq_of_lt hy
    rw [UInt8.toNat_shiftRight, hy', Nat.shiftRight_eq_div_pow]
  · next hy =>
    have hy' : 8 ≤ y.toNat := Nat.le_of_not_lt hy
    have hx : x.toNat < 2 ^ y.toNat := calc
      x.toNat < 2 ^ 8 := x.toNat_lt
      _ ≤ 2 ^ y.toNat := Nat.pow_le_pow_right (by decide) hy'
    rw [Nat.div_eq_of_lt hx]
    rfl

/-- The state after an action; a halt leaves it. -/
def Action.state (s : State) : Action → State
  | .proceed next | .print _ next => next
  | .halt => s

namespace State

def view (s : State) : View where
  register i := (s.registers.cells[i]?.getD 0).toNat
  cell i := (s.memory.cells[i]?.getD 0).toNat
  pc := s.pc.toNat
  sp := s.sp.toNat
  equal := s.flags.equal
  greater := s.flags.greater
  less := s.flags.less

private theorem cells_eq_of_toNat {n : Nat} {cells cells' : Vector UInt8 n}
    (h : (fun i : Nat => (cells[i]?.getD 0).toNat) = fun i => (cells'[i]?.getD 0).toNat) :
    cells = cells' := by
  refine Vector.ext fun i hi => UInt8.toNat_inj.mp ?_
  have hcell := congrFun h i
  simpa [hi] using hcell

/-- A view leaves nothing of the state out. -/
theorem view_injective : Function.Injective State.view := by
  rintro ⟨⟨memory⟩, ⟨registers⟩, pc, sp, ⟨equal, greater, less⟩⟩
    ⟨⟨memory'⟩, ⟨registers'⟩, pc', sp', ⟨equal', greater', less'⟩⟩ h
  obtain rfl := cells_eq_of_toNat (congrArg View.register h)
  obtain rfl := cells_eq_of_toNat (congrArg View.cell h)
  obtain rfl := UInt8.toNat_inj.mp (congrArg View.pc h)
  obtain rfl := UInt8.toNat_inj.mp (congrArg View.sp h)
  obtain rfl : equal = equal' := congrArg View.equal h
  obtain rfl : greater = greater' := congrArg View.greater h
  obtain rfl : less = less' := congrArg View.less h
  rfl

theorem view_get (s : State) (r : Register) :
    (s.registers.get r).toNat = s.view.register r.val := by
  simp [view, Registers.get]

theorem view_load (s : State) (address : UInt8) :
    (s.memory.fetch address).toNat = s.view.cell address.toNat := by
  have haddress : address.toNat < memorySize := address.toNat_lt
  simp [view, Memory.fetch, haddress]

theorem view_fetch (s : State) (offset : UInt8) :
    (s.fetch offset).toNat = s.view.cell ((s.view.pc + offset.toNat) % 256) := by
  rw [fetch, view_load, UInt8.toNat_add]
  rfl

theorem view_advance (s : State) (op : Opcode) :
    (s.advance op).view = s.view.advance op.width := by
  have hwidth : op.width % 256 = op.width := by
    have := op.operands_length_le
    unfold Opcode.width
    omega
  simp [view, advance, View.advance, UInt8.toNat_add, hwidth]

/-- Writing one cell is an update of the function that reads them. -/
private theorem toNat_getElem?_set {n : Nat} (cells : Vector UInt8 n) (i : Nat) (h : i < n)
    (value : UInt8) :
    (fun j => ((cells.set i value h)[j]?.getD 0).toNat) =
      Function.update (fun j => (cells[j]?.getD 0).toNat) i value.toNat := by
  funext j
  by_cases hj : j = i
  · subst hj
    simp [h]
  · have hne : i ≠ j := fun heq => hj heq.symm
    simp [hj, hne]

theorem view_setRegister (s : State) (r : Register) (value : UInt8) :
    (s.setRegister r value).view =
      { s.view with register := Function.update s.view.register r.val value.toNat } := by
  have hregister := toNat_getElem?_set s.registers.cells r.val r.isLt value
  simp only [view, setRegister, Registers.set, hregister]

theorem view_push (s : State) (value : UInt8) :
    (s.push value).view =
      { s.view with
        sp := (s.view.sp + 255) % 256
        cell := Function.update s.view.cell ((s.view.sp + 255) % 256) value.toNat } := by
  have hsp : (s.sp - 1).toNat = (s.view.sp + 255) % 256 := by
    rw [UInt8.toNat_sub, Nat.add_comm]
    rfl
  have hcell : (s.push value).view.cell =
      Function.update s.view.cell (s.sp - 1).toNat value.toNat :=
    toNat_getElem?_set s.memory.cells (s.sp - 1).toNat (s.sp - 1).toNat_lt value
  rw [← hsp, ← hcell]
  rfl

theorem view_pop (s : State) (r : Register) :
    (s.pop r).view =
      { s.view with
        register := Function.update s.view.register r.val (s.view.cell s.view.sp)
        sp := (s.view.sp + 1) % 256 } := by
  have hsp : (s.sp + 1).toNat = (s.view.sp + 1) % 256 := UInt8.toNat_add _ _
  have hpop : (s.pop r).view =
      { (s.setRegister r (s.memory.fetch s.sp)).view with sp := (s.sp + 1).toNat } := rfl
  have hload : (s.memory.fetch s.sp).toNat = s.view.cell s.view.sp := s.view_load s.sp
  rw [hpop, view_setRegister, hload, hsp]

theorem view_a {s : State} {r : Register} (h : Register.ofByte (s.fetch 1) = .ok r) :
    s.view.a = r.val := by
  rw [← Register.ofByte_eq_ok h, view_fetch]
  rfl

theorem view_b {s : State} {r : Register} (h : Register.ofByte (s.fetch 2) = .ok r) :
    s.view.b = r.val := by
  rw [← Register.ofByte_eq_ok h, view_fetch]
  rfl

theorem view_x {s : State} {r : Register} (h : Register.ofByte (s.fetch 1) = .ok r) :
    s.view.x = (s.registers.get r).toNat := by
  rw [view_get, View.x, view_a h]

theorem view_y {s : State} {r : Register} (h : Register.ofByte (s.fetch 2) = .ok r) :
    s.view.y = (s.registers.get r).toNat := by
  rw [view_get, View.y, view_b h]

/-- Storing in the destination register, as the catalogue says it. -/
theorem view_settle_store {s : State} {r : Register} (h : Register.ofByte (s.fetch 1) = .ok r)
    (value : UInt8) : (s.settle r (.store value)).view = s.view.put value.toNat := by
  rw [settle, view_setRegister, View.put, view_a h]

theorem view_settle_compared (s : State) (r : Register) (x y : UInt8) :
    (s.settle r (.compared (.compare x y))).view =
      { s.view with
        equal := x.toNat = y.toNat, greater := x.toNat > y.toNat, less := x.toNat < y.toNat } := by
  have hequal : (x == y) = decide (x.toNat = y.toNat) := by
    rw [Bool.eq_iff_iff, beq_iff_eq, decide_eq_true_iff, UInt8.toNat_inj]
  simp only [view, settle, Flags.compare, hequal]
  rfl

/-- The arithmetic instructions, one by one. -/
theorem view_settle {s : State} {op : AluOp} {r r' : Register} {outcome : Outcome}
    (hr : Register.ofByte (s.fetch 1) = .ok r) (hr' : Register.ofByte (s.fetch 2) = .ok r')
    (happly : op.apply (s.registers.get r) (s.registers.get r') = .ok outcome) :
    ((s.settle r outcome).advance (.alu op)).view = s.view.after (.alu op) := by
  have hx := view_x hr
  have hy := view_y hr'
  rw [view_advance]
  cases op with
  | add =>
    obtain rfl := Except.ok.inj happly
    rw [view_settle_store hr, UInt8.toNat_add, ← hx, ← hy]
    rfl
  | mul =>
    obtain rfl := Except.ok.inj happly
    rw [view_settle_store hr, UInt8.toNat_mul, ← hx, ← hy]
    rfl
  | mod =>
    rw [AluOp.apply] at happly
    split at happly
    · contradiction
    · obtain rfl := Except.ok.inj happly
      rw [view_settle_store hr, UInt8.toNat_mod, ← hx, ← hy]
      rfl
  | cmp =>
    obtain rfl := Except.ok.inj happly
    rw [view_settle_compared, ← hx, ← hy]
    rfl
  | and =>
    obtain rfl := Except.ok.inj happly
    rw [view_settle_store hr, UInt8.toNat_and, ← hx, ← hy]
    rfl
  | or =>
    obtain rfl := Except.ok.inj happly
    rw [view_settle_store hr, UInt8.toNat_or, ← hx, ← hy]
    rfl
  | xor =>
    obtain rfl := Except.ok.inj happly
    rw [view_settle_store hr, UInt8.toNat_xor, ← hx, ← hy]
    rfl
  | shl =>
    obtain rfl := Except.ok.inj happly
    rw [view_settle_store hr, shiftLeft_toNat, ← hx, ← hy]
    rfl
  | shr =>
    obtain rfl := Except.ok.inj happly
    rw [view_settle_store hr, shiftRight_toNat, ← hx, ← hy]
    rfl
  | not =>
    obtain rfl := Except.ok.inj happly
    rw [view_settle_store hr, UInt8.toNat_not, ← hy]
    rfl

/-- Whatever an instruction does to the state, the catalogue says. -/
theorem view_of_performs {s : State} {op : Opcode} {action : Action}
    (h : Performs s (s.fetch 1) (s.fetch 2) op (.ok action)) :
    (action.state s).view = s.view.after op := by
  cases h with
  | nop => exact s.view_advance .nop
  | hlt => rfl
  | ldi hr =>
    have hb : (s.fetch 2).toNat = s.view.b := s.view_fetch 2
    rw [Action.state, view_advance, view_setRegister, ← view_a hr, hb]
    rfl
  | prn hr => exact s.view_advance .prn
  | push hr =>
    rw [Action.state, view_advance, view_push, ← view_x hr]
    rfl
  | pop hr hsp =>
    rw [Action.state, view_advance, view_pop, ← view_a hr]
    rfl
  | alu hr hr' happly => exact view_settle hr hr' happly
  | @taken c r hr hc =>
    have hpc : { s with pc := s.registers.get r }.view = { s.view with pc := s.view.x } := by
      rw [view_x hr]
      rfl
    cases c with
    | always => exact hpc
    | equal => exact hpc.trans (if_pos hc).symm
    | notEqual =>
      have hclear : ¬ s.view.equal = true := by simpa [Condition.holds, view] using hc
      exact hpc.trans (if_neg hclear).symm
  | @passed c r hr hc =>
    have hpc : (s.advance (.jump c)).view = s.view.advance 2 := s.view_advance (.jump c)
    cases c with
    | always => cases hc
    | equal =>
      have hclear : ¬ s.view.equal = true := by simpa [Condition.holds, view] using hc
      exact hpc.trans (if_neg hclear).symm
    | notEqual =>
      have hset : s.view.equal = true := by simpa [Condition.holds, view] using hc
      exact hpc.trans (if_pos hset).symm

theorem printed_prn {s : State} {r : Register} (h : Register.ofByte (s.fetch 1) = .ok r) :
    s.view.printed .prn = [s.registers.get r] := by
  rw [View.printed, view_x h, UInt8.ofNat_toNat]

/-- The catalogue and the operand kinds want the same registers. -/
theorem refused_of_unfaulted {s : State} {op : Opcode} (h : s.view.Unfaulted op) :
    op.refused (s.fetch 1) (s.fetch 2) = none := by
  have ha (hlt : s.view.a < 8) : OperandKind.register.accepts (s.fetch 1) = true := by
    have hfetch : (s.fetch 1).toNat = s.view.a := s.view_fetch 1
    simpa [OperandKind.accepts, hfetch] using hlt
  have hb (hlt : s.view.b < 8) : OperandKind.register.accepts (s.fetch 2) = true := by
    have hfetch : (s.fetch 2).toNat = s.view.b := s.view_fetch 2
    simpa [OperandKind.accepts, hfetch] using hlt
  cases op with
  | nop | hlt => rfl
  | ldi | prn | push | jump => simp [Opcode.refused, Opcode.operands, ha h]
  | pop => simp [Opcode.refused, Opcode.operands, ha h.1]
  | alu op =>
    have hregisters : s.view.a < 8 ∧ s.view.b < 8 := by
      cases op with
      | mod => exact ⟨h.1, h.2.1⟩
      | _ => exact h
    simp [Opcode.refused, Opcode.operands, ha hregisters.1, hb hregisters.2]

/-- An instruction without a fault condition does something. -/
theorem not_unfaulted_of_performs {s : State} {op : Opcode} {cause : Cause}
    (h : Performs s (s.fetch 1) (s.fetch 2) op (.error cause)) : ¬ s.view.Unfaulted op := by
  cases h with
  | underflow hsp =>
    rintro ⟨-, hne⟩
    exact hne (congrArg UInt8.toNat hsp)
  | division hr hr' hzero =>
    rintro ⟨-, -, hne⟩
    rw [view_y hr', hzero] at hne
    exact hne rfl
  | refused hindex =>
    intro hclear
    rw [refused_of_unfaulted hclear] at hindex
    contradiction

end State

namespace Machine

variable {σ : Type} [Channel σ]

/-- A step of a running machine whose next instruction meets no fault condition, neither in the
state nor in the output, does what the catalogue says for that instruction. -/
theorem step_eq_catalogue {m : Machine σ} {op : Opcode} {channel : σ} (hrun : m.status = .running)
    (hop : m.state.view.cell m.state.view.pc = op.byte.toNat)
    (hclear : m.state.view.Unfaulted op)
    (hemit : Channel.emitAll m.channel (m.state.view.printed op) = (channel, .ok ())) :
    ∃ next, m.step = (⟨next, op.statusAfter, channel⟩, .ok op.statusAfter) ∧
      next.view = m.state.view.after op := by
  have hfetch : Opcode.ofByte? (m.state.fetch 0) = some op := by
    refine Opcode.ofByte?_eq_some_iff.mpr (UInt8.toNat_inj.mp ?_)
    have hpc : (m.state.view.pc + 0) % 256 = m.state.view.pc := Nat.mod_eq_of_lt m.state.pc.toNat_lt
    rw [← hop, State.view_fetch]
    exact congrArg m.state.view.cell hpc.symm
  have hperforms := State.performs_action hfetch
  have hsteps := steps hrun
  generalize m.step = result at hsteps ⊢
  cases hsteps with
  | refused haction =>
    rw [haction] at hperforms
    exact absurd hclear (State.not_unfaulted_of_performs hperforms)
  | halted haction =>
    rw [haction] at hperforms
    cases hperforms
    obtain rfl : m.channel = channel := congrArg Prod.fst hemit
    exact ⟨m.state, rfl, rfl⟩
  | proceeded haction =>
    rw [haction] at hperforms
    have hquiet : m.state.view.printed op = [] ∧ op.statusAfter = .running := by
      cases hperforms <;> exact ⟨rfl, rfl⟩
    rw [hquiet.1] at hemit
    obtain rfl : m.channel = channel := congrArg Prod.fst hemit
    rw [hquiet.2]
    exact ⟨_, rfl, State.view_of_performs hperforms⟩
  | taken haction hemit' =>
    rw [haction] at hperforms
    have hview := State.view_of_performs hperforms
    cases hperforms with
    | prn hr =>
      rw [State.printed_prn hr, Channel.emitAll, hemit'] at hemit
      obtain rfl := congrArg Prod.fst hemit
      exact ⟨_, rfl, hview⟩
  | rejected haction hemit' =>
    rw [haction] at hperforms
    cases hperforms with
    | prn hr =>
      rw [State.printed_prn hr, Channel.emitAll, hemit'] at hemit
      cases hemit

/-- An addition of a register to itself; its three bytes straddle the end of memory. -/
def doubling : Machine (Array UInt8) where
  state := {
    memory := ((({} : Memory).store 254 0xA0).store 255 3).store 0 3
    registers := ({} : Registers).set ⟨3, by decide⟩ 200
    pc := 254 }
  channel := #[]

theorem step_doubling :
    doubling.state.view.Unfaulted (.alu .add) ∧
      ∃ next, doubling.step = (⟨next, .running, #[]⟩, .ok .running) ∧
        next.view = doubling.state.view.after (.alu .add) ∧
        next.view.register 3 = 144 ∧ next.view.pc = 1 := by
  have hbyte : doubling.state.view.cell doubling.state.view.pc = (Opcode.alu .add).byte.toNat := by
    decide
  have hclear : doubling.state.view.Unfaulted (.alu .add) := by
    constructor <;> decide
  obtain ⟨next, hstep, hview⟩ := step_eq_catalogue (m := doubling) rfl hbyte hclear rfl
  refine ⟨hclear, next, hstep, hview, ?_, ?_⟩
  · rw [hview]
    decide
  · rw [hview]
    decide

end Machine
end LS8
