import LS8.Proofs.Machine.History
import LS8.Proofs.Machine.Stack

/-!
# Sticky flags

Only a comparison writes the flags. So the flags of a machine are those of the last CMP that it
carried out, for the values that were in the two registers then, and clear if there was none,
whatever has been done since and also after the machine has stopped or has been loaded again
(`flags_sticky`).
-/
namespace LS8

open State

theorem AluOp.apply_eq_ok {op : AluOp} {x y : UInt8} {outcome : Outcome}
    (h : op.apply x y = .ok outcome) :
    (op = .cmp ∧ outcome = .compared (.compare x y)) ∨
      (op ≠ .cmp ∧ ∃ value, outcome = .store value) := by
  cases op with
  | cmp => exact Or.inl ⟨rfl, (Except.ok.inj h).symm⟩
  | mod =>
    rw [apply] at h
    split at h
    · contradiction
    · exact Or.inr ⟨by decide, _, (Except.ok.inj h).symm⟩
  | add | mul | and | or | xor | shl | shr | not =>
    exact Or.inr ⟨by decide, _, (Except.ok.inj h).symm⟩

/-- One value is equal to another one, or greater, or less. -/
theorem Flags.count_compare (x y : UInt8) :
    [(compare x y).equal, (compare x y).greater, (compare x y).less].count true = 1 := by
  rcases Std.lt_trichotomy x y with h | rfl | h
  · simp [compare, h, UInt8.lt_asymm h, UInt8.ne_of_lt h]
  · simp [compare]
  · simp [compare, h, UInt8.lt_asymm h, (UInt8.ne_of_lt h).symm]

/-- The state in which the last comparison was carried out, if there was one. -/
def lastComparison (past : List State) : Option State :=
  (past.filter (·.opcode? = some (.alu .cmp))).getLast?

theorem lastComparison_concat (past : List State) (s : State) :
    lastComparison (past ++ [s]) =
      if s.opcode? = some (.alu .cmp) then some s else lastComparison past := by
  unfold lastComparison
  split <;> simp_all

/-- The flags are clear, or those for the values that two registers had when they were compared
last. -/
def FlagsSince (past : List State) (flags : Flags) : Prop :=
  match lastComparison past with
  | none => flags = {}
  | some s => ∃ x y, s.registers.read (s.fetch 1) = .ok x ∧ s.registers.read (s.fetch 2) = .ok y ∧
      flags = .compare x y

/-- Where a jump goes on, to the address in the register or behind its operand. -/
def State.afterJump (s : State) (r : Register) (taken : Bool) : State :=
  if taken then { s with pc := s.registers.get r } else { s with pc := s.pc + 2 }

theorem State.perform_jump (s : State) (condition : Condition) {a b : UInt8} {r : Register}
    (hr : Register.ofByte a = .ok r) :
    s.perform (.jump condition) a b =
      .ok (.proceed (s.afterJump r (condition.holds s.flags))) := by
  have hperforms := s.performs a b (.jump condition)
  generalize s.perform (.jump condition) a b = action at hperforms
  cases hperforms with
  | taken hr' hc =>
    obtain rfl := Except.ok.inj (hr.symm.trans hr')
    rw [hc]
    rfl
  | passed hr' hc =>
    rw [hc]
    rfl
  | refused hindex =>
    simp [Opcode.refused, Opcode.operands, Register.accepts_of_ofByte hr] at hindex

namespace Machine

variable {σ : Type} [Channel σ]

/-- What the machine would do if this instruction stood at its program counter. -/
def attempt (m : Machine σ) (opcode : Opcode) (a b : UInt8) : Except Fault Unit × Machine σ :=
  (Exec.dispatch (Effects.silent σ).emit m.state.pc opcode.byte a b).run.run m

theorem attempt_jump (m : Machine σ) (condition : Condition) {a b : UInt8} {r : Register}
    (hr : Register.ofByte a = .ok r) :
    m.attempt (.jump condition) a b =
      (.ok (), { m with state := m.state.afterJump r (condition.holds m.state.flags) }) := by
  rw [attempt, Exec.dispatch_run_of_opcode (Opcode.ofByte?_byte _), m.state.perform_jump _ hr]
  rfl

/-- A comparison leaves the flags of its two values, and every other instruction leaves the flags as
they are. -/
theorem flags_of_step {m next : Machine σ} (h : m.step = (next, .ok .running)) :
    if m.state.opcode? = some (.alu .cmp) then
      ∃ x y, m.state.registers.read (m.state.fetch 1) = .ok x ∧
        m.state.registers.read (m.state.fetch 2) = .ok y ∧ next.state.flags = .compare x y
    else next.state.flags = m.state.flags := by
  obtain ⟨op, action, hop, hperforms, hnext⟩ := performs_of_step h
  rw [opcode?, hop]
  rcases hnext with rfl | ⟨value, rfl⟩
  · generalize next.state = after at hperforms
    cases hperforms with
    | nop | ldi | push | pop | passed =>
      rw [if_neg (by simp)]
      rfl
    | taken => rw [if_neg (by simp)]
    | @alu op r r' outcome hr hr' happly =>
      rcases AluOp.apply_eq_ok happly with ⟨rfl, rfl⟩ | ⟨hne, value, rfl⟩
      · rw [if_pos rfl]
        exact ⟨_, _, Registers.read_eq_ok hr, Registers.read_eq_ok hr', rfl⟩
      · rw [if_neg (by simpa using hne)]
        rfl
  · generalize next.state = after at hperforms
    cases hperforms with
    | prn hr =>
      rw [if_neg (by simp)]
      rfl

theorem flagsSince_call {past done : List State} {m next : Machine σ} {c : Call}
    (h : FlagsSince past m.state.flags) (heffect : CallEffect m c done next) :
    FlagsSince (past ++ done) next.state.flags := by
  cases heffect with
  | loaded | tooLarge | idle => simpa using h
  | faulted hstep hstate => simpa [hstate] using h
  | stopped hrun haction =>
    have hop : m.state.opcode? ≠ some (.alu .cmp) := by
      intro hop
      have hperforms := performs_action hop
      rw [haction] at hperforms
      cases hperforms
    rw [FlagsSince, lastComparison_concat, if_neg hop]
    exact h
  | proceeded hstep =>
    have hflags := flags_of_step hstep
    rw [FlagsSince, lastComparison_concat]
    by_cases hop : m.state.opcode? = some (.alu .cmp)
    · rw [if_pos hop] at hflags ⊢
      exact hflags
    · rw [if_neg hop] at hflags ⊢
      rw [hflags]
      exact h

theorem flagsSince_history (channel : σ) (list : List Call) :
    FlagsSince ((fresh channel).history list) ((fresh channel).calls list).state.flags := by
  refine history_invariant (P := fun past m => FlagsSince past m.state.flags) rfl ?_
  intro past m c done next _ heffect hpast
  exact flagsSince_call hpast heffect

/-- Whatever calls drove the machine since it was switched on: the flags are clear if it has not
carried out a CMP, and otherwise those of the values that were in the two registers of the last CMP,
exactly one of which is set. With the same register, JEQ would be taken just where JNE would not. -/
theorem flags_sticky (channel : σ) (list : List Call) :
    let m := (fresh channel).calls list
    let s := m.state
    (match lastComparison ((fresh channel).history list) with
      | none => s.flags = {}
      | some t => ∃ x y, t.registers.read (t.fetch 1) = .ok x ∧
          t.registers.read (t.fetch 2) = .ok y ∧ s.flags = .compare x y ∧
          [s.flags.equal, s.flags.greater, s.flags.less].count true = 1) ∧
      ∀ a b r, Register.ofByte a = .ok r →
        m.attempt (.jump .equal) a b = (.ok (), { m with state := s.afterJump r s.flags.equal }) ∧
          m.attempt (.jump .notEqual) a b =
            (.ok (), { m with state := s.afterJump r !s.flags.equal }) := by
  intro m s
  refine ⟨?_, fun a b r hr => ⟨m.attempt_jump .equal hr, m.attempt_jump .notEqual hr⟩⟩
  have hflags : FlagsSince ((fresh channel).history list) s.flags :=
    flagsSince_history channel list
  rw [FlagsSince] at hflags
  split at hflags
  · exact hflags
  · next t hlast =>
    obtain ⟨x, y, hx, hy, hcompare⟩ := hflags
    refine ⟨x, y, hx, hy, hcompare, ?_⟩
    rw [hcompare]
    exact Flags.count_compare x y

/-- Compares 7 with 0, overwrites the 7 and fails at a comparison with a register that does not
exist; after that, something else is loaded. -/
def overwritten : List Call :=
  [.load [0x82, 0, 7, 0xA7, 0, 1, 0x82, 0, 0, 0xA7, 0, 8], .step, .step, .step, .step, .load [0x01]]

/-- The flags still say that 7 is greater, and JEQ would not be taken. -/
theorem flags_sticky_overwritten :
    let m := (fresh (#[] : Array UInt8)).calls overwritten
    m.state.registers.read 0 = .ok 0 ∧ m.state.flags = .compare 7 0 ∧
      m.attempt (.jump .equal) 1 0 = (.ok (), { m with state := m.state.afterJump 1 false }) := by
  intro m
  have hread : m.state.registers.get 0 = 0 := by decide +kernel
  have hflags : m.state.flags = .compare 7 0 := by decide +kernel
  have hjump := ((flags_sticky (#[] : Array UInt8) overwritten).2 1 0 1 rfl).1
  refine ⟨(Registers.read_eq_ok rfl).trans (congrArg _ hread), hflags, ?_⟩
  rwa [show ((fresh (#[] : Array UInt8)).calls overwritten).state.flags = .compare 7 0 from hflags]
    at hjump

end Machine
end LS8
