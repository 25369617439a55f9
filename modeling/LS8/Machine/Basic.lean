import LS8.Machine.Execute

/-!
# The machine

Loading and running images. A fault stops the machine, and a machine that has stopped takes no more
steps, so that a fault is reported once.

Running takes a limit on the number of instructions, which is the only difference from a machine
that may run for ever: with a limit that suffices, a larger one gives the same result (`run_add`).
-/
namespace LS8.Machine

variable {σ : Type}

/-- Neither the program counter nor anything else but the first cells of memory is touched. -/
def load (m : Machine σ) (image : Image) : Except Fault (Machine σ) := do
  let memory ← m.state.memory.load image
  return { m with state := { m.state with memory := memory } }

def loadRecord (image : Image) : Record :=
  ⟨.debug, "loaded " ++ Numeral.decimal image.length ++ " bytes"⟩

theorem load_eq_ok {m : Machine σ} {image : Image} {memory : Memory}
    (h : m.state.memory.load image = .ok memory) :
    m.load image = .ok { m with state := { m.state with memory := memory } } := by
  rw [load, h]
  rfl

theorem exists_load_eq_ok {image : Image} (h : image.length ≤ memorySize) (m : Machine σ) :
    ∃ memory, m.state.memory.load image = .ok memory ∧
      m.load image = .ok { m with state := { m.state with memory := memory } } := by
  obtain ⟨memory, hmemory⟩ : ∃ memory, m.state.memory.load image = .ok memory := ⟨_, if_pos h⟩
  exact ⟨memory, hmemory, load_eq_ok hmemory⟩

theorem load_eq_error {image : Image} (h : ¬ image.length ≤ memorySize) (m : Machine σ) :
    m.load image = .error (.programTooLarge image.length) := by
  have hload : m.state.memory.load image = .error (.programTooLarge image.length) := if_neg h
  rw [load, hload]
  rfl

section Effects

variable {n : Type → Type} [Monad n] {effects : Effects n σ} {m : Machine σ}

theorem stepWith_halted (h : m.status = .halted) : m.stepWith effects = pure (m, .ok .halted) := by
  unfold stepWith
  rw [h]

theorem runWith_halted (h : m.status = .halted) (limit : Nat) :
    m.runWith effects limit = pure (m, .halted) := by
  unfold runWith
  rw [h]

theorem runWith_zero (h : m.status = .running) :
    m.runWith effects 0 = pure (m, .unfinished) := by
  unfold runWith
  rw [h]

theorem runWith_succ (h : m.status = .running) (limit : Nat) :
    m.runWith effects (limit + 1) = (m.stepWith effects >>= fun (next, result) =>
      match result with
      | .ok _ => next.runWith effects limit
      | .error fault => pure (next, .faulted fault)) := by
  obtain ⟨state, status, channel⟩ := m
  obtain rfl : status = .running := h
  rfl

end Effects

variable [Channel σ]

theorem step_halted {m : Machine σ} (h : m.status = .halted) : m.step = (m, .ok .halted) := by
  rw [step, stepWith_halted h]
  rfl

theorem run_halted {m : Machine σ} (h : m.status = .halted) (limit : Nat) :
    m.run limit = (m, .halted) := by
  rw [run, runWith_halted h]
  rfl

theorem run_zero {m : Machine σ} (h : m.status = .running) : m.run 0 = (m, .unfinished) := by
  rw [run, runWith_zero h]
  rfl

theorem run_succ_of_step {m next : Machine σ} {status : Status} (h : m.status = .running)
    (hstep : m.step = (next, .ok status)) (limit : Nat) : m.run (limit + 1) = next.run limit := by
  rw [step] at hstep
  rw [run, runWith_succ h, Id.run_bind, hstep]
  rfl

theorem run_succ_of_fault {m next : Machine σ} {fault : Fault} (h : m.status = .running)
    (hstep : m.step = (next, .error fault)) (limit : Nat) :
    m.run (limit + 1) = (next, .faulted fault) := by
  rw [step] at hstep
  rw [run, runWith_succ h, Id.run_bind, hstep]
  rfl

/-- The recursion of a run: it has stopped, it is out of steps, or it takes one, which goes on or
fails. -/
@[elab_as_elim]
theorem run_induct {P : Nat → Machine σ → Prop}
    (halted : ∀ limit m, m.status = .halted → P limit m)
    (exhausted : ∀ m, m.status = .running → P 0 m)
    (stepped : ∀ limit m next status, m.status = .running → m.step = (next, .ok status) →
      P limit next → P (limit + 1) m)
    (faulted : ∀ limit m next fault, m.status = .running → m.step = (next, .error fault) →
      P (limit + 1) m)
    (limit : Nat) (m : Machine σ) : P limit m := by
  induction limit generalizing m with
  | zero =>
    cases hs : m.status with
    | halted => exact halted 0 m hs
    | running => exact exhausted m hs
  | succ limit ih =>
    cases hs : m.status with
    | halted => exact halted (limit + 1) m hs
    | running =>
      rcases hstep : m.step with ⟨next, fault | status⟩
      · exact faulted limit m next fault hs hstep
      · exact stepped limit m next status hs hstep (ih next)

/-- An answer other than the limit does not depend on the limit. -/
theorem run_add {m : Machine σ} {limit : Nat} (extra : Nat)
    (h : (m.run limit).2 ≠ .unfinished) : m.run (limit + extra) = m.run limit := by
  induction limit, m using run_induct with
  | halted limit m hs => rw [run_halted hs, run_halted hs]
  | exhausted m hs => exact absurd (congrArg Prod.snd (run_zero hs)) h
  | stepped limit m next status hs hstep ih =>
    rw [run_succ_of_step hs hstep] at h ⊢
    rw [Nat.add_right_comm, run_succ_of_step hs hstep, ih h]
  | faulted limit m next fault hs hstep =>
    rw [Nat.add_right_comm, run_succ_of_fault hs hstep, run_succ_of_fault hs hstep]

end Machine

/-- Runs an image on a fresh machine that keeps what is printed. -/
def execute (limit : Nat) (image : Image) : Except Fault (Machine (Array UInt8) × Ending) := do
  let m ← Machine.load { channel := (#[] : Array UInt8) } image
  return m.run limit

end LS8
