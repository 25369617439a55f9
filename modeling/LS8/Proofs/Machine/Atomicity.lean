import LS8.Proofs.Machine.Run

/-!
# Faults leave nothing half done

A step that faults changes nothing but the run status, and the output where it is the output that
has failed. A run that faults therefore ends in the state in which the faulting instruction was met,
and its output is what the instructions before that one printed.

A channel can report any fault when it refuses a value, and the machine passes it on. Only of a
channel that fails as it should is a fault other than one of the output the fault of an instruction,
which has left the channel alone (`AtomicFault.silent`).
-/
namespace LS8.Machine

variable {σ : Type} [Channel σ]

/-- What a fault leaves of the machine `before` it: the whole state, and the channel unless the
channel itself has refused the value that was to be printed. -/
structure AtomicFault (before : Machine σ) (fault : Fault) (after : Machine σ) : Prop where
  state_eq : after.state = before.state
  status_eq : after.status = .halted
  /-- The instruction has failed and the output was not asked, or the output has reported this very
  fault. -/
  origin : (after.channel = before.channel ∧ ∃ cause, fault = .instruction cause before.state.pc) ∨
    ∃ value, before.state.printed = [value] ∧
      Channel.emit before.channel value = (after.channel, .error fault)
  silent : Channel.FailsAsOutput σ → (∀ reason, fault ≠ .output reason) →
    after.channel = before.channel ∧ ∃ cause, fault = .instruction cause before.state.pc

theorem atomicFault_of_step {m after : Machine σ} {fault : Fault}
    (h : m.step = (after, .error fault)) : AtomicFault m fault after := by
  have hrun : m.status = .running := running_of_step (by simp [h])
  have hsteps := steps hrun
  rw [h] at hsteps
  cases hsteps with
  | refused haction =>
    exact ⟨rfl, rfl, .inl ⟨rfl, _, rfl⟩, fun _ _ => ⟨rfl, _, rfl⟩⟩
  | rejected haction hemit =>
    refine ⟨rfl, rfl, .inr ⟨_, State.printed_of_print haction, hemit⟩, fun hchannel hno => ?_⟩
    obtain ⟨reason, hreason⟩ := hchannel _ _ fault (congrArg Prod.snd hemit)
    exact absurd hreason (hno reason)

/-- A step that faults is atomic, and a run that faults stands where its last step was refused: the
instructions on `path` were carried out before, the fault is the one of the next instruction, and
the channel took the values of the PRNs on `path`, one after the other, before that instruction. -/
theorem fault_atomic (m : Machine σ) :
    (∀ after fault, m.step = (after, .error fault) → AtomicFault m fault after) ∧
      ∀ limit after fault, m.run limit = (after, .faulted fault) →
        ∃ path last, m.Executes path last ∧ last.step = (after, .error fault) ∧
          AtomicFault last fault after ∧
          Channel.emitAll m.channel (path.flatMap State.printed) = (last.channel, .ok ()) := by
  refine ⟨fun after fault h => atomicFault_of_step h, fun limit after fault h => ?_⟩
  obtain ⟨path, last, hpath, hlast⟩ := executes_of_run_faulted h
  exact ⟨path, last, hpath, hlast, atomicFault_of_step hlast, hpath.emitAll⟩

/-- Prints 200, and divides by zero if it can; the writer has room for so many bytes. -/
def dividingPrinter (room : Nat) : Machine LineWriter where
  state := {
    memory := ((((({} : Memory).store 0 0x47).store 1 3).store 2 0xA4).store 3 3)
    registers := ({} : Registers).set 3 200 }
  channel := { room := some room, reason := "full" }

/-- With room for two bytes the PRN fails and has written them. With room for the line the division
fails, and it has left the writer as it was. -/
theorem fault_atomic_dividingPrinter :
    (∃ after, (dividingPrinter 2).step = (after, .error (.output "full")) ∧
      after.channel.text = "20" ∧ AtomicFault (dividingPrinter 2) (.output "full") after) ∧
    ∃ after, (dividingPrinter 4).run 2 = (after, .faulted (.instruction .divisionByZero 2)) ∧
      ∃ path last, (dividingPrinter 4).Executes path last ∧ after.state = last.state ∧
        after.channel = last.channel := by
  have hprint : (dividingPrinter 2).step.2 = .error (.output "full") := rfl
  have hdivide : ((dividingPrinter 4).run 2).2 = .faulted (.instruction .divisionByZero 2) := by
    decide +kernel
  refine ⟨⟨_, Prod.ext rfl hprint, by decide +kernel, ?_⟩, _, Prod.ext rfl hdivide, ?_⟩
  · exact (fault_atomic (dividingPrinter 2)).1 _ _ (Prod.ext rfl hprint)
  · obtain ⟨path, last, hpath, -, hatomic, -⟩ :=
      (fault_atomic (dividingPrinter 4)).2 2 _ _ (Prod.ext rfl hdivide)
    exact ⟨path, last, hpath, hatomic.state_eq, (hatomic.silent failsAsOutput_lineWriter nofun).1⟩

end LS8.Machine
