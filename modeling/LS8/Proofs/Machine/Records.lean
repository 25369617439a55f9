import LS8.Proofs.Machine.Atomicity

/-!
# Records of steps and runs

A log does not change what a machine does, whatever becomes of its records: they are logged one
after the other, and the step or the run comes to what it comes to without a log
(`stepWith_logging`, `runWith_logging`). A step of a running machine logs the state before it, and
then, if the machine stops there, how it has stopped; a run logs what its steps log.
-/
namespace LS8.Machine

/-- What is logged of the answer of a step. -/
def endRecords (address : UInt8) : Except Fault Status → List Record
  | .ok .running => []
  | .ok .halted => [haltRecord address]
  | .error fault => [faultRecord address fault]

variable {n : Type → Type} [Monad n] [LawfulMonad n] {log : Record → n Unit}
variable {σ : Type} [Channel σ] {m : Machine σ}

theorem conclude_logging_ok (address : UInt8) (m : Machine σ) :
    conclude (.logging σ log) address (.ok ()) m =
      (forM (endRecords address (.ok m.status)) log >>= fun _ => pure (m, .ok m.status)) := by
  rcases m with ⟨state, _ | _, channel⟩ <;> simp [conclude, endRecords, Effects.logging]

theorem conclude_logging_error (address : UInt8) (fault : Fault) (m : Machine σ) :
    conclude (.logging σ log) address (.error fault) m =
      (forM (endRecords address (.error fault)) log >>= fun _ =>
        pure ({ m with status := .halted }, .error fault)) := by
  simp [conclude, endRecords, Effects.logging]

theorem stepWith_logging_of_running (h : m.status = .running) :
    m.stepWith (.logging σ log) =
      (forM (m.state.traceRecord :: endRecords m.state.pc m.step.2) log >>= fun _ =>
        pure m.step) := by
  rw [stepWith_eq _ h, List.forM_cons, bind_assoc]
  refine bind_congr fun _ => ?_
  cases haction : m.state.action with
  | error cause =>
    rw [step_of_error h haction, Exec.undergo, pure_bind]
    exact conclude_logging_error m.state.pc _ m
  | ok action =>
    cases action with
    | halt =>
      rw [step_of_halt h haction, Exec.undergo, pure_bind]
      exact conclude_logging_ok m.state.pc { m with status := .halted }
    | proceed next =>
      rw [step_of_proceed h haction, Exec.undergo, pure_bind, ← h]
      exact conclude_logging_ok m.state.pc { m with state := next }
    | print value next =>
      rcases hemit : Channel.emit m.channel value with ⟨channel, fault | _⟩
      · rw [step_of_rejected h haction hemit]
        simp only [Exec.undergo, Effects.logging, hemit, pure_bind]
        exact conclude_logging_error m.state.pc fault { m with channel := channel }
      · rw [step_of_print h haction hemit, ← h]
        simp only [Exec.undergo, Effects.logging, hemit, pure_bind]
        exact conclude_logging_ok m.state.pc { m with state := next, channel := channel }

/-- A log that keeps all records gets them in order. -/
theorem run_forM_push (added : List Record) (records : Array Record) :
    (forM added fun r => (modify (·.push r) : StateM (Array Record) Unit)).run records =
      pure ((), records ++ added) := by
  induction added generalizing records with
  | nil => simp
  | cons r added ih =>
    rw [List.forM_cons, StateT.run_bind, Array.appendList_cons]
    exact ih (records.push r)

theorem stepRecords_of_running (h : m.status = .running) :
    m.stepRecords = m.state.traceRecord :: endRecords m.state.pc m.step.2 := by
  rw [stepRecords, Effects.recording, stepWith_logging_of_running h, StateT.run_bind, run_forM_push]
  exact Array.toList_appendList.trans (List.nil_append _)

theorem stepRecords_of_halted (h : m.status = .halted) : m.stepRecords = [] := by
  rw [stepRecords, stepWith_halted h]
  rfl

/-- With a log of any kind and without one, a step does the same. -/
theorem stepWith_logging (m : Machine σ) :
    m.stepWith (.logging σ log) = (forM m.stepRecords log >>= fun _ => pure m.step) := by
  cases h : m.status with
  | halted =>
    rw [stepRecords_of_halted h, step_halted h, stepWith_halted h, List.forM_nil, pure_bind]
  | running => rw [stepRecords_of_running h, stepWith_logging_of_running h]

theorem runRecords_of_halted (h : m.status = .halted) (limit : Nat) (records : Array Record) :
    m.runRecords limit records = records := by
  rw [runRecords, runWith_halted h]
  rfl

theorem runRecords_zero (h : m.status = .running) (records : Array Record) :
    m.runRecords 0 records = records := by
  rw [runRecords, runWith_zero h]
  rfl

theorem runRecords_succ (h : m.status = .running) (limit : Nat) (records : Array Record) :
    m.runRecords (limit + 1) records = m.step.1.runRecords limit (records ++ m.stepRecords) := by
  rw [runRecords, Effects.recording, runWith_succ h, stepWith_logging, bind_assoc, StateT.run_bind,
    run_forM_push, pure_bind, pure_bind]
  rcases hstep : m.step with ⟨next, fault | status⟩
  · exact (runRecords_of_halted (atomicFault_of_step hstep).status_eq limit _).symm
  · rfl

/-- Records that are there already stay in front. -/
theorem toList_runRecords (limit : Nat) (m : Machine σ) (records : Array Record) :
    (m.runRecords limit records).toList = records.toList ++ (m.runRecords limit #[]).toList := by
  induction limit generalizing m records with
  | zero =>
    cases h : m.status with
    | halted => simp [runRecords_of_halted h]
    | running => simp [runRecords_zero h]
  | succ limit ih =>
    cases h : m.status with
    | halted => simp [runRecords_of_halted h]
    | running =>
      rw [runRecords_succ h, runRecords_succ h, ih, ih m.step.1 (#[] ++ m.stepRecords)]
      simp

/-- With a log of any kind and without one, a run does the same. -/
theorem runWith_logging (limit : Nat) (m : Machine σ) :
    m.runWith (.logging σ log) limit =
      (forM (m.runRecords limit #[]).toList log >>= fun _ => pure (m.run limit)) := by
  have hrecords {limit : Nat} {m : Machine σ} (h : m.status = .running) :
      (m.runRecords (limit + 1) #[]).toList =
        m.stepRecords ++ (m.step.1.runRecords limit #[]).toList := by
    rw [runRecords_succ h, toList_runRecords]
    simp
  induction limit, m using run_induct with
  | halted limit m h =>
    rw [runWith_halted h, run_halted h, runRecords_of_halted h, List.forM_nil, pure_bind]
  | exhausted m h =>
    rw [runWith_zero h, run_zero h, runRecords_zero h, List.forM_nil, pure_bind]
  | stepped limit m next status h hstep ih =>
    rw [runWith_succ h, stepWith_logging, bind_assoc, hrecords h, run_succ_of_step h hstep,
      List.forM_append, bind_assoc, hstep]
    exact bind_congr fun _ => (pure_bind _ _).trans ih
  | faulted limit m next fault h hstep =>
    have hhalted := (atomicFault_of_step hstep).status_eq
    rw [runWith_succ h, stepWith_logging, bind_assoc, hrecords h, run_succ_of_fault h hstep, hstep,
      runRecords_of_halted hhalted, List.append_nil]
    exact bind_congr fun _ => pure_bind _ _

end LS8.Machine
