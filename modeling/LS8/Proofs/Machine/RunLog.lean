import LS8.Proofs.Machine.Driving
import LS8.Proofs.Machine.Records
import LS8.Proofs.Text.Numeral
import Mathlib.Data.List.Forall2

/-!
# The log of a run

A run that comes to an end has logged the state before each of its instructions, the one that stops
it included, and then once how and where it has stopped. The machine stands there, and whatever is
asked of it from then on, steps and runs log nothing more (`log_of_run`).

What the records say is described apart from how they are written: a record of a state shows the
program counter, the three bytes there and the registers as pairs of digits (`TraceOf`), and one of
a stop shows the address (`StopOf`). In either the digits leave only one address.
-/
namespace LS8

/-- What is logged at the end of a run that stops at this address. -/
def Ending.records (address : UInt8) : Ending → List Record
  | halted => [⟨.debug, "halted at " ++ Numeral.byteText address⟩]
  | faulted fault =>
    [⟨.debug, "fault at " ++ Numeral.byteText address ++ ": " ++ fault.message⟩]
  | unfinished => []

/-! ## Texts of records -/

/-- The record shows the state: its program counter, the three bytes there, also across the end of
memory, and all registers in order. -/
structure TraceOf (s : State) (r : Record) : Prop where
  level : r.level = .trace
  message : ∃ pc bytes registers,
    r.message = "TRACE: " ++ pc ++ " | " ++ " ".intercalate bytes ++ " | " ++
      " ".intercalate registers ∧
    Numeral.IsByte Numeral.upperDigits s.pc pc ∧
    List.Forall₂ (Numeral.IsByte Numeral.upperDigits)
      [s.memory.fetch s.pc, s.memory.fetch (s.pc + 1), s.memory.fetch (s.pc + 2)] bytes ∧
    List.Forall₂ (Numeral.IsByte Numeral.upperDigits)
      ((List.finRange registerCount).map s.registers.get) registers

/-- The record shows this program counter. -/
def Record.Shows (r : Record) (pc : UInt8) : Prop :=
  ∃ digits rest, r.message = "TRACE: " ++ digits ++ rest ∧
    Numeral.IsByte Numeral.upperDigits pc digits

/-- The record says that a run has stopped at this address, and how. -/
inductive StopOf (address : UInt8) : Ending → Record → Prop
  | halted {digits} (h : Numeral.IsByte Numeral.lowerDigits address digits) :
      StopOf address .halted ⟨.debug, "halted at 0x" ++ digits⟩
  | faulted {digits fault} (h : Numeral.IsByte Numeral.lowerDigits address digits) :
      StopOf address (.faulted fault) ⟨.debug, "fault at 0x" ++ digits ++ ": " ++ fault.message⟩

theorem Registers.toList_cells (rs : Registers) :
    rs.cells.toList = (List.finRange registerCount).map rs.get := by
  refine List.ext_getElem (by simp) fun i _ _ => ?_
  simp [get]

theorem traceOf_traceRecord (s : State) : TraceOf s s.traceRecord where
  level := rfl
  message := by
    have hrow (bytes : List UInt8) : List.Forall₂ (Numeral.IsByte Numeral.upperDigits) bytes
        (bytes.map fun b => Numeral.upperHex 2 b.toNat) := by
      rw [List.forall₂_map_right_iff, List.forall₂_same]
      exact fun b _ => Numeral.isByte_upperHex b
    refine ⟨_, _, _, ?_, Numeral.isByte_upperHex s.pc, hrow _, hrow _⟩
    rw [← Registers.toList_cells]
    have hfirst : s.fetch 0 = s.memory.fetch s.pc := by rw [State.fetch, UInt8.add_zero]
    rw [← hfirst]
    rfl

theorem TraceOf.shows_iff {s : State} {r : Record} (h : TraceOf s r) (pc : UInt8) :
    r.Shows pc ↔ pc = s.pc := by
  obtain ⟨digits, bytes, registers, hmessage, hpc, -⟩ := h.message
  simp only [String.append_assoc] at hmessage
  constructor
  · rintro ⟨digits', rest, hmessage', hpc'⟩
    rw [hmessage, String.append_assoc] at hmessage'
    exact (hpc.unique (by decide) hpc' (String.append_right_inj .. |>.mp hmessage')).symm
  · rintro rfl
    exact ⟨digits, _, hmessage.trans (String.append_assoc ..).symm, hpc⟩

theorem stopOf_iff {ending : Ending} {r : Record} {address other : UInt8}
    (h : StopOf address ending r) : StopOf other ending r ↔ other = address := by
  refine ⟨fun h' => ?_, fun heq => heq ▸ h⟩
  have hnodup : Numeral.lowerDigits.Nodup := by decide
  cases h with
  | @halted digits h =>
    generalize hr : Record.mk .debug ("halted at 0x" ++ digits) = r at h'
    cases h' with
    | @halted digits' h' =>
      have hdigits := (String.append_right_inj _).mp (Record.mk.inj hr).2
      exact h'.unique hnodup h (congrArg (· ++ "") hdigits.symm)
  | @faulted digits fault h =>
    generalize hr : Record.mk .debug ("fault at 0x" ++ digits ++ ": " ++ fault.message) = r at h'
    cases h' with
    | @faulted digits' _ h' =>
      have htexts := (Record.mk.inj hr).2
      simp only [String.append_assoc] at htexts
      exact h'.unique hnodup h ((String.append_right_inj _).mp htexts).symm

theorem exists_stopOf (address : UInt8) {ending : Ending} (h : ending ≠ .unfinished) :
    ∃ r, ending.records address = [r] ∧ StopOf address ending r := by
  have hdigits := Numeral.isByte_hex address
  cases ending with
  | halted => exact ⟨_, rfl, .halted hdigits⟩
  | faulted fault => exact ⟨_, rfl, .faulted hdigits⟩
  | unfinished => contradiction

namespace Machine

variable {σ : Type} [Channel σ]

/-! ## Records of a path -/

theorem stepRecords_of_step {m next : Machine σ} (h : m.step = (next, .ok .running)) :
    m.stepRecords = [m.state.traceRecord] := by
  have hrun : m.status = .running := running_of_step (by simp [h])
  rw [stepRecords_of_running hrun, h]
  rfl

/-- Each step on a path adds one record. -/
theorem Executes.runRecords_add {m last : Machine σ} {path : List State} (h : m.Executes path last)
    (limit : Nat) (records : Array Record) :
    m.runRecords (path.length + limit) records =
      last.runRecords limit (records ++ path.map State.traceRecord) := by
  induction h generalizing records with
  | refl m => simp
  | @step m next last path hstep _ ih =>
    have hrun : m.status = .running := running_of_step (by simp [hstep])
    rw [List.length_cons, Nat.add_right_comm, runRecords_succ hrun, stepRecords_of_step hstep,
      hstep, ih]
    simp

/-! ## Records of the end -/

section Ends

variable {m last after : Machine σ} {path : List State} {ending : Ending}

theorem Ends.running (h : m.Ends path last after ending) : last.status = .running := by
  cases h with
  | halted _ hrun _ => exact hrun
  | faulted _ hstep => exact running_of_step (by simp [hstep])

theorem Ends.status_eq (h : m.Ends path last after ending) : after.status = .halted := by
  cases h with
  | halted => rfl
  | faulted _ hstep => exact (atomicFault_of_step hstep).status_eq

/-- The instruction that ends a run changes nothing in the state. -/
theorem Ends.state_eq (h : m.Ends path last after ending) : after.state = last.state := by
  cases h with
  | halted => rfl
  | faulted _ hstep => exact (atomicFault_of_step hstep).state_eq

theorem Ends.step_fst (h : m.Ends path last after ending) : last.step.1 = after := by
  cases h with
  | halted _ hrun hop => rw [step_of_halt hrun (State.action_eq_halt_iff.mpr hop)]
  | faulted _ hstep => rw [hstep]

theorem Ends.stepRecords (h : m.Ends path last after ending) :
    last.stepRecords = last.state.traceRecord :: ending.records after.state.pc := by
  rw [h.state_eq]
  have hrun := h.running
  cases h with
  | halted _ _ hop =>
    rw [stepRecords_of_running hrun, step_of_halt hrun (State.action_eq_halt_iff.mpr hop)]
    rfl
  | faulted _ hstep =>
    rw [stepRecords_of_running hrun, hstep]
    rfl

theorem Ends.runRecords (h : m.Ends path last after ending) (extra : Nat) :
    (m.runRecords (path.length + (extra + 1)) #[]).toList =
      (path ++ [last.state]).map State.traceRecord ++ ending.records after.state.pc := by
  rw [h.executes.runRecords_add, runRecords_succ h.running, h.step_fst,
    runRecords_of_halted h.status_eq, h.stepRecords]
  simp

end Ends

/-- **The log of a run.** What a running machine logs until it has stopped is one record for each
instruction, made of the state before it and showing that state, the last one being the instruction
that stops the machine; and behind these, one record that says how it has stopped, and where. The
address in this record, the program counter in the record before it and the one of the machine that
has stopped are the same. Whatever is asked of the machine afterwards, another step or run logs
nothing. -/
theorem log_of_run {m after : Machine σ} {limit : Nat} {ending : Ending}
    (hrun : m.status = .running) (h : m.run limit = (after, ending))
    (hends : ending ≠ .unfinished) :
    ∃ path last traces final stop, m.Ends path last after ending ∧ after.state = last.state ∧
      (m.runRecords limit #[]).toList = traces ++ [final, stop] ∧
      traces ++ [final] = (path ++ [last.state]).map State.traceRecord ∧
      List.Forall₂ TraceOf (path ++ [last.state]) (traces ++ [final]) ∧
      (∀ address, final.Shows address ↔ address = after.state.pc) ∧
      (∀ address, StopOf address ending stop ↔ address = after.state.pc) ∧
      ∀ exchange halted, after.Driven exchange halted →
        halted.stepRecords = [] ∧ ∀ limit records, halted.runRecords limit records = records := by
  obtain ⟨path, last, hlast, hlength⟩ := exists_ends_of_run hrun h hends
  obtain ⟨extra, rfl⟩ : ∃ extra, limit = path.length + (extra + 1) :=
    Nat.exists_eq_add_of_lt hlength
  obtain ⟨stop, hstop, hstopOf⟩ := exists_stopOf after.state.pc hends
  have htraces : path.map State.traceRecord ++ [last.state.traceRecord] =
      (path ++ [last.state]).map State.traceRecord := by simp
  refine ⟨path, last, path.map State.traceRecord, last.state.traceRecord, stop, hlast,
    hlast.state_eq, ?_, htraces, ?_, ?_, fun _ => stopOf_iff hstopOf, ?_⟩
  · rw [hlast.runRecords extra, hstop, ← htraces, List.append_assoc]
    rfl
  · rw [htraces, List.forall₂_map_right_iff, List.forall₂_same]
    exact fun s _ => traceOf_traceRecord s
  · rw [hlast.state_eq]
    exact (traceOf_traceRecord last.state).shows_iff
  · intro exchange halted hdriven
    have hrest : halted.status = .halted := (hdriven.atRest hlast.status_eq).2.status_eq
    exact ⟨stepRecords_of_halted hrest, fun limit => runRecords_of_halted hrest limit⟩

/-- The machine that stumbles over a division logs three instructions and the fault of the third. -/
theorem log_of_run_stumbling :
    stumbling.status = .running ∧
      (stumbling.run 7).2 = .faulted (.instruction .divisionByZero 5) ∧
      ∃ first second third stop : Record,
        (stumbling.runRecords 7 #[]).toList = [first, second, third, stop] ∧
        (∀ address, third.Shows address ↔ address = 5) ∧
        StopOf 5 (.faulted (.instruction .divisionByZero 5)) stop := by
  obtain ⟨after, h, hpc, -⟩ := run_stumbling
  have hrun : stumbling.status = .running := rfl
  have hcount : (stumbling.runRecords 7 #[]).toList.length = 4 := by decide +kernel
  obtain ⟨-, -, traces, final, stop, -, -, hrecords, -, -, hshows, hstop, -⟩ :=
    log_of_run hrun h nofun
  rw [hpc] at hshows hstop
  have hlength : traces.length = 2 := by
    simp only [hrecords, List.length_append, List.length_cons, List.length_nil] at hcount
    omega
  obtain ⟨first, second, rfl⟩ := List.length_eq_two.mp hlength
  exact ⟨hrun, congrArg Prod.snd h, first, second, final, stop, hrecords, hshows,
    (hstop 5).mpr rfl⟩

end Machine
end LS8
