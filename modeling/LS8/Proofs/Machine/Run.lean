import LS8.Proofs.Machine.Step

/-!
# Runs

A run is a sequence of steps that neither halt nor fault, together with the states in which the
steps were taken. What the steps print is a function of those states, and the output channel at the
end is the one at the start after it took exactly those values. A run that comes to an end has one
step more, the one that stops the machine (`exists_ends_of_run`); a machine for which no limit
suffices runs for ever (`runsForever_iff`).
-/
namespace LS8

namespace Channel

variable {σ : Type} [Channel σ]

/-- The values in order, up to the first one that is not taken. -/
def emitAll (channel : σ) : List UInt8 → σ × Except Fault Unit
  | [] => (channel, .ok ())
  | value :: values =>
    match emit channel value with
    | (next, .ok ()) => emitAll next values
    | (next, .error fault) => (next, .error fault)

theorem emitAll_append {channel next : σ} {values : List UInt8} (more : List UInt8)
    (h : emitAll channel values = (next, .ok ())) :
    emitAll channel (values ++ more) = emitAll next more := by
  induction values generalizing channel with
  | nil =>
    obtain rfl : channel = next := congrArg Prod.fst h
    rfl
  | cons value values ih =>
    simp only [List.cons_append, emitAll] at h ⊢
    split at h
    · exact ih h
    · cases h

/-- The collecting channel takes every value and keeps them in order. -/
theorem emitAll_array (out : Array UInt8) (values : List UInt8) :
    emitAll out values = (out ++ values.toArray, .ok ()) := by
  induction values generalizing out with
  | nil => simp [emitAll]
  | cons value values ih => simp [emitAll, emit, ih]

end Channel

namespace State

/-- The value that the instruction at the program counter prints, if it is one that prints. -/
def printed (s : State) : List UInt8 :=
  match Opcode.ofByte? (s.fetch 0), s.registers.read (s.fetch 1) with
  | some .prn, .ok value => [value]
  | _, _ => []

theorem printed_of_print {s next : State} {value : UInt8}
    (h : s.action = .ok (.print value next)) : s.printed = [value] := by
  obtain ⟨hop, hread, -⟩ := action_eq_print_iff.mp h
  simp only [printed, hop, hread]

theorem printed_of_proceed {s next : State} (h : s.action = .ok (.proceed next)) :
    s.printed = [] := by
  unfold printed
  split
  · next value hop hread =>
    have hprint := action_eq_print_iff.mpr ⟨hop, hread, rfl⟩
    rw [h] at hprint
    cases hprint
  · rfl

end State

namespace Machine

variable {σ : Type} [Channel σ]

/-- Steps taken one after the other, none of which halts or faults; the list holds the states in
which they were taken. -/
inductive Executes : Machine σ → List State → Machine σ → Prop
  | refl (m : Machine σ) : Executes m [] m
  | step {m next last : Machine σ} {path : List State} (hstep : m.step = (next, .ok .running))
      (rest : Executes next path last) : Executes m (m.state :: path) last

/-- The channel takes what a step prints, and without a refusal if the step goes on. -/
theorem emitAll_of_step_running {m next : Machine σ} (h : m.step = (next, .ok .running)) :
    Channel.emitAll m.channel m.state.printed = (next.channel, .ok ()) := by
  have hrun : m.status = .running := running_of_step (by simp [h])
  have hsteps := steps hrun
  rw [h] at hsteps
  cases hsteps with
  | proceeded haction => rw [State.printed_of_proceed haction, Channel.emitAll]
  | taken haction hemit =>
    rw [State.printed_of_print haction, Channel.emitAll, hemit]
    rfl

theorem Executes.emitAll {m last : Machine σ} {path : List State} (h : m.Executes path last) :
    Channel.emitAll m.channel (path.flatMap State.printed) = (last.channel, .ok ()) := by
  induction h with
  | refl m => rfl
  | step hstep _ ih =>
    rw [List.flatMap_cons, Channel.emitAll_append _ (emitAll_of_step_running hstep)]
    exact ih

/-- The steps on a path use up as much of the limit as the path is long. -/
theorem Executes.run_add {m last : Machine σ} {path : List State} (h : m.Executes path last)
    (limit : Nat) : m.run (path.length + limit) = last.run limit := by
  induction h with
  | refl m => rw [List.length_nil, Nat.zero_add]
  | @step m next last path hstep _ ih =>
    have hrun : m.status = .running := running_of_step (by simp [hstep])
    rw [List.length_cons, Nat.add_right_comm, run_succ_of_step hrun hstep]
    exact ih

/-- How a run comes to its end: the instructions on the path are carried out, and `last` stands at
the one that stops the machine, because it is a HLT or because it fails. -/
inductive Ends (m : Machine σ) (path : List State) (last : Machine σ) : Machine σ → Ending → Prop
  | halted (hpath : m.Executes path last) (hrun : last.status = .running)
      (hop : Opcode.ofByte? (last.state.fetch 0) = some .hlt) :
      Ends m path last { last with status := .halted } .halted
  | faulted {after fault} (hpath : m.Executes path last)
      (hstep : last.step = (after, .error fault)) :
      Ends m path last after (.faulted fault)

theorem Ends.executes {m last after : Machine σ} {path : List State} {ending : Ending}
    (h : m.Ends path last after ending) : m.Executes path last := by
  cases h with
  | halted hpath => exact hpath
  | faulted hpath => exact hpath

theorem Ends.run {m last after : Machine σ} {path : List State} {ending : Ending}
    (h : m.Ends path last after ending) (extra : Nat) :
    m.run (path.length + (extra + 1)) = (after, ending) := by
  cases h with
  | halted hpath hrun hop =>
    have hstep := step_of_halt hrun (State.action_eq_halt_iff.mpr hop)
    rw [hpath.run_add, run_succ_of_step hrun hstep, run_halted rfl]
  | faulted hpath hstep =>
    have hrun : last.status = .running := running_of_step (by simp [hstep])
    rw [hpath.run_add, run_succ_of_fault hrun hstep]

/-- What ends within a limit does so along a path that is shorter than the limit. -/
theorem exists_ends_of_run {m after : Machine σ} {limit : Nat} {ending : Ending}
    (hrun : m.status = .running) (h : m.run limit = (after, ending))
    (hends : ending ≠ .unfinished) :
    ∃ path last, m.Ends path last after ending ∧ path.length < limit := by
  induction limit generalizing m with
  | zero =>
    rw [run_zero hrun] at h
    cases h
    contradiction
  | succ limit ih =>
    have hsteps := steps hrun
    rcases hstep : m.step with ⟨next, fault | status⟩
    · rw [run_succ_of_fault hrun hstep] at h
      cases h
      exact ⟨[], m, .faulted (.refl m) hstep, Nat.succ_pos limit⟩
    · rw [run_succ_of_step hrun hstep] at h
      cases status with
      | halted =>
        rw [run_halted (status_of_step hstep)] at h
        cases h
        rw [hstep] at hsteps
        cases hsteps with
        | halted haction =>
          have hop := State.action_eq_halt_iff.mp haction
          exact ⟨[], m, .halted (.refl m) hrun hop, Nat.succ_pos limit⟩
      | running =>
        obtain ⟨path, last, hlast, hlength⟩ := ih (status_of_step hstep) h
        refine ⟨m.state :: path, last, ?_, Nat.succ_lt_succ hlength⟩
        cases hlast with
        | halted hpath hrun' hop => exact .halted (.step hstep hpath) hrun' hop
        | faulted hpath hfault => exact .faulted (.step hstep hpath) hfault

/-- A machine that comes to an end does so in one way. -/
theorem Ends.unique {m last last' after after' : Machine σ} {path path' : List State}
    {ending ending' : Ending} (h : m.Ends path last after ending)
    (h' : m.Ends path' last' after' ending') : after = after' ∧ ending = ending' := by
  have hrun := h.run path'.length
  have hrun' := h'.run path.length
  rw [← Nat.add_assoc, Nat.add_comm path'.length, Nat.add_assoc] at hrun'
  exact Prod.mk.inj (hrun.symm.trans hrun')

/-- Any number of instructions can be carried out, and none of them stops the machine. -/
def RunsForever (m : Machine σ) : Prop :=
  ∀ n, ∃ path last, m.Executes path last ∧ path.length = n

theorem Executes.running {m last : Machine σ} {path : List State} (h : m.Executes path last)
    (hne : path ≠ []) : last.status = .running := by
  induction h with
  | refl m => contradiction
  | @step m next last path hstep rest ih =>
    cases rest with
    | refl => exact status_of_step hstep
    | step hstep' rest' => exact ih (List.cons_ne_nil _ _)

theorem executes_of_run_unfinished {m after : Machine σ} {limit : Nat}
    (h : m.run limit = (after, .unfinished)) :
    ∃ path, m.Executes path after ∧ path.length = limit := by
  induction limit, m using run_induct with
  | halted limit m hs =>
    rw [run_halted hs] at h
    cases h
  | exhausted m hs =>
    rw [run_zero hs] at h
    cases h
    exact ⟨[], .refl _, rfl⟩
  | stepped limit m next status hs hstep ih =>
    rw [run_succ_of_step hs hstep] at h
    cases status with
    | halted =>
      rw [run_halted (status_of_step hstep)] at h
      cases h
    | running =>
      obtain ⟨path, hpath, hlength⟩ := ih h
      exact ⟨m.state :: path, .step hstep hpath, congrArg (· + 1) hlength⟩
  | faulted limit m next fault hs hstep =>
    rw [run_succ_of_fault hs hstep] at h
    cases h

/-- A machine that runs for ever is one that reaches every limit. -/
theorem runsForever_iff {m : Machine σ} (hrun : m.status = .running) :
    m.RunsForever ↔ ∀ limit, (m.run limit).2 = .unfinished := by
  constructor
  · intro h limit
    obtain ⟨path, last, hpath, rfl⟩ := h limit
    have hlast : last.status = .running := by
      cases hpath with
      | refl => exact hrun
      | step hstep rest => exact (Executes.step hstep rest).running (List.cons_ne_nil _ _)
    rw [← Nat.add_zero path.length, hpath.run_add, run_zero hlast]
  · intro h limit
    obtain ⟨path, hpath, hlength⟩ := executes_of_run_unfinished (Prod.ext rfl (h limit))
    exact ⟨path, _, hpath, hlength⟩

/-- A run that faults is a run without a fault, followed by the step that faults. -/
theorem executes_of_run_faulted {m after : Machine σ} {limit : Nat} {fault : Fault}
    (h : m.run limit = (after, .faulted fault)) :
    ∃ path last, m.Executes path last ∧ last.step = (after, .error fault) := by
  have hrun : m.status = .running := by
    cases hs : m.status with
    | running => rfl
    | halted =>
      rw [run_halted hs] at h
      cases h
  obtain ⟨path, last, hends, -⟩ := exists_ends_of_run hrun h nofun
  cases hends with
  | faulted hpath hstep => exact ⟨path, last, hpath, hstep⟩

end Machine
end LS8
