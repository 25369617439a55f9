import LS8.Proofs.Machine.CodeIntegrity

/-!
# Driving a machine to its end

A run without a limit either finishes, always in the same way (`Finishes.unique`), or goes on for
ever. Steps taken by hand before the run make no difference to what it finishes with, and a fault
that one of them meets is the one that the run alone would have met (`steps_then_run`).

A machine that has stopped answers every call and does nothing more. Only its memory can still be
written, by loading, and no fault is reported a second time.
-/
namespace LS8

/-- What can be asked of a machine. -/
inductive Order where
  | load (image : Image)
  | step
  /-- To go on until the machine stops. -/
  | run
  deriving DecidableEq, Repr

/-- A step reports whether the machine is still running; the other calls have nothing to report but
their failure. -/
abbrev Reply := Except Fault (Option Status)

namespace Machine

variable {σ : Type} [Channel σ]

/-! ## Runs without a limit -/

/-- What becomes of a machine that runs until it stops, and what the run reports. A machine that
runs for ever finishes in no way. -/
def Finishes (m after : Machine σ) (result : Except Fault Unit) : Prop :=
  ∃ limit ending, m.run limit = (after, ending) ∧ ending.result? = some result

theorem Finishes.unique {m after after' : Machine σ} {result result' : Except Fault Unit}
    (h : m.Finishes after result) (h' : m.Finishes after' result') :
    after = after' ∧ result = result' := by
  obtain ⟨limit, ending, hrun, hresult⟩ := h
  obtain ⟨limit', ending', hrun', hresult'⟩ := h'
  have hends : (m.run limit).2 ≠ .unfinished := by
    rw [hrun]
    rintro rfl
    cases hresult
  have hends' : (m.run limit').2 ≠ .unfinished := by
    rw [hrun']
    rintro rfl
    cases hresult'
  have hsame : m.run limit = m.run limit' := by
    rw [← run_add limit' hends, Nat.add_comm, run_add limit hends']
  rw [hrun, hrun', Prod.mk.injEq] at hsame
  obtain ⟨rfl, rfl⟩ := hsame
  exact ⟨rfl, Option.some.inj (hresult.symm.trans hresult')⟩

theorem finishes_of_halted {m : Machine σ} (h : m.status = .halted) : m.Finishes m (.ok ()) :=
  ⟨0, .halted, run_halted h 0, rfl⟩

theorem finishes_of_fault {m next : Machine σ} {fault : Fault} (h : m.step = (next, .error fault)) :
    m.Finishes next (.error fault) := by
  have hrun : m.status = .running := running_of_step (by simp [h])
  exact ⟨1, .faulted fault, run_succ_of_fault hrun h 0, rfl⟩

/-- One step that succeeds can be taken by hand. -/
theorem finishes_step_iff {m next : Machine σ} {status : Status} (h : m.step = (next, .ok status))
    (after : Machine σ) (result : Except Fault Unit) :
    next.Finishes after result ↔ m.Finishes after result := by
  cases hs : m.status with
  | halted =>
    rw [step_halted hs] at h
    cases h
    rfl
  | running =>
    constructor
    · rintro ⟨limit, ending, hrun, hresult⟩
      exact ⟨limit + 1, ending, (run_succ_of_step hs h limit).trans hrun, hresult⟩
    · rintro ⟨limit, ending, hrun, hresult⟩
      cases limit with
      | zero =>
        rw [run_zero hs] at hrun
        cases hrun
        cases hresult
      | succ limit => exact ⟨limit, ending, (run_succ_of_step hs h limit).symm.trans hrun, hresult⟩

theorem run_status {m after : Machine σ} {ending : Ending} {limit : Nat}
    (h : m.run limit = (after, ending)) (hends : ending ≠ .unfinished) :
    after.status = .halted := by
  induction limit, m using run_induct with
  | halted limit m hs =>
    rw [run_halted hs] at h
    cases h
    exact hs
  | exhausted m hs =>
    rw [run_zero hs] at h
    cases h
    contradiction
  | stepped limit m next status hs hstep ih => exact ih ((run_succ_of_step hs hstep limit) ▸ h)
  | faulted limit m next fault hs hstep =>
    rw [run_succ_of_fault hs hstep] at h
    cases h
    exact (atomicFault_of_step hstep).status_eq

theorem Finishes.status {m after : Machine σ} {result : Except Fault Unit}
    (h : m.Finishes after result) : after.status = .halted := by
  obtain ⟨limit, ending, hrun, hresult⟩ := h
  refine run_status hrun ?_
  rintro rfl
  cases hresult

/-- So many steps, up to the first one that fails, with its fault. -/
def takeSteps : Nat → Machine σ → Machine σ × Option Fault
  | 0, m => (m, none)
  | n + 1, m =>
    match m.step with
    | (next, .ok _) => next.takeSteps n
    | (next, .error fault) => (next, some fault)

theorem finishes_takeSteps_iff {m mid : Machine σ} {n : Nat} (h : m.takeSteps n = (mid, none))
    (after : Machine σ) (result : Except Fault Unit) :
    mid.Finishes after result ↔ m.Finishes after result := by
  fun_induction takeSteps n m with
  | case1 =>
    cases h
    rfl
  | case2 n m next status hstep ih => exact (ih h).trans (finishes_step_iff hstep after result)
  | case3 => cases h

theorem finishes_of_takeSteps {m mid : Machine σ} {fault : Fault} {n : Nat}
    (h : m.takeSteps n = (mid, some fault)) : m.Finishes mid (.error fault) := by
  fun_induction takeSteps n m with
  | case1 => cases h
  | case2 n m next status hstep ih => exact (finishes_step_iff hstep mid _).mp (ih h)
  | case3 n m next fault hstep =>
    cases h
    exact finishes_of_fault hstep

/-! ## Calls with their replies -/

/-- How a machine answers a call. A run that goes on for ever is never answered. -/
inductive Answers (m : Machine σ) : Order → Reply → Machine σ → Prop
  | load {image} :
      Answers m (.load image) ((m.load image).map fun _ => none) (m.call (.load image))
  | step : Answers m .step (m.step.2.map some) m.step.1
  | run {after result} (h : m.Finishes after result) :
      Answers m .run (result.map fun _ => none) after

/-- Calls one after the other, each with its reply. -/
inductive Driven : Machine σ → List (Order × Reply) → Machine σ → Prop
  | refl (m : Machine σ) : Driven m [] m
  | call {m next last : Machine σ} {order reply more} (hfirst : Answers m order reply next)
      (hrest : Driven next more last) : Driven m ((order, reply) :: more) last

end Machine

/-- The fault that a step or a run has reported. That an image is too large is none. -/
def reportedFault? : Order × Reply → Option Fault
  | (.load _, _) | (_, .ok _) => none
  | (_, .error fault) => some fault

def reportedFaults (exchange : List (Order × Reply)) : List Fault :=
  exchange.filterMap reportedFault?

namespace Order

/-- What a machine that has stopped replies. -/
def replyAtRest : Order → Reply
  | load image =>
    if image.length ≤ memorySize then .ok none else .error (.programTooLarge image.length)
  | step => .ok (some .halted)
  | run => .ok none

/-- What a call makes of the cells of a machine that has stopped: an image that fits replaces as
many of the first ones as it has bytes. -/
def overlay (cells : UInt8 → UInt8) : Order → UInt8 → UInt8
  | load image =>
    if image.length ≤ memorySize then fun address => image.getD address.toNat (cells address)
    else cells
  | step | run => cells

end Order

namespace Machine

variable {σ : Type}

/-! ## Machines that have stopped -/

/-- What calls leave of a machine that had stopped `before` them: everything but its memory, and in
the memory nothing is changed but by loading. -/
structure AtRest (before : Machine σ) (orders : List Order) (after : Machine σ) : Prop where
  status_eq : after.status = .halted
  channel_eq : after.channel = before.channel
  state_eq : after.state = { before.state with memory := after.state.memory }
  cells_eq : after.state.memory.fetch = orders.foldl Order.overlay before.state.memory.fetch

theorem AtRest.refl {m : Machine σ} (h : m.status = .halted) : AtRest m [] m := ⟨h, rfl, rfl, rfl⟩

theorem AtRest.trans {m next last : Machine σ} {orders more : List Order}
    (hfirst : AtRest m orders next) (hrest : AtRest next more last) :
    AtRest m (orders ++ more) last where
  status_eq := hrest.status_eq
  channel_eq := hrest.channel_eq.trans hfirst.channel_eq
  state_eq := by rw [hrest.state_eq, hfirst.state_eq]
  cells_eq := by rw [hrest.cells_eq, hfirst.cells_eq, List.foldl_append]

variable [Channel σ]

theorem load_atRest {m : Machine σ} (h : m.status = .halted) (image : Image) :
    (m.load image).map (fun _ => none) = Order.replyAtRest (.load image) ∧
      AtRest m [.load image] (m.call (.load image)) := by
  by_cases hfits : image.length ≤ memorySize
  · obtain ⟨memory, hmemory, hload⟩ := exists_load_eq_ok hfits m
    have hcells : memory.fetch = Order.overlay m.state.memory.fetch (.load image) := by
      funext address
      rw [Memory.fetch_load hmemory, Order.overlay, if_pos hfits]
    simp only [call, hload, Order.replyAtRest, if_pos hfits]
    exact ⟨rfl, h, rfl, rfl, hcells⟩
  · have hload := load_eq_error hfits m
    have hcells : m.state.memory.fetch = Order.overlay m.state.memory.fetch (.load image) := by
      rw [Order.overlay, if_neg hfits]
    simp only [call, hload, Order.replyAtRest, if_neg hfits]
    exact ⟨rfl, h, rfl, rfl, hcells⟩

theorem Answers.atRest {m next : Machine σ} {order : Order} {reply : Reply}
    (h : m.status = .halted) (hanswer : Answers m order reply next) :
    reply = order.replyAtRest ∧ AtRest m [order] next := by
  cases hanswer with
  | load => exact load_atRest h _
  | step =>
    rw [step_halted h]
    exact ⟨rfl, h, rfl, rfl, rfl⟩
  | run hfinishes =>
    obtain ⟨rfl, rfl⟩ := (finishes_of_halted h).unique hfinishes
    exact ⟨rfl, h, rfl, rfl, rfl⟩

theorem exists_answers {m : Machine σ} (h : m.status = .halted) (order : Order) :
    ∃ next, Answers m order order.replyAtRest next := by
  obtain ⟨reply, next, hanswer⟩ : ∃ reply next, Answers m order reply next := by
    cases order with
    | load image => exact ⟨_, _, .load⟩
    | step => exact ⟨_, _, .step⟩
    | run => exact ⟨_, _, .run (finishes_of_halted h)⟩
  exact ⟨next, (hanswer.atRest h).1 ▸ hanswer⟩

theorem exists_driven {m : Machine σ} (h : m.status = .halted) (orders : List Order) :
    ∃ last, m.Driven (orders.map fun order => (order, order.replyAtRest)) last := by
  induction orders generalizing m with
  | nil => exact ⟨m, .refl m⟩
  | cons order orders ih =>
    obtain ⟨next, hanswer⟩ := exists_answers h order
    obtain ⟨last, hrest⟩ := ih (hanswer.atRest h).2.status_eq
    exact ⟨last, .call hanswer hrest⟩

theorem Driven.atRest {m last : Machine σ} {exchange : List (Order × Reply)}
    (hdriven : m.Driven exchange last) (h : m.status = .halted) :
    (∀ call ∈ exchange, call.2 = call.1.replyAtRest) ∧
      AtRest m (exchange.map Prod.fst) last := by
  induction hdriven with
  | refl m => exact ⟨by simp, .refl h⟩
  | call hfirst _ ih =>
    obtain ⟨hreply, hnext⟩ := hfirst.atRest h
    obtain ⟨hreplies, hlast⟩ := ih hnext.status_eq
    exact ⟨List.forall_mem_cons.mpr ⟨hreply, hreplies⟩, hnext.trans hlast⟩

theorem reportedFaults_atRest {exchange : List (Order × Reply)}
    (h : ∀ call ∈ exchange, call.2 = call.1.replyAtRest) : reportedFaults exchange = [] := by
  refine List.filterMap_eq_nil_iff.mpr fun ⟨order, reply⟩ hmem => ?_
  obtain rfl : reply = order.replyAtRest := h _ hmem
  cases order <;> rfl

/-- Once a fault has been reported the machine has stopped. -/
theorem Answers.halted_of_fault {m next : Machine σ} {order : Order} {reply : Reply} {fault : Fault}
    (h : Answers m order reply next) (hfault : reportedFault? (order, reply) = some fault) :
    next.status = .halted := by
  cases h with
  | load => cases hfault
  | step =>
    rcases hstep : m.step with ⟨next, fault' | status⟩
    · exact (atomicFault_of_step hstep).status_eq
    · rw [hstep] at hfault
      cases hfault
  | run hfinishes => exact hfinishes.status

/-- No fault is reported twice, and no other one after it. -/
theorem Driven.fault_once {m last : Machine σ} {exchange : List (Order × Reply)}
    (h : m.Driven exchange last) :
    reportedFaults exchange = [] ∨
      ∃ fault, reportedFaults exchange = [fault] ∧ last.status = .halted := by
  induction h with
  | refl m => exact Or.inl rfl
  | @call m next last order reply more hfirst hrest ih =>
    cases hhead : reportedFault? (order, reply) with
    | none =>
      rw [reportedFaults, List.filterMap_cons_none hhead]
      exact ih
    | some fault =>
      obtain ⟨hreplies, hlast⟩ := hrest.atRest (hfirst.halted_of_fault hhead)
      have hmore : more.filterMap reportedFault? = [] := reportedFaults_atRest hreplies
      rw [reportedFaults, List.filterMap_cons_some hhead, hmore]
      exact Or.inr ⟨fault, rfl, hlast.status_eq⟩

/-- **Driving by hand is running.** Any number of steps that succeed can be taken before a run: what
the run finishes with, if it finishes, is the same. If one of the steps fails, its fault is the one
that the run would have reported, and the machine is left the same. A machine that has stopped
answers all calls and, its memory apart, stays as it is; so no call sequence reports more than one
fault. -/
theorem steps_then_run (m : Machine σ) :
    (∀ n mid, m.takeSteps n = (mid, none) →
        ∀ after result, mid.Finishes after result ↔ m.Finishes after result) ∧
      (∀ n mid fault, m.takeSteps n = (mid, some fault) → m.Finishes mid (.error fault)) ∧
      (m.status = .halted →
        (∀ orders : List Order,
          ∃ last, m.Driven (orders.map fun order => (order, order.replyAtRest)) last) ∧
        ∀ exchange last, m.Driven exchange last →
          (∀ call ∈ exchange, call.2 = call.1.replyAtRest) ∧
            AtRest m (exchange.map Prod.fst) last) ∧
      ∀ exchange last, m.Driven exchange last →
        reportedFaults exchange = [] ∨
          ∃ fault, reportedFaults exchange = [fault] ∧ last.status = .halted := by
  refine ⟨?_, ?_, ?_, ?_⟩
  · intro n mid hsteps
    exact finishes_takeSteps_iff hsteps
  · intro n mid fault hsteps
    exact finishes_of_takeSteps hsteps
  · intro hhalted
    exact ⟨exists_driven hhalted, fun exchange last hdriven => hdriven.atRest hhalted⟩
  · intro exchange last hdriven
    exact hdriven.fault_once

/-- Prints 10 and then divides it by zero. -/
def stumbling : Machine (Array UInt8) :=
  (fresh #[]).call (.load [0x82, 0, 10, 0x47, 0, 0xA4, 0, 1])

theorem run_stumbling :
    ∃ after, stumbling.run 7 = (after, .faulted (.instruction .divisionByZero 5)) ∧
      after.state.pc = 5 ∧ after.channel = #[10] := by
  have hending : (stumbling.run 7).2 = .faulted (.instruction .divisionByZero 5) := by
    decide +kernel
  exact ⟨(stumbling.run 7).1, by rw [← hending], by decide +kernel, by decide +kernel⟩

def revival : List (Order × Reply) :=
  [(.load [0x47, 0], .ok none), (.step, .ok (some .halted)), (.run, .ok none)]

/-- Two steps and a run finish with the fault that the third step alone would have reported. After
it nothing is reported, though a program that would print again has been loaded. -/
theorem steps_then_run_stumbling :
    (stumbling.takeSteps 2).2 = none ∧ (stumbling.takeSteps 3).1.channel = #[10] ∧
      (stumbling.takeSteps 2).1.Finishes (stumbling.takeSteps 3).1
        (.error (.instruction .divisionByZero 5)) ∧
      ∃ last, (stumbling.takeSteps 3).1.Driven revival last ∧
        AtRest (stumbling.takeSteps 3).1 [.load [0x47, 0], .step, .run] last := by
  obtain ⟨hgo, hfault, -⟩ := steps_then_run stumbling
  obtain ⟨-, -, hrest, -⟩ := steps_then_run (stumbling.takeSteps 3).1
  have hnone : (stumbling.takeSteps 2).2 = none := by decide +kernel
  have hsome : (stumbling.takeSteps 3).2 = some (.instruction .divisionByZero 5) := by
    decide +kernel
  have hfinishes := hfault 3 (stumbling.takeSteps 3).1 (.instruction .divisionByZero 5) (by
    rw [← hsome])
  have hreplies : revival = (revival.map Prod.fst).map fun order => (order, order.replyAtRest) := by
    simp [revival, Order.replyAtRest, memorySize]
  obtain ⟨hanswers, hleft⟩ := hrest hfinishes.status
  obtain ⟨last, hdriven⟩ := hanswers (revival.map Prod.fst)
  rw [← hreplies] at hdriven
  refine ⟨hnone, by decide +kernel, ?_, last, hdriven, (hleft _ last hdriven).2⟩
  exact (hgo 2 (stumbling.takeSteps 2).1 (by rw [← hnone]) _ _).mpr hfinishes

end Machine
end LS8
