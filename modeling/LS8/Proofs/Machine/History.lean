import LS8.Proofs.Machine.Atomicity

/-!
# Machines driven from outside

Whoever owns a machine loads images into it and takes steps, in any order and also after it has
stopped. `calls` is what a list of such calls makes of a machine, and `history` holds the states in
which it carried out an instruction meanwhile: a step of a stopped machine carries out none, and
neither does a step that faults. What one call can do is listed in `CallEffect`, and
`history_invariant` is the induction over a list of calls.
-/
namespace LS8

inductive Call where
  | load (image : Image)
  | step
  deriving DecidableEq, Repr

namespace Machine

variable {σ : Type}

/-- A machine that has just been switched on. -/
def fresh (channel : σ) : Machine σ := { channel := channel }

variable [Channel σ]

/-- A load that is refused leaves the machine as it is. -/
def call (m : Machine σ) : Call → Machine σ
  | .load image =>
    match m.load image with
    | .ok next => next
    | .error _ => m
  | .step => m.step.1

/-- The state in which a call carries out an instruction, if it does. -/
def carriedOut (m : Machine σ) : Call → List State
  | .load _ => []
  | .step =>
    match m.status, m.step.2 with
    | .running, .ok _ => [m.state]
    | _, _ => []

def calls (m : Machine σ) (list : List Call) : Machine σ := list.foldl call m

def history (m : Machine σ) : List Call → List State
  | [] => []
  | c :: list => m.carriedOut c ++ (m.call c).history list

@[simp] theorem calls_nil (m : Machine σ) : m.calls [] = m := rfl

@[simp] theorem calls_cons (m : Machine σ) (c : Call) (list : List Call) :
    m.calls (c :: list) = (m.call c).calls list := rfl

@[simp] theorem history_nil (m : Machine σ) : m.history [] = [] := rfl

@[simp] theorem history_cons (m : Machine σ) (c : Call) (list : List Call) :
    m.history (c :: list) = m.carriedOut c ++ (m.call c).history list := rfl

theorem calls_append (m : Machine σ) (list more : List Call) :
    m.calls (list ++ more) = (m.calls list).calls more := List.foldl_append

theorem history_append (m : Machine σ) (list more : List Call) :
    m.history (list ++ more) = m.history list ++ (m.calls list).history more := by
  induction list generalizing m with
  | nil => rfl
  | cons c list ih => simp [ih]

/-- The machine after so many steps. -/
def stepped (m : Machine σ) (n : Nat) : Machine σ := m.calls (List.replicate n .step)

@[simp] theorem stepped_zero (m : Machine σ) : m.stepped 0 = m := rfl

/-- What a call can do: the state in which it has carried out an instruction, if it has, and the
machine afterwards. -/
inductive CallEffect (m : Machine σ) : Call → List State → Machine σ → Prop
  | loaded {image memory} (hload : m.state.memory.load image = .ok memory) :
      CallEffect m (.load image) [] { m with state := { m.state with memory := memory } }
  | tooLarge {image fault} (hload : m.state.memory.load image = .error fault) :
      CallEffect m (.load image) [] m
  | idle (hstopped : m.status = .halted) : CallEffect m .step [] m
  | faulted {next fault} (hstep : m.step = (next, .error fault)) (hstate : next.state = m.state) :
      CallEffect m .step [] next
  | stopped (hrun : m.status = .running) (haction : m.state.action = .ok .halt) :
      CallEffect m .step [m.state] { m with status := .halted }
  | proceeded {next} (hstep : m.step = (next, .ok .running)) : CallEffect m .step [m.state] next

theorem callEffect_step (m : Machine σ) : CallEffect m .step (m.carriedOut .step) m.step.1 := by
  cases hs : m.status with
  | halted =>
    simp only [carriedOut, hs, step_halted hs]
    exact .idle hs
  | running =>
    have hsteps := steps hs
    rcases hstep : m.step with ⟨next, fault | status⟩
    · simp only [carriedOut, hs, hstep]
      exact .faulted hstep (atomicFault_of_step hstep).state_eq
    · simp only [carriedOut, hs, hstep]
      cases status with
      | running => exact .proceeded hstep
      | halted =>
        rw [hstep] at hsteps
        cases hsteps with
        | halted haction => exact .stopped hs haction

theorem callEffect (m : Machine σ) (c : Call) : CallEffect m c (m.carriedOut c) (m.call c) := by
  cases c with
  | step => exact m.callEffect_step
  | load image =>
    cases hload : m.state.memory.load image with
    | ok memory =>
      simp only [carriedOut, call, load, hload]
      exact .loaded hload
    | error fault =>
      simp only [carriedOut, call, load, hload]
      exact .tooLarge hload

/-- What holds of the instructions carried out so far and of the machine, and is kept by each of the
calls, holds after all of them. -/
theorem history_invariant {P : List State → Machine σ → Prop} {m : Machine σ} {list : List Call}
    (hstart : P [] m)
    (hkeep : ∀ past m c done next, c ∈ list → CallEffect m c done next → P past m →
      P (past ++ done) next) :
    P (m.history list) (m.calls list) := by
  suffices hmore : ∀ past, P past m → P (past ++ m.history list) (m.calls list) from
    hmore [] hstart
  clear hstart
  induction list generalizing m with
  | nil =>
    intro past hpast
    simpa using hpast
  | cons c list ih =>
    intro past hpast
    have hfirst := hkeep past m c _ _ List.mem_cons_self (m.callEffect c) hpast
    have hrest := ih (fun past m c' done next hmem => hkeep past m c' done next
      (List.mem_cons_of_mem c hmem)) _ hfirst
    simpa using hrest

end Machine
end LS8
