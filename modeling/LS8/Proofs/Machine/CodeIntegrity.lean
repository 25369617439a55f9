import LS8.Proofs.Machine.EmptyStack

/-!
# Code integrity

Only a PUSH writes to memory, and where it writes is known from how deep the stack is. A program
whose stack never gets so deep that it meets the code is therefore still there in every state that
it reaches, however it jumps: below the deepest stack there are the image and then zeros, and above
the start of the stack there are zeros (`code_intact`). What it carries out outside of the stack are
bytes that were loaded, or zeros.
-/
namespace LS8

open State

theorem Memory.fetch_load {m after : Memory} {image : Image} (h : m.load image = .ok after)
    (address : UInt8) : after.fetch address = image.getD address.toNat (m.fetch address) := by
  unfold load at h
  split at h
  · obtain rfl := (Except.ok.inj h).symm
    simp [fetch]
  · contradiction

theorem Memory.fetch_empty (address : UInt8) : ({} : Memory).fetch address = 0 := by
  simp [fetch]

/-- Outside of the region that a stack of at most so many values takes up. -/
def OutsideStack (most : Nat) (address : UInt8) : Prop :=
  address.toNat < 0xF4 - most ∨ 0xF4 ≤ address.toNat

/-- Memory with the image at its front and zeros behind it, as far as no stack of at most so many
values reaches. -/
def Memory.Unwritten (m : Memory) (image : Image) (most : Nat) : Prop :=
  ∀ address, OutsideStack most address → m.fetch address = image.getD address.toNat 0

/-- A value pushed onto a stack that is not too deep leaves the rest of memory as it is. -/
theorem Memory.Unwritten.push {m : Memory} {image : Image} {most : Nat} {d : Int} {s : State}
    (h : m.Unwritten image most) (hs : Machine.Counted d s) (hdepth : d + 1 ≤ most)
    (hmost : most ≤ 0xF4) (value : UInt8) : (m.store (s.sp - 1) value).Unwritten image most := by
  obtain ⟨hnonneg, hsp⟩ := hs
  have hlt := s.sp.toNat_lt
  intro address houtside
  have hother : s.sp - 1 ≠ address := by
    rintro rfl
    unfold OutsideStack at houtside
    rw [UInt8.toNat_sub, UInt8.toNat_one] at houtside
    omega
  rw [fetch_store, if_neg hother]
  exact h address houtside

/-- What is left as it was loaded, and where the stack pointer is, with so many values on a stack
that never holds more than `most`. -/
structure Intact (image : Image) (most : Nat) (d : Int) (s : State) : Prop where
  sp : (s.sp.toNat : Int) = 0xF4 - d
  code : ∀ address : UInt8, address.toNat < image.length →
    image[address.toNat]? = some (s.memory.fetch address)
  free : ∀ address : UInt8, image.length ≤ address.toNat → address.toNat < 0xF4 - most →
    s.memory.fetch address = 0
  top : ∀ address : UInt8, 0xF4 ≤ address.toNat → s.memory.fetch address = 0
  executed : ∀ offset : UInt8, OutsideStack most (s.pc + offset) →
    s.fetch offset = image.getD (s.pc + offset).toNat 0

theorem intact_of_unwritten {image : Image} {most : Nat} {d : Int} {s : State}
    (hfit : image.length + most ≤ 0xF4) (hs : Machine.Counted d s) (hdepth : d ≤ most)
    (h : s.memory.Unwritten image most) : Intact image most d s where
  sp := by
    have hnonneg := hs.nonneg
    have hsp := hs.sp
    have hlt := s.sp.toNat_lt
    omega
  code := fun address haddress => by
    have houtside : OutsideStack most address := Or.inl (by omega)
    rw [h address houtside, List.getD_eq_getElem?_getD]
    simp [haddress]
  free := fun address hbehind hbelow => by
    rw [h address (Or.inl hbelow), List.getD_eq_getElem?_getD, List.getElem?_eq_none hbehind]
    rfl
  top := fun address habove => by
    rw [h address (Or.inr habove), List.getD_eq_getElem?_getD, List.getElem?_eq_none (by omega)]
    rfl
  executed := fun offset houtside => h (s.pc + offset) houtside

namespace Machine

variable {σ : Type} [Channel σ]

/-- The calls that run an image for so many steps. -/
def loadAndStep (image : Image) (n : Nat) : List Call := .load image :: List.replicate n .step

theorem unwritten_of_load {channel : σ} {image : Image} (hfits : image.length ≤ memorySize)
    (most : Nat) : ((fresh channel).call (.load image)).state.memory.Unwritten image most := by
  obtain ⟨memory, hload⟩ : ∃ memory, (fresh channel).state.memory.load image = .ok memory :=
    ⟨_, if_pos hfits⟩
  intro address _
  simp only [call, load, hload]
  rw [← Memory.fetch_empty address]
  exact Memory.fetch_load hload address

/-- What a run without further loads keeps, `past` being the states in which it has carried out
instructions. -/
structure Bounded (image : Image) (most : Nat) (past : List State) (m : Machine σ) : Prop where
  counted : Counted (depth past) m.state
  unwritten : (∀ i, depth (past.take i) ≤ most) → m.state.memory.Unwritten image most

theorem Bounded.step {image : Image} {most : Nat} {past done : List State} {m next : Machine σ}
    (hmost : most ≤ 0xF4) (h : Bounded image most past m) (heffect : CallEffect m .step done next) :
    Bounded image most (past ++ done) next := by
  refine ⟨by rw [depth_append]; exact h.counted.call heffect, fun hdepth => ?_⟩
  have hbefore : m.state.memory.Unwritten image most := by
    refine h.unwritten fun i => ?_
    have hprefix := hdepth (min i past.length)
    rw [List.take_append_of_le_length (Nat.min_le_right _ _)] at hprefix
    rwa [List.take_eq_take_min]
  cases heffect with
  | idle | stopped => exact hbefore
  | faulted hstep hstate => rwa [hstate]
  | proceeded hstep =>
    have hlast := hdepth (past.length + 1)
    rw [List.take_length_add_append, depth_append, List.take_one] at hlast
    cases stackEffect_of_step hstep with
    | push hop hr hsp hmemory =>
      rw [hmemory]
      refine hbefore.push h.counted ?_ hmost _
      simpa [growth_of_push hop] using hlast
    | pop hop hsp hmemory => rwa [hmemory]
    | none hgrowth hsp hmemory => rwa [hmemory]

theorem bounded_history {m : Machine σ} {image : Image} {most : Nat} (hmost : most ≤ 0xF4)
    (hstart : Bounded image most [] m) (n : Nat) :
    Bounded image most (m.history (List.replicate n .step)) (m.calls (List.replicate n .step)) := by
  refine history_invariant hstart fun past m c done next hmem heffect hpast => ?_
  obtain rfl := List.eq_of_mem_replicate hmem
  exact hpast.step hmost heffect

/-- An image is loaded into a machine just switched on, and carried out for any number of steps. As
long as the PUSHes carried out were never more than `most` ahead of the POPs, and so many values fit
between the image and the start of the stack, the image is as it was loaded, the stack pointer says
how many values are on the stack, and every other cell outside of the stack is still zero. -/
theorem code_intact (channel : σ) {image : Image} {most : Nat}
    (hfit : image.length + most ≤ 0xF4) (n : Nat)
    (hdepth : ∀ i, depth (((fresh channel).history (loadAndStep image n)).take i) ≤ most) :
    Intact image most (depth ((fresh channel).history (loadAndStep image n)))
      ((fresh channel).calls (loadAndStep image n)).state := by
  have hfits : image.length ≤ memorySize := by
    have hsize : memorySize = 256 := rfl
    omega
  have hloaded : Bounded image most [] ((fresh channel).call (.load image)) :=
    ⟨counted_history channel [.load image], fun _ => unwritten_of_load hfits most⟩
  have hbounded := bounded_history (by omega) hloaded n
  have hhistory : (fresh channel).history (loadAndStep image n) =
      ((fresh channel).call (.load image)).history (List.replicate n .step) := rfl
  rw [hhistory] at hdepth ⊢
  generalize ((fresh channel).call (.load image)).history (List.replicate n .step) = past
    at hdepth hbounded ⊢
  have hlast := hdepth past.length
  rw [List.take_length] at hlast
  exact intact_of_unwritten hfit hbounded.counted hlast (hbounded.unwritten hdepth)

/-- Pushes 37 and 9, takes the 9 back into the second register and stops. -/
def twoDeep : Image := [0x82, 0, 37, 0x45, 0, 0x82, 0, 9, 0x45, 0, 0x46, 1, 0x01]

theorem code_intact_twoDeep :
    Intact twoDeep 2 1 ((fresh (#[] : Array UInt8)).calls (loadAndStep twoDeep 6)).state := by
  have hgrowth : ((fresh (#[] : Array UInt8)).history (loadAndStep twoDeep 6)).map growth =
      [0, 1, 0, 1, -1, 0] := by decide +kernel
  have hdepth (i : Nat) :
      depth (((fresh (#[] : Array UInt8)).history (loadAndStep twoDeep 6)).take i) ≤ 2 := by
    rw [depth_eq_foldr, List.map_take, hgrowth]
    match i with
    | 0 | 1 | 2 | 3 | 4 | 5 => decide
    | i + 6 => simp
  have hlast : depth ((fresh (#[] : Array UInt8)).history (loadAndStep twoDeep 6)) = 1 := by
    rw [depth_eq_foldr, hgrowth]
    rfl
  have hfit : twoDeep.length + 2 ≤ 0xF4 := by decide
  have hintact := code_intact (#[] : Array UInt8) hfit 6 hdepth
  rwa [hlast] at hintact

end Machine
end LS8
