import LS8.Machine.State

/-!
# What memory holds

Bytes that stand in memory one after the other. Where a byte is stored among other bytes they are
not there any more, and everywhere else they still are (`Memory.Holds.store`).
-/
namespace LS8

namespace Memory

/-- The bytes stand one after the other, the first at the address. -/
def Holds (m : Memory) (address : Nat) (bytes : List UInt8) : Prop :=
  ∀ k b, bytes[k]? = some b → m.fetch (UInt8.ofNat (address + k)) = b

theorem holds_nil (m : Memory) (address : Nat) : m.Holds address [] := by
  intro k b h
  simp at h

theorem holds_cons {m : Memory} {address : Nat} {b : UInt8} {bytes : List UInt8} :
    m.Holds address (b :: bytes) ↔
      m.fetch (UInt8.ofNat address) = b ∧ m.Holds (address + 1) bytes := by
  constructor
  · intro h
    refine ⟨h 0 b rfl, fun k c hk => ?_⟩
    rw [Nat.add_right_comm]
    exact h (k + 1) c hk
  · rintro ⟨hfirst, hrest⟩ k c hk
    cases k with
    | zero =>
      obtain rfl : b = c := Option.some.inj hk
      exact hfirst
    | succ k =>
      have hnext := hrest k c hk
      rwa [Nat.add_right_comm] at hnext

theorem Holds.of_append {m : Memory} {address : Nat} {front bytes : List UInt8}
    (h : m.Holds address (front ++ bytes)) :
    m.Holds address front ∧ m.Holds (address + front.length) bytes := by
  constructor
  · intro k b hk
    refine h k b ?_
    rw [List.getElem?_append_left (List.getElem?_eq_some_iff.mp hk).1, hk]
  · intro k b hk
    rw [Nat.add_assoc]
    refine h (front.length + k) b ?_
    rw [List.getElem?_append_right (Nat.le_add_right _ _), Nat.add_sub_cancel_left]
    exact hk

/-- A byte that is stored outside of the bytes leaves them where they are. -/
theorem Holds.store {m : Memory} {address : Nat} {bytes : List UInt8} (h : m.Holds address bytes)
    {target : UInt8} (value : UInt8) (hfit : address + bytes.length ≤ 256)
    (houtside : target.toNat < address ∨ address + bytes.length ≤ target.toNat) :
    (m.store target value).Holds address bytes := by
  intro k b hk
  have hlength : k < bytes.length := (List.getElem?_eq_some_iff.mp hk).1
  have hsize : address + k < UInt8.size :=
    Nat.lt_of_lt_of_le (Nat.add_lt_add_left hlength address) hfit
  have hother : target ≠ UInt8.ofNat (address + k) := by
    intro heq
    have hnumber := congrArg UInt8.toNat heq
    rw [UInt8.toNat_ofNat_of_lt' hsize] at hnumber
    omega
  rw [fetch_store, if_neg hother, h k b hk]

theorem holds_load {m after : Memory} {image : Image} (h : m.load image = .ok after) :
    after.Holds 0 image := by
  unfold load at h
  split at h
  · next hfit =>
    obtain rfl := (Except.ok.inj h).symm
    intro k b hk
    obtain ⟨hlength, hbyte⟩ := List.getElem?_eq_some_iff.mp hk
    have hsize : k % UInt8.size = k := Nat.mod_eq_of_lt (Nat.lt_of_lt_of_le hlength hfit)
    simp [fetch, hsize, hlength, hbyte]
  · contradiction

end Memory

theorem State.fetch_of_holds {s : State} {bytes : List UInt8}
    (h : s.memory.Holds s.pc.toNat bytes) {k : Nat} {b : UInt8} (hk : bytes[k]? = some b) :
    s.fetch (UInt8.ofNat k) = b := by
  have haddress : s.pc + UInt8.ofNat k = UInt8.ofNat (s.pc.toNat + k) := by
    rw [UInt8.ofNat_add, UInt8.ofNat_toNat]
  rw [fetch, haddress, h k b hk]

end LS8
