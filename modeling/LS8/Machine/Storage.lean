import LS8.Machine.Fault

/-!
# Memory and registers

256 bytes of memory and eight byte registers, all zero at the start. The machine itself addresses
memory by bytes, which cannot miss; an address or register number from outside is checked. What one
write does to every later read is said by `fetch_store` and `get_set`.
-/
namespace LS8

structure Memory where
  cells : Vector UInt8 memorySize := Vector.replicate memorySize 0
  deriving DecidableEq, Repr

namespace Memory

def fetch (m : Memory) (address : UInt8) : UInt8 := m.cells[address.toFin]

def store (m : Memory) (address value : UInt8) : Memory :=
  ⟨m.cells.set address.toFin value⟩

def read (m : Memory) (address : Nat) : Except Fault UInt8 :=
  if h : address < memorySize then .ok m.cells[address] else .error (.outOfBounds address)

def write (m : Memory) (address : Nat) (value : UInt8) : Except Fault Memory :=
  if h : address < memorySize then .ok ⟨m.cells.set address value⟩
  else .error (.outOfBounds address)

/-- The image replaces the first cells; the cells behind it keep what they held. -/
def load (m : Memory) (image : Image) : Except Fault Memory :=
  if image.length ≤ memorySize then
    .ok ⟨Vector.ofFn fun i => image.getD i (m.cells[i])⟩
  else
    .error (.programTooLarge image.length)

theorem fetch_store (m : Memory) (address value other : UInt8) :
    (m.store address value).fetch other = if address = other then value else m.fetch other := by
  simp [fetch, store, Vector.getElem_set, UInt8.toNat_inj]

end Memory

structure Registers where
  cells : Vector UInt8 registerCount := Vector.replicate registerCount 0
  deriving DecidableEq, Repr

namespace Registers

def get (rs : Registers) (r : Register) : UInt8 := rs.cells[r]

def set (rs : Registers) (r : Register) (value : UInt8) : Registers :=
  ⟨rs.cells.set r value⟩

def read (rs : Registers) (index : UInt8) : Except DecodeFault UInt8 :=
  (Register.ofByte index).map rs.get

def write (rs : Registers) (index value : UInt8) : Except DecodeFault Registers :=
  (Register.ofByte index).map (rs.set · value)

theorem get_set (rs : Registers) (r other : Register) (value : UInt8) :
    (rs.set r value).get other = if r = other then value else rs.get other := by
  simp [get, set, Vector.getElem_set, Fin.ext_iff]

end Registers
end LS8
