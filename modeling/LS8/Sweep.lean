import LS8.Image
import LS8.Text.Lines

/-!
# Linear sweep

Cuts any image into instructions and single bytes, from the front and without a gap: where no
instruction can be read, one byte is passed over. The items hold exactly the bytes of the image, in
order (`bytes_sweep`). Assembly text of an image is its items, one a line.
-/
namespace LS8

inductive Item where
  | instruction (i : Instruction)
  /-- A byte at which no instruction begins. -/
  | byte (b : UInt8)
  deriving DecidableEq, Repr

namespace Item

def bytes : Item → List UInt8
  | instruction i => i.encode
  | byte b => [b]

def width (item : Item) : Nat := item.bytes.length

/-- In assembly language; a single byte is a data directive. -/
def text : Item → String
  | instruction i => i.text
  | byte b => "DB " ++ Numeral.byteText b

end Item

def sweep (image : Image) : List Item :=
  match image with
  | [] => []
  | b :: rest =>
    match Instruction.decode (b :: rest) with
    | .ok i => .instruction i :: sweep (rest.drop i.opcode.operands.length)
    | .error _ => .byte b :: sweep rest
termination_by image.length
decreasing_by all_goals grind

theorem bytes_sweep (image : Image) : (sweep image).flatMap Item.bytes = image := by
  fun_induction sweep image with
  | case1 => rfl
  | case2 b rest i h ih =>
    have hbytes := Instruction.encode_append_of_decode h
    rw [Instruction.width, Opcode.width, Nat.add_comm, List.drop_succ_cons] at hbytes
    simpa only [List.flatMap_cons, Item.bytes, ih] using hbytes
  | case3 b rest e h ih => rw [List.flatMap_cons, ih, Item.bytes, List.singleton_append]

/-- Items with their addresses, the first at the given one. -/
def addressed (address : Nat) : List Item → List (Nat × Item)
  | [] => []
  | item :: rest => (address, item) :: addressed (address + item.width) rest

def disassemble (image : Image) : String := Text.unlines ((sweep image).map Item.text)

def disassembleWithAddresses (image : Image) : String :=
  Text.unlines ((addressed 0 (sweep image)).map fun (address, item) =>
    Numeral.hex 2 address ++ ": " ++ item.text)

end LS8
