import LS8.Instruction

/-!
# Program images

A program is the list of its bytes, to be loaded from address zero on. Nothing bounds a list; what
holds an image to the size of memory is the machine's loader and the assembler.
-/
namespace LS8

abbrev Image := List UInt8

abbrev memorySize : Nat := 256

namespace Image

/-- The encodings one after the other; operand bytes are taken as they are. -/
def ofInstructions (instructions : List Instruction) : Image :=
  instructions.flatMap Instruction.encode

/-- An image that does not fit is refused in these words, wherever it is refused. -/
def tooLargeText (size : Nat) : String :=
  "program of " ++ Numeral.decimal size ++ " bytes exceeds memory capacity of " ++
    Numeral.decimal memorySize ++ " bytes"

end Image
end LS8
