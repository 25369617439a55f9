import LS8.Log
import LS8.Sweep
import LS8.Text.Blank

/-!
# Binary listings

A listing holds one byte a line, as one to eight binary digits. A hash sign starts a comment, blanks
around the digits and lines without digits do not count. The writer puts every byte on a line of
eight digits and comments the first byte of each instruction with its text.
-/
namespace LS8

/-- What is wrong with a line, with its text without comment and outer blanks. -/
inductive ListingFault where
  | invalidDigit (token : String)
  | valueTooWide (token : String)
  deriving DecidableEq, Repr

/-- Lines count from one. -/
structure ListingError where
  line : Nat
  fault : ListingFault
  deriving DecidableEq, Repr

def ListingFault.message : ListingFault → String
  | invalidDigit token => "'" ++ token ++ "' is not a binary byte"
  | valueTooWide token => "'" ++ token ++ "' is wider than 8 bits"

def ListingError.message (e : ListingError) : String :=
  "line " ++ Numeral.decimal e.line ++ ": " ++ e.fault.message

namespace Listing

def isBit (c : Char) : Bool := c == '0' || c == '1'

/-- The digits of a line: what is left of it without comment and outer blanks. -/
def content (line : List Char) : List Char := Text.trim (line.takeWhile (· != '#'))

/-- The byte of a line, if it has one. Wrong characters are reported before excess digits. What is
left is read as a numeral; that it is one, so that this reader has nothing to report, follows from
the checks in front of it. -/
def readLine (line : List Char) : Except ListingFault (Option UInt8) :=
  let bits := content line
  if bits.isEmpty then .ok none
  else if !bits.all isBit then .error (.invalidDigit (String.ofList bits))
  else if 8 < bits.length then .error (.valueTooWide (String.ofList bits))
  else
    match Numeral.read? 2 255 bits with
    | some value => .ok (some (UInt8.ofNat value))
    | none => .error (.invalidDigit (String.ofList bits))

/-- The bytes of the lines in order, the first line having the given number. -/
def readLines (number : Nat) : List (List Char) → Except ListingError Image
  | [] => .ok []
  | line :: more =>
    match readLine line with
    | .error fault => .error ⟨number, fault⟩
    | .ok cell => (readLines (number + 1) more).map (cell.toList ++ ·)

/-- The first line that is wrong decides; a listing may be longer than memory. -/
def parse (text : String) : Except ListingError Image :=
  readLines 1 (Text.lines text.toList)

def parsedRecord (image : Image) : Record :=
  ⟨.debug, "parsed " ++ Numeral.decimal image.length ++ " bytes"⟩

def row (b : UInt8) : String := Numeral.binary 8 b.toNat

def rows : Item → List String
  | .byte b => [row b]
  | .instruction i =>
    (row i.opcode.byte ++ " # " ++ i.text) :: i.operands.map fun (_, b) => row b

def render (image : Image) : String := Text.unlines ((sweep image).flatMap rows)

end Listing
end LS8
