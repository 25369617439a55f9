import LS8.Assembly.Statement
import LS8.Log
import LS8.Text.Lines

/-!
# Layout and image

The lines of a text, one after the other, give a layout: the statements, the addresses of the labels
and the size of the program. Only then are the statements turned into bytes, so that a label may be
used before the line that defines it. A fault of any line comes before the size, and the size before
a label that cannot be used.
-/
namespace LS8.Assembly

structure Placed where
  line : Nat
  statement : Statement
  deriving DecidableEq, Repr

/-- What the lines so far come to. -/
structure Layout where
  lines : Nat := 0
  placed : Array Placed := #[]
  labels : List (String × Nat) := []
  size : Nat := 0

namespace Layout

/-- A label stands for the address of what comes next. -/
def define (layout : Layout) : Option String → Except LineFault (List (String × Nat))
  | none => .ok layout.labels
  | some name =>
    if (layout.labels.lookup name).isSome then .error (.duplicateLabel name)
    else .ok ((name, layout.size) :: layout.labels)

def place (layout : Layout) (text : List Char) : Except LineFault Layout := do
  let line ← Line.parse text
  let labels ← layout.define line.label
  let placed := line.statement.toArray.map fun s => { line := layout.lines + 1, statement := s }
  return {
    lines := layout.lines + 1
    placed := layout.placed ++ placed
    labels := labels
    size := layout.size + (line.statement.map Statement.width).getD 0 }

def addLine (layout : Layout) (text : List Char) : Except AssemblyError Layout :=
  (layout.place text).mapError (.atLine (layout.lines + 1))

def ofText (text : String) : Except AssemblyError Layout :=
  (Text.lines text.toList).foldlM addLine {}

end Layout

/-- The byte of a value. A label at the very end of a full program has no byte. -/
def Value.resolve (labels : List (String × Nat)) : Value → Except LineFault UInt8
  | .byte b => .ok b
  | .label name =>
    match labels.lookup name with
    | none => .error (.undefinedLabel name)
    | some address =>
      if address < 256 then .ok (UInt8.ofNat address) else .error (.invalidNumber name)

def Operand.resolve (labels : List (String × Nat)) : Operand → Except LineFault UInt8
  | .register r => .ok (UInt8.ofNat r.val)
  | .value v => v.resolve labels

def Statement.bytes (labels : List (String × Nat)) (s : Statement) :
    Except LineFault (List UInt8) := do
  let operands ← s.operands.mapM (Operand.resolve labels)
  return s.operation.code ++ operands

namespace Layout

def placedBytes (layout : Layout) (p : Placed) : Except AssemblyError (List UInt8) :=
  (p.statement.bytes layout.labels).mapError (.atLine p.line)

def image (layout : Layout) : Except AssemblyError Image :=
  if memorySize < layout.size then .error (.programTooLarge layout.size)
  else do
    let chunks ← layout.placed.toList.mapM layout.placedBytes
    return chunks.flatten

end Layout

end Assembly

/-- The image of an assembly text, or the first thing wrong with it. -/
def assemble (text : String) : Except Assembly.AssemblyError Image := do
  let layout ← Assembly.Layout.ofText text
  layout.image

/-- What is logged for a text: a record if it can be assembled, and nothing otherwise. -/
def assembleRecords (text : String) : List Record :=
  match Assembly.Layout.ofText text, assemble text with
  | .ok layout, .ok image =>
    [⟨.debug, "assembled " ++ Numeral.decimal layout.placed.size ++ " statements into " ++
      Numeral.decimal image.length ++ " bytes"⟩]
  | _, _ => []

end LS8
