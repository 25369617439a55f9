import LS8.Assembly.Token

/-!
# Statements

A line holds at most one label definition and at most one statement. A statement is an operation,
one of the machine's opcodes or the data directive `DB`, with as many operands as the operation has,
of the kinds it has. Values may be given as labels, which are looked up only when all of them are
known, so that a statement's size never depends on one.
-/
namespace LS8.Assembly

inductive Value where
  | byte (b : UInt8)
  | label (name : String)
  deriving DecidableEq, Repr

inductive Operand where
  | register (r : Register)
  | value (v : Value)
  deriving DecidableEq, Repr

inductive Operation where
  | data
  | opcode (op : Opcode)
  deriving DecidableEq, Repr

namespace Operation

def name : Operation → String
  | data => "DB"
  | opcode op => op.mnemonic

def operands : Operation → List OperandKind
  | data => [.immediate]
  | opcode op => op.operands

/-- The bytes in front of the operands. -/
def code : Operation → List UInt8
  | data => []
  | opcode op => [op.byte]

def width (operation : Operation) : Nat := operation.code.length + operation.operands.length

def ofName (name : String) : Except LineFault Operation :=
  if name = data.name then .ok data
  else
    match Opcode.ofMnemonic? name with
    | some op => .ok (opcode op)
    | none => .error (.unknownOpcode name)

end Operation

structure Statement where
  operation : Operation
  operands : List Operand
  deriving DecidableEq, Repr

def Statement.width (s : Statement) : Nat := s.operation.width

structure Line where
  label : Option String := none
  statement : Option Statement := none
  deriving DecidableEq, Repr

/-- The rest of an operand list of which `count` operands have been read; `fresh` says that none has
been read since the beginning or the last comma. Commas separate, and may be left out; a comma has
to follow an operand, and an operand has to follow it. -/
def operandsFrom (operation : String) (expected : Nat) :
    (count : Nat) → (fresh : Bool) → List Token → Except LineFault (List Atom)
  | count, fresh, [] =>
    if count < expected ∨ (fresh ∧ 0 < count) then .error (.missingArgument operation expected)
    else .ok []
  | count, fresh, .comma :: rest =>
    if fresh then .error (.unexpectedToken Token.comma.text)
    else operandsFrom operation expected count true rest
  | _, _, .colon :: _ => .error (.unexpectedToken Token.colon.text)
  | count, _, .atom a :: rest =>
    if count = expected then .error (.unexpectedToken a.text)
    else (operandsFrom operation expected (count + 1) false rest).map (a :: ·)

/-- Exactly the expected number of operands. -/
def operandList (operation : String) (expected : Nat) (tokens : List Token) :
    Except LineFault (List Atom) :=
  operandsFrom operation expected 0 true tokens

def Value.ofAtom : Atom → Except LineFault Value
  | .number n =>
    if n < 256 then .ok (.byte (UInt8.ofNat n)) else .error (.invalidNumber (Numeral.decimal n))
  | .name name => .ok (.label name)

/-- The letter R and a numeral; the digit stands for the register whatever sign or zeros precede it.
-/
def registerNumber? (name : String) : Option Register :=
  match name.toList with
  | 'R' :: digits =>
    match h : Numeral.read? 10 7 digits with
    | some n => some ⟨n, Nat.lt_succ_of_le (Numeral.le_limit_of_read? h)⟩
    | none => none
  | _ => none

def registerOfAtom (a : Atom) : Except LineFault Register :=
  match a with
  | .name name =>
    match registerNumber? name with
    | some r => .ok r
    | none => .error (.invalidRegister a.text)
  | .number _ => .error (.invalidRegister a.text)

def Operand.ofAtom : OperandKind → Atom → Except LineFault Operand
  | .register, a => (registerOfAtom a).map .register
  | .immediate, a => (Value.ofAtom a).map .value

/-- The operand list is complete before any operand is looked at. -/
def Statement.ofTokens : List Token → Except LineFault (Option Statement)
  | [] => .ok none
  | .atom (.name name) :: rest => do
    let operation ← Operation.ofName name
    let atoms ← operandList name operation.operands.length rest
    let operands ← (operation.operands.zip atoms).mapM fun (kind, a) => Operand.ofAtom kind a
    return some ⟨operation, operands⟩
  | token :: _ => .error (.unexpectedToken token.text)

/-- A name with a colon in front of everything else defines a label. -/
def Line.ofTokens : List Token → Except LineFault Line
  | .atom (.name label) :: .colon :: rest => do
    let statement ← Statement.ofTokens rest
    return { label := some label, statement := statement }
  | tokens => do
    let statement ← Statement.ofTokens tokens
    return { statement := statement }

def Line.parse (text : List Char) : Except LineFault Line := do
  let tokens ← tokenize text
  Line.ofTokens tokens

end LS8.Assembly
