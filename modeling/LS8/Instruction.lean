import LS8.Opcode
import LS8.Text.Numeral

/-!
# Instructions

An instruction is an opcode with two operand bytes, of which it uses as many as its opcode has
operands. `encode` writes those and nothing else; `decode` reads one instruction off the front of a
byte list and gives the reason when there is none. Reading checks register numbers and writing does
not, so the two are inverse on the well-formed instructions: `decode_encode_append` and
`encode_append_of_decode`.
-/
namespace LS8

abbrev registerCount : Nat := 8

abbrev Register := Fin registerCount

/-- Why bytes are no instruction. -/
inductive DecodeFault where
  | unsupportedOpcode (byte : UInt8)
  | invalidRegister (index : UInt8)
  /-- Fewer bytes than the opcode needs; there is no opcode if there are no bytes at all. -/
  | truncated (opcode : Option Opcode) (available : Nat)
  deriving DecidableEq, Repr

def DecodeFault.message : DecodeFault → String
  | unsupportedOpcode byte => "unsupported opcode: " ++ Numeral.byteText byte
  | invalidRegister index => "invalid register index: " ++ Numeral.decimal index.toNat
  | truncated none available =>
    "instruction needs 1 byte(s), only " ++ Numeral.decimal available ++ " available"
  | truncated (some op) available =>
    op.mnemonic ++ " needs " ++ Numeral.decimal op.width ++ " byte(s), only " ++
      Numeral.decimal available ++ " available"

def Opcode.ofByte (byte : UInt8) : Except DecodeFault Opcode :=
  match Opcode.ofByte? byte with
  | some op => .ok op
  | none => .error (.unsupportedOpcode byte)

def Register.ofByte (index : UInt8) : Except DecodeFault Register :=
  if h : index.toNat < registerCount then .ok ⟨index.toNat, h⟩ else .error (.invalidRegister index)

/-- A register operand has to name a register; any byte is a value. -/
def OperandKind.accepts : OperandKind → UInt8 → Bool
  | register, byte => byte.toNat < registerCount
  | immediate, _ => true

def OperandKind.text : OperandKind → UInt8 → String
  | register, byte => "R" ++ Numeral.decimal byte.toNat
  | immediate, byte => Numeral.decimal byte.toNat

structure Instruction where
  opcode : Opcode
  a : UInt8 := 0
  b : UInt8 := 0
  deriving DecidableEq, Repr

namespace Instruction

def width (i : Instruction) : Nat := i.opcode.width

/-- The operand bytes that the opcode uses, with their kinds. -/
def operands (i : Instruction) : List (OperandKind × UInt8) := i.opcode.operands.zip [i.a, i.b]

def encode (i : Instruction) : List UInt8 := i.opcode.byte :: i.operands.map (·.2)

/-- The mnemonic, and after a blank the operands with commas between them. -/
def text (i : Instruction) : String :=
  match i.operands with
  | [] => i.opcode.mnemonic
  | operands =>
    i.opcode.mnemonic ++ " " ++ ",".intercalate (operands.map fun (kind, byte) => kind.text byte)

/-- Register operands name registers, and operand bytes that the opcode does not use are zero. -/
structure WellFormed (i : Instruction) : Prop where
  registers : ∀ operand ∈ i.operands, operand.1.accepts operand.2
  unused_a : i.opcode.operands.length < 1 → i.a = 0
  unused_b : i.opcode.operands.length < 2 → i.b = 0

/-- The first operand byte that its kind refuses is reported. -/
def ofOperands (opcode : Opcode) (bytes : List UInt8) : Except DecodeFault Instruction :=
  match (opcode.operands.zip bytes).find? fun (kind, byte) => !kind.accepts byte with
  | some (_, byte) => .error (.invalidRegister byte)
  | none => .ok ⟨opcode, bytes.getD 0 0, bytes.getD 1 0⟩

/-- Reads one instruction off the front; what follows it does not matter. -/
def decode : List UInt8 → Except DecodeFault Instruction
  | [] => .error (.truncated none 0)
  | byte :: rest => do
    let opcode ← Opcode.ofByte byte
    let bytes := rest.take opcode.operands.length
    if bytes.length < opcode.operands.length then
      .error (.truncated opcode (1 + bytes.length))
    else
      ofOperands opcode bytes

theorem width_pos (i : Instruction) : 0 < i.width := i.opcode.width_pos

theorem encode_length (i : Instruction) : i.encode.length = i.width := by
  have := i.opcode.operands_length_le
  simp only [encode, operands, width, Opcode.width, List.length_cons, List.length_map,
    List.length_zip, List.length_nil]
  omega

private theorem zip_pair (kinds : List OperandKind) (bytes : List UInt8)
    (hk : kinds.length ≤ 2) (h : bytes.length = kinds.length) :
    kinds.zip [bytes.getD 0 0, bytes.getD 1 0] = kinds.zip bytes := by
  rcases kinds with _ | ⟨k, _ | ⟨k', _ | ⟨k'', kinds⟩⟩⟩ <;>
    rcases bytes with _ | ⟨a, _ | ⟨b, _ | ⟨c, bytes⟩⟩⟩ <;> simp_all

theorem ofOperands_eq_ok {opcode : Opcode} {bytes : List UInt8} {i : Instruction}
    (hlen : bytes.length = opcode.operands.length) (h : ofOperands opcode bytes = .ok i) :
    i.opcode = opcode ∧ i.operands = opcode.operands.zip bytes ∧ i.WellFormed := by
  unfold ofOperands at h
  split at h
  · contradiction
  · next hnone =>
    obtain rfl := (Except.ok.inj h).symm
    have hoperands := zip_pair opcode.operands bytes opcode.operands_length_le hlen
    refine ⟨rfl, hoperands, fun operand hmem => ?_, fun hlt => ?_, fun hlt => ?_⟩
    · rw [operands, hoperands] at hmem
      simpa using List.find?_eq_none.mp hnone operand hmem
    · simp [List.getD_eq_getElem?_getD, show bytes.length ≤ 0 from by simp only at hlt; omega]
    · simp [List.getD_eq_getElem?_getD, show bytes.length ≤ 1 from by simp only at hlt; omega]

/-- A success takes the opcode from the first byte and its operands from the bytes behind it. -/
theorem decode_eq_ok {bytes : List UInt8} {i : Instruction} (h : decode bytes = .ok i) :
    ∃ rest, bytes = i.opcode.byte :: rest ∧ i.opcode.operands.length ≤ rest.length ∧
      i.operands = i.opcode.operands.zip (rest.take i.opcode.operands.length) ∧ i.WellFormed := by
  cases bytes with
  | nil => contradiction
  | cons b rest =>
    unfold decode Opcode.ofByte at h
    cases hop : Opcode.ofByte? b with
    | none => simp [hop, bind, Except.bind] at h
    | some opcode =>
      simp only [hop, bind, Except.bind] at h
      split at h
      · contradiction
      · next hlt =>
        have hlen : (rest.take opcode.operands.length).length = opcode.operands.length := by
          have := List.length_take_le opcode.operands.length rest
          omega
        obtain ⟨rfl, hoperands, hwf⟩ := ofOperands_eq_ok hlen h
        refine ⟨rest, ?_, ?_, hoperands, hwf⟩
        · rw [Opcode.ofByte?_eq_some_iff.mp hop]
        · rw [List.length_take] at hlen
          omega

/-- What was read is what stands at the front. -/
theorem encode_append_of_decode {bytes : List UInt8} {i : Instruction}
    (h : decode bytes = .ok i) : i.encode ++ bytes.drop i.width = bytes := by
  obtain ⟨rest, rfl, hlen, hoperands, _⟩ := decode_eq_ok h
  have hmap : i.operands.map (·.2) = rest.take i.opcode.operands.length := by
    rw [hoperands]
    exact List.map_snd_zip (Nat.le_of_eq (List.length_take_of_le hlen))
  rw [encode, hmap, width, Opcode.width, Nat.add_comm, List.drop_succ_cons, List.cons_append,
    List.take_append_drop]

/-- The bytes of an instruction are read back if its register operands name registers. -/
theorem decode_of_accepts {op : Opcode} {bytes : List UInt8}
    (hlength : bytes.length = op.operands.length)
    (haccepts : ∀ operand ∈ op.operands.zip bytes, operand.1.accepts operand.2 = true)
    (rest : List UInt8) :
    ∃ i, decode (op.byte :: (bytes ++ rest)) = .ok i ∧ i.opcode = op ∧
      i.operands = op.operands.zip bytes ∧ i.WellFormed := by
  have htake : (bytes ++ rest).take op.operands.length = bytes := List.take_left' hlength
  have hnone : (op.operands.zip bytes).find? (fun (kind, byte) => !kind.accepts byte) = none :=
    List.find?_eq_none.mpr fun operand hmem => by simp [haccepts operand hmem]
  have hread : ofOperands op bytes = .ok ⟨op, bytes.getD 0 0, bytes.getD 1 0⟩ := by
    unfold ofOperands
    rw [hnone]
  obtain ⟨hop, hoperands, hwf⟩ := ofOperands_eq_ok hlength hread
  refine ⟨_, ?_, hop, hoperands, hwf⟩
  simp only [decode, Opcode.ofByte, Opcode.ofByte?_byte, bind, Except.bind, htake, hlength,
    Nat.lt_irrefl, if_false, hread]

private theorem getD_operands {i : Instruction} (hwf : i.WellFormed) :
    (i.operands.map (·.2)).getD 0 0 = i.a ∧ (i.operands.map (·.2)).getD 1 0 = i.b := by
  obtain ⟨-, ha, hb⟩ := hwf
  simp only [operands]
  generalize i.opcode.operands = kinds at ha hb ⊢
  rcases kinds with _ | ⟨k, _ | ⟨k', kinds⟩⟩ <;> simp_all

/-- A well-formed instruction is known from its opcode and the operands that this uses. -/
theorem WellFormed.ext {i j : Instruction} (hi : i.WellFormed) (hj : j.WellFormed)
    (hopcode : i.opcode = j.opcode) (hoperands : i.operands = j.operands) : i = j := by
  have ha : i.a = j.a := by rw [← (getD_operands hi).1, ← (getD_operands hj).1, hoperands]
  have hb : i.b = j.b := by rw [← (getD_operands hi).2, ← (getD_operands hj).2, hoperands]
  cases i
  cases j
  simp_all

/-- A well-formed instruction is read back, whatever follows it. -/
theorem decode_encode_append {i : Instruction} (hwf : i.WellFormed) (rest : List UInt8) :
    decode (i.encode ++ rest) = .ok i := by
  have hlen : (i.operands.map (·.2)).length = i.opcode.operands.length := by
    have := i.encode_length
    simp only [encode, width, Opcode.width, List.length_cons] at this
    omega
  have hzip : i.opcode.operands.zip (i.operands.map (·.2)) = i.operands := by
    rw [← zip_pair _ _ i.opcode.operands_length_le hlen, (getD_operands hwf).1,
      (getD_operands hwf).2]
    rfl
  obtain ⟨j, hj, hopcode, hoperands, hwf'⟩ :=
    decode_of_accepts hlen (hzip.symm ▸ hwf.registers) rest
  rw [hzip] at hoperands
  obtain rfl := hwf'.ext hwf hopcode hoperands
  exact hj

end Instruction
end LS8
