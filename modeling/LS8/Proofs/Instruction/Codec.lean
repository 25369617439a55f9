import LS8.Instruction

/-!
# The instruction codec

Writing and reading instructions, on all byte lists. An instruction is read off the front of a list
if and only if it is well-formed and its encoding stands there (`decode_eq_ok_iff`), so that no list
is refused that begins with an encoding. What else a list can begin with is told apart by `Refused`,
which has one case for each fault, and reading reports just that fault (`decode_eq_error_iff`).
-/
namespace LS8

theorem Opcode.byte_injective {op other : Opcode} (h : op.byte = other.byte) : op = other := by
  have hop := Opcode.ofByte?_byte op
  rw [h, Opcode.ofByte?_byte] at hop
  exact (Option.some.inj hop).symm

namespace Instruction

/-- Operand `k` has to be a register, and its byte is the number of none. -/
def BadRegister (op : Opcode) (bytes : List UInt8) (k : Nat) (b : UInt8) : Prop :=
  op.operands[k]? = some .register ∧ bytes[k]? = some b ∧ registerCount ≤ b.toNat

/-- Why no instruction can be read off the front of a byte list. A missing byte comes before a
register that does not exist, and of these the first one counts. -/
inductive Refused : List UInt8 → DecodeFault → Prop
  | empty : Refused [] (.truncated none 0)
  | opcode {b rest} (h : ∀ op : Opcode, op.byte ≠ b) : Refused (b :: rest) (.unsupportedOpcode b)
  | short {op : Opcode} {first rest} (hop : op.byte = first) (h : rest.length + 1 < op.width) :
      Refused (first :: rest) (.truncated op (rest.length + 1))
  | register {op : Opcode} {first rest k b} (hop : op.byte = first)
      (hwidth : op.width ≤ rest.length + 1) (hbad : BadRegister op rest k b)
      (hfirst : ∀ j < k, ∀ c, ¬ BadRegister op rest j c) :
      Refused (first :: rest) (.invalidRegister b)

section

variable {op : Opcode} {bytes rest : List UInt8} {b : UInt8} {k : Nat} {i : Instruction}
  {fault : DecodeFault}

theorem take_width_of_decode (h : decode bytes = .ok i) : bytes.take i.width = i.encode := by
  conv => lhs; rw [← encode_append_of_decode h]
  exact List.take_left' i.encode_length

theorem decode_eq_ok_iff :
    decode bytes = .ok i ↔ i.WellFormed ∧ bytes.take i.width = i.encode := by
  constructor
  · intro h
    obtain ⟨-, -, -, -, hwf⟩ := decode_eq_ok h
    exact ⟨hwf, take_width_of_decode h⟩
  · rintro ⟨hwf, htake⟩
    rw [← List.take_append_drop i.width bytes, htake]
    exact decode_encode_append hwf _

/-! ## Faults -/

theorem decode_of_not_opcode (h : ∀ op : Opcode, op.byte ≠ b) :
    decode (b :: rest) = .error (.unsupportedOpcode b) := by
  have hnone : Opcode.ofByte? b = none := by
    rw [Option.eq_none_iff_forall_ne_some]
    intro op hop
    exact h op (Opcode.ofByte?_eq_some_iff.mp hop)
  simp only [decode, Opcode.ofByte, hnone, bind, Except.bind]

theorem decode_byte_cons (op : Opcode) (rest : List UInt8) :
    decode (op.byte :: rest) =
      if rest.length + 1 < op.width then .error (.truncated op (rest.length + 1))
      else ofOperands op (rest.take op.operands.length) := by
  have hwidth : rest.length + 1 < op.width ↔ rest.length < op.operands.length := by
    rw [Opcode.width]
    omega
  simp only [decode, Opcode.ofByte, Opcode.ofByte?_byte, bind, Except.bind, List.length_take,
    hwidth]
  by_cases hshort : rest.length < op.operands.length
  · rw [if_pos hshort, Nat.min_eq_right (Nat.le_of_lt hshort), if_pos hshort, Nat.add_comm]
  · rw [if_neg hshort, Nat.min_eq_left (Nat.le_of_not_lt hshort), if_neg (Nat.lt_irrefl _)]

theorem not_accepts_iff {kind : OperandKind} :
    (!kind.accepts b) = true ↔ kind = .register ∧ registerCount ≤ b.toNat := by
  cases kind with
  | register => simp [OperandKind.accepts]
  | immediate => simp [OperandKind.accepts]

theorem badRegister_iff : BadRegister op bytes k b ↔
    ∃ operand, (op.operands.zip bytes)[k]? = some operand ∧
      (!operand.1.accepts operand.2) = true ∧ operand.2 = b := by
  constructor
  · rintro ⟨hkind, hb, hnone⟩
    exact ⟨(.register, b), List.getElem?_zip_eq_some.mpr ⟨hkind, hb⟩,
      not_accepts_iff.mpr ⟨rfl, hnone⟩, rfl⟩
  · rintro ⟨⟨kind, b⟩, hget, hnot, rfl⟩
    obtain ⟨hkind, hb⟩ := List.getElem?_zip_eq_some.mp hget
    obtain ⟨rfl, hnone⟩ := not_accepts_iff.mp hnot
    exact ⟨hkind, hb, hnone⟩

theorem BadRegister.unique {c : UInt8} (h : BadRegister op bytes k b)
    (h' : BadRegister op bytes k c) : b = c :=
  Option.some.inj (h.2.1.symm.trans h'.2.1)

/-- Operands are refused for the first register among them that does not exist. -/
theorem ofOperands_eq_error_iff : ofOperands op bytes = .error fault ↔
    ∃ k b, BadRegister op bytes k b ∧ (∀ j < k, ∀ c, ¬ BadRegister op bytes j c) ∧
      fault = .invalidRegister b := by
  unfold ofOperands
  split
  case h_2 hfind =>
    have hnone : ∀ k b, ¬ BadRegister op bytes k b := by
      intro k b hbad
      obtain ⟨operand, hget, hnot, -⟩ := badRegister_iff.mp hbad
      exact List.find?_eq_none.mp hfind operand (List.mem_of_getElem? hget) hnot
    simp [hnone]
  case h_1 kind byte hfind =>
    obtain ⟨hnot, k, hk, hget, hbefore⟩ := List.find?_eq_some_iff_getElem.mp hfind
    have hbad : BadRegister op bytes k byte :=
      badRegister_iff.mpr ⟨(kind, byte), List.getElem?_eq_some_iff.mpr ⟨hk, hget⟩, hnot, rfl⟩
    have hfirst : ∀ j < k, ∀ c, ¬ BadRegister op bytes j c := by
      intro j hj c hbad'
      obtain ⟨other, hother, hnot', -⟩ := badRegister_iff.mp hbad'
      obtain ⟨_, rfl⟩ := List.getElem?_eq_some_iff.mp hother
      have haccepts := hbefore j hj
      simp only [hnot', Bool.not_true, Bool.false_eq_true] at haccepts
    constructor
    · intro h
      exact ⟨k, byte, hbad, hfirst, (Except.error.inj h).symm⟩
    · rintro ⟨j, b, hbad', hfirst', rfl⟩
      rcases Nat.lt_trichotomy j k with hlt | rfl | hlt
      · exact absurd hbad' (hfirst j hlt b)
      · obtain rfl := hbad.unique hbad'
        rfl
      · exact absurd hbad (hfirst' k hlt _)

theorem badRegister_take : BadRegister op (rest.take op.operands.length) k b ↔
    BadRegister op rest k b := by
  unfold BadRegister
  by_cases hk : k < op.operands.length
  · rw [List.getElem?_take_of_lt hk]
  · simp [List.getElem?_eq_none (Nat.le_of_not_lt hk)]

theorem decode_eq_error_iff : decode bytes = .error fault ↔ Refused bytes fault := by
  cases bytes with
  | nil =>
    constructor
    · rintro ⟨⟩
      exact .empty
    · rintro ⟨⟩
      rfl
  | cons first rest =>
    by_cases hop : ∃ op : Opcode, op.byte = first
    · obtain ⟨op, rfl⟩ := hop
      rw [decode_byte_cons]
      by_cases hshort : rest.length + 1 < op.width
      · rw [if_pos hshort]
        constructor
        · rintro ⟨⟩
          exact .short rfl hshort
        · intro h
          cases h with
          | opcode h => exact absurd rfl (h op)
          | short hop => rw [Opcode.byte_injective hop]
          | register hop hwidth =>
            rw [Opcode.byte_injective hop] at hwidth
            omega
      · rw [if_neg hshort, ofOperands_eq_error_iff]
        simp only [badRegister_take]
        constructor
        · rintro ⟨k, b, hbad, hfirst, rfl⟩
          exact .register rfl (Nat.le_of_not_lt hshort) hbad hfirst
        · intro h
          cases h with
          | opcode h => exact absurd rfl (h op)
          | short hop h =>
            rw [Opcode.byte_injective hop] at h
            contradiction
          | register hop hwidth hbad hfirst =>
            obtain rfl := Opcode.byte_injective hop
            exact ⟨_, _, hbad, hfirst, rfl⟩
    · have hnone : ∀ op : Opcode, op.byte ≠ first := not_exists.mp hop
      rw [decode_of_not_opcode hnone]
      constructor
      · rintro ⟨⟩
        exact .opcode hnone
      · intro h
        cases h with
        | opcode => rfl
        | short hop => exact absurd hop (hnone _)
        | register hop => exact absurd hop (hnone _)

end

/-- **The instruction codec.** What is read is what stands at the front of the bytes, and it is
well-formed. Bytes at whose front nothing is read are refused for the one reason that they give, and
they begin with no encoding of a well-formed instruction. A well-formed instruction is read back,
whatever follows its encoding. -/
theorem codec_inverse :
    (∀ bytes i, decode bytes = .ok i → i.encode = bytes.take i.width ∧ i.WellFormed) ∧
      (∀ bytes fault, decode bytes = .error fault ↔ Refused bytes fault) ∧
      (∀ bytes fault, decode bytes = .error fault →
        ∀ i : Instruction, i.WellFormed → ¬ i.encode <+: bytes) ∧
      ∀ (i : Instruction) (tail : List UInt8), i.WellFormed →
        decode (i.encode ++ tail) = .ok i := by
  refine ⟨fun bytes i h => ?_, fun bytes fault => decode_eq_error_iff,
    fun bytes fault h i hwf => ?_, fun i tail hwf => decode_encode_append hwf tail⟩
  · obtain ⟨hwf, htake⟩ := decode_eq_ok_iff.mp h
    exact ⟨htake.symm, hwf⟩
  · rintro ⟨tail, rfl⟩
    rw [decode_encode_append hwf] at h
    cases h

/-- One byte is lost, and the opcode behind it is taken for a register. -/
theorem codec_inverse_lostByte :
    let i : Instruction := ⟨.alu .not, 2, 7⟩
    (decode [0x69, 2, 7, 0x82] = .ok i ∧ i.encode = [0x69, 2, 7] ∧ i.WellFormed) ∧
      (decode [0x69, 2, 0x82] = .error (.invalidRegister 0x82) ∧ ¬ i.encode <+: [0x69, 2, 0x82]) ∧
      decode (i.encode ++ [0x82]) = .ok i := by
  intro i
  obtain ⟨hread, -, hprefix, hback⟩ := codec_inverse
  obtain ⟨hencode, hwf⟩ := hread [0x69, 2, 7, 0x82] i rfl
  exact ⟨⟨rfl, hencode, hwf⟩, ⟨rfl, hprefix [0x69, 2, 0x82] _ rfl i hwf⟩, hback i [0x82] hwf⟩

end Instruction
end LS8
