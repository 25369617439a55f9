import LS8.Proofs.Assembly.LastOperand
import LS8.Proofs.Text.Positional

/-!
# Numbers as operands

A value is written in decimal, or in hexadecimal or binary with the base in front. Its numeral is
read up to 64 bits and then has to be a byte, so that it is either the byte of its value or an
error: with the value in decimal where it could be read, and with the numeral as it stands where it
is beyond 64 bits (`readOperand_of_written`). Nothing wraps, whatever the length of the numeral
(`assemble_numeral`).
-/
namespace LS8
namespace Assembly

/-! ## Numerals -/

/-- The letter behind a zero that tells the base of the digits behind it. -/
inductive Announces : Char → Nat → Prop
  | hexadecimal {c} (h : c = 'x' ∨ c = 'X') : Announces c 16
  | binary {c} (h : c = 'b' ∨ c = 'B') : Announces c 2

/-- The word writes the number: in decimal, or in a base that is told in front. -/
inductive Written : List Char → Nat → Prop
  | decimal {digits v} (h : Numeral.HasValue 10 digits v) : Written digits v
  | based {c base digits v} (hc : Announces c base) (h : Numeral.HasValue base digits v) :
      Written ('0' :: c :: digits) v

section Written

variable {word digits : List Char} {base v : Nat} {c : Char}

theorem Announces.base_le (h : Announces c base) : base ≤ 16 := by
  cases h <;> decide

theorem Announces.isAlphanum (h : Announces c base) : c.isAlphanum = true := by
  rcases h with (rfl | rfl) | (rfl | rfl) <;> rfl

theorem Announces.numeralParts? (h : Announces c base) (digits : List Char) :
    numeralParts? ('0' :: c :: digits) = some (base, digits) := by
  rcases h with (rfl | rfl) | (rfl | rfl) <;> rfl

theorem Written.numeralParts? (h : Written word v) :
    ∃ base digits, numeralParts? word = some (base, digits) ∧ base ≤ 16 ∧
      Numeral.HasValue base digits v := by
  cases h with
  | decimal h =>
    exact ⟨10, word, numeralParts?_of_isDigit h.1 fun c => h.isDigit (by decide), by decide, h⟩
  | @based c base digits v hc h =>
    exact ⟨base, digits, hc.numeralParts? digits, hc.base_le, h⟩

theorem Written.ne_nil (h : Written word v) : word ≠ [] := by
  cases h with
  | decimal h => exact h.1
  | based => exact List.cons_ne_nil _ _

theorem Written.isAlphanum (h : Written word v) : ∀ c ∈ word, c.isAlphanum = true := by
  cases h with
  | decimal h => exact fun c => h.isAlphanum (by decide)
  | based hc h =>
    rw [List.forall_mem_cons, List.forall_mem_cons]
    exact ⟨rfl, hc.isAlphanum, fun c => h.isAlphanum hc.base_le⟩

theorem ofWord_of_written (h : Written word v) :
    Atom.ofWord word =
      if v < 2 ^ 64 then .ok (.number v) else .error (.invalidNumber (String.ofList word)) := by
  obtain ⟨base, digits, hparts, hbase, hvalue⟩ := h.numeralParts?
  have hread : Numeral.read? base 0xFFFFFFFFFFFFFFFF digits =
      if v ≤ 0xFFFFFFFFFFFFFFFF then some v else none :=
    Numeral.read?_of_hasValue hbase hvalue
  by_cases hlimit : v < 2 ^ 64
  · rw [if_pos (by omega)] at hread
    simp only [Atom.ofWord, hparts, hread, if_pos hlimit]
  · rw [if_neg (by omega)] at hread
    simp only [Atom.ofWord, hparts, hread, if_neg hlimit]

/-- The limit of the reader and the limit of a byte leave no gap between them. -/
theorem readOperand_of_written (h : Written word v) :
    readOperand .immediate word =
      if v ≤ 255 then .ok (.value (.byte (UInt8.ofNat v)))
      else .error (.invalidNumber
        (if v < 2 ^ 64 then Numeral.decimal v else String.ofList word)) := by
  rw [readOperand, ofWord_of_written h]
  by_cases hread : v < 2 ^ 64
  · rw [if_pos hread, if_pos hread]
    by_cases hbyte : v ≤ 255
    · have hlt : v < 256 := by omega
      simp [Operand.ofAtom, Value.ofAtom, hbyte, hlt, bind, Except.bind, Except.map]
    · have hlt : ¬ v < 256 := by omega
      simp [Operand.ofAtom, Value.ofAtom, hbyte, hlt, bind, Except.bind, Except.map]
  · have hbyte : ¬ v ≤ 255 := by omega
    rw [if_neg hread, if_neg hread, if_neg hbyte]
    rfl

end Written

/-! ## Where a value stands -/

/-- What stands on a line in front of a value, and the bytes that it gives: a data directive, or a
load up to the comma behind its register. -/
inductive TakesValue : String → List UInt8 → Prop
  | data : TakesValue "DB " []
  | load (r : Register) :
      TakesValue ("LDI R" ++ Numeral.decimal r.val ++ ",") [0x82, UInt8.ofNat r.val]

theorem TakesValue.exists_opening {start : String} {code : List UInt8}
    (h : TakesValue start code) :
    ∃ opening : Opening, opening.last = .immediate ∧ opening.code = code ∧
      ∀ word, start.toList ++ word = opening.line word := by
  cases h with
  | data => exact ⟨.data, rfl, rfl, fun word => Opening.line_data.symm⟩
  | load r =>
    have hlt : r.val < 8 := r.isLt
    have hvalue : (UInt8.ofNat r.val).toNat = r.val := by
      rw [UInt8.toNat_ofNat']
      omega
    have haccepts : OperandKind.register.accepts (UInt8.ofNat r.val) = true := by
      rw [OperandKind.accepts, hvalue]
      exact decide_eq_true r.isLt
    have hname : (Spelling.register _ haccepts).text = "R" ++ Numeral.decimal r.val :=
      congrArg (fun n => "R" ++ Numeral.decimal n) hvalue
    refine ⟨⟨.opcode .ldi, [.register _ haccepts], .immediate, rfl⟩, rfl, rfl, fun word => ?_⟩
    simp [Opening.line, Opening.words, Operation.line, Operation.name, Opcode.mnemonic, hname]

end Assembly

open Assembly

/-- **Numbers as operands.** Let a numeral of any length stand for a value, where `DB` or `LDI`
takes one. If the value is a byte, it is this byte that is added to a program that the line stands
behind, if there is room. If not, the line is refused, wherever it stands, if no line in front of it
is bad: with the value in decimal if that is below two to the 64, and with the numeral itself if it
is not. -/
theorem assemble_numeral {start numeral : String} {code : List UInt8} {v : Nat}
    (hstart : TakesValue start code) (h : Written numeral.toList v) :
    (v ≤ 255 → ∀ (front : String) (image : Image), (front = "" ∨ ∃ text, front = text ++ "\n") →
      assemble front = .ok image → image.length + code.length < memorySize →
      assemble (front ++ (start ++ numeral)) = .ok (image ++ (code ++ [UInt8.ofNat v]))) ∧
    (255 < v → ∀ (text : String) (k : Nat),
      (Text.lines text.toList)[k]? = some (start ++ numeral).toList →
      (∀ j < k, ∀ fault, ¬ Bad (Text.lines text.toList) j fault) →
      assemble text = .error (.atLine (k + 1) (.invalidNumber
        (if v < 2 ^ 64 then Numeral.decimal v else numeral)))) := by
  obtain ⟨opening, hlast, rfl, hline⟩ := hstart.exists_opening
  have hbare := bare_of_isAlphanum h.isAlphanum
  have hread := readOperand_of_written h
  rw [← hlast, String.ofList_toList] at hread
  have htext : (start ++ numeral).toList = opening.line numeral.toList := by
    rw [String.toList_append, hline]
  constructor
  · intro hbyte front image hclosed hfront hroom
    rw [if_pos hbyte] at hread
    exact Opening.assemble_completed htext h.ne_nil hbare hread (fun _ => rfl) hclosed hfront hroom
  · intro hlarge text k hk hfirst
    rw [if_neg (by omega)] at hread
    exact Opening.assemble_of_refused (hk.trans (congrArg some htext)) h.ne_nil hbare hread hfirst

/-- Leading zeros and letters in both cases, and the two limits. -/
theorem assemble_numeral_atLimits :
    (TakesValue "LDI R3," [0x82, 3] ∧ Written "0X0000fF".toList 255 ∧
      assemble "NOP\n" = .ok [0] ∧
      assemble "NOP\nLDI R3,0X0000fF" = .ok [0, 0x82, 3, 0xFF]) ∧
    (TakesValue "DB " [] ∧ Written "0xFFFFFFFFFFFFFFFF".toList (2 ^ 64 - 1) ∧
      assemble "DB 0xFFFFFFFFFFFFFFFF" =
        .error (.atLine 1 (.invalidNumber "18446744073709551615"))) ∧
    (Written "00018446744073709551616".toList (2 ^ 64) ∧
      assemble "DB 00018446744073709551616" =
        .error (.atLine 1 (.invalidNumber "00018446744073709551616"))) := by
  have hload : TakesValue "LDI R3," [0x82, 3] := .load 3
  have hbyte : Written "0X0000fF".toList 255 := by
    refine .based (.hexadecimal (.inr rfl)) ⟨by decide, [0, 0, 0, 0, 15, 15], ?_, by decide⟩
    exact (Numeral.mapM_digitValue?_eq_some_iff (by decide)).mp (by decide)
  have hwide : Written "0xFFFFFFFFFFFFFFFF".toList (2 ^ 64 - 1) := by
    refine .based (.hexadecimal (.inl rfl)) ⟨by decide, List.replicate 16 15, ?_, by decide⟩
    exact (Numeral.mapM_digitValue?_eq_some_iff (by decide)).mp (by decide)
  have hwider : Written "00018446744073709551616".toList (2 ^ 64) := by
    refine .decimal ⟨by decide,
      [0, 0, 0, 1, 8, 4, 4, 6, 7, 4, 4, 0, 7, 3, 7, 0, 9, 5, 5, 1, 6, 1, 6], ?_, by decide⟩
    exact (Numeral.mapM_digitValue?_eq_some_iff (by decide)).mp (by decide)
  have hfront : assemble "NOP\n" = .ok [0] := by decide +kernel
  refine ⟨⟨hload, hbyte, hfront, ?_⟩, ⟨.data, hwide, ?_⟩, hwider, ?_⟩
  · exact (assemble_numeral hload hbyte).1 (by decide) "NOP\n" [0] (.inr ⟨"NOP", by decide⟩) hfront
      (by decide)
  · exact (assemble_numeral .data hwide).2 (by decide) "DB 0xFFFFFFFFFFFFFFFF" 0 (by decide) nofun
  · exact (assemble_numeral .data hwider).2 (by decide) "DB 00018446744073709551616" 0 (by decide)
      nofun

end LS8
