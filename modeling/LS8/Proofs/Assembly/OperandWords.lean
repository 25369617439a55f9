import LS8.Proofs.Assembly.Numbers
import LS8.Proofs.Text.Capitals

/-!
# Which words are operands

A register is the letter R, in either case, with a decimal numeral; a number is a decimal numeral,
or digits with their base in front. Zeros may stand in front of all of these digits, and one plus
sign behind the letter and behind the base, though not in front of a decimal number. Nothing else is
a register, and no other word that begins with a digit is a value (`readOperand_eq_ok_iff`); what is
refused is blamed for the first thing that is wrong with it (`readOperand_eq_error_iff`). Names are
compared in upper case, but no character outside ASCII makes a register that way.
-/
namespace LS8
namespace Assembly

def beginsWithDigit (word : List Char) : Bool := word.head?.any Char.isDigit

theorem ne_nil_of_beginsWithDigit {word : List Char} (h : beginsWithDigit word = true) :
    word ≠ [] := by
  rintro rfl
  cases h

/-! ## Spellings of registers -/

/-- The word names the register: the letter, perhaps a sign, and digits that have its number. -/
inductive SpellsRegister : List Char → Register → Prop
  | unsigned {c digits r} (hc : c = 'R' ∨ c = 'r') (h : Numeral.HasValue 10 digits r.val) :
      SpellsRegister (c :: digits) r
  | signed {c digits r} (hc : c = 'R' ∨ c = 'r') (h : Numeral.HasValue 10 digits r.val) :
      SpellsRegister (c :: '+' :: digits) r

section Register

variable {word text : List Char} {name : String} {c : Char} {r : Register} {n : Nat}

theorem registerNumber?_eq_some_iff_hasValue :
    registerNumber? name = some r ↔
      ∃ text, name.toList = 'R' :: text ∧ Numeral.HasValue 10 (Numeral.unsigned text) r.val := by
  have hlimit : r.val ≤ 7 := Nat.le_of_lt_succ r.isLt
  simp only [registerNumber?_eq_some_iff,
    Numeral.read?_eq_some_iff_hasValue (show 10 ≤ 16 by decide), hlimit, and_true]

theorem spellsRegister_iff :
    SpellsRegister word r ↔ ∃ c text, word = c :: text ∧ (c = 'R' ∨ c = 'r') ∧
      Numeral.HasValue 10 (Numeral.unsigned text) r.val := by
  simp only [Numeral.hasValue_unsigned_iff (show 10 ≤ 16 by decide)]
  constructor
  · rintro (⟨hc, h⟩ | ⟨hc, h⟩)
    · exact ⟨_, _, rfl, hc, .inl h⟩
    · exact ⟨_, _, rfl, hc, .inr ⟨_, rfl, h⟩⟩
  · rintro ⟨c, text, rfl, hc, h | ⟨digits, rfl, h⟩⟩
    · exact .unsigned hc h
    · exact .signed hc h

theorem mem_of_hasValue_unsigned (h : Numeral.HasValue 10 (Numeral.unsigned text) n)
    (hc : c ∈ text) : c = '+' ∨ c.isDigit = true := by
  rw [Numeral.hasValue_unsigned_iff (by decide)] at h
  rcases h with h | ⟨digits, rfl, h⟩
  · exact .inr (h.isDigit (by decide) hc)
  · rw [List.mem_cons] at hc
    rcases hc with rfl | hc
    · exact .inl rfl
    · exact .inr (h.isDigit (by decide) hc)

theorem toUpper_eq_R_iff : c.toUpper = 'R' ↔ c = 'R' ∨ c = 'r' := by
  constructor
  · exact eq_or_eq_toLower_of_toUpper
  · rintro (rfl | rfl) <;> rfl

/-- The upper case of a word is an R and a number if and only if the word itself is, up to the case
of its letter. -/
theorem registerNumber?_uppercase_iff :
    registerNumber? (String.ofList (Text.uppercase word)) = some r ↔ SpellsRegister word r := by
  rw [registerNumber?_eq_some_iff_hasValue, spellsRegister_iff, String.toList_ofList]
  have hupper {text : List Char} (h : Numeral.HasValue 10 (Numeral.unsigned text) r.val) :
      Text.uppercase word = 'R' :: text ↔
        ∃ c, word = c :: text ∧ (c = 'R' ∨ c = 'r') := by
    have hchars : ∀ d ∈ 'R' :: text, Text.isRegisterChar d = true := by
      rw [List.forall_mem_cons]
      refine ⟨rfl, fun d hd => ?_⟩
      rcases mem_of_hasValue_unsigned h hd with rfl | hdigit
      · rfl
      · simp [Text.isRegisterChar, hdigit]
    have hletters : ∀ d ∈ text, d.isAlpha = false := by
      intro d hd
      rcases mem_of_hasValue_unsigned h hd with rfl | hdigit
      · rfl
      · rw [isDigit_iff] at hdigit
        rw [Char.isAlpha, Bool.or_eq_false_iff, Bool.eq_false_iff, Bool.eq_false_iff, Ne, Ne,
          isUpper_iff, isLower_iff]
        omega
    rw [Text.uppercase_eq_iff hchars, Text.raise]
    constructor
    · intro hraise
      obtain ⟨c, rest, rfl, hc, hrest⟩ := List.map_eq_cons_iff.mp hraise
      obtain rfl := (Text.raise_eq_iff hletters).mp hrest
      exact ⟨c, rfl, toUpper_eq_R_iff.mp hc⟩
    · rintro ⟨c, rfl, hc⟩
      rw [List.map_cons, toUpper_eq_R_iff.mpr hc]
      exact congrArg _ ((Text.raise_eq_iff hletters).mpr rfl)
  constructor
  · rintro ⟨text, htext, h⟩
    obtain ⟨c, rfl, hc⟩ := (hupper h).mp htext
    exact ⟨c, text, rfl, hc, h⟩
  · rintro ⟨c, text, rfl, hc, h⟩
    exact ⟨text, (hupper h).mpr ⟨c, rfl, hc⟩, h⟩

end Register

/-! ## Spellings of numbers -/

/-- The word stands for the number, with a sign behind its base or as numbers are written. -/
inductive SpellsNumber : List Char → Nat → Prop
  | unsigned {word v} (h : Written word v) : SpellsNumber word v
  | signed {c base digits v} (hc : Announces c base) (h : Numeral.HasValue base digits v) :
      SpellsNumber ('0' :: c :: '+' :: digits) v

section Number

variable {word digits : List Char} {base base' v : Nat} {c : Char}

theorem Announces.unique (h : Announces c base) (h' : Announces c base') : base = base' := by
  rcases h with (rfl | rfl) | (rfl | rfl) <;> rcases h' with h' | h' <;> simp_all

theorem Announces.not_plain (h : Announces c base) (digits : List Char) :
    ¬ Plain ('0' :: c :: digits) := by
  rcases h with (rfl | rfl) | (rfl | rfl) <;> exact fun hplain => hplain _ (by simp) digits rfl

theorem exists_announces (h : ¬ Plain word) :
    ∃ c base digits, Announces c base ∧ word = '0' :: c :: digits := by
  simp only [Plain, not_forall, not_not] at h
  obtain ⟨c, hc, digits, rfl⟩ := h
  simp only [List.mem_cons, List.not_mem_nil, or_false] at hc
  rcases hc with rfl | rfl | rfl | rfl
  · exact ⟨_, _, digits, .hexadecimal (.inl rfl), rfl⟩
  · exact ⟨_, _, digits, .hexadecimal (.inr rfl), rfl⟩
  · exact ⟨_, _, digits, .binary (.inl rfl), rfl⟩
  · exact ⟨_, _, digits, .binary (.inr rfl), rfl⟩

theorem spellsNumber_iff_of_plain (h : Plain word) :
    SpellsNumber word v ↔ Numeral.HasValue 10 word v := by
  constructor
  · rintro ((hvalue | ⟨hc, -⟩) | ⟨hc, -⟩)
    · exact hvalue
    · exact absurd h (hc.not_plain _)
    · exact absurd h (hc.not_plain _)
  · exact fun hvalue => .unsigned (.decimal hvalue)

theorem spellsNumber_iff_of_announces (hc : Announces c base) :
    SpellsNumber ('0' :: c :: digits) v ↔ Numeral.HasValue base (Numeral.unsigned digits) v := by
  rw [Numeral.hasValue_unsigned_iff hc.base_le]
  constructor
  · rintro (h | ⟨hc', h⟩)
    · cases h with
      | decimal h =>
        -- The letter that tells the base is no decimal digit.
        have hdigit := h.isDigit (by decide) (List.mem_cons_of_mem _ List.mem_cons_self)
        rcases hc with (rfl | rfl) | (rfl | rfl) <;> cases hdigit
      | based hc' h =>
        obtain rfl := hc.unique hc'
        exact .inl h
    · obtain rfl := hc.unique hc'
      exact .inr ⟨_, rfl, h⟩
  · rintro (h | ⟨digits, rfl, h⟩)
    · exact .unsigned (.based hc h)
    · exact .signed hc h

/-- A word that begins with a digit has a base, and its digits are those of the number it stands
for. -/
theorem exists_numeralParts? (h : beginsWithDigit word = true) :
    ∃ base digits, numeralParts? word = some (base, digits) ∧ base ≤ 16 ∧
      ∀ v, Numeral.HasValue base (Numeral.unsigned digits) v ↔ SpellsNumber word v := by
  by_cases hplain : Plain word
  · have hsign : Numeral.unsigned word = word := by
      unfold Numeral.unsigned
      split
      · cases h
      · rfl
    refine ⟨10, word, ?_, by decide, fun v => ?_⟩
    · rw [numeralParts?_of_plain hplain]
      exact if_pos h
    · rw [hsign, spellsNumber_iff_of_plain hplain]
  · obtain ⟨c, base, digits, hc, rfl⟩ := exists_announces hplain
    exact ⟨base, digits, hc.numeralParts? digits, hc.base_le,
      fun v => (spellsNumber_iff_of_announces hc).symm⟩

theorem SpellsNumber.beginsWithDigit (h : SpellsNumber word v) : beginsWithDigit word = true := by
  rcases h with (h | -) | -
  · cases word with
    | nil => exact absurd rfl h.1
    | cons c digits => exact h.isDigit (by decide) List.mem_cons_self
  · rfl
  · rfl

theorem ofWord_of_spellsNumber (h : SpellsNumber word v) (hlimit : v < 2 ^ 64) :
    Atom.ofWord word = .ok (.number v) := by
  obtain ⟨base, digits, hparts, hbase, hvalue⟩ := exists_numeralParts? h.beginsWithDigit
  have hread : Numeral.read? base 0xFFFFFFFFFFFFFFFF digits = some v :=
    (Numeral.read?_eq_some_iff_hasValue hbase).mpr ⟨(hvalue v).mpr h, by omega⟩
  simp only [Atom.ofWord, hparts, hread]

theorem ofWord_of_misspelled (hdigit : beginsWithDigit word = true)
    (h : ∀ v < 2 ^ 64, ¬ SpellsNumber word v) :
    Atom.ofWord word = .error (.invalidNumber (String.ofList word)) := by
  obtain ⟨base, digits, hparts, hbase, hvalue⟩ := exists_numeralParts? hdigit
  have hread : Numeral.read? base 0xFFFFFFFFFFFFFFFF digits = none := by
    rw [Option.eq_none_iff_forall_not_mem]
    intro v hv
    obtain ⟨hspelled, hlimit⟩ := (Numeral.read?_eq_some_iff_hasValue hbase).mp hv
    exact h v (by omega) ((hvalue v).mp hspelled)
  simp only [Atom.ofWord, hparts, hread]

end Number

/-! ## Operands -/

/-- The word is taken for the operand. -/
inductive Accepted : OperandKind → List Char → Operand → Prop
  | register {word r} (h : SpellsRegister word r) : Accepted .register word (.register r)
  | byte {word v} (h : SpellsNumber word v) (hv : v ≤ 255) :
      Accepted .immediate word (.value (.byte (UInt8.ofNat v)))
  | label {word} (hdigit : beginsWithDigit word = false) :
      Accepted .immediate word (.value (.label (String.ofList (Text.uppercase word))))

/-- The word is no operand of the kind, and what it is blamed for. A numeral beyond 64 bits stands
for no number, wherever it is used. -/
inductive Refused : OperandKind → List Char → LineFault → Prop
  | misspelled {kind word} (hdigit : beginsWithDigit word = true)
      (h : ∀ v < 2 ^ 64, ¬ SpellsNumber word v) :
      Refused kind word (.invalidNumber (String.ofList word))
  | large {word v} (h : SpellsNumber word v) (hbyte : 255 < v) (hlimit : v < 2 ^ 64) :
      Refused .immediate word (.invalidNumber (Numeral.decimal v))
  | number {word v} (h : SpellsNumber word v) (hlimit : v < 2 ^ 64) :
      Refused .register word (.invalidRegister (Numeral.decimal v))
  | name {word} (hdigit : beginsWithDigit word = false) (h : ∀ r, ¬ SpellsRegister word r) :
      Refused .register word (.invalidRegister (String.ofList (Text.uppercase word)))

section Operand

variable {kind : OperandKind} {word : List Char} {operand : Operand} {fault : LineFault}
  {r r' : Register} {v v' : Nat}

theorem ofWord_of_not_digit (h : beginsWithDigit word = false) :
    Atom.ofWord word = .ok (.name (String.ofList (Text.uppercase word))) := by
  rw [Atom.ofWord, numeralParts?_of_not_isDigit h]

theorem SpellsRegister.not_beginsWithDigit (h : SpellsRegister word r) :
    beginsWithDigit word = false := by
  rcases h with ⟨rfl | rfl, -⟩ | ⟨rfl | rfl, -⟩ <;> rfl

theorem readOperand_of_accepted (h : Accepted kind word operand) :
    readOperand kind word = .ok operand := by
  cases h with
  | register h =>
    rw [readOperand, ofWord_of_not_digit h.not_beginsWithDigit]
    simp [bind, Except.bind, Operand.ofAtom, registerOfAtom,
      registerNumber?_uppercase_iff.mpr h, Except.map]
  | @byte word v h hv =>
    have hbyte : v < 256 := by omega
    rw [readOperand, ofWord_of_spellsNumber h (by omega)]
    simp [bind, Except.bind, Operand.ofAtom, Value.ofAtom, hbyte, Except.map]
  | label hdigit =>
    rw [readOperand, ofWord_of_not_digit hdigit]
    rfl

theorem readOperand_of_refused (h : Refused kind word fault) :
    readOperand kind word = .error fault := by
  cases h with
  | misspelled hdigit h =>
    rw [readOperand, ofWord_of_misspelled hdigit h]
    rfl
  | @large word v h hbyte hlimit =>
    have hlarge : ¬ v < 256 := by omega
    rw [readOperand, ofWord_of_spellsNumber h hlimit]
    simp [bind, Except.bind, Operand.ofAtom, Value.ofAtom, hlarge, Except.map]
  | number h hlimit =>
    rw [readOperand, ofWord_of_spellsNumber h hlimit]
    rfl
  | name hdigit h =>
    have hnone : registerNumber? (String.ofList (Text.uppercase word)) = none := by
      rw [Option.eq_none_iff_forall_not_mem]
      exact fun r hr => h r (registerNumber?_uppercase_iff.mp hr)
    rw [readOperand, ofWord_of_not_digit hdigit]
    simp [bind, Except.bind, Operand.ofAtom, registerOfAtom, hnone, Except.map, Atom.text]

/-- Where a value is expected, a word that begins with a digit is no label. -/
theorem Accepted.exists_byte (h : Accepted .immediate word operand)
    (hdigit : beginsWithDigit word = true) :
    ∃ v ≤ 255, SpellsNumber word v ∧ operand = .value (.byte (UInt8.ofNat v)) := by
  cases h with
  | byte h hv => exact ⟨_, hv, h, rfl⟩
  | label hname =>
    rw [hdigit] at hname
    cases hname

theorem accepted_or_refused (kind : OperandKind) (word : List Char) :
    (∃ operand, Accepted kind word operand) ∨ ∃ fault, Refused kind word fault := by
  cases hdigit : beginsWithDigit word with
  | true =>
    by_cases hnumber : ∃ v < 2 ^ 64, SpellsNumber word v
    · obtain ⟨v, hlimit, h⟩ := hnumber
      cases kind with
      | register => exact .inr ⟨_, .number h hlimit⟩
      | immediate =>
        by_cases hbyte : v ≤ 255
        · exact .inl ⟨_, .byte h hbyte⟩
        · exact .inr ⟨_, .large h (by omega) hlimit⟩
    · simp only [not_exists, not_and] at hnumber
      exact .inr ⟨_, .misspelled hdigit hnumber⟩
  | false =>
    cases kind with
    | register =>
      by_cases hname : ∃ r, SpellsRegister word r
      · obtain ⟨r, h⟩ := hname
        exact .inl ⟨_, .register h⟩
      · exact .inr ⟨_, .name hdigit (not_exists.mp hname)⟩
    | immediate => exact .inl ⟨_, .label hdigit⟩

theorem readOperand_eq_ok_iff : readOperand kind word = .ok operand ↔ Accepted kind word operand :=
  eq_ok_iff_of_cases (fun _ => readOperand_of_accepted) (fun _ => readOperand_of_refused)
    (accepted_or_refused kind word)

theorem readOperand_eq_error_iff :
    readOperand kind word = .error fault ↔ Refused kind word fault :=
  eq_error_iff_of_cases (fun _ => readOperand_of_accepted) (fun _ => readOperand_of_refused)
    (accepted_or_refused kind word)

end Operand

/-! ## Programs of one line -/

namespace Opening

section

variable {opening : Opening} {text : String} {word : List Char} {operand : Operand} {b : UInt8}
  {fault : LineFault} {image : Image}

theorem toList_print (w : String) : ("PRN " ++ w).toList = print.line w.toList := by
  rw [String.toList_append, line_print]

theorem toList_data (w : String) : ("DB " ++ w).toList = data.line w.toList := by
  rw [String.toList_append, line_data]

theorem assemble_of_accepted (hline : text.toList = opening.line word) (hne : word ≠ [])
    (hbare : Bare word) (hroom : opening.code.length < memorySize)
    (h : Accepted opening.last word operand) (hresolve : ∀ labels, operand.resolve labels = .ok b) :
    assemble text = .ok (opening.code ++ [b]) := by
  have hempty : assemble "" = .ok [] := rfl
  have halone := assemble_completed hline hne hbare (readOperand_of_accepted h) hresolve (.inl rfl)
    hempty (by simpa using hroom)
  rwa [String.empty_append, List.nil_append] at halone

theorem assemble_of_refusedWord (hline : text.toList = opening.line word) (hne : word ≠ [])
    (hbare : Bare word) (h : Refused opening.last word fault) :
    assemble text = .error (.atLine 1 fault) := by
  have hlines : Text.lines text.toList = [opening.line word] := by
    rw [hline]
    exact Text.lines_of_not_mem (not_mem_line hne hbare) Operation.line_ne_nil
  exact assemble_of_refused (k := 0) (by rw [hlines]; rfl) hne hbare (readOperand_of_refused h)
    nofun

/-- If the word is no label, it decides on the bytes of the line. -/
theorem assemble_eq_ok_iff (hline : text.toList = opening.line word) (hne : word ≠ [])
    (hbare : Bare word) (hroom : opening.code.length < memorySize)
    (hconstant : ∀ operand, Accepted opening.last word operand →
      ∃ b, ∀ labels, operand.resolve labels = .ok b) :
    assemble text = .ok image ↔ ∃ operand b, Accepted opening.last word operand ∧
      (∀ labels, operand.resolve labels = .ok b) ∧ image = opening.code ++ [b] := by
  constructor
  · intro himage
    rcases accepted_or_refused opening.last word with ⟨operand, h⟩ | ⟨fault, h⟩
    · obtain ⟨b, hb⟩ := hconstant operand h
      rw [assemble_of_accepted hline hne hbare hroom h hb] at himage
      exact ⟨operand, b, h, hb, (Except.ok.inj himage).symm⟩
    · rw [assemble_of_refusedWord hline hne hbare h] at himage
      cases himage
  · rintro ⟨operand, b, h, hb, rfl⟩
    exact assemble_of_accepted hline hne hbare hroom h hb

end

end Opening

section Line

variable {w : String} {image : Image}

theorem assemble_prn_iff (hne : w.toList ≠ []) (hbare : Bare w.toList) :
    assemble ("PRN " ++ w) = .ok image ↔
      ∃ r, SpellsRegister w.toList r ∧ image = [0x47, UInt8.ofNat r.val] := by
  have hregister : ∀ operand, Accepted .register w.toList operand →
      ∃ b, ∀ labels, operand.resolve labels = .ok b := by
    rintro _ ⟨h⟩
    exact ⟨_, fun _ => rfl⟩
  rw [Opening.assemble_eq_ok_iff (Opening.toList_print w) hne hbare (by decide) hregister]
  constructor
  · rintro ⟨operand, b, ⟨h⟩, hresolve, rfl⟩
    obtain rfl := Except.ok.inj (hresolve [])
    exact ⟨_, h, rfl⟩
  · rintro ⟨r, h, rfl⟩
    exact ⟨_, _, .register h, fun _ => rfl, rfl⟩

theorem assemble_db_iff (hbare : Bare w.toList) (hdigit : beginsWithDigit w.toList = true) :
    assemble ("DB " ++ w) = .ok image ↔
      ∃ v ≤ 255, SpellsNumber w.toList v ∧ image = [UInt8.ofNat v] := by
  have hbyte : ∀ operand, Accepted .immediate w.toList operand →
      ∃ b, ∀ labels, operand.resolve labels = .ok b := by
    intro operand h
    obtain ⟨v, -, -, rfl⟩ := h.exists_byte hdigit
    exact ⟨_, fun _ => rfl⟩
  rw [Opening.assemble_eq_ok_iff (Opening.toList_data w) (ne_nil_of_beginsWithDigit hdigit) hbare
    (by decide) hbyte]
  constructor
  · rintro ⟨operand, b, h, hresolve, rfl⟩
    obtain ⟨v, hv, hspelled, rfl⟩ := h.exists_byte hdigit
    obtain rfl := Except.ok.inj (hresolve [])
    exact ⟨v, hv, hspelled, rfl⟩
  · rintro ⟨v, hv, h, rfl⟩
    exact ⟨_, _, .byte h hv, fun _ => rfl, rfl⟩

end Line

end Assembly

open Assembly

/-- **Which words are operands.** For every word, `PRN` with the word is assembled if and only if
the word is a spelling of a register, and gives the byte of the register. For every word that begins
with a digit, `DB` with the word is assembled if and only if the word is a spelling of a byte. Every
other word is refused, as an invalid register or an invalid number. -/
theorem assemble_operand_iff {w : String} (hbare : Bare w.toList) :
    (∀ image, assemble ("PRN " ++ w) = .ok image ↔
      ∃ r, SpellsRegister w.toList r ∧ image = [0x47, UInt8.ofNat r.val]) ∧
    (w ≠ "" → (∀ r, ¬ SpellsRegister w.toList r) →
      ∃ fault, Refused .register w.toList fault ∧
        assemble ("PRN " ++ w) = .error (.atLine 1 fault)) ∧
    (beginsWithDigit w.toList = true →
      (∀ image, assemble ("DB " ++ w) = .ok image ↔
        ∃ v ≤ 255, SpellsNumber w.toList v ∧ image = [UInt8.ofNat v]) ∧
      ((∀ v ≤ 255, ¬ SpellsNumber w.toList v) →
        ∃ fault, Refused .immediate w.toList fault ∧
          assemble ("DB " ++ w) = .error (.atLine 1 fault))) := by
  have hnonempty (h : w ≠ "") : w.toList ≠ [] := fun hnil => h (String.toList_eq_nil_iff.mp hnil)
  refine ⟨fun image => ?_, fun hne hnone => ?_, fun hdigit => ⟨fun image => ?_, fun hnone => ?_⟩⟩
  · by_cases hempty : w = ""
    · subst hempty
      have hmissing : assemble ("PRN " ++ "") = .error (.atLine 1 (.missingArgument "PRN" 1)) := by
        decide +kernel
      rw [hmissing]
      constructor
      · nofun
      · rintro ⟨r, h, -⟩
        cases h
    · exact assemble_prn_iff (hnonempty hempty) hbare
  · rcases accepted_or_refused .register w.toList with ⟨operand, ⟨h⟩⟩ | ⟨fault, h⟩
    · exact absurd h (hnone _)
    · exact ⟨fault, h,
        Opening.assemble_of_refusedWord (Opening.toList_print w) (hnonempty hne) hbare h⟩
  · exact assemble_db_iff hbare hdigit
  · rcases accepted_or_refused .immediate w.toList with ⟨operand, h⟩ | ⟨fault, h⟩
    · obtain ⟨v, hv, hspelled, -⟩ := h.exists_byte hdigit
      exact absurd hspelled (hnone v hv)
    · exact ⟨fault, h, Opening.assemble_of_refusedWord (Opening.toList_data w)
        (ne_nil_of_beginsWithDigit hdigit) hbare h⟩

/-- A sign and zeros are let through, and a digit that is not of ASCII is not. -/
theorem assemble_operand_iff_signs :
    (Bare "r+007".toList ∧ SpellsRegister "r+007".toList 7 ∧
      assemble "PRN r+007" = .ok [0x47, 7]) ∧
    (Bare "R٣".toList ∧ (∀ r, ¬ SpellsRegister "R٣".toList r) ∧
      ∃ fault, Refused .register "R٣".toList fault ∧
        assemble "PRN R٣" = .error (.atLine 1 fault)) ∧
    (Bare "0B+0101".toList ∧ SpellsNumber "0B+0101".toList 5 ∧ assemble "DB 0B+0101" = .ok [5]) := by
  have hregister : Bare "r+007".toList := by decide +kernel
  have harabic : Bare "R٣".toList := by decide +kernel
  have hnumber : Bare "0B+0101".toList := by decide +kernel
  have hseven : SpellsRegister "r+007".toList 7 := by
    refine .signed (.inr rfl) ⟨by decide, [0, 0, 7], ?_, by decide⟩
    exact (Numeral.mapM_digitValue?_eq_some_iff (by decide)).mp (by decide)
  have hfive : SpellsNumber "0B+0101".toList 5 := by
    refine .signed (.binary (.inr rfl)) ⟨by decide, [0, 1, 0, 1], ?_, by decide⟩
    exact (Numeral.mapM_digitValue?_eq_some_iff (by decide)).mp (by decide)
  have hnone : ∀ r, ¬ SpellsRegister "R٣".toList r := by
    have hname : registerNumber? (String.ofList (Text.uppercase "R٣".toList)) = none := by
      decide +kernel
    intro r h
    rw [← registerNumber?_uppercase_iff, hname] at h
    cases h
  refine ⟨⟨hregister, hseven, ?_⟩, ⟨harabic, hnone, ?_⟩, hnumber, hfive, ?_⟩
  · exact ((assemble_operand_iff hregister).1 [0x47, 7]).mpr ⟨7, hseven, rfl⟩
  · exact (assemble_operand_iff harabic).2.1 (by decide) hnone
  · exact (((assemble_operand_iff hnumber).2.2 rfl).1 [5]).mpr ⟨5, by decide, hfive, rfl⟩

/-- The assembler takes words for operands that are neither one of the eight names of registers nor
a plain numeral: a signed and a padded number of a register, and a sign behind a base. -/
theorem signed_operands_assembled :
    (Bare "R+1".toList ∧ ¬ ((∃ image, assemble "PRN R+1" = .ok image) ↔
      ∃ r : Register, Text.SameLetters "R+1".toList ("R" ++ Numeral.decimal r.val).toList)) ∧
    (Bare "R01".toList ∧ ¬ ((∃ image, assemble "PRN R01" = .ok image) ↔
      ∃ r : Register, Text.SameLetters "R01".toList ("R" ++ Numeral.decimal r.val).toList)) ∧
    (Bare "0x+1F".toList ∧ beginsWithDigit "0x+1F".toList = true ∧
      ¬ ((∃ image, assemble "DB 0x+1F" = .ok image) ↔
        ∃ v ≤ 255, Written "0x+1F".toList v)) := by
  have hother {word : String} (hlength : word.toList.length = 3) :
      ¬ ∃ r : Register, Text.SameLetters word.toList ("R" ++ Numeral.decimal r.val).toList := by
    have htwo : ∀ r : Register, ("R" ++ Numeral.decimal r.val).toList.length = 2 := by
      decide +kernel
    rintro ⟨r, h⟩
    have hsame := h.length_eq
    rw [hlength, htwo] at hsame
    cases hsame
  have hnumber : ¬ ∃ v ≤ 255, Written "0x+1F".toList v := by
    rintro ⟨v, -, h⟩
    cases h.isAlphanum '+' (by decide)
  have hsigned : assemble "PRN R+1" = .ok [0x47, 1] := by decide +kernel
  have hpadded : assemble "PRN R01" = .ok [0x47, 1] := by decide +kernel
  have hbased : assemble "DB 0x+1F" = .ok [0x1F] := by decide +kernel
  refine ⟨⟨by decide +kernel, fun h => ?_⟩,
    ⟨by decide +kernel, fun h => ?_⟩,
    by decide +kernel, rfl, fun h => ?_⟩
  · exact hother (by decide) (h.mp ⟨_, hsigned⟩)
  · exact hother (by decide) (h.mp ⟨_, hpadded⟩)
  · exact hnumber (h.mp ⟨_, hbased⟩)

end LS8
