import LS8.Assembly.Layout
import LS8.Proofs.Assembly.Lexing

/-!
# Spellings

The words in which listings write operation names, registers and values, and what the assembler
makes of them. A `Spelling` is such a word together with the operand it is read as and the byte that
operand gives; an instruction writes an operand byte its opcode accepts as `Spelling.ofOperand`.
-/
namespace LS8.Assembly

/-! ## Words -/

/-- Letters and digits, at least one. -/
structure IsWord (text : String) : Prop where
  nonempty : text.toList ≠ []
  alphanum : ∀ c ∈ text.toList, c.isAlphanum = true

theorem IsWord.isWordChar {text : String} (h : IsWord text) :
    ∀ c ∈ text.toList, isWordChar c = true :=
  fun c hc => isWordChar_of_isAlphanum (h.alphanum c hc)

/-- Digits make a word, whatever letters and digits stand in front of them. -/
theorem isWord_of_toList {text : String} {base width n : Nat} (front : List Char) (hlow : 1 < base)
    (hbase : base ≤ 16) (hfront : front.all Char.isAlphanum = true)
    (h : text.toList = front ++ Numeral.digits base width n) : IsWord text := by
  constructor
  · rw [h]
    exact List.append_ne_nil_of_right_ne_nil front (Numeral.digits_ne_nil base width n)
  · intro c hc
    rw [h, List.mem_append] at hc
    rcases hc with hchar | hdigit
    · exact List.all_eq_true.mp hfront c hchar
    · exact Numeral.isAlphanum_of_mem_digits hlow hbase hdigit

theorem toList_registerName (n : Nat) :
    ("R" ++ Numeral.decimal n).toList = 'R' :: Numeral.digits 10 1 n := by
  rw [String.toList_append, Numeral.toList_decimal]
  rfl

theorem isWord_registerName (n : Nat) : IsWord ("R" ++ Numeral.decimal n) :=
  isWord_of_toList ['R'] (by decide) (by decide) rfl (toList_registerName n)

theorem registerNumber?_eq_some_iff {name : String} {r : Register} :
    registerNumber? name = some r ↔
      ∃ digits, name.toList = 'R' :: digits ∧ Numeral.read? 10 7 digits = some r.val := by
  unfold registerNumber?
  split
  · next digits hname =>
    rw [hname]
    split
    · next n hn => simp [hn, Fin.ext_iff]
    · next hnone => simp [hnone]
  · next hname => simpa using fun digits h => absurd h (hname digits)

theorem registerNumber?_registerName (r : Register) :
    registerNumber? ("R" ++ Numeral.decimal r.val) = some r :=
  registerNumber?_eq_some_iff.mpr ⟨_, toList_registerName r.val,
    Numeral.read?_digits (by decide) (by decide) (Nat.le_of_lt_succ r.isLt)⟩

theorem ofWord_registerName (n : Nat) :
    Atom.ofWord ("R" ++ Numeral.decimal n).toList = .ok (.name ("R" ++ Numeral.decimal n)) := by
  have hcapital : ∀ c ∈ ("R" ++ Numeral.decimal n).toList,
      c.isAlphanum = true ∧ c.isLower = false := by
    intro c hc
    refine ⟨(isWord_registerName n).alphanum c hc, ?_⟩
    rw [toList_registerName, List.mem_cons] at hc
    rcases hc with rfl | hdigit
    · rfl
    · exact isLower_of_isDigit (Numeral.isDigit_of_mem_digits hdigit)
  have hdigit : ("R" ++ Numeral.decimal n).toList.head?.any Char.isDigit = false := by
    rw [toList_registerName]
    rfl
  rw [Atom.ofWord_capitals hdigit hcapital, String.ofList_toList]

/-- A word that is read as an operand of the kind and gives the byte, whatever labels there are. -/
structure Spelling where
  text : String
  kind : OperandKind
  byte : UInt8
  atom : Atom
  operand : Operand
  word : IsWord text
  read : Atom.ofWord text.toList = .ok atom
  meant : Operand.ofAtom kind atom = .ok operand
  resolved : ∀ labels, operand.resolve labels = .ok byte

namespace Spelling

def register (b : UInt8) (h : OperandKind.register.accepts b = true) : Spelling where
  text := "R" ++ Numeral.decimal b.toNat
  kind := .register
  byte := b
  atom := .name ("R" ++ Numeral.decimal b.toNat)
  operand := .register ⟨b.toNat, of_decide_eq_true h⟩
  word := isWord_registerName b.toNat
  read := ofWord_registerName b.toNat
  meant := by
    have hnumber := registerNumber?_registerName ⟨b.toNat, of_decide_eq_true h⟩
    simp only [Operand.ofAtom, registerOfAtom, hnumber, Except.map]
  resolved := fun labels => by simp [Operand.resolve]

/-- Any word that is read as the number of a byte. -/
def number (b : UInt8) (text : String) (word : IsWord text)
    (read : Atom.ofWord text.toList = .ok (.number b.toNat)) : Spelling where
  text := text
  kind := .immediate
  byte := b
  atom := .number b.toNat
  operand := .value (.byte b)
  word := word
  read := read
  meant := by
    have hbyte : b.toNat < 256 := b.toNat_lt
    simp [Operand.ofAtom, Value.ofAtom, hbyte, Except.map]
  resolved := fun _ => rfl

def decimal (b : UInt8) : Spelling :=
  number b (Numeral.decimal b.toNat)
    (isWord_of_toList [] (by decide) (by decide) rfl (Numeral.toList_decimal b.toNat))
    (Atom.ofWord_decimal b)

def hexadecimal (b : UInt8) : Spelling :=
  number b (Numeral.byteText b)
    (isWord_of_toList ['0', 'x'] (by decide) (by decide) rfl (Numeral.toList_byteText b))
    (Atom.ofWord_byteText b)

/-- How an instruction writes an operand byte. -/
def ofOperand : (operand : OperandKind × UInt8) → operand.1.accepts operand.2 = true → Spelling
  | (.register, b), h => register b h
  | (.immediate, b), _ => decimal b

theorem text_ofOperand (operand : OperandKind × UInt8) (h : operand.1.accepts operand.2 = true) :
    (ofOperand operand h).text = operand.1.text operand.2 := by
  obtain ⟨kind, b⟩ := operand
  cases kind <;> rfl

theorem kind_ofOperand (operand : OperandKind × UInt8) (h : operand.1.accepts operand.2 = true) :
    (ofOperand operand h).kind = operand.1 := by
  obtain ⟨kind, b⟩ := operand
  cases kind <;> rfl

theorem byte_ofOperand (operand : OperandKind × UInt8) (h : operand.1.accepts operand.2 = true) :
    (ofOperand operand h).byte = operand.2 := by
  obtain ⟨kind, b⟩ := operand
  cases kind <;> rfl

end Spelling

/-! ## Names of operations -/

theorem ofMnemonic?_mnemonic (op : Opcode) : Opcode.ofMnemonic? op.mnemonic = some op := by
  have hall : ∀ op ∈ Opcode.all, Opcode.ofMnemonic? op.mnemonic = some op := by decide
  exact hall op op.mem_all

namespace Operation

theorem ofName_name (operation : Operation) : ofName operation.name = .ok operation := by
  cases operation with
  | data => rfl
  | opcode op =>
    have hall : ∀ op ∈ Opcode.all, op.mnemonic ≠ "DB" := by decide
    simp only [ofName, name, if_neg (hall op op.mem_all), ofMnemonic?_mnemonic]

theorem all_isUpper_name (operation : Operation) :
    operation.name.toList ≠ [] ∧ operation.name.toList.all Char.isUpper = true := by
  cases operation with
  | data => decide
  | opcode op =>
    have hall : ∀ op ∈ Opcode.all,
        op.mnemonic.toList ≠ [] ∧ op.mnemonic.toList.all Char.isUpper = true := by decide
    exact hall op op.mem_all

theorem isUpper_of_mem_name {operation : Operation} {c : Char} (h : c ∈ operation.name.toList) :
    c.isUpper = true :=
  List.all_eq_true.mp operation.all_isUpper_name.2 c h

theorem isWord_name (operation : Operation) : IsWord operation.name where
  nonempty := operation.all_isUpper_name.1
  alphanum := fun _ hc => isAlphanum_iff.mpr (Or.inl (Or.inl (isUpper_of_mem_name hc)))

theorem ofWord_name (operation : Operation) :
    Atom.ofWord operation.name.toList = .ok (.name operation.name) := by
  have hcapital : ∀ c ∈ operation.name.toList, c.isAlphanum = true ∧ c.isLower = false :=
    fun c hc => ⟨operation.isWord_name.alphanum c hc, isLower_of_isUpper (isUpper_of_mem_name hc)⟩
  have hdigit : operation.name.toList.head?.any Char.isDigit = false := by
    cases hname : operation.name.toList with
    | nil => rfl
    | cons c rest =>
      have hupper : c.isUpper = true :=
        isUpper_of_mem_name (by rw [hname]; exact List.mem_cons_self)
      exact isDigit_of_isUpper hupper
  rw [Atom.ofWord_capitals hdigit hcapital, String.ofList_toList]

end Operation
end LS8.Assembly
