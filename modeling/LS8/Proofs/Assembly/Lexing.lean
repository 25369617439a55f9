import LS8.Proofs.Assembly.Cutting
import LS8.Proofs.Text.Numeral

/-!
# Lexing words

How the lexer reads words of letters and digits that stand between blanks and commas, and what such
a word stands for: a name written in capitals is read as itself, and a numeral, in decimal or in
hexadecimal with its base in front, is read as its value.
-/
namespace LS8.Assembly

/-! ## Letters and digits -/

theorem isUpper_iff {c : Char} : c.isUpper = true ↔ 65 ≤ c.toNat ∧ c.toNat ≤ 90 :=
  decide_eq_true_iff

theorem isLower_iff {c : Char} : c.isLower = true ↔ 97 ≤ c.toNat ∧ c.toNat ≤ 122 :=
  Bool.and_eq_true_iff.trans (and_congr decide_eq_true_iff decide_eq_true_iff)

theorem isDigit_iff {c : Char} : c.isDigit = true ↔ 48 ≤ c.toNat ∧ c.toNat ≤ 57 :=
  Char.isDigit_iff_toNat

theorem isAlphanum_iff {c : Char} :
    c.isAlphanum = true ↔ (c.isUpper = true ∨ c.isLower = true) ∨ c.isDigit = true := by
  rw [← Bool.or_eq_true, ← Bool.or_eq_true]
  rfl

theorem isLower_of_isUpper {c : Char} (h : c.isUpper = true) : c.isLower = false := by
  rw [isUpper_iff] at h
  rw [Bool.eq_false_iff, Ne, isLower_iff]
  omega

theorem isLower_of_isDigit {c : Char} (h : c.isDigit = true) : c.isLower = false := by
  rw [isDigit_iff] at h
  rw [Bool.eq_false_iff, Ne, isLower_iff]
  omega

theorem isDigit_of_isUpper {c : Char} (h : c.isUpper = true) : c.isDigit = false := by
  rw [isUpper_iff] at h
  rw [Bool.eq_false_iff, Ne, isDigit_iff]
  omega

theorem isBlank_of_isAlphanum {c : Char} (h : c.isAlphanum = true) : Text.isBlank c = false := by
  rw [isAlphanum_iff, isUpper_iff, isLower_iff, isDigit_iff] at h
  simp only [Text.isBlank, Text.blankRanges, List.any_cons, List.any_nil, Bool.or_eq_false_iff,
    Bool.and_eq_false_iff, decide_eq_false_iff_not, and_true]
  omega

theorem isWordChar_of_isAlphanum {c : Char} (h : c.isAlphanum = true) : isWordChar c = true := by
  have hblank := isBlank_of_isAlphanum h
  have hcomma : c ≠ ',' := by
    rintro rfl
    contradiction
  have hcolon : c ≠ ':' := by
    rintro rfl
    contradiction
  simp [isWordChar, hblank, hcomma, hcolon]

theorem isComment_of_isAlphanum {c : Char} (h : c.isAlphanum = true) : isComment c = false := by
  have hsemicolon : c ≠ ';' := by
    rintro rfl
    contradiction
  have hhash : c ≠ '#' := by
    rintro rfl
    contradiction
  simp [isComment, hsemicolon, hhash]

theorem upperChar_of_not_isLower {c : Char} (hascii : c.toNat < 0x80) (h : c.isLower = false) :
    Text.upperChar c = [c] := by
  have hcapital : c.toUpper = c := dif_neg fun hrange => by
    have hlower := isLower_iff.mpr hrange
    rw [h] at hlower
    contradiction
  simp only [Text.upperChar, if_pos hascii, hcapital]

theorem uppercase_of_not_isLower {word : List Char}
    (h : ∀ c ∈ word, c.isAlphanum = true ∧ c.isLower = false) : Text.uppercase word = word := by
  induction word with
  | nil => rfl
  | cons c word ih =>
    obtain ⟨halnum, hlower⟩ := h c List.mem_cons_self
    have hascii : c.toNat < 0x80 := by
      rw [isAlphanum_iff, isUpper_iff, isLower_iff, isDigit_iff] at halnum
      omega
    have hrest : word.flatMap Text.upperChar = word :=
      ih fun x hx => h x (List.mem_cons_of_mem c hx)
    rw [Text.uppercase, List.flatMap_cons, upperChar_of_not_isLower hascii hlower, hrest,
      List.singleton_append]

/-! ## Pieces -/

/-- Words with commas between them are cut into just that. -/
theorem pieces_intercalate {words : List (List Char)}
    (h : ∀ word ∈ words, word ≠ [] ∧ ∀ c ∈ word, isWordChar c = true) :
    pieces ([','].intercalate words) = (words.map .word).intersperse .comma := by
  induction words with
  | nil => rw [List.intercalate_nil, pieces]; rfl
  | cons word words ih =>
    obtain ⟨hne, hword⟩ := h word List.mem_cons_self
    have hrest := ih fun other hmem => h other (List.mem_cons_of_mem word hmem)
    cases words with
    | nil =>
      rw [List.intercalate_singleton, ← List.append_nil word, pieces_word hne hword rfl,
        List.append_nil, pieces]
      rfl
    | cons next words =>
      rw [List.intercalate_cons_cons, List.append_assoc, List.singleton_append,
        pieces_word hne hword rfl, pieces_comma, hrest]
      rfl

/-! ## What a word stands for -/

theorem numeralParts?_of_not_isDigit {word : List Char}
    (h : word.head?.any Char.isDigit = false) : numeralParts? word = none := by
  unfold numeralParts?
  split
  case h_5 => rw [if_neg (by simp [h])]
  all_goals contradiction

/-- A word of decimal digits has no base in front. -/
theorem numeralParts?_of_isDigit {word : List Char} (hne : word ≠ [])
    (h : ∀ c ∈ word, c.isDigit = true) : numeralParts? word = some (10, word) := by
  unfold numeralParts?
  split
  case h_5 =>
    have hhead : word.head?.any Char.isDigit = true := by
      cases word with
      | nil => contradiction
      | cons c word => exact h c List.mem_cons_self
    rw [if_pos hhead]
  -- Every base is announced by a letter, and it is the second character.
  all_goals
    have hbase := h _ (List.mem_cons_of_mem _ List.mem_cons_self)
    contradiction

namespace Atom

/-- The value of a byte is within what can be read, in every base and width it is written in. -/
theorem read?_byte (base : Nat) (hlow : 1 < base) (hbase : base ≤ 16) (width : Nat) (b : UInt8) :
    Numeral.read? base 0xFFFFFFFFFFFFFFFF (Numeral.digits base width b.toNat) = some b.toNat := by
  have hlimit : b.toNat ≤ 0xFFFFFFFFFFFFFFFF := by
    have := b.toNat_lt
    omega
  exact Numeral.read?_digits hlow hbase hlimit

theorem ofWord_capitals {word : List Char} (hdigit : word.head?.any Char.isDigit = false)
    (h : ∀ c ∈ word, c.isAlphanum = true ∧ c.isLower = false) :
    ofWord word = .ok (.name (String.ofList word)) := by
  rw [ofWord, numeralParts?_of_not_isDigit hdigit, uppercase_of_not_isLower h]

theorem ofWord_decimal (b : UInt8) :
    ofWord (Numeral.decimal b.toNat).toList = .ok (.number b.toNat) := by
  have hparts := numeralParts?_of_isDigit (Numeral.digits_ne_nil 10 1 b.toNat)
    fun c hc => Numeral.isDigit_of_mem_digits hc
  have hvalue := read?_byte 10 (by decide) (by decide) 1 b
  rw [Numeral.toList_decimal]
  simp only [ofWord, hparts, hvalue]

theorem ofWord_byteText (b : UInt8) :
    ofWord (Numeral.byteText b).toList = .ok (.number b.toNat) := by
  have hparts : numeralParts? (['0', 'x'] ++ Numeral.digits 16 2 b.toNat) =
      some (16, Numeral.digits 16 2 b.toNat) := rfl
  have hvalue := read?_byte 16 (by decide) (by decide) 2 b
  rw [Numeral.toList_byteText]
  simp only [ofWord, hparts, hvalue]

end Atom
end LS8.Assembly
