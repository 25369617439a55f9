import LS8.Proofs.Text.Numeral
import Mathlib.Data.List.Forall2
import Mathlib.Data.Nat.Digits.Defs

/-!
# Positional notation

What a row of digits denotes, in any base up to sixteen and with letters in either case, said
without the reader: each character is the digit of a number below the base, and the last of these
numbers counts one. The reader takes just such rows, with a plus sign in front or without, and
reads their values up to its limit (`read?_eq_some_iff_hasValue`).
-/
namespace LS8.Numeral

/-- The character stands for the number in the base. -/
def IsDigit (base : Nat) (c : Char) (d : Nat) : Prop :=
  d < base ∧ (c = Nat.digitChar d ∨ c = (Nat.digitChar d).toUpper)

/-- At least one digit of the base, and the number that they denote. -/
def HasValue (base : Nat) (digits : List Char) (value : Nat) : Prop :=
  digits ≠ [] ∧ ∃ values, List.Forall₂ (IsDigit base) digits values ∧
    Nat.ofDigits base values.reverse = value

section

variable {base limit d n : Nat} {c : Char} {text digits : List Char} {values : List Nat}

/-- Reading digits from the first to the last gives the same as counting from the last. -/
theorem ofDigits_eq (base : Nat) (values : List Nat) :
    ofDigits base values = Nat.ofDigits base values.reverse := by
  rw [Nat.ofDigits_eq_foldr, List.foldr_reverse, ofDigits]
  congr 1
  funext n d
  simp only [Nat.cast_id]
  ring

theorem toNat_letter {d : Nat} (hlow : 10 ≤ d) (hd : d < 16) :
    (Nat.digitChar d).toNat = 87 + d ∧ (Nat.digitChar d).toUpper.toNat = 55 + d := by
  have hall : ∀ d : Fin 16, 10 ≤ d.val → (Nat.digitChar d.val).toNat = 87 + d.val ∧
      (Nat.digitChar d.val).toUpper.toNat = 55 + d.val := by decide
  exact hall ⟨d, hd⟩ hlow

theorem digitValue?_toUpper_digitChar (hbase : base ≤ 16) (hd : d < base) :
    digitValue? base (Nat.digitChar d).toUpper = some d := by
  have hall : ∀ d : Fin 16, ∀ base : Fin 17, d.val < base.val →
      digitValue? base.val (Nat.digitChar d.val).toUpper = some d.val := by decide
  exact hall ⟨d, by omega⟩ ⟨base, by omega⟩ hd

theorem digitValue?_eq_some_iff (hbase : base ≤ 16) :
    digitValue? base c = some d ↔ IsDigit base c d := by
  constructor
  · intro h
    have hle {a b : Char} : a ≤ b ↔ a.toNat ≤ b.toNat := Iff.rfl
    simp only [digitValue?, hle, Char.reduceToNat, Option.ite_none_right_eq_some,
      Option.some.injEq] at h
    obtain ⟨hlt, hd⟩ := h
    have hrange : (c.toNat = 48 + d ∧ d < 10) ∨ (c.toNat = 87 + d ∧ 10 ≤ d) ∨
        (c.toNat = 55 + d ∧ 10 ≤ d) := by
      split_ifs at hlt hd <;> omega
    refine ⟨hd ▸ hlt, ?_⟩
    rcases hrange with ⟨hc, hten⟩ | ⟨hc, hten⟩ | ⟨hc, hten⟩
    · left
      rw [← Char.toNat_inj, hc, Nat.toNat_digitChar_of_lt_ten hten]
    · left
      rw [← Char.toNat_inj, hc, (toNat_letter hten (by omega)).1]
    · right
      rw [← Char.toNat_inj, hc, (toNat_letter hten (by omega)).2]
  · rintro ⟨hd, rfl | rfl⟩
    · exact digitValue?_eq hbase hd
    · exact digitValue?_toUpper_digitChar hbase hd

theorem mapM_digitValue?_eq_some_iff (hbase : base ≤ 16) :
    digits.mapM (digitValue? base) = some values ↔
      List.Forall₂ (IsDigit base) digits values := by
  induction digits generalizing values with
  | nil => simp [eq_comm]
  | cons c digits ih =>
    rw [List.mapM_cons, List.forall₂_cons_left_iff]
    simp only [Option.bind_eq_bind, Option.bind_eq_some_iff, Option.pure_def, Option.some.injEq, ih,
      digitValue?_eq_some_iff hbase]
    constructor
    · rintro ⟨d, hd, rest, hrest, rfl⟩
      exact ⟨d, rest, hd, hrest, rfl⟩
    · rintro ⟨d, rest, hd, hrest, rfl⟩
      exact ⟨d, hd, rest, hrest, rfl⟩

theorem IsDigit.isAlphanum (hbase : base ≤ 16) (h : IsDigit base c d) : c.isAlphanum = true := by
  have hall : ∀ d : Fin 16, (Nat.digitChar d.val).isAlphanum = true ∧
      (Nat.digitChar d.val).toUpper.isAlphanum = true := by decide
  obtain ⟨hd, rfl | rfl⟩ := h
  · exact (hall ⟨d, by omega⟩).1
  · exact (hall ⟨d, by omega⟩).2

theorem IsDigit.isDigit (hbase : base ≤ 10) (h : IsDigit base c d) : c.isDigit = true := by
  have hall : ∀ d : Fin 10, (Nat.digitChar d.val).isDigit = true ∧
      (Nat.digitChar d.val).toUpper.isDigit = true := by decide
  obtain ⟨hd, rfl | rfl⟩ := h
  · exact (hall ⟨d, by omega⟩).1
  · exact (hall ⟨d, by omega⟩).2

theorem HasValue.exists_isDigit (h : HasValue base digits n) (hc : c ∈ digits) :
    ∃ d, IsDigit base c d := by
  obtain ⟨-, values, hvalues, -⟩ := h
  obtain ⟨i, hi, rfl⟩ := List.getElem_of_mem hc
  exact ⟨_, hvalues.get hi (hvalues.length_eq ▸ hi)⟩

theorem HasValue.isAlphanum (hbase : base ≤ 16) (h : HasValue base digits n) (hc : c ∈ digits) :
    c.isAlphanum = true := by
  obtain ⟨d, hd⟩ := h.exists_isDigit hc
  exact hd.isAlphanum hbase

theorem HasValue.isDigit (hbase : base ≤ 10) (h : HasValue base digits n) (hc : c ∈ digits) :
    c.isDigit = true := by
  obtain ⟨d, hd⟩ := h.exists_isDigit hc
  exact hd.isDigit hbase

/-- The sign is not a digit. -/
theorem HasValue.unsigned_eq (hbase : base ≤ 16) (h : HasValue base digits n) :
    unsigned digits = digits := by
  obtain ⟨-, values, hvalues, -⟩ := h
  exact unsigned_of_mapM ((mapM_digitValue?_eq_some_iff hbase).mpr hvalues)

/-- A row of digits is read as its value, unless that is beyond the limit. -/
theorem read?_of_hasValue (hbase : base ≤ 16) (h : HasValue base digits n) :
    read? base limit digits = if n ≤ limit then some n else none := by
  have hunsigned := h.unsigned_eq hbase
  obtain ⟨hne, values, hvalues, rfl⟩ := h
  rw [read?, hunsigned, (mapM_digitValue?_eq_some_iff hbase).mpr hvalues, ← ofDigits_eq]
  cases hvalues with
  | nil => contradiction
  | cons => rfl

theorem read?_eq_some_iff_hasValue (hbase : base ≤ 16) :
    read? base limit text = some n ↔ HasValue base (unsigned text) n ∧ n ≤ limit := by
  simp only [read?_eq_some_iff, mapM_digitValue?_eq_some_iff hbase, ofDigits_eq]
  constructor
  · rintro ⟨values, hvalues, hne, rfl, hle⟩
    refine ⟨⟨?_, values, hvalues, rfl⟩, hle⟩
    rintro hnil
    rw [hnil, List.forall₂_nil_left_iff] at hvalues
    exact hne hvalues
  · rintro ⟨⟨hne, values, hvalues, rfl⟩, hle⟩
    refine ⟨values, hvalues, ?_, rfl, hle⟩
    rintro rfl
    exact hne (List.forall₂_nil_right_iff.mp hvalues)

/-- A row of digits behind a sign, or without one. -/
theorem hasValue_unsigned_iff (hbase : base ≤ 16) :
    HasValue base (unsigned text) n ↔
      HasValue base text n ∨ ∃ digits, text = '+' :: digits ∧ HasValue base digits n := by
  constructor
  · intro h
    unfold unsigned at h
    split at h
    · next digits => exact .inr ⟨digits, rfl, h⟩
    · exact .inl h
  · rintro (h | ⟨digits, rfl, h⟩)
    · rwa [h.unsigned_eq hbase]
    · exact h

end

end LS8.Numeral
