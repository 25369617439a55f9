import LS8.Text.Numeral

/-!
# Characters and values of numerals

A numeral is written in letters and decimal digits only, and in decimal digits only if its base is
at most ten. It is read if it has digits, all of them of the base, and its value is within the
limit. A byte in hexadecimal is two digits, which determine it.
-/
namespace LS8.Numeral

theorem mem_toDigits {base n : Nat} {c : Char} (hbase : 1 < base) (h : c ∈ Nat.toDigits base n) :
    ∃ d < base, c = Nat.digitChar d := by
  induction n using Nat.strongRecOn with
  | ind n ih =>
    by_cases hn : n < base
    · rw [Nat.toDigits_of_lt_base hn, List.mem_singleton] at h
      exact ⟨n, hn, h⟩
    · rw [Nat.toDigits_of_base_le hbase (by omega), List.mem_append, List.mem_singleton] at h
      rcases h with hinit | hlast
      · exact ih (n / base) (Nat.div_lt_self (by omega) hbase) hinit
      · exact ⟨n % base, Nat.mod_lt _ (by omega), hlast⟩

/-- The zeros in front are digits too. -/
theorem mem_digits {base width n : Nat} {c : Char} (hbase : 1 < base)
    (h : c ∈ digits base width n) : ∃ d < base, c = Nat.digitChar d := by
  rw [digits, List.leftpad, List.mem_append] at h
  rcases h with hzero | hdigit
  · exact ⟨0, Nat.lt_trans Nat.zero_lt_one hbase, List.eq_of_mem_replicate hzero⟩
  · exact mem_toDigits hbase hdigit

theorem isAlphanum_digitChar : ∀ d : Fin 16, (Nat.digitChar d.val).isAlphanum = true := by
  decide

theorem isAlphanum_of_mem_digits {base width n : Nat} {c : Char} (hlow : 1 < base)
    (hbase : base ≤ 16) (h : c ∈ digits base width n) : c.isAlphanum = true := by
  obtain ⟨d, hd, rfl⟩ := mem_digits hlow h
  exact isAlphanum_digitChar ⟨d, Nat.lt_of_lt_of_le hd hbase⟩

theorem isDigit_of_mem_digits {width n : Nat} {c : Char} (h : c ∈ digits 10 width n) :
    c.isDigit = true := by
  rw [digits, List.leftpad, List.mem_append] at h
  rcases h with hzero | hdigit
  · obtain rfl := List.eq_of_mem_replicate hzero
    rfl
  · exact Nat.isDigit_of_mem_toDigits (by decide) (by decide) hdigit

theorem digits_ne_nil (base width n : Nat) : digits base width n ≠ [] := by
  rw [digits, List.leftpad]
  exact List.append_ne_nil_of_right_ne_nil _ Nat.toDigits_ne_nil

theorem toList_decimal (n : Nat) : (decimal n).toList = digits 10 1 n := String.toList_ofList

theorem toList_byteText (b : UInt8) : (byteText b).toList = ['0', 'x'] ++ digits 16 2 b.toNat := by
  have hdigits : (hex 2 b.toNat).toList = digits 16 2 b.toNat := String.toList_ofList
  rw [byteText, String.toList_append, hdigits]
  rfl

theorem read?_eq_some_iff {base limit n : Nat} {text : List Char} :
    read? base limit text = some n ↔
      ∃ values, (unsigned text).mapM (digitValue? base) = some values ∧
        values ≠ [] ∧ ofDigits base values = n ∧ n ≤ limit := by
  unfold read?
  constructor
  · intro h
    split at h
    · cases h
    · cases h
    · next values hempty hvalues =>
      split at h
      · next hle =>
        obtain rfl := Option.some.inj h
        refine ⟨values, hvalues, ?_, rfl, hle⟩
        rintro rfl
        exact hempty rfl
      · cases h
  · rintro ⟨values, hvalues, hne, rfl, hle⟩
    rw [hvalues]
    cases values with
    | nil => contradiction
    | cons d values => exact if_pos hle

/-! ## Two digits of a byte -/

def upperDigits : List Char := "0123456789ABCDEF".toList

def lowerDigits : List Char := "0123456789abcdef".toList

/-- The text consists of the two digits of the byte, that of its upper half first, which are found
in the alphabet at their values. -/
def IsByte (alphabet : List Char) (b : UInt8) (text : String) : Prop :=
  ∃ high low, text.toList = [high, low] ∧ alphabet[b.toNat / 16]? = some high ∧
    alphabet[b.toNat % 16]? = some low

theorem digits_two {base n : Nat} (hbase : 1 < base) (hn : n < base * base) :
    digits base 2 n = [Nat.digitChar (n / base), Nat.digitChar (n % base)] := by
  rw [digits]
  by_cases hlt : n < base
  · rw [Nat.toDigits_of_lt_base hlt, Nat.div_eq_of_lt hlt, Nat.mod_eq_of_lt hlt]
    rfl
  · have hhigh : n / base < base := Nat.div_lt_of_lt_mul hn
    rw [Nat.toDigits_of_base_le hbase (by omega), Nat.toDigits_of_lt_base hhigh]
    rfl

theorem getElem?_lowerDigits : ∀ d : Fin 16, lowerDigits[d.val]? = some (Nat.digitChar d.val) := by
  decide

theorem getElem?_upperDigits :
    ∀ d : Fin 16, upperDigits[d.val]? = some (Nat.digitChar d.val).toUpper := by
  decide

theorem isByte_hex (b : UInt8) : IsByte lowerDigits b (hex 2 b.toNat) := by
  have hlt := b.toNat_lt
  refine ⟨_, _, ?_, getElem?_lowerDigits ⟨b.toNat / 16, by omega⟩,
    getElem?_lowerDigits ⟨b.toNat % 16, by omega⟩⟩
  rw [hex, String.toList_ofList, digits_two (by decide) hlt]

theorem isByte_upperHex (b : UInt8) : IsByte upperDigits b (upperHex 2 b.toNat) := by
  have hlt := b.toNat_lt
  refine ⟨_, _, ?_, getElem?_upperDigits ⟨b.toNat / 16, by omega⟩,
    getElem?_upperDigits ⟨b.toNat % 16, by omega⟩⟩
  rw [upperHex, String.toList_ofList, digits_two (by decide) hlt]
  rfl

/-- Texts that begin with the digits of a byte begin with those of one byte only. -/
theorem IsByte.unique {alphabet : List Char} (hnodup : alphabet.Nodup) {b b' : UInt8}
    {text text' rest rest' : String} (h : IsByte alphabet b text) (h' : IsByte alphabet b' text')
    (heq : text ++ rest = text' ++ rest') : b = b' := by
  obtain ⟨high, low, htext, hhigh, hlow⟩ := h
  obtain ⟨high', low', htext', hhigh', hlow'⟩ := h'
  have hlists := congrArg String.toList heq
  rw [String.toList_append, String.toList_append, htext, htext'] at hlists
  obtain ⟨rfl, hrest⟩ := List.cons.inj hlists
  obtain ⟨rfl, -⟩ := List.cons.inj hrest
  have hindex {i j : Nat} {c : Char} (hi : alphabet[i]? = some c) (hj : alphabet[j]? = some c) :
      i = j :=
    (List.getElem?_inj (List.getElem?_eq_some_iff.mp hi).1 hnodup).mp (hi.trans hj.symm)
  have hdiv := hindex hhigh hhigh'
  have hmod := hindex hlow hlow'
  rw [← UInt8.toNat_inj]
  omega

end LS8.Numeral
