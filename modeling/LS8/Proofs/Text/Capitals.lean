import LS8.Proofs.Assembly.LetterCase

/-!
# Characters with the capitals R, plus sign and digits

No character outside ASCII has an upper case that begins with the letter R, with a plus sign or with
a decimal digit, although some have an ASCII letter for a capital. So a word whose upper case is
made of these characters is, but for the case of its letters, that upper case (`uppercase_eq_iff`).
-/
namespace LS8.Text

/-- The characters that names of registers are made of. -/
def isRegisterChar (c : Char) : Bool := c == 'R' || c == '+' || c.isDigit

theorem isRegisterChar_iff {c : Char} :
    isRegisterChar c = true ↔ c.toNat = 82 ∨ c.toNat = 43 ∨ (48 ≤ c.toNat ∧ c.toNat ≤ 57) := by
  rw [isRegisterChar, Bool.or_eq_true, Bool.or_eq_true, beq_iff_eq, beq_iff_eq,
    Assembly.isDigit_iff, ← Char.toNat_inj, ← Char.toNat_inj, or_assoc]
  rfl

/-- No expansion is empty, and none begins with a character of register names. -/
theorem expansion_ne_registerChar {n : Nat} {capitals : List Nat}
    (h : (n, capitals) ∈ upperExpansions) :
    ∃ first rest, capitals = first :: rest ∧ isRegisterChar (Char.ofNat first) = false := by
  have hall : ∀ expansion ∈ upperExpansions,
      expansion.2.head?.any (fun n => !isRegisterChar (Char.ofNat n)) = true := by
    decide +kernel
  have hfirst := hall _ h
  cases capitals with
  | nil => cases hfirst
  | cons first rest => exact ⟨first, rest, rfl, by simpa using hfirst⟩

/-- The capitals of a run are outside ASCII, or the run is one of the two that have an I or an S. -/
theorem run_ne_registerChar {first last step capital n : Nat}
    (h : (first, last, step, capital) ∈ upperRuns) (hfirst : first ≤ n) (hlast : n ≤ last) :
    isRegisterChar (Char.ofNat (capital + (n - first))) = false := by
  have hall : ∀ run ∈ upperRuns,
      0x80 ≤ run.2.2.2 ∨ (run.1 = run.2.1 ∧ (run.2.2.2 = 0x49 ∨ run.2.2.2 = 0x53)) := by
    decide +kernel
  rw [Bool.eq_false_iff, Ne, isRegisterChar_iff, Char.toNat_ofNat]
  rcases hall _ h with hcapital | ⟨hone, hcapital⟩
  · simp only at hcapital
    split <;> omega
  · simp only at hone hcapital
    split <;> omega

theorem upperChar_ascii {c : Char} (h : c.toNat < 0x80) : upperChar c = [c.toUpper] := if_pos h

theorem upperChar_not_ascii {c : Char} (h : 0x80 ≤ c.toNat) :
    ∃ d rest, upperChar c = d :: rest ∧ isRegisterChar d = false := by
  rw [upperChar, if_neg (Nat.not_lt.mpr h)]
  split
  · next capitals hlookup =>
    obtain ⟨before, behind, htable, -⟩ := List.lookup_eq_some_iff.mp hlookup
    have hmem : (c.toNat, capitals) ∈ upperExpansions := by
      rw [htable]
      exact List.mem_append_right before List.mem_cons_self
    obtain ⟨first, rest, rfl, hfirst⟩ := expansion_ne_registerChar hmem
    exact ⟨Char.ofNat first, rest.map Char.ofNat, rfl, hfirst⟩
  · split
    · next first last step capital hfind =>
      have hmem := List.mem_of_find?_eq_some hfind
      have hrange := List.find?_some hfind
      simp only [Bool.and_eq_true, decide_eq_true_eq] at hrange
      exact ⟨_, [], rfl, run_ne_registerChar hmem hrange.1.1 hrange.1.2⟩
    · refine ⟨c, [], rfl, ?_⟩
      rw [Bool.eq_false_iff, Ne, isRegisterChar_iff]
      omega

/-- The upper case of a character is never empty, and such a character in front is all of it. -/
theorem exists_upperChar (c : Char) :
    ∃ d rest, upperChar c = d :: rest ∧ (isRegisterChar d = true → c.toUpper = d ∧ rest = []) := by
  by_cases hascii : c.toNat < 0x80
  · exact ⟨c.toUpper, [], upperChar_ascii hascii, fun _ => ⟨rfl, rfl⟩⟩
  · obtain ⟨d, rest, hcapital, hother⟩ := upperChar_not_ascii (Nat.le_of_not_lt hascii)
    refine ⟨d, rest, hcapital, fun hd => ?_⟩
    rw [hother] at hd
    cases hd

theorem upperChar_of_isRegisterChar {c : Char} (h : isRegisterChar c.toUpper = true) :
    upperChar c = [c.toUpper] := by
  have hascii : c.toUpper.toNat < 0x80 := by
    rw [isRegisterChar_iff] at h
    omega
  rw [← upperChar_toUpper, upperChar_ascii hascii, Char.toUpper_toUpper_eq_toUpper]

theorem uppercase_eq_iff {word text : List Char} (h : ∀ d ∈ text, isRegisterChar d = true) :
    uppercase word = text ↔ raise word = text := by
  induction word generalizing text with
  | nil => rfl
  | cons c word ih =>
    rw [uppercase, List.flatMap_cons, raise, List.map_cons]
    constructor
    · rintro rfl
      obtain ⟨d, rest, hcapital, honly⟩ := exists_upperChar c
      rw [hcapital] at h ⊢
      obtain ⟨hupper, rfl⟩ := honly (h d List.mem_cons_self)
      rw [List.singleton_append, List.forall_mem_cons] at h
      rw [List.singleton_append, hupper, List.cons.injEq]
      exact ⟨rfl, (ih h.2).mp rfl⟩
    · rintro rfl
      rw [List.forall_mem_cons] at h
      rw [upperChar_of_isRegisterChar h.1, List.singleton_append, List.cons.injEq]
      exact ⟨rfl, (ih h.2).mpr rfl⟩

/-- A text without letters is what it is raised from. -/
theorem raise_eq_iff {word text : List Char} (h : ∀ d ∈ text, d.isAlpha = false) :
    raise word = text ↔ word = text := by
  induction word generalizing text with
  | nil => rfl
  | cons c word ih =>
    cases text with
    | nil => simp [raise]
    | cons d text =>
      rw [List.forall_mem_cons] at h
      rw [raise, List.map_cons, List.cons.injEq, List.cons.injEq, toUpper_eq_iff h.1]
      exact and_congr_right fun _ => ih h.2

end LS8.Text
