import LS8.Proofs.Listing.RoundTrip
import LS8.Proofs.Text.Positional
import LS8.Proofs.Text.Trim

/-!
# The grammar of listings

A line of a listing comes to a row, which is what stands in front of its first hash sign without the
blanks at both ends (`content_eq_iff`). A listing is read if and only if each of its rows is empty
or holds one to eight binary digits, and then it is read as the values of these digits; of any other
listing the first row is reported that violates this (`parse_iff_grammar`). No row with one to eight
digits is beyond the numeral reader, so there is nothing else that could be wrong with one.
-/
namespace LS8.Listing

/-! ## Rows of lines -/

/-- The line is the row, with blanks around it and perhaps a comment behind these, and the row
itself begins and ends with no blank. -/
inductive RowOf : (line row : List Char) → Prop
  | intro {before row after comment : List Char} (htight : Text.Tight row)
      (hbefore : Text.AllBlank before) (hafter : Text.AllBlank after)
      (hcode : '#' ∉ before ++ row ++ after)
      (hcomment : comment = [] ∨ ∃ rest, comment = '#' :: rest) :
      RowOf (before ++ row ++ after ++ comment) row

theorem takeWhile_append_comment {code comment : List Char} (hcode : '#' ∉ code)
    (hcomment : comment = [] ∨ ∃ rest, comment = '#' :: rest) :
    (code ++ comment).takeWhile (· != '#') = code := by
  have hkeep : code.takeWhile (· != '#') = code := by
    rw [List.takeWhile_eq_self_iff]
    intro c hc
    rw [bne_iff_ne]
    rintro rfl
    exact hcode hc
  rcases hcomment with rfl | ⟨rest, rfl⟩
  · rw [List.append_nil, hkeep]
  · rw [Text.takeWhile_append_stop rfl, hkeep]

theorem comment_dropWhile (line : List Char) :
    line.dropWhile (· != '#') = [] ∨ ∃ rest, line.dropWhile (· != '#') = '#' :: rest := by
  rcases Text.dropWhile_eq_nil_or (· != '#') line with hnil | ⟨c, rest, hrest, hc⟩
  · exact .inl hnil
  · obtain rfl : c = '#' := by simpa using hc
    exact .inr ⟨rest, hrest⟩

theorem content_eq_iff {line row : List Char} : content line = row ↔ RowOf line row := by
  constructor
  · rintro rfl
    obtain ⟨before, after, hbefore, hafter, htext⟩ :=
      Text.exists_eq_append_trim (line.takeWhile (· != '#'))
    have hcode : '#' ∉ before ++ content line ++ after := by
      rw [content, ← htext]
      intro hmem
      have hother := List.all_eq_true.mp List.all_takeWhile _ hmem
      simp at hother
    have hline : line = before ++ content line ++ after ++ line.dropWhile (· != '#') := by
      rw [content, ← htext, List.takeWhile_append_dropWhile]
    conv => lhs; rw [hline]
    exact .intro (Text.tight_trim _) hbefore hafter hcode (comment_dropWhile line)
  · rintro ⟨htight, hbefore, hafter, hcode, hcomment⟩
    rw [content, takeWhile_append_comment hcode hcomment]
    exact Text.trim_of_tight htight hbefore hafter

/-! ## The grammar -/

/-- One to eight binary digits, or nothing at all. -/
structure Grammatical (row : List Char) : Prop where
  digits : ∀ c ∈ row, c = '0' ∨ c = '1'
  width : row.length ≤ 8

/-- How a row violates the grammar. Wrong characters come before excess digits. -/
inductive Violates (row : List Char) : ListingFault → Prop
  | digit {c} (hmem : c ∈ row) (hzero : c ≠ '0') (hone : c ≠ '1') :
      Violates row (.invalidDigit (String.ofList row))
  | width (hdigits : ∀ c ∈ row, c = '0' ∨ c = '1') (hwide : 8 < row.length) :
      Violates row (.valueTooWide (String.ofList row))

/-- The number that binary digits denote, the last of which counts one. -/
def binaryValue (row : List Char) : Nat :=
  Nat.ofDigits 2 (row.reverse.map fun c => c.toNat - '0'.toNat)

/-- The bytes of the rows that are not empty. -/
def values (rows : List (List Char)) : Image :=
  (rows.filter (· ≠ [])).map fun row => UInt8.ofNat (binaryValue row)

section Rows

variable {row : List Char} {fault : ListingFault}

theorem exists_violates (h : ¬ Grammatical row) : ∃ fault, Violates row fault := by
  by_cases hdigits : ∀ c ∈ row, c = '0' ∨ c = '1'
  · have hwide : 8 < row.length := Nat.lt_of_not_le fun hwidth => h ⟨hdigits, hwidth⟩
    exact ⟨_, .width hdigits hwide⟩
  · push Not at hdigits
    obtain ⟨c, hmem, hzero, hone⟩ := hdigits
    exact ⟨_, .digit hmem hzero hone⟩

theorem all_isBit_iff : row.all isBit = true ↔ ∀ c ∈ row, c = '0' ∨ c = '1' := by
  simp only [List.all_eq_true, isBit_iff]

/-- Binary digits are digits of a numeral, with the same values. -/
theorem mapM_digitValue? (h : ∀ c ∈ row, c = '0' ∨ c = '1') :
    row.mapM (Numeral.digitValue? 2) = some (row.map fun c => c.toNat - '0'.toNat) := by
  induction row with
  | nil => rfl
  | cons c row ih =>
    have hc : Numeral.digitValue? 2 c = some (c.toNat - '0'.toNat) := by
      rcases h c List.mem_cons_self with rfl | rfl <;> rfl
    simp [hc, ih fun x hx => h x (List.mem_cons_of_mem c hx)]

theorem binaryValue_lt (h : Grammatical row) : binaryValue row < 256 := by
  have hdigit : ∀ d ∈ row.reverse.map (fun c => c.toNat - '0'.toNat), d < 2 := by
    intro d hd
    obtain ⟨c, hc, rfl⟩ := List.mem_map.mp hd
    rcases h.digits c (List.mem_reverse.mp hc) with rfl | rfl <;> decide
  calc binaryValue row < 2 ^ (row.reverse.map fun c => c.toNat - '0'.toNat).length :=
        Nat.ofDigits_lt_base_pow_length (by decide) hdigit
    _ = 2 ^ row.length := by rw [List.length_map, List.length_reverse]
    _ ≤ 2 ^ 8 := Nat.pow_le_pow_right (by decide) h.width

/-- One to eight digits are a numeral of a byte. -/
theorem read?_of_grammatical (h : Grammatical row) (hne : row ≠ []) :
    Numeral.read? 2 255 row = some (binaryValue row) := by
  have hdigits := mapM_digitValue? h.digits
  rw [Numeral.read?_eq_some_iff, Numeral.unsigned_of_mapM hdigits]
  refine ⟨_, hdigits, by simpa using hne, ?_, Nat.le_of_lt_succ (binaryValue_lt h)⟩
  rw [Numeral.ofDigits_eq, binaryValue, List.map_reverse]

end Rows

/-! ## Reading lines -/

section Lines

variable {line : List Char} {lines rows : List (List Char)} {fault : ListingFault} {k number : Nat}

theorem readLine_of_grammatical (h : Grammatical (content line)) :
    readLine line = .ok (if content line = [] then none
      else some (UInt8.ofNat (binaryValue (content line)))) := by
  have hbits := all_isBit_iff.mpr h.digits
  have hwidth := Nat.not_lt.mpr h.width
  by_cases hempty : content line = []
  · simp [readLine, hempty]
  · simp [readLine, hempty, hbits, hwidth, read?_of_grammatical h hempty]

theorem readLine_of_violates (h : Violates (content line) fault) :
    readLine line = .error fault := by
  cases h with
  | digit hmem hzero hone =>
    have hempty : (content line).isEmpty = false :=
      List.isEmpty_eq_false_iff.mpr (List.ne_nil_of_mem hmem)
    have hbits : (content line).all isBit = false := by
      refine List.all_eq_false.mpr ⟨_, hmem, ?_⟩
      rw [isBit_iff]
      exact not_or.mpr ⟨hzero, hone⟩
    simp [readLine, hempty, hbits]
  | width hdigits hwide =>
    have hempty : (content line).isEmpty = false :=
      List.isEmpty_eq_false_iff.mpr (List.ne_nil_of_length_pos (by omega))
    simp [readLine, hempty, all_isBit_iff.mpr hdigits, hwide]

/-- The row with that number violates the grammar, and no row in front of it does. -/
inductive FirstViolation : List (List Char) → Nat → ListingFault → Prop
  | here {row rows fault} (h : Violates row fault) : FirstViolation (row :: rows) 0 fault
  | later {row rows k fault} (hrow : Grammatical row) (h : FirstViolation rows k fault) :
      FirstViolation (row :: rows) (k + 1) fault

theorem firstViolation_iff : FirstViolation rows k fault ↔
    (∃ row, rows[k]? = some row ∧ Violates row fault) ∧ ∀ row ∈ rows.take k, Grammatical row := by
  constructor
  · intro h
    induction h with
    | here h => exact ⟨⟨_, rfl, h⟩, nofun⟩
    | later hrow _ ih => exact ⟨ih.1, List.forall_mem_cons.mpr ⟨hrow, ih.2⟩⟩
  · rintro ⟨⟨row, hget, hviolates⟩, hbefore⟩
    induction rows generalizing k with
    | nil => simp at hget
    | cons first rows ih =>
      cases k with
      | zero =>
        obtain rfl := Option.some.inj hget
        exact .here hviolates
      | succ k =>
        rw [List.take_succ_cons, List.forall_mem_cons] at hbefore
        exact .later hbefore.1 (ih hbefore.2 hget)

theorem grammatical_or_firstViolation (rows : List (List Char)) :
    (∀ row ∈ rows, Grammatical row) ∨ ∃ k fault, FirstViolation rows k fault := by
  induction rows with
  | nil => exact .inl nofun
  | cons row rows ih =>
    by_cases hrow : Grammatical row
    · rcases ih with hrows | ⟨k, fault, h⟩
      · exact .inl (List.forall_mem_cons.mpr ⟨hrow, hrows⟩)
      · exact .inr ⟨k + 1, fault, .later hrow h⟩
    · obtain ⟨fault, h⟩ := exists_violates hrow
      exact .inr ⟨0, fault, .here h⟩

theorem readLines_of_grammatical (h : ∀ row ∈ lines.map content, Grammatical row) :
    readLines number lines = .ok (values (lines.map content)) := by
  induction lines generalizing number with
  | nil => rfl
  | cons line lines ih =>
    rw [List.map_cons, List.forall_mem_cons] at h
    rw [readLines, readLine_of_grammatical h.1, ih h.2]
    by_cases hempty : content line = [] <;> simp [values, hempty, Except.map]

theorem readLines_of_firstViolation (h : FirstViolation (lines.map content) k fault) :
    readLines number lines = .error ⟨number + k, fault⟩ := by
  induction lines generalizing number k with
  | nil => cases h
  | cons line lines ih =>
    cases h with
    | here h =>
      rw [readLines, readLine_of_violates h]
      rfl
    | @later _ _ k _ hrow h =>
      rw [readLines, readLine_of_grammatical hrow, ih h]
      simp [Except.map, Nat.add_assoc, Nat.add_comm 1 k]

end Lines

/-- **The grammar of listings.** Each line comes to the row between its outer blanks and in front
of its comment. If every row is empty or holds one to eight binary digits, the listing is read as
the values of the rows that are not empty, and else the first other row is reported. One to eight
binary digits are always the numeral of a byte, whose value is the one that is read. -/
theorem parse_iff_grammar (text : String) :
    let rows := (Text.lines text.toList).map content
    (∀ line row, content line = row ↔ RowOf line row) ∧
      (∀ image, parse text = .ok image ↔ (∀ row ∈ rows, Grammatical row) ∧ image = values rows) ∧
      (∀ e, parse text = .error e ↔ ∃ k fault,
        ((∃ row, rows[k]? = some row ∧ Violates row fault) ∧
          ∀ row ∈ rows.take k, Grammatical row) ∧ e = ⟨k + 1, fault⟩) ∧
      ∀ row, Grammatical row → row ≠ [] →
        binaryValue row < 256 ∧ Numeral.read? 2 255 row = some (binaryValue row) := by
  intro rows
  simp only [← firstViolation_iff]
  have hok : (∀ row ∈ rows, Grammatical row) → parse text = .ok (values rows) :=
    readLines_of_grammatical
  have herror : ∀ {k fault}, FirstViolation rows k fault →
      parse text = .error ⟨k + 1, fault⟩ := by
    intro k fault h
    rw [parse, readLines_of_firstViolation h, Nat.add_comm]
  refine ⟨fun line row => content_eq_iff, fun image => ⟨fun h => ?_, ?_⟩,
    fun e => ⟨fun h => ?_, ?_⟩, fun row h hne => ⟨binaryValue_lt h, read?_of_grammatical h hne⟩⟩
  · rcases grammatical_or_firstViolation rows with hrows | ⟨k, fault, hfirst⟩
    · exact ⟨hrows, Except.ok.inj (h.symm.trans (hok hrows))⟩
    · cases h.symm.trans (herror hfirst)
  · rintro ⟨hrows, rfl⟩
    exact hok hrows
  · rcases grammatical_or_firstViolation rows with hrows | ⟨k, fault, hfirst⟩
    · cases h.symm.trans (hok hrows)
    · exact ⟨k, fault, hfirst, Except.error.inj (h.symm.trans (herror hfirst))⟩
  · rintro ⟨k, fault, hfirst, rfl⟩
    exact herror hfirst

/-- The third line has a digit that is none, and it is too long as well. -/
example : parse "1\t# one\n\n+00000001\n2" = .error ⟨3, .invalidDigit "+00000001"⟩ := by
  decide +kernel

end LS8.Listing
