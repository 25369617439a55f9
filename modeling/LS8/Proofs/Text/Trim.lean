import LS8.Text.Blank

/-!
# Cutting and trimming

A line is cut at the first character that ends its code; what stands behind such a character does
not matter (`takeWhile_append_stop`). Trimming takes the blanks off the two ends of a text and
nothing else: what is left begins and ends with no blank (`tight_trim`), and a text without blanks
at its ends is what is left of it between any blanks (`trim_of_tight`). So blanks put behind a text
do not change what is left of it.
-/
namespace LS8.Text

/-! ## Cutting -/

section

variable {p : Char → Bool} {c : Char}

theorem takeWhile_append_stop (h : p c = false) (line rest : List Char) :
    (line ++ c :: rest).takeWhile p = line.takeWhile p := by
  rw [List.takeWhile_append]
  split
  · next hall =>
    rw [List.takeWhile_cons_of_neg (by simp [h]), List.append_nil]
    exact ((List.takeWhile_prefix p).eq_of_length hall).symm
  · rfl

theorem dropWhile_append_stop (h : p c = false) (line rest : List Char) :
    (line ++ c :: rest).dropWhile p = line.dropWhile p ++ c :: rest := by
  rw [List.dropWhile_append]
  split
  · next hempty =>
    rw [List.isEmpty_iff.mp hempty, List.dropWhile_cons_of_neg (by simp [h]), List.nil_append]
  · rfl

/-- One more character at the end of a line is behind its comment or at the end of what is left. -/
theorem takeWhile_append_singleton (p : Char → Bool) (line : List Char) (c : Char) :
    (line ++ [c]).takeWhile p = line.takeWhile p ∨
      (line ++ [c]).takeWhile p = line.takeWhile p ++ [c] := by
  cases hc : p c with
  | false => exact .inl (takeWhile_append_stop hc line [])
  | true =>
    rw [List.takeWhile_append]
    split
    · next hall =>
      right
      rw [List.takeWhile_cons_of_pos hc, (List.takeWhile_prefix p).eq_of_length hall]
      rfl
    · exact .inl rfl

theorem dropWhile_eq_nil_or (p : Char → Bool) (text : List Char) :
    text.dropWhile p = [] ∨ ∃ c rest, text.dropWhile p = c :: rest ∧ p c = false := by
  have hstop := List.head?_dropWhile_not p text
  cases hrest : text.dropWhile p with
  | nil => exact .inl rfl
  | cons c rest =>
    rw [hrest] at hstop
    exact .inr ⟨c, rest, rfl, by simpa using hstop⟩

theorem head?_dropWhile (p : Char → Bool) (text : List Char) :
    (text.dropWhile p).head?.any p = false := by
  rcases dropWhile_eq_nil_or p text with hnil | ⟨c, rest, hrest, hc⟩
  · rw [hnil]
    rfl
  · rw [hrest]
    exact hc

end

/-! ## Trimming -/

/-- Neither the first nor the last character is blank. -/
structure Tight (text : List Char) : Prop where
  first : text.head?.any isBlank = false
  last : text.getLast?.any isBlank = false

def AllBlank (text : List Char) : Prop := ∀ c ∈ text, isBlank c = true

section

variable {text before after : List Char}

theorem dropWhile_isBlank (h : text.head?.any isBlank = false) :
    text.dropWhile isBlank = text := by
  cases text with
  | nil => rfl
  | cons c rest => exact List.dropWhile_cons_of_neg (by simpa using h)

theorem tight_of_not_blank (h : ∀ c ∈ text, isBlank c = false) : Tight text where
  first := by
    cases hhead : text.head? with
    | none => rfl
    | some c => exact h c (List.mem_of_head? hhead)
  last := by
    cases hlast : text.getLast? with
    | none => rfl
    | some c => exact h c (List.mem_of_getLast? hlast)

theorem AllBlank.takeWhile (text : List Char) : AllBlank (text.takeWhile isBlank) :=
  List.all_eq_true.mp List.all_takeWhile

/-- Between blanks, a text that begins and ends with none is kept as it is. -/
theorem trim_of_tight (htext : Tight text) (hbefore : AllBlank before) (hafter : AllBlank after) :
    trim (before ++ text ++ after) = text := by
  have hfront : (before ++ text ++ after).dropWhile isBlank =
      if text = [] then [] else text ++ after := by
    rw [List.append_assoc, List.dropWhile_append_of_pos hbefore]
    cases text with
    | nil =>
      have hnone : (after ++ []).dropWhile isBlank = [] := List.dropWhile_append_of_pos hafter
      rwa [List.append_nil] at hnone
    | cons c rest => exact dropWhile_isBlank htext.first
  have hback : (after.reverse ++ text.reverse).dropWhile isBlank = text.reverse := by
    rw [List.dropWhile_append_of_pos fun c hc => hafter c (List.mem_reverse.mp hc)]
    exact dropWhile_isBlank (by rw [List.head?_reverse]; exact htext.last)
  rw [trim, hfront]
  split
  · next hnil =>
    rw [hnil]
    rfl
  · rw [List.reverse_append, hback, List.reverse_reverse]

/-- Only blanks are taken off. -/
theorem exists_eq_append_trim (text : List Char) :
    ∃ before after, AllBlank before ∧ AllBlank after ∧ text = before ++ trim text ++ after := by
  refine ⟨text.takeWhile isBlank, ((text.dropWhile isBlank).reverse.takeWhile isBlank).reverse,
    AllBlank.takeWhile text, fun c hc => ?_, ?_⟩
  · exact AllBlank.takeWhile _ c (List.mem_reverse.mp hc)
  · rw [trim, List.append_assoc, ← List.reverse_append, List.takeWhile_append_dropWhile,
      List.reverse_reverse, List.takeWhile_append_dropWhile]

theorem tight_trim (text : List Char) : Tight (trim text) := by
  have hlast : (trim text).getLast?.any isBlank = false := by
    rw [trim, List.getLast?_reverse]
    exact head?_dropWhile isBlank _
  refine ⟨?_, hlast⟩
  have hprefix : trim text <+: text.dropWhile isBlank := by
    have hsuffix := List.dropWhile_suffix isBlank (l := (text.dropWhile isBlank).reverse)
    rwa [← List.reverse_prefix, List.reverse_reverse] at hsuffix
  cases htrim : trim text with
  | nil => rfl
  | cons c rest =>
    obtain ⟨behind, hbehind⟩ := htrim ▸ hprefix
    have hhead := head?_dropWhile isBlank text
    rwa [← hbehind] at hhead

theorem trim_append_blanks (text : List Char) (hafter : AllBlank after) :
    trim (text ++ after) = trim text := by
  obtain ⟨before, behind, hbefore, hbehind, htext⟩ := exists_eq_append_trim text
  have hblanks : AllBlank (behind ++ after) := by
    intro c hc
    rcases List.mem_append.mp hc with hc | hc
    · exact hbehind c hc
    · exact hafter c hc
  calc trim (text ++ after) = trim (before ++ trim text ++ (behind ++ after)) := by
        conv => lhs; rw [htext]
        rw [List.append_assoc _ behind after]
    _ = trim text := trim_of_tight (tight_trim text) hbefore hblanks

end

end LS8.Text
