import LS8.Text.Lines

/-!
# Lines of a written text

Splitting a text into lines is the inverse of closing every line by a line feed, for lines that hold
neither a line feed nor a carriage return. A text behind a line feed has lines of its own.
-/
namespace LS8.Text

theorem toList_unlines (rows : List String) :
    (unlines rows).toList = rows.flatMap (fun row => row.toList ++ ['\n']) := by
  induction rows with
  | nil => rfl
  | cons row rows ih =>
    simp only [unlines, String.toList_join] at ih ⊢
    simp [ih]

theorem dropReturn_of_not_mem {line : List Char} (h : '\r' ∉ line) : dropReturn line = line := by
  fun_induction dropReturn line with
  | case1 => rfl
  | case2 => simp at h
  | case3 c tail _ ih => rw [ih fun hmem => h (List.mem_cons_of_mem c hmem)]

theorem lines_unlines {rows : List String}
    (h : ∀ row ∈ rows, '\n' ∉ row.toList ∧ '\r' ∉ row.toList) :
    lines (unlines rows).toList = rows.map String.toList := by
  rw [toList_unlines]
  induction rows with
  | nil => rfl
  | cons row rows ih =>
    obtain ⟨hfeed, hreturn⟩ := h row List.mem_cons_self
    have hrest := ih fun other hmem => h other (List.mem_cons_of_mem row hmem)
    rw [List.flatMap_cons, List.append_assoc, List.singleton_append, lines_append_newline hfeed,
      dropReturn_of_not_mem hreturn, hrest, List.map_cons]

/-- Induction on the characters of a kind in a text, the first one first. -/
@[elab_as_elim]
theorem induction_on_stops {motive : List Char → Prop} (p : Char → Bool)
    (last : ∀ word, (∀ c ∈ word, p c = false) → motive word)
    (stop : ∀ word c rest, (∀ x ∈ word, p x = false) → p c = true → motive rest →
      motive (word ++ c :: rest))
    (text : List Char) : motive text := by
  -- The characters since the last of the kind are carried along.
  have hcarried : ∀ word, (∀ c ∈ word, p c = false) → motive (word ++ text) := by
    induction text with
    | nil =>
      intro word hword
      rw [List.append_nil]
      exact last word hword
    | cons c rest ih =>
      intro word hword
      cases hc : p c with
      | true => exact stop word c rest hword hc (ih [] (List.forall_mem_nil _))
      | false =>
        rw [List.append_cons]
        exact ih _ (List.forall_mem_append.mpr ⟨hword, List.forall_mem_singleton.mpr hc⟩)
  exact hcarried [] (List.forall_mem_nil _)

/-- Induction on the line feeds of a text. -/
@[elab_as_elim]
theorem induction_on_feeds {motive : List Char → Prop}
    (last : ∀ line, '\n' ∉ line → motive line)
    (feed : ∀ line rest, '\n' ∉ line → motive rest → motive (line ++ '\n' :: rest))
    (text : List Char) : motive text := by
  have hline {line : List Char} (h : ∀ c ∈ line, (c == '\n') = false) : '\n' ∉ line :=
    fun hmem => by simpa using h _ hmem
  induction text using induction_on_stops (· == '\n') with
  | last line h => exact last line (hline h)
  | stop line c rest h hc ih =>
    obtain rfl := eq_of_beq hc
    exact feed line rest (hline h) ih

/-- Cut behind a line feed, a text falls into two texts whose lines are those of the whole. -/
theorem lines_append_of_newline (text back : List Char) :
    lines (text ++ '\n' :: back) = lines (text ++ ['\n']) ++ lines back := by
  induction text using induction_on_feeds with
  | last line hline =>
    rw [lines_append_newline hline, lines_append_newline hline]
    rfl
  | feed line rest hline ih =>
    rw [List.append_assoc, List.append_assoc, List.cons_append, List.cons_append,
      lines_append_newline hline, lines_append_newline hline, ih, List.cons_append]

theorem lines_append {front : String} (h : front = "" ∨ ∃ text, front = text ++ "\n")
    (back : String) :
    lines (front ++ back).toList = lines front.toList ++ lines back.toList := by
  rw [String.toList_append]
  rcases h with rfl | ⟨text, rfl⟩
  · rfl
  · have hclosed : (text ++ "\n").toList = text.toList ++ ['\n'] := String.toList_append
    rw [hclosed, List.append_assoc]
    exact lines_append_of_newline text.toList back.toList

end LS8.Text
