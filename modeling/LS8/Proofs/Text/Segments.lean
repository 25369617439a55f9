import LS8.Proofs.Text.Lines

/-!
# Line feeds and endings

Cut at its line feeds, a text falls into segments. They are its lines, but for a carriage return at
the end of some and an empty segment behind the last line feed. So what does not see a carriage
return at the end of a line reads the segments and the lines of a text alike (`map_splitOn`), and
does not tell a text from one whose line feeds all have a carriage return before them
(`map_splitOn_crlf`).
-/
namespace LS8.Text

theorem eq_dropReturn_append (line : List Char) :
    line = dropReturn line ∨ line = dropReturn line ++ ['\r'] := by
  fun_induction dropReturn line with
  | case1 => exact .inl rfl
  | case2 => exact .inr rfl
  | case3 c rest _ ih => exact ih.imp (congrArg (c :: ·)) (congrArg (c :: ·))

/-- The text with a carriage return before each line feed. -/
def addReturns (text : List Char) : List Char :=
  text.flatMap fun c => if c = '\n' then ['\r', '\n'] else [c]

/-- The text with every line feed replaced by a carriage return and a line feed. -/
def crlf (text : String) : String := String.ofList (addReturns text.toList)

theorem addReturns_of_not_mem {segment : List Char} (h : '\n' ∉ segment) :
    addReturns segment = segment := by
  induction segment with
  | nil => rfl
  | cons c rest ih =>
    rw [List.mem_cons, not_or] at h
    have hrest := ih h.2
    rw [addReturns] at hrest
    rw [addReturns, List.flatMap_cons, if_neg (Ne.symm h.1), hrest, List.singleton_append]

theorem addReturns_append_newline {segment : List Char} (h : '\n' ∉ segment) (rest : List Char) :
    addReturns (segment ++ '\n' :: rest) = (segment ++ ['\r']) ++ '\n' :: addReturns rest := by
  have hsegment := addReturns_of_not_mem h
  rw [addReturns] at hsegment
  rw [addReturns, List.flatMap_append, hsegment, List.append_assoc]
  rfl

section

variable {α : Type} {f : List Char → α}

theorem map_splitOn (hreturn : ∀ line, f (line ++ ['\r']) = f line) (text : List Char) :
    ∃ behind, (behind = [] ∨ behind = [[]]) ∧
      (text.splitOn '\n').map f = (lines text ++ behind).map f := by
  induction text using induction_on_feeds with
  | last segment h =>
    rw [List.splitOn_eq_singleton h]
    by_cases hne : segment = []
    · subst hne
      exact ⟨[[]], .inr rfl, rfl⟩
    · rw [lines_of_not_mem h hne]
      exact ⟨[], .inl rfl, rfl⟩
  | feed segment rest h ih =>
    obtain ⟨behind, hbehind, hrest⟩ := ih
    have hsegment : f segment = f (dropReturn segment) := by
      rcases eq_dropReturn_append segment with heq | heq
      · exact congrArg f heq
      · exact (congrArg f heq).trans (hreturn _)
    refine ⟨behind, hbehind, ?_⟩
    rw [List.splitOn_append_cons_self_of_not_mem h, lines_append_newline h, List.map_cons, hrest,
      hsegment, List.cons_append, List.map_cons]

theorem map_splitOn_crlf (hreturn : ∀ line, f (line ++ ['\r']) = f line) (text : List Char) :
    ((addReturns text).splitOn '\n').map f = (text.splitOn '\n').map f := by
  induction text using induction_on_feeds with
  | last segment h => rw [addReturns_of_not_mem h]
  | feed segment rest h ih =>
    have hreturned : '\n' ∉ segment ++ ['\r'] := by simpa using h
    rw [addReturns_append_newline h, List.splitOn_append_cons_self_of_not_mem hreturned,
      List.splitOn_append_cons_self_of_not_mem h, List.map_cons, List.map_cons, hreturn, ih]

end

/-! ## Joined lines -/

theorem unlines_eq_intercalate (rows : List String) :
    unlines rows = "\n".intercalate (rows ++ [""]) := by
  rw [← String.toList_inj, toList_unlines, String.toList_intercalate]
  induction rows with
  | nil => rfl
  | cons row rows ih =>
    rw [List.flatMap_cons, ih]
    cases rows with
    | nil => simp [List.intercalate_cons_cons]
    | cons next rows => simp [List.intercalate_cons_cons]

/-- Joined by line feeds, rows without any are the segments of the text. -/
theorem splitOn_intercalate {rows : List String} (hne : rows ≠ [])
    (h : ∀ row ∈ rows, '\n' ∉ row.toList) :
    ("\n".intercalate rows).toList.splitOn '\n' = rows.map String.toList := by
  rw [String.toList_intercalate]
  exact List.splitOn_intercalate '\n' (by simpa using h) (by simpa using hne)

section

variable {α : Type} {f : List Char → α} {rows others : List String}

theorem map_splitOn_intercalate (hrows : ∀ row ∈ rows, '\n' ∉ row.toList)
    (hothers : ∀ row ∈ others, '\n' ∉ row.toList)
    (h : rows.map (fun row => f row.toList) = others.map fun row => f row.toList) :
    (("\n".intercalate rows).toList.splitOn '\n').map f =
      (("\n".intercalate others).toList.splitOn '\n').map f := by
  by_cases hne : rows = []
  · subst hne
    rw [List.map_eq_nil_iff.mp h.symm]
  · have hother : others ≠ [] := by
      rintro rfl
      exact hne (List.map_eq_nil_iff.mp h)
    rw [splitOn_intercalate hne hrows, splitOn_intercalate hother hothers, List.map_map,
      List.map_map]
    exact h

/-- Rows that come to the same one by one make texts whose segments do, with a line feed behind the
last row or without. -/
theorem map_splitOn_of_rows {join : List String → String}
    (hjoin : join ∈ ["\n".intercalate, unlines])
    (hrows : ∀ row ∈ rows, '\n' ∉ row.toList) (hothers : ∀ row ∈ others, '\n' ∉ row.toList)
    (h : rows.map (fun row => f row.toList) = others.map fun row => f row.toList) :
    ((join rows).toList.splitOn '\n').map f = ((join others).toList.splitOn '\n').map f := by
  rw [List.mem_cons, List.mem_singleton] at hjoin
  rcases hjoin with rfl | rfl
  · exact map_splitOn_intercalate hrows hothers h
  · have hlast {rows : List String} (h : ∀ row ∈ rows, '\n' ∉ row.toList) :
        ∀ row ∈ rows ++ [""], '\n' ∉ row.toList :=
      List.forall_mem_append.mpr ⟨h, by simp⟩
    rw [unlines_eq_intercalate, unlines_eq_intercalate]
    refine map_splitOn_intercalate (hlast hrows) (hlast hothers) ?_
    rw [List.map_append, List.map_append, h]

end

end LS8.Text
