/-!
# Lines

A line ends at a line feed, and one carriage return directly before that line feed belongs to the
ending. A carriage return anywhere else stays in its line. What follows the last line feed is a line
only if it is not empty.
-/
namespace LS8.Text

def lines : List Char → List (List Char)
  | [] => []
  | '\n' :: rest => [] :: lines rest
  | '\r' :: '\n' :: rest => [] :: lines rest
  | c :: rest =>
    match lines rest with
    | [] => [[c]]
    | line :: more => (c :: line) :: more

/-- A line without the carriage return at its end, if it has one. -/
def dropReturn : List Char → List Char
  | [] => []
  | ['\r'] => []
  | c :: rest => c :: dropReturn rest

theorem lines_append_newline {line : List Char} (h : '\n' ∉ line) (rest : List Char) :
    lines (line ++ '\n' :: rest) = dropReturn line :: lines rest := by
  fun_induction dropReturn line with
  | case1 => simp [lines]
  | case2 => simp [lines]
  | case3 c tail hcr ih =>
    have htail : '\n' ∉ tail := fun hmem => h (List.mem_cons_of_mem _ hmem)
    have hc : c ≠ '\n' := fun heq => h (heq ▸ List.mem_cons_self)
    rw [List.cons_append, lines, ih htail]
    · exact fun heq => absurd heq hc
    · intro more hce heq
      cases tail with
      | nil => exact hcr hce rfl
      | cons d tail => exact htail (by simp_all)

theorem lines_of_not_mem {line : List Char} (h : '\n' ∉ line) (hne : line ≠ []) :
    lines line = [line] := by
  induction line with
  | nil => contradiction
  | cons c tail ih =>
    have htail : '\n' ∉ tail := fun hmem => h (List.mem_cons_of_mem _ hmem)
    have hc : c ≠ '\n' := fun heq => h (heq ▸ List.mem_cons_self)
    rw [lines]
    · cases tail with
      | nil => rfl
      | cons d tail => rw [ih htail (by simp)]
    · exact fun heq => absurd heq hc
    · intro more _ heq
      exact htail (heq ▸ List.mem_cons_self)

/-- The lines of a text, each closed by a line feed. -/
def unlines (rows : List String) : String := String.join (rows.map (· ++ "\n"))

end LS8.Text
