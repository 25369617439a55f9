import LS8.Proofs.Assembly.Words

/-!
# Rows

A row is a statement together with the way a listing writes it: the name of its operation and, after
a blank, its operands with commas between them. The assembler reads back from a row the statement
that was written (`Row.parse_text`), and the bytes of that statement depend on no label
(`Row.bytes_statement`).
-/
namespace LS8.Assembly

/-- An operation with a word for each of its operands. -/
structure Row where
  operation : Operation
  operands : List Spelling
  kinds : operands.map Spelling.kind = operation.operands

namespace Row

def text (row : Row) : String :=
  match row.operands with
  | [] => row.operation.name
  | operands => row.operation.name ++ " " ++ ",".intercalate (operands.map Spelling.text)

/-- What a row is cut into. -/
def tokens (row : Row) : List Token :=
  .atom (.name row.operation.name) ::
    ((row.operands.map Spelling.atom).map Token.atom).intersperse .comma

def statement (row : Row) : Statement := ⟨row.operation, row.operands.map Spelling.operand⟩

def bytes (row : Row) : List UInt8 := row.operation.code ++ row.operands.map Spelling.byte

theorem text_eq (row : Row) : row.text =
    match row.operands.map Spelling.text with
    | [] => row.operation.name
    | words => row.operation.name ++ " " ++ ",".intercalate words := by
  unfold text
  cases row.operands <;> rfl

/-- A row is a line of words. -/
theorem toList_text (row : Row) :
    row.text.toList = row.operation.line (row.operands.map fun s => s.text.toList) := by
  unfold text
  cases row.operands with
  | nil => rfl
  | cons s operands => simp [Operation.line, String.toList_intercalate, Function.comp_def]

/-- A row is made of letters, digits, blanks and commas. -/
theorem mem_text {row : Row} {c : Char} (h : c ∈ row.text.toList) :
    c.isAlphanum = true ∨ c = ' ' ∨ c = ',' := by
  rw [toList_text] at h
  rcases Operation.mem_line h with halnum | hblank | hcomma | ⟨word, hmem, hword⟩
  · exact Or.inl halnum
  · exact Or.inr (Or.inl hblank)
  · exact Or.inr (Or.inr hcomma)
  · obtain ⟨spelling, -, rfl⟩ := List.mem_map.mp hmem
    exact Or.inl (spelling.word.alphanum c hword)

theorem not_mem_text {row : Row} {c : Char} (halnum : c.isAlphanum = false) (hblank : c ≠ ' ')
    (hcomma : c ≠ ',') : c ∉ row.text.toList := by
  intro h
  rcases mem_text h with hc | hc | hc
  · simp [halnum] at hc
  · exact hblank hc
  · exact hcomma hc

theorem mapM_ofWord (operands : List Spelling) :
    (operands.map fun s => s.text.toList).mapM Atom.ofWord = .ok (operands.map Spelling.atom) := by
  rw [mapM_eq_ok, List.forall₂_map_left_iff, List.forall₂_map_right_iff, List.forall₂_same]
  exact fun spelling _ => spelling.read

theorem tokenize_text (row : Row) : tokenize row.text.toList = .ok row.tokens := by
  rw [toList_text, Operation.tokenize_line fun _ => Spelling.ne_nil_and_bare, mapM_ofWord]
  rfl

theorem mapM_ofAtom (operands : List Spelling) :
    ((operands.map Spelling.kind).zip (operands.map Spelling.atom)).mapM
      (fun (kind, a) => Operand.ofAtom kind a) = .ok (operands.map Spelling.operand) := by
  rw [mapM_eq_ok, List.zip_map', List.forall₂_map_left_iff, List.forall₂_map_right_iff,
    List.forall₂_same]
  exact fun spelling _ => spelling.meant

/-- A row is read back. -/
theorem parse_text (row : Row) :
    Line.parse row.text.toList = .ok { statement := some row.statement } := by
  have hcount : (row.operands.map Spelling.atom).length = row.operation.operands.length := by
    rw [← row.kinds, List.length_map, List.length_map]
  have hread := mapM_ofAtom row.operands
  rw [row.kinds] at hread
  have hline : Line.ofTokens row.tokens = _ := Operation.ofTokens_tokens hcount
  rw [hread] at hline
  rw [Line.parse, tokenize_text]
  exact hline

theorem mapM_resolve (operands : List Spelling) (labels : List (String × Nat)) :
    (operands.map Spelling.operand).mapM (Operand.resolve labels) =
      .ok (operands.map Spelling.byte) := by
  rw [mapM_eq_ok, List.forall₂_map_left_iff, List.forall₂_map_right_iff, List.forall₂_same]
  exact fun spelling _ => spelling.resolved labels

theorem bytes_statement (row : Row) (labels : List (String × Nat)) :
    row.statement.bytes labels = .ok row.bytes := by
  simp only [Statement.bytes, statement, mapM_resolve]
  rfl

theorem width_statement (row : Row) : row.statement.width = row.bytes.length := by
  have hcount := congrArg List.length row.kinds
  rw [List.length_map] at hcount
  simp only [Statement.width, Operation.width, statement, bytes, List.length_append,
    List.length_map, hcount]

end Row
end LS8.Assembly
