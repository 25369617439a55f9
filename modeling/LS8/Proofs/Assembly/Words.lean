import LS8.Proofs.Assembly.OperandLists
import LS8.Proofs.Assembly.Spelling
import Mathlib.Data.List.TakeWhile

/-!
# Lines of words

A line that consists of the name of an operation and, after a blank, of words with commas between
them. Whatever the words are, as long as nothing in them cuts the line, it is read by reading its
words one after the other and then taking each for an operand (`Operation.parse_line`). The layout
of a program grows by the statement that comes of it (`Layout.addLine_of_parse`).
-/
namespace LS8.Assembly

/-! ## Words -/

/-- Nothing in it that ends a word: no blank, no separator and no comment mark. -/
structure Bare (word : List Char) : Prop where
  blank : ∀ c ∈ word, Text.isBlank c = false
  separator : ',' ∉ word ∧ ':' ∉ word
  comment : ';' ∉ word ∧ '#' ∉ word

section

variable {word : List Char} {words : List (List Char)} {c : Char}

theorem Bare.isWordChar (h : Bare word) (hc : c ∈ word) : isWordChar c = true := by
  have hcomma : c ≠ ',' := fun heq => h.separator.1 (heq ▸ hc)
  have hcolon : c ≠ ':' := fun heq => h.separator.2 (heq ▸ hc)
  simp [Assembly.isWordChar, h.blank c hc, hcomma, hcolon]

theorem Bare.isComment (h : Bare word) (hc : c ∈ word) : isComment c = false := by
  have hsemicolon : c ≠ ';' := fun heq => h.comment.1 (heq ▸ hc)
  have hhash : c ≠ '#' := fun heq => h.comment.2 (heq ▸ hc)
  simp [Assembly.isComment, hsemicolon, hhash]

theorem bare_iff : Bare word ↔ word.all (fun c => isWordChar c && !isComment c) = true := by
  rw [List.all_eq_true]
  constructor
  · intro h c hc
    rw [h.isWordChar hc, h.isComment hc]
    rfl
  · intro h
    have hother {d : Char} (hd : (isWordChar d && !isComment d) = false) : d ∉ word := by
      intro hmem
      rw [h d hmem] at hd
      cases hd
    refine ⟨fun c hc => ?_, ⟨hother rfl, hother rfl⟩, ⟨hother rfl, hother rfl⟩⟩
    by_contra hblank
    exact hother (by simp [Assembly.isWordChar, hblank]) hc

instance (word : List Char) : Decidable (Bare word) := decidable_of_iff _ bare_iff.symm

theorem bare_of_isAlphanum (h : ∀ c ∈ word, c.isAlphanum = true) : Bare word where
  blank := fun c hc => isBlank_of_isAlphanum (h c hc)
  separator := ⟨fun hc => absurd (h _ hc) (by decide), fun hc => absurd (h _ hc) (by decide)⟩
  comment := ⟨fun hc => absurd (h _ hc) (by decide), fun hc => absurd (h _ hc) (by decide)⟩

theorem Spelling.ne_nil_and_bare {operands : List Spelling}
    (h : word ∈ operands.map fun s => s.text.toList) : word ≠ [] ∧ Bare word := by
  obtain ⟨spelling, -, rfl⟩ := List.mem_map.mp h
  exact ⟨spelling.word.nonempty, bare_of_isAlphanum spelling.word.alphanum⟩

theorem mem_intercalate_comma (h : c ∈ [','].intercalate words) :
    c = ',' ∨ ∃ word ∈ words, c ∈ word := by
  induction words with
  | nil => simp at h
  | cons word words ih =>
    cases words with
    | nil =>
      rw [List.intercalate_singleton] at h
      exact Or.inr ⟨word, List.mem_cons_self, h⟩
    | cons next words =>
      rw [List.intercalate_cons_cons, List.append_assoc, List.mem_append, List.singleton_append,
        List.mem_cons] at h
      rcases h with hword | hcomma | hrest
      · exact Or.inr ⟨word, List.mem_cons_self, hword⟩
      · exact Or.inl hcomma
      · rcases ih hrest with hcomma | ⟨other, hmem, hother⟩
        · exact Or.inl hcomma
        · exact Or.inr ⟨other, List.mem_cons_of_mem word hmem, hother⟩

/-- The commas between words are tokens of their own, whatever the words are read as. -/
theorem mapM_ofPiece_intersperse (words : List (List Char)) :
    ((words.map Piece.word).intersperse .comma).mapM Token.ofPiece =
      (words.mapM Atom.ofWord).map fun atoms => (atoms.map Token.atom).intersperse .comma := by
  induction words with
  | nil => rfl
  | cons word words ih =>
    rw [List.mapM_cons]
    cases words with
    | nil =>
      simp only [List.map_cons, List.map_nil, List.intersperse_singleton, List.mapM_cons,
        List.mapM_nil, Token.ofPiece]
      cases Atom.ofWord word <;> rfl
    | cons next words =>
      rw [List.map_cons, List.map_cons, List.intersperse_cons_cons,
        List.mapM_cons (f := Token.ofPiece), List.mapM_cons (f := Token.ofPiece),
        ← List.map_cons, ih, Token.ofPiece]
      cases Atom.ofWord word with
      | error fault => rfl
      | ok a =>
        -- There is a comma behind the first atom only because there is a second one.
        rw [List.mapM_cons]
        cases Atom.ofWord next with
        | error fault => rfl
        | ok b => cases words.mapM Atom.ofWord <;> rfl

end

/-! ## Operand lists -/

theorem listed_intersperse (atoms : List Atom) :
    Listed ((atoms.map Token.atom).intersperse .comma) atoms := by
  induction atoms with
  | nil => exact .nil
  | cons a atoms ih =>
    cases atoms with
    | nil => exact .single
    | cons b atoms =>
      rw [List.map_cons, List.map_cons, List.intersperse_cons_cons, ← List.map_cons]
      exact .apart ih

theorem operandList_intersperse (operation : String) (atoms : List Atom) :
    operandList operation atoms.length ((atoms.map Token.atom).intersperse .comma) = .ok atoms :=
  operandList_eq_ok_iff.mpr ⟨listed_intersperse atoms, rfl⟩

/-! ## Lines -/

namespace Operation

/-- The name of the operation and, after a blank, the words with commas between them. -/
def line (operation : Operation) : List (List Char) → List Char
  | [] => operation.name.toList
  | words => operation.name.toList ++ ' ' :: [','].intercalate words

/-- What such a line is cut into, if the words are read as the atoms. -/
def tokens (operation : Operation) (atoms : List Atom) : List Token :=
  .atom (.name operation.name) :: (atoms.map Token.atom).intersperse .comma

section

variable {operation : Operation} {words : List (List Char)} {atoms : List Atom} {c : Char}

theorem mem_line (h : c ∈ operation.line words) :
    c.isAlphanum = true ∨ c = ' ' ∨ c = ',' ∨ ∃ word ∈ words, c ∈ word := by
  unfold line at h
  split at h
  · exact .inl (operation.isWord_name.alphanum c h)
  · rw [List.mem_append, List.mem_cons] at h
    rcases h with hname | hblank | hwords
    · exact .inl (operation.isWord_name.alphanum c hname)
    · exact .inr (.inl hblank)
    · exact .inr (.inr (mem_intercalate_comma hwords))

theorem line_ne_nil : operation.line words ≠ [] := by
  have hname := operation.isWord_name.nonempty
  unfold line
  split
  · exact hname
  · exact List.append_ne_nil_of_left_ne_nil hname _

theorem pieces_line (h : ∀ word ∈ words, word ≠ [] ∧ Bare word) :
    pieces (operation.line words) =
      .word operation.name.toList :: (words.map Piece.word).intersperse .comma := by
  have hname := operation.isWord_name
  unfold line
  split
  · have hword : pieces (operation.name.toList ++ []) = _ :=
      pieces_word hname.nonempty hname.isWordChar rfl
    rw [List.append_nil] at hword
    rw [hword, pieces]
    rfl
  · rw [pieces_word hname.nonempty hname.isWordChar rfl, pieces_blank (by decide),
      pieces_intercalate fun word hmem =>
        ⟨(h word hmem).1, fun c hc => (h word hmem).2.isWordChar hc⟩]

theorem tokenize_line (h : ∀ word ∈ words, word ≠ [] ∧ Bare word) :
    tokenize (operation.line words) = (words.mapM Atom.ofWord).map operation.tokens := by
  have hcode : (operation.line words).takeWhile (!isComment ·) = operation.line words := by
    refine List.takeWhile_eq_self_iff.mpr fun c hc => ?_
    rw [Bool.not_eq_true']
    rcases mem_line hc with halnum | rfl | rfl | ⟨word, hmem, hword⟩
    · exact isComment_of_isAlphanum halnum
    · rfl
    · rfl
    · exact (h word hmem).2.isComment hword
  rw [tokenize_eq, hcode, pieces_line h, List.mapM_cons, mapM_ofPiece_intersperse, Token.ofPiece,
    operation.ofWord_name]
  cases words.mapM Atom.ofWord <;> rfl

theorem ofTokens_tokens (hcount : atoms.length = operation.operands.length) :
    Line.ofTokens (operation.tokens atoms) = do
      let operands ← (operation.operands.zip atoms).mapM fun (kind, a) => Operand.ofAtom kind a
      return { statement := some ⟨operation, operands⟩ } := by
  -- The name is not followed by a colon, so it is no label.
  have hlabel : Line.ofTokens (operation.tokens atoms) = (do
      let statement ← Statement.ofTokens (operation.tokens atoms)
      return { statement := statement }) := by
    unfold tokens
    rcases atoms with _ | ⟨a, _ | ⟨b, atoms⟩⟩ <;> rfl
  rw [hlabel]
  simp only [tokens, Statement.ofTokens, operation.ofName_name, ← hcount, bind, Except.bind,
    operandList_intersperse]
  cases (operation.operands.zip atoms).mapM fun x => Operand.ofAtom x.1 x.2 <;> rfl

/-- A line of as many words as the operation has operands: first all words are read, then they are
taken for operands of their kinds. -/
theorem parse_line (h : ∀ word ∈ words, word ≠ [] ∧ Bare word)
    (hcount : words.length = operation.operands.length) :
    Line.parse (operation.line words) = do
      let atoms ← words.mapM Atom.ofWord
      let operands ← (operation.operands.zip atoms).mapM fun (kind, a) => Operand.ofAtom kind a
      return { statement := some ⟨operation, operands⟩ } := by
  rw [Line.parse, tokenize_line h]
  cases hread : words.mapM Atom.ofWord with
  | error fault => rfl
  | ok atoms =>
    have hlength : atoms.length = operation.operands.length := by
      rw [← hcount, (mapM_eq_ok.mp hread).length_eq]
    exact ofTokens_tokens hlength

end

end Operation

/-! ## Layouts -/

namespace Layout

/-- The layout with a statement on its next line. -/
def withStatement (layout : Layout) (s : Statement) : Layout where
  lines := layout.lines + 1
  placed := layout.placed ++ #[{ line := layout.lines + 1, statement := s }]
  labels := layout.labels
  size := layout.size + s.width

theorem addLine_of_parse {layout : Layout} {s : Statement} {text : List Char}
    (h : Line.parse text = .ok { statement := some s }) :
    layout.addLine text = .ok (layout.withStatement s) := by
  have hplace : layout.place text = .ok (layout.withStatement s) := by
    simp only [place, h, bind, Except.bind, define, withStatement, Option.map_some,
      Option.getD_some, Option.toArray_some, List.map_toArray, List.map_cons, List.map_nil]
    rfl
  rw [addLine, hplace]
  rfl

end Layout
end LS8.Assembly
