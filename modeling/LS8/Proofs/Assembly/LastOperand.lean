import LS8.Proofs.Assembly.Precedence
import LS8.Proofs.Assembly.Relocation
import LS8.Proofs.Assembly.Rows

/-!
# The last operand of a line

An opening is what stands on a line in front of its last operand, with every operand so far a
spelling. What comes of the line is then up to the word that completes it: if the word is read as an
operand that no label has a part in, the line adds its bytes to the program it stands behind
(`Opening.assemble_completed`), and if it is refused, the line is the one that is reported
(`Opening.assemble_of_refused`).
-/
namespace LS8.Assembly

/-! ## A line behind a program -/

namespace Layout

variable {layout : Layout} {s : Statement} {image : Image} {bytes : List UInt8}

theorem image_withStatement (himage : layout.image = .ok image)
    (hbytes : s.bytes layout.labels = .ok bytes) (hfits : layout.size + s.width ≤ memorySize) :
    (layout.withStatement s).image = .ok (image ++ bytes) := by
  obtain ⟨-, chunks, hchunks, rfl⟩ := image_eq_ok himage
  have hplaced : (layout.withStatement s).placed.toList =
      layout.placed.toList ++ [{ line := layout.lines + 1, statement := s }] := by
    simp [withStatement]
  have hchunked : Chunked (layout.withStatement s) (layout.withStatement s).placed.toList
      (chunks ++ [bytes]) := by
    rw [hplaced]
    exact List.rel_append hchunks (.cons hbytes .nil)
  rw [image_of_chunked hfits hchunked, List.flatten_append, List.flatten_singleton]

end Layout

/-- A statement that no label has a part in adds its bytes to a program, if there is room. -/
theorem assemble_append_line {before line : String} {image : Image} {s : Statement}
    {bytes : List UInt8} (hclosed : before = "" ∨ ∃ text, before = text ++ "\n")
    (hbefore : assemble before = .ok image) (hfeed : '\n' ∉ line.toList) (hne : line.toList ≠ [])
    (hparse : Line.parse line.toList = .ok { statement := some s })
    (hbytes : ∀ labels, s.bytes labels = .ok bytes)
    (hfits : image.length + bytes.length ≤ memorySize) :
    assemble (before ++ line) = .ok (image ++ bytes) := by
  obtain ⟨layout, hlayout, himage⟩ := bind_eq_ok.mp hbefore
  obtain ⟨lines, hlines, hlaid⟩ := Layout.laidOut_of_ofText hlayout
  have hofText : Layout.ofText (before ++ line) = .ok (layout.withStatement s) := by
    rw [Layout.ofText] at hlayout ⊢
    rw [Text.lines_append hclosed, Text.lines_of_not_mem hfeed hne, List.foldlM_append, hlayout]
    refine bind_eq_ok.mpr ⟨layout, rfl, ?_⟩
    rw [List.foldlM_cons, Layout.addLine_of_parse hparse]
    rfl
  have hsize : layout.size + s.width ≤ memorySize := by
    rwa [hlaid.size, ← hlaid.length_image hlines himage,
      ← length_of_bytes (Line.wellKinded_of_parse hparse rfl) (hbytes [])]
  exact bind_eq_ok.mpr ⟨_, hofText, Layout.image_withStatement himage (hbytes _) hsize⟩

/-- A line that cannot be parsed is the one that is reported, if no line in front of it is bad. -/
theorem assemble_of_parse_error {text : String} {line : List Char} {k : Nat} {fault : LineFault}
    (hline : (Text.lines text.toList)[k]? = some line) (hparse : Line.parse line = .error fault)
    (hfirst : ∀ j < k, ∀ fault, ¬ Bad (Text.lines text.toList) j fault) :
    assemble text = .error (.atLine (k + 1) fault) := by
  have hbad : Bad (Text.lines text.toList) k fault := by
    rcases bind_eq_error.mp hparse with htokens | ⟨tokens, htokens, hfault⟩
    · exact .token hline htokens
    · exact .line hline htokens hfault
  exact bind_eq_error.mpr (.inl (foldlM_addLine_of_bad hbad hfirst))

/-! ## Openings -/

/-- An operation and spellings of all its operands but the last. -/
structure Opening where
  operation : Operation
  operands : List Spelling
  last : OperandKind
  kinds : operands.map Spelling.kind ++ [last] = operation.operands

/-- What the word is read as where an operand of the kind is expected. -/
def readOperand (kind : OperandKind) (word : List Char) : Except LineFault Operand := do
  let a ← Atom.ofWord word
  Operand.ofAtom kind a

namespace Opening

def print : Opening := ⟨.opcode .prn, [], .register, rfl⟩

def data : Opening := ⟨.data, [], .immediate, rfl⟩

/-- The words of the line that the word completes. -/
def words (opening : Opening) (word : List Char) : List (List Char) :=
  opening.operands.map (fun s => s.text.toList) ++ [word]

def line (opening : Opening) (word : List Char) : List Char :=
  opening.operation.line (opening.words word)

/-- The bytes in front of that of the last operand. -/
def code (opening : Opening) : List UInt8 :=
  opening.operation.code ++ opening.operands.map Spelling.byte

def statement (opening : Opening) (operand : Operand) : Statement :=
  ⟨opening.operation, opening.operands.map Spelling.operand ++ [operand]⟩

section

variable {opening : Opening} {word : List Char} {operand : Operand} {b : UInt8} {image : Image}
  {before text : String} {fault : LineFault}

theorem line_print : print.line word = "PRN ".toList ++ word := by
  simp [print, line, words, Operation.line, Operation.name, Opcode.mnemonic]

theorem line_data : data.line word = "DB ".toList ++ word := by
  simp [data, line, words, Operation.line, Operation.name]

theorem ne_nil_and_bare_of_mem_words (hne : word ≠ []) (hbare : Bare word) :
    ∀ w ∈ opening.words word, w ≠ [] ∧ Bare w := by
  intro w hmem
  rw [words, List.mem_append, List.mem_singleton] at hmem
  rcases hmem with hmem | rfl
  · exact Spelling.ne_nil_and_bare hmem
  · exact ⟨hne, hbare⟩

/-- The operands in front of the last one are read back, so that the last one decides. -/
theorem parse_line (hne : word ≠ []) (hbare : Bare word) :
    Line.parse (opening.line word) =
      (readOperand opening.last word).map fun operand =>
        { statement := some (opening.statement operand) } := by
  have hcount : (opening.words word).length = opening.operation.operands.length := by
    simp [words, ← opening.kinds]
  rw [line, Operation.parse_line (ne_nil_and_bare_of_mem_words hne hbare) hcount, words,
    List.mapM_append, Row.mapM_ofWord, ← opening.kinds, readOperand]
  cases hword : Atom.ofWord word with
  | error fault => simp [hword, bind, Except.bind, Except.map]
  | ok a =>
    have hzip : (opening.operands.map Spelling.kind ++ [opening.last]).zip
        (opening.operands.map Spelling.atom ++ [a]) =
          (opening.operands.map Spelling.kind).zip (opening.operands.map Spelling.atom) ++
            [(opening.last, a)] :=
      List.zip_append (by simp)
    simp only [List.mapM_cons, List.mapM_nil, hword, bind, Except.bind, pure, Except.pure, hzip,
      List.mapM_append, Row.mapM_ofAtom]
    cases Operand.ofAtom opening.last a <;> rfl

theorem bytes_statement {labels : List (String × Nat)} (h : operand.resolve labels = .ok b) :
    (opening.statement operand).bytes labels = .ok (opening.code ++ [b]) := by
  simp only [Statement.bytes, statement, code, List.mapM_append, Row.mapM_resolve, List.mapM_cons,
    List.mapM_nil, h, bind, Except.bind, pure, Except.pure, List.append_assoc]

theorem not_mem_line (hne : word ≠ []) (hbare : Bare word) : '\n' ∉ opening.line word := by
  intro hmem
  rcases Operation.mem_line hmem with halnum | hblank | hcomma | ⟨w, hw, hfeed⟩
  · cases halnum
  · cases hblank
  · cases hcomma
  · cases (ne_nil_and_bare_of_mem_words hne hbare w hw).2.blank _ hfeed

theorem assemble_completed {line : String} (hline : line.toList = opening.line word)
    (hne : word ≠ []) (hbare : Bare word) (hread : readOperand opening.last word = .ok operand)
    (hresolve : ∀ labels, operand.resolve labels = .ok b)
    (hclosed : before = "" ∨ ∃ text, before = text ++ "\n") (hbefore : assemble before = .ok image)
    (hroom : image.length + opening.code.length < memorySize) :
    assemble (before ++ line) = .ok (image ++ (opening.code ++ [b])) := by
  have hparse : Line.parse line.toList = .ok { statement := some (opening.statement operand) } := by
    rw [hline, parse_line hne hbare, hread]
    rfl
  refine assemble_append_line hclosed hbefore (hline ▸ not_mem_line hne hbare)
    (hline ▸ Operation.line_ne_nil) hparse (fun labels => bytes_statement (hresolve labels)) ?_
  rw [List.length_append, List.length_singleton]
  omega

theorem assemble_of_refused {k : Nat}
    (hline : (Text.lines text.toList)[k]? = some (opening.line word)) (hne : word ≠ [])
    (hbare : Bare word) (hread : readOperand opening.last word = .error fault)
    (hfirst : ∀ j < k, ∀ fault, ¬ Bad (Text.lines text.toList) j fault) :
    assemble text = .error (.atLine (k + 1) fault) := by
  refine assemble_of_parse_error hline ?_ hfirst
  rw [parse_line hne hbare, hread]
  rfl

end

end Opening
end LS8.Assembly
