import LS8.Proofs.Assembly.Rows
import LS8.Proofs.Text.Lines
import LS8.Sweep

/-!
# Assembling a disassembly

Assembling the text of an image gives the image back, whatever bytes it holds, if it fits into
memory (`assemble_disassemble`). The text has one row for each item of the sweep
(`Item.exists_row`), and the layout of a text of rows holds their statements and the number of their
bytes, line after line (`Layout.Holds`).
-/
namespace LS8

theorem Instruction.map_fst_operands (i : Instruction) :
    i.operands.map (·.1) = i.opcode.operands :=
  List.map_fst_zip i.opcode.operands_length_le

theorem Instruction.wellFormed_of_mem_sweep {image : Image} {i : Instruction}
    (h : Item.instruction i ∈ sweep image) : i.WellFormed := by
  fun_induction sweep image with
  | case1 => simp at h
  | case2 b rest j hdecode ih =>
    rcases List.mem_cons.mp h with heq | hmem
    · obtain rfl := Item.instruction.inj heq
      obtain ⟨-, -, -, -, hwf⟩ := Instruction.decode_eq_ok hdecode
      exact hwf
    · exact ih hmem
  | case3 b rest e _ ih =>
    rcases List.mem_cons.mp h with heq | hmem
    · contradiction
    · exact ih hmem

namespace Assembly

/-! ## Layout of rows -/

namespace Layout

/-- The layout with a row on its next line. -/
def withRow (layout : Layout) (row : Row) : Layout where
  lines := layout.lines + 1
  placed := layout.placed ++ #[{ line := layout.lines + 1, statement := row.statement }]
  labels := layout.labels
  size := layout.size + row.bytes.length

theorem addLine_text (layout : Layout) (row : Row) :
    layout.addLine row.text.toList = .ok (layout.withRow row) := by
  rw [addLine_of_parse row.parse_text, withStatement, row.width_statement]
  rfl

theorem foldlM_addLine (rows : List Row) (layout : Layout) :
    (rows.map fun row => row.text.toList).foldlM addLine layout =
      .ok (rows.foldl withRow layout) := by
  induction rows generalizing layout with
  | nil => rfl
  | cons row rows ih =>
    rw [List.map_cons, List.foldlM_cons, addLine_text]
    exact ih (layout.withRow row)

/-- The layout holds the statements of the rows, in order, and room for their bytes. -/
structure Holds (layout : Layout) (rows : List Row) : Prop where
  statements : layout.placed.toList.map Placed.statement = rows.map Row.statement
  size : layout.size = (rows.flatMap Row.bytes).length

theorem holds_nil : Holds {} [] := ⟨rfl, rfl⟩

theorem Holds.withRow {layout : Layout} {rows : List Row} (h : layout.Holds rows) (row : Row) :
    (layout.withRow row).Holds (rows ++ [row]) where
  statements := by simp [Layout.withRow, h.statements]
  size := by simp [Layout.withRow, h.size]

theorem Holds.foldl {layout : Layout} {before : List Row} (h : layout.Holds before)
    (rows : List Row) : (rows.foldl Layout.withRow layout).Holds (before ++ rows) := by
  induction rows generalizing layout before with
  | nil => rwa [List.append_nil]
  | cons row rows ih =>
    -- The first row moves over to the rows that the layout holds already.
    have hrest := ih (h.withRow row)
    rwa [List.append_assoc] at hrest

theorem mapM_placedBytes {layout : Layout} {rows : List Row} {placed : List Placed}
    (h : placed.map Placed.statement = rows.map Row.statement) :
    placed.mapM layout.placedBytes = .ok (rows.map Row.bytes) := by
  induction rows generalizing placed with
  | nil =>
    rw [List.map_nil, List.map_eq_nil_iff] at h
    rw [h]
    rfl
  | cons row rows ih =>
    cases placed with
    | nil => contradiction
    | cons p placed =>
      rw [List.map_cons, List.map_cons, List.cons.injEq] at h
      have hbytes : layout.placedBytes p = .ok row.bytes := by
        rw [placedBytes, h.1, row.bytes_statement]
        rfl
      rw [List.mapM_cons, hbytes, ih h.2]
      rfl

/-- The image of rows is their bytes, unless memory is too small for them. -/
theorem image_of_holds {layout : Layout} {rows : List Row} (h : layout.Holds rows) :
    layout.image = if (rows.flatMap Row.bytes).length ≤ memorySize then .ok (rows.flatMap Row.bytes)
      else .error (.programTooLarge (rows.flatMap Row.bytes).length) := by
  rw [image, h.size, mapM_placedBytes h.statements]
  by_cases hfits : (rows.flatMap Row.bytes).length ≤ memorySize
  · rw [if_pos hfits, if_neg (by omega)]
    rfl
  · rw [if_neg hfits, if_pos (by omega)]

end Layout

theorem lines_rows (rows : List Row) :
    Text.lines (Text.unlines (rows.map Row.text)).toList =
      rows.map fun row => row.text.toList := by
  rw [Text.lines_unlines, List.map_map]
  · rfl
  · intro text hmem
    obtain ⟨row, -, rfl⟩ := List.mem_map.mp hmem
    exact ⟨Row.not_mem_text rfl (by decide) (by decide),
      Row.not_mem_text rfl (by decide) (by decide)⟩

theorem assemble_rows (rows : List Row) :
    assemble (Text.unlines (rows.map Row.text)) =
      if (rows.flatMap Row.bytes).length ≤ memorySize then .ok (rows.flatMap Row.bytes)
      else .error (.programTooLarge (rows.flatMap Row.bytes).length) := by
  rw [assemble, Layout.ofText, lines_rows, Layout.foldlM_addLine]
  exact Layout.image_of_holds (Layout.holds_nil.foldl rows)

/-! ## Rows of items -/

theorem map_pmap_ofOperand {γ : Type} {f : Spelling → γ} {g : OperandKind × UInt8 → γ}
    (hfg : ∀ operand h, f (Spelling.ofOperand operand h) = g operand)
    {operands : List (OperandKind × UInt8)}
    (haccepted : ∀ operand ∈ operands, operand.1.accepts operand.2 = true) :
    (operands.pmap Spelling.ofOperand haccepted).map f = operands.map g := by
  rw [List.map_pmap, ← List.pmap_eq_map haccepted]
  exact List.pmap_congr_left operands fun operand _ h _ => hfg operand h

def Row.ofInstruction (i : Instruction) (h : i.WellFormed) : Row where
  operation := .opcode i.opcode
  operands := i.operands.pmap Spelling.ofOperand h.registers
  kinds := by
    rw [map_pmap_ofOperand Spelling.kind_ofOperand, i.map_fst_operands]
    rfl

theorem Row.text_ofInstruction (i : Instruction) (h : i.WellFormed) :
    (ofInstruction i h).text = i.text := by
  have hwords : (ofInstruction i h).operands.map Spelling.text =
      i.operands.map fun operand => operand.1.text operand.2 :=
    map_pmap_ofOperand Spelling.text_ofOperand h.registers
  rw [text_eq, hwords, Instruction.text]
  cases i.operands <;> rfl

theorem Row.bytes_ofInstruction (i : Instruction) (h : i.WellFormed) :
    (ofInstruction i h).bytes = i.encode := by
  have hbytes : (ofInstruction i h).operands.map Spelling.byte = i.operands.map (·.2) :=
    map_pmap_ofOperand Spelling.byte_ofOperand h.registers
  rw [bytes, hbytes]
  rfl

def Row.ofByte (b : UInt8) : Row where
  operation := .data
  operands := [.hexadecimal b]
  kinds := rfl

theorem Row.text_ofByte (b : UInt8) : (ofByte b).text = (Item.byte b).text := by
  simp [text, ofByte, Operation.name, Spelling.hexadecimal, Spelling.number, Item.text]

end Assembly

open Assembly

/-- Every item of a sweep is written as a row. -/
theorem Item.exists_row {image : Image} {item : Item} (h : item ∈ sweep image) :
    ∃ row : Row, row.text = item.text ∧ row.bytes = item.bytes := by
  cases item with
  | instruction i =>
    have hwf := Instruction.wellFormed_of_mem_sweep h
    exact ⟨.ofInstruction i hwf, Row.text_ofInstruction i hwf, Row.bytes_ofInstruction i hwf⟩
  | byte b => exact ⟨.ofByte b, Row.text_ofByte b, rfl⟩

theorem exists_rows_of_items {items : List Item}
    (h : ∀ item ∈ items, ∃ row : Row, row.text = item.text ∧ row.bytes = item.bytes) :
    ∃ rows : List Row, rows.map Row.text = items.map Item.text ∧
      rows.flatMap Row.bytes = items.flatMap Item.bytes := by
  induction items with
  | nil => exact ⟨[], rfl, rfl⟩
  | cons item items ih =>
    obtain ⟨row, htext, hbytes⟩ := h item List.mem_cons_self
    obtain ⟨rows, htexts, hall⟩ := ih fun other hmem => h other (List.mem_cons_of_mem item hmem)
    refine ⟨row :: rows, ?_, ?_⟩
    · rw [List.map_cons, List.map_cons, htext, htexts]
    · rw [List.flatMap_cons, List.flatMap_cons, hbytes, hall]

theorem exists_rows_of_image (image : Image) :
    ∃ rows : List Row, rows.map Row.text = (sweep image).map Item.text ∧
      rows.flatMap Row.bytes = image := by
  obtain ⟨rows, htext, hbytes⟩ := exists_rows_of_items fun _ => Item.exists_row
  exact ⟨rows, htext, hbytes.trans (bytes_sweep image)⟩

/-- Nothing is lost between an image and its text, whatever the bytes are; a text whose bytes exceed
memory is refused with their number. -/
theorem assemble_disassemble (image : Image) :
    assemble (disassemble image) =
      if image.length ≤ memorySize then .ok image else .error (.programTooLarge image.length) := by
  obtain ⟨rows, htext, hbytes⟩ := exists_rows_of_items fun _ => Item.exists_row
  rw [bytes_sweep image] at hbytes
  rw [disassemble, ← htext, assemble_rows, hbytes]

end LS8
