import LS8.Proofs.Assembly.RoundTrip

/-!
# Canonical text

The text of a list of well-formed instructions is the disassembly of their encodings: the sweep cuts
the bytes exactly where one instruction ends and the next begins, whatever opcode an operand byte
may look like, so that no byte is taken for data. Assembling the text gives the encodings back
(`canonical_text`).
-/
namespace LS8

section Sweep

variable {i : Instruction} {instructions : List Instruction}

/-- The sweep takes one instruction off the front, and goes on right behind it. -/
theorem sweep_encode_append (h : i.WellFormed) (rest : Image) :
    sweep (i.encode ++ rest) = .instruction i :: sweep rest := by
  have hdecode := Instruction.decode_encode_append h rest
  have hdrop : (i.encode ++ rest).drop (i.opcode.operands.length + 1) = rest := by
    refine List.drop_left' ?_
    rw [i.encode_length, Instruction.width, Opcode.width, Nat.add_comm]
  rw [Instruction.encode, List.cons_append] at hdecode hdrop ⊢
  rw [List.drop_succ_cons] at hdrop
  rw [sweep, hdecode]
  simp only [hdrop]

theorem sweep_ofInstructions (h : ∀ i ∈ instructions, i.WellFormed) :
    sweep (Image.ofInstructions instructions) = instructions.map .instruction := by
  induction instructions with
  | nil => rw [Image.ofInstructions, List.flatMap_nil, sweep, List.map_nil]
  | cons i instructions ih =>
    obtain ⟨hfirst, hrest⟩ := List.forall_mem_cons.mp h
    rw [Image.ofInstructions] at ih ⊢
    rw [List.flatMap_cons, sweep_encode_append hfirst, ih hrest, List.map_cons]

/-- The width of so many of the first instructions. -/
def runningWidth : List Instruction → Nat → Nat
  | i :: instructions, count + 1 => i.width + runningWidth instructions count
  | _, _ => 0

theorem addressed_map_instruction (address : Nat) (instructions : List Instruction) :
    addressed address (instructions.map .instruction) =
      instructions.mapIdx fun n i => (address + runningWidth instructions n, .instruction i) := by
  induction instructions generalizing address with
  | nil => rfl
  | cons i instructions ih =>
    have hwidth : (Item.instruction i).width = i.width := i.encode_length
    rw [List.map_cons, addressed, ih, hwidth, List.mapIdx_cons]
    simp [runningWidth, Nat.add_assoc]

end Sweep

open Assembly

/-- No instruction is written like a data directive. -/
theorem Instruction.not_data_prefix_text (i : Instruction) :
    ¬ Operation.data.name.toList <+: i.text.toList := by
  have hmnemonic : i.opcode.mnemonic.toList <+: i.text.toList := by
    unfold text
    split
    · exact List.prefix_refl _
    · rw [String.toList_append, String.toList_append, List.append_assoc]
      exact List.prefix_append _ _
  have hall : ∀ op ∈ Opcode.all, 2 ≤ op.mnemonic.toList.length ∧
      ¬ Operation.data.name.toList <+: op.mnemonic.toList := by decide
  obtain ⟨hlength, hother⟩ := hall i.opcode i.opcode.mem_all
  exact fun hdata => hother (List.prefix_of_prefix_length_le hdata hmnemonic hlength)

theorem exists_rows_of_instructions {instructions : List Instruction}
    (h : ∀ i ∈ instructions, i.WellFormed) :
    ∃ rows : List Row, rows.map Row.text = instructions.map Instruction.text ∧
      rows.flatMap Row.bytes = Image.ofInstructions instructions := by
  obtain ⟨rows, htext, hbytes⟩ := exists_rows_of_image (Image.ofInstructions instructions)
  rw [sweep_ofInstructions h, List.map_map] at htext
  exact ⟨rows, htext, hbytes⟩

/-- **Canonical text.** The encodings of well-formed instructions are swept into just these
instructions, each at the width of those in front of it. Their disassembly has one line for each,
which is its text and no data directive, and if the encodings fit into memory, they are what
assembling these lines gives. -/
theorem canonical_text {instructions : List Instruction} (h : ∀ i ∈ instructions, i.WellFormed) :
    addressed 0 (sweep (Image.ofInstructions instructions)) =
        instructions.mapIdx (fun n i => (runningWidth instructions n, .instruction i)) ∧
      disassemble (Image.ofInstructions instructions) =
        Text.unlines (instructions.map Instruction.text) ∧
      Text.lines (disassemble (Image.ofInstructions instructions)).toList =
        instructions.map (fun i => i.text.toList) ∧
      (∀ line ∈ Text.lines (disassemble (Image.ofInstructions instructions)).toList,
        ¬ Operation.data.name.toList <+: line) ∧
      ((Image.ofInstructions instructions).length ≤ memorySize →
        assemble (Text.unlines (instructions.map Instruction.text)) =
          .ok (Image.ofInstructions instructions)) := by
  obtain ⟨rows, htext, hbytes⟩ := exists_rows_of_instructions h
  have hdisassemble : disassemble (Image.ofInstructions instructions) =
      Text.unlines (instructions.map Instruction.text) := by
    rw [disassemble, sweep_ofInstructions h, List.map_map]
    rfl
  have hlines : Text.lines (disassemble (Image.ofInstructions instructions)).toList =
      instructions.map fun i => i.text.toList := by
    have htexts : (rows.map Row.text).map String.toList =
        (instructions.map Instruction.text).map String.toList := by rw [htext]
    rw [List.map_map, List.map_map] at htexts
    rw [hdisassemble, ← htext, lines_rows]
    exact htexts
  refine ⟨?_, hdisassemble, hlines, ?_, fun hfits => ?_⟩
  · rw [sweep_ofInstructions h, addressed_map_instruction]
    simp only [Nat.zero_add]
  · rw [hlines]
    intro line hline
    obtain ⟨i, -, rfl⟩ := List.mem_map.mp hline
    exact i.not_data_prefix_text
  · rw [← htext, assemble_rows, hbytes, if_pos hfits]

/-- The last operand of the first instruction is the byte of a PRN, and those of the second one are
the bytes of an HLT and a NOP. -/
def lookalikes : List Instruction :=
  [⟨.ldi, 0, 0x47⟩, ⟨.alu .add, 1, 0⟩, ⟨.push, 7, 0⟩, ⟨.hlt, 0, 0⟩]

theorem canonical_text_lookalikes :
    (∀ i ∈ lookalikes, i.WellFormed) ∧
      disassemble [0x82, 0, 0x47, 0xA0, 1, 0, 0x45, 7, 1] = "LDI R0,71
ADD R1,R0
PUSH R7
HLT
" ∧
      assemble "LDI R0,71
ADD R1,R0
PUSH R7
HLT
" =
        .ok [0x82, 0, 0x47, 0xA0, 1, 0, 0x45, 7, 1] := by
  have hwf : ∀ i ∈ lookalikes, i.WellFormed := by
    simp only [lookalikes, List.forall_mem_cons, List.not_mem_nil, false_implies, implies_true,
      and_true]
    refine ⟨⟨?_, ?_, ?_⟩, ⟨?_, ?_, ?_⟩, ⟨?_, ?_, ?_⟩, ⟨?_, ?_, ?_⟩⟩
    all_goals decide
  have htext : Text.unlines (lookalikes.map Instruction.text) =
      "LDI R0,71
ADD R1,R0
PUSH R7
HLT
" := by decide
  have hbytes : Image.ofInstructions lookalikes = [0x82, 0, 0x47, 0xA0, 1, 0, 0x45, 7, 1] := by
    decide
  obtain ⟨-, hdisassemble, -, -, hassemble⟩ := canonical_text hwf
  rw [htext, hbytes] at hdisassemble hassemble
  exact ⟨hwf, hdisassemble, hassemble (by decide)⟩

end LS8
