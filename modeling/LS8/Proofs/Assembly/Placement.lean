import LS8.Proofs.Assembly.Offsets

/-!
# Placement

What is written at the offsets. A statement that was parsed makes as many bytes as its width says,
so what was laid out before any byte was made is where the bytes come to stand: at the offset of
each statement the image has its opcode and the bytes that its operands denote, labels used before
or behind the line that defines them included (`assemble_places_statements`).
-/
namespace LS8
namespace Assembly

/-! ## What stands for a statement -/

/-- An operand and the byte it has become, with the kind that it has in the instruction. -/
inductive Denotes (lines : List Line) : Operand → OperandKind × UInt8 → Prop
  | register {r : Register} {b} (hb : b.toNat = r.val) : Denotes lines (.register r) (.register, b)
  | byte {b} : Denotes lines (.value (.byte b)) (.immediate, b)
  /-- Line `k` is the only one that defines the label. -/
  | label {name k b} (hk : ∀ j, Defines lines j name ↔ j = k)
      (hb : b.toNat = target (placed lines) (k + 1)) :
      Denotes lines (.value (.label name)) (.immediate, b)

/-- What stands in the image for one statement. -/
def Statement.StandsAt (lines : List Line) (image : Image) (address : Nat) (s : Statement) : Prop :=
  match s.operation with
  | .data => ∃ v b, s.operands = [.value v] ∧ image[address]? = some b ∧
      Denotes lines (.value v) (.immediate, b)
  | .opcode op => ∃ i, Instruction.decode (image.drop address) = .ok i ∧ i.opcode = op ∧
      i.WellFormed ∧ List.Forall₂ (Denotes lines) s.operands i.operands

section Bytes

variable {layout : Layout} {lines : List Line}

theorem Denotes.accepts {operand : Operand} {read : OperandKind × UInt8}
    (h : Denotes lines operand read) : read.1.accepts read.2 = true := by
  cases h with
  | @register r _ hb => exact decide_eq_true (hb ▸ r.isLt)
  | byte => rfl
  | label => rfl

theorem accepts_of_denotes {operands : List Operand} {reads : List (OperandKind × UInt8)}
    (h : List.Forall₂ (Denotes lines) operands reads) :
    ∀ read ∈ reads, read.1.accepts read.2 = true := by
  induction h with
  | nil => simp
  | cons hfirst _ ih => exact List.forall_mem_cons.mpr ⟨hfirst.accepts, ih⟩

theorem Layout.LaidOut.denotes (hlaid : layout.LaidOut lines) {operand : Operand} {b : UInt8}
    (h : operand.resolve layout.labels = .ok b) : Denotes lines operand (operand.kind, b) := by
  cases operand with
  | register r =>
    obtain rfl := Except.ok.inj h
    have hr : r.val < 8 := r.isLt
    exact .register (by rw [UInt8.toNat_ofNat']; omega)
  | value v =>
    cases v with
    | byte b' =>
      obtain rfl := Except.ok.inj h
      exact .byte
    | label name =>
      simp only [Operand.resolve, Value.resolve] at h
      split at h
      · contradiction
      · next address hlookup =>
        split at h
        · next hlt =>
          obtain rfl := Except.ok.inj h
          obtain ⟨k, hk, haddress⟩ := hlaid.defined hlookup
          have hline := ((hk k).mpr rfl).lt_length
          refine .label hk ?_
          rw [target_placed (Nat.le_of_lt hline), ← haddress, UInt8.toNat_ofNat']
          omega
        · contradiction

theorem Layout.LaidOut.denotes_zip (hlaid : layout.LaidOut lines) {operands : List Operand}
    {bytes : List UInt8} (h : operands.mapM (Operand.resolve layout.labels) = .ok bytes) :
    List.Forall₂ (Denotes lines) operands ((operands.map Operand.kind).zip bytes) := by
  rw [mapM_eq_ok] at h
  induction h with
  | nil => exact .nil
  | cons hfirst _ ih => exact .cons (hlaid.denotes hfirst) ih

theorem length_of_bytes {labels : List (String × Nat)} {s : Statement} {bytes : List UInt8}
    (hkinds : s.WellKinded) (h : s.bytes labels = .ok bytes) : bytes.length = s.width := by
  obtain ⟨resolved, hresolved, h⟩ := bind_eq_ok.mp h
  obtain rfl := Except.ok.inj h
  rw [List.length_append, ← (mapM_eq_ok.mp hresolved).length_eq, ← List.length_map Operand.kind,
    hkinds]
  rfl

theorem Layout.LaidOut.standsAt (hlaid : layout.LaidOut lines) {s : Statement}
    {image : Image} {address : Nat} {bytes rest : List UInt8} (hkinds : s.WellKinded)
    (hbytes : s.bytes layout.labels = .ok bytes) (himage : image.drop address = bytes ++ rest) :
    s.StandsAt lines image address := by
  obtain ⟨resolved, hresolved, hbytes⟩ := bind_eq_ok.mp hbytes
  obtain rfl := Except.ok.inj hbytes
  have hdenotes := hlaid.denotes_zip hresolved
  have hlength : resolved.length = s.operation.operands.length := by
    rw [← hkinds, List.length_map, (mapM_eq_ok.mp hresolved).length_eq]
  rw [hkinds] at hdenotes
  unfold Statement.StandsAt
  cases hop : s.operation with
  | data =>
    rw [hop] at hdenotes hlength himage
    obtain ⟨b, rfl⟩ := List.length_eq_one_iff.mp hlength
    obtain ⟨operand, none, hdenotes, hnone, hone⟩ := List.forall₂_cons_right_iff.mp hdenotes
    obtain rfl := List.forall₂_nil_right_iff.mp hnone
    have hbyte : image[address]? = some b := by
      rw [← List.head?_drop, himage]
      rfl
    cases hdenotes with
    | byte => exact ⟨_, b, hone, hbyte, .byte⟩
    | label hk hb => exact ⟨_, b, hone, hbyte, .label hk hb⟩
  | opcode op =>
    rw [hop] at hdenotes hlength himage
    obtain ⟨i, hdecode, hopcode, hoperands, hwf⟩ :=
      Instruction.decode_of_accepts hlength (accepts_of_denotes hdenotes) rest
    refine ⟨i, ?_, hopcode, hwf, hoperands ▸ hdenotes⟩
    rw [himage, ← hdecode]
    rfl

end Bytes

/-! ## The image as chunks -/

section Chunks

variable {layout : Layout} {statements : List Placed} {chunks : List (List UInt8)}

/-- The bytes of the statements, one chunk for each. -/
def Chunked (layout : Layout) : List Placed → List (List UInt8) → Prop :=
  List.Forall₂ fun p chunk => p.statement.bytes layout.labels = .ok chunk

theorem Layout.image_eq_ok {image : Image} (h : layout.image = .ok image) :
    layout.size ≤ memorySize ∧
      ∃ chunks, Chunked layout layout.placed.toList chunks ∧ image = chunks.flatten := by
  unfold Layout.image at h
  split at h
  · contradiction
  · next hsize =>
    obtain ⟨chunks, hchunks, h⟩ := bind_eq_ok.mp h
    refine ⟨Nat.le_of_not_lt hsize, chunks, ?_, (Except.ok.inj h).symm⟩
    exact (mapM_eq_ok.mp hchunks).imp fun p chunk => mapError_eq_ok.mp

theorem Chunked.widths (h : Chunked layout statements chunks)
    (hkinds : ∀ p ∈ statements, p.statement.WellKinded) :
    List.Forall₂ (fun p chunk => chunk.length = p.statement.width) statements chunks := by
  induction h with
  | nil => exact .nil
  | cons hfirst _ ih =>
    obtain ⟨hkind, hkinds⟩ := List.forall_mem_cons.mp hkinds
    exact .cons (length_of_bytes hkind hfirst) (ih hkinds)

theorem length_flatten_chunks
    (h : List.Forall₂ (fun p chunk => chunk.length = p.statement.width) statements chunks) :
    chunks.flatten.length = totalWidth statements := by
  induction h with
  | nil => rfl
  | cons hfirst _ ih =>
    rw [List.flatten_cons, List.length_append, hfirst, ih]
    rfl

/-- Chunks as wide as their statements stand at the offsets of these. -/
theorem drop_offset_flatten
    (h : List.Forall₂ (fun p chunk => chunk.length = p.statement.width) statements chunks)
    (n : Nat) : chunks.flatten.drop (offset statements n) = (chunks.drop n).flatten := by
  induction n generalizing statements chunks with
  | zero => simp [offset, totalWidth]
  | succ n ih =>
    cases h with
    | nil => simp
    | @cons p chunk statements chunks hfirst hrest =>
      have hoffset : offset (p :: statements) (n + 1) = chunk.length + offset statements n := by
        simp [offset, totalWidth, hfirst]
      rw [hoffset, List.flatten_cons, List.drop_length_add_append, List.drop_succ_cons]
      exact ih hrest

theorem Chunked.exists_at_offset (h : Chunked layout statements chunks)
    (hkinds : ∀ p ∈ statements, p.statement.WellKinded) {n : Nat} {p : Placed}
    (hp : statements[n]? = some p) :
    ∃ chunk rest, p.statement.bytes layout.labels = .ok chunk ∧
      chunks.flatten.drop (offset statements n) = chunk ++ rest := by
  obtain ⟨hn, rfl⟩ := List.getElem?_eq_some_iff.mp hp
  have hn' : n < chunks.length := by rwa [← List.Forall₂.length_eq h]
  refine ⟨chunks[n], (chunks.drop (n + 1)).flatten, List.Forall₂.get h hn hn', ?_⟩
  rw [drop_offset_flatten (h.widths hkinds), List.drop_eq_getElem_cons hn', List.flatten_cons]

end Chunks

theorem wellKinded_of_mem_placed {texts : List (List Char)} {lines : List Line}
    (h : texts.mapM Line.parse = .ok lines) {p : Placed} (hp : p ∈ placed lines) :
    p.statement.WellKinded := by
  obtain ⟨⟨line, number⟩, hmem, hp⟩ := List.mem_flatMap.mp hp
  obtain ⟨s, hs, rfl⟩ := List.mem_map.mp hp
  obtain ⟨text, -, hparse⟩ := exists_of_mem_mapM h (List.fst_mem_of_mem_zipIdx hmem)
  exact Line.wellKinded_of_parse hparse (Option.mem_toList.mp hs)

theorem Layout.LaidOut.length_image {layout : Layout} {texts : List (List Char)} {lines : List Line}
    {image : Image} (hlaid : layout.LaidOut lines) (hlines : texts.mapM Line.parse = .ok lines)
    (h : layout.image = .ok image) : image.length = totalWidth (Assembly.placed lines) := by
  obtain ⟨-, chunks, hchunks, rfl⟩ := Layout.image_eq_ok h
  rw [hlaid.statements] at hchunks
  exact length_flatten_chunks (hchunks.widths fun p => wellKinded_of_mem_placed hlines)

end Assembly

open Assembly

theorem length_le_of_assemble {text : String} {image : Image} (h : assemble text = .ok image) :
    image.length ≤ memorySize := by
  obtain ⟨layout, hlayout, himage⟩ := bind_eq_ok.mp h
  obtain ⟨lines, hlines, hlaid⟩ := Layout.laidOut_of_ofText hlayout
  rw [hlaid.length_image hlines himage, ← hlaid.size]
  exact (Layout.image_eq_ok himage).1

/-- The statements of a text stand in its image one behind the other, with the bytes that their
operands denote, wherever the labels among these are defined. -/
theorem assemble_places_statements {text : String} {image : Image} (h : assemble text = .ok image) :
    ∃ lines, (Text.lines text.toList).mapM Line.parse = .ok lines ∧
      image.length = totalWidth (placed lines) ∧ image.length ≤ memorySize ∧
      ∀ (n : Nat) (p : Placed), (placed lines)[n]? = some p →
        p.statement.StandsAt lines image (offset (placed lines) n) := by
  obtain ⟨layout, hlayout, himage⟩ := bind_eq_ok.mp h
  obtain ⟨lines, hlines, hlaid⟩ := Layout.laidOut_of_ofText hlayout
  obtain ⟨hsize, chunks, hchunks, rfl⟩ := Layout.image_eq_ok himage
  have hkinds : ∀ p ∈ placed lines, p.statement.WellKinded :=
    fun p => wellKinded_of_mem_placed hlines
  rw [hlaid.statements] at hchunks
  have hlength := length_flatten_chunks (hchunks.widths hkinds)
  refine ⟨lines, hlines, hlength, ?_, fun n p hp => ?_⟩
  · rwa [hlength, ← hlaid.size]
  · obtain ⟨chunk, rest, hbytes, hdrop⟩ := hchunks.exists_at_offset hkinds hp
    exact hlaid.standsAt (hkinds p (List.mem_of_getElem? hp)) hbytes hdrop

/-- A label that is used before the line that defines it, and one that is used behind it. -/
def crossingLabels : String :=
  "LDI R1,end\nstart: JMP R1\nDB 0xFF\nend: LDI R2,start\nHLT\n"

def crossingLabelsImage : Image := [0x82, 1, 6, 0x54, 1, 0xFF, 0x82, 2, 3, 1]

theorem assemble_places_crossingLabels :
    assemble crossingLabels = .ok crossingLabelsImage ∧
    ∃ lines, (Text.lines crossingLabels.toList).mapM Line.parse = .ok lines ∧
      crossingLabelsImage.length = totalWidth (placed lines) ∧
      crossingLabelsImage.length ≤ memorySize ∧
      ∀ (n : Nat) (p : Placed), (placed lines)[n]? = some p →
        p.statement.StandsAt lines crossingLabelsImage (offset (placed lines) n) := by
  have h : assemble crossingLabels = .ok crossingLabelsImage := by decide +kernel
  exact ⟨h, assemble_places_statements h⟩

end LS8
