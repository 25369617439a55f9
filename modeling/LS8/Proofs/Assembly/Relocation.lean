import LS8.Proofs.Assembly.Placement
import LS8.Proofs.Text.Lines

/-!
# Relocation

Two texts that assemble, one behind the other, make the image of the first one followed by that of
the second one, in which the bytes that come from labels are increased by the length of the first
and all others are the same (`assemble_append`). That holds if no label is defined in both texts, if
both images fit into memory together, and if the increased addresses are still bytes.
-/
namespace LS8
namespace Assembly

/-! ## Lists of lines, one behind the other -/

section Join

variable {lines more : List Line} {name : String} {k : Nat}

theorem placed_append :
    placed (lines ++ more) = placed lines ++ placedFrom (lines.length + 1) more := by
  rw [placed, placedFrom_append, Nat.add_comm, placed]

theorem totalWidth_placed_append :
    totalWidth (placed (lines ++ more)) = totalWidth (placed lines) + totalWidth (placed more) := by
  rw [placed_append, totalWidth_append, totalWidth_placedFrom]

theorem defines_append_left (h : k < lines.length) :
    Defines (lines ++ more) k name ↔ Defines lines k name := by
  rw [Defines, List.getElem?_append_left h, Defines]

theorem defines_append_right :
    Defines (lines ++ more) (lines.length + k) name ↔ Defines more k name := by
  rw [Defines, List.getElem?_append_right (Nat.le_add_right _ _), Nat.add_sub_cancel_left, Defines]

/-- A line of both lists is one of the first or one of the second. -/
theorem Defines.of_append (h : Defines (lines ++ more) k name) :
    Defines lines k name ∨ ∃ n, k = lines.length + n ∧ Defines more n name := by
  by_cases hk : k < lines.length
  · exact Or.inl ((defines_append_left hk).mp h)
  · obtain ⟨n, rfl⟩ := Nat.exists_eq_add_of_le (Nat.le_of_not_lt hk)
    exact Or.inr ⟨n, rfl, defines_append_right.mp h⟩

theorem unique_append
    (hlines : ∀ name j k, Defines lines j name → Defines lines k name → j = k)
    (hmore : ∀ name j k, Defines more j name → Defines more k name → j = k)
    (hdisjoint : ∀ name j k, Defines lines j name → ¬ Defines more k name) (name : String)
    (j k : Nat) (hj : Defines (lines ++ more) j name) (hk : Defines (lines ++ more) k name) :
    j = k := by
  rcases hj.of_append with hfront | ⟨j, rfl, hback⟩ <;>
    rcases hk.of_append with hfront' | ⟨k, rfl, hback'⟩
  · exact hlines name j k hfront hfront'
  · exact absurd hback' (hdisjoint name j k hfront)
  · exact absurd hback (hdisjoint name k j hfront')
  · rw [hmore name j k hback hback']

end Join

theorem Defines.mem_labels {lines : List Line} {name : String} {k : Nat}
    (h : Defines lines k name) : name ∈ lines.filterMap Line.label := by
  obtain ⟨line, hline, hlabel⟩ := h
  exact List.mem_filterMap.mpr ⟨line, List.mem_of_getElem? hline, hlabel⟩

/-! ## Bytes that come from labels -/

def Operand.isLabel : Operand → Bool
  | .value (.label _) => true
  | _ => false

/-- For each byte of a statement, whether it comes from a label. -/
def Statement.labelled (s : Statement) : List Bool :=
  s.operation.code.map (fun _ => false) ++ s.operands.map Operand.isLabel

def statementsOf (lines : List Line) : List Statement := lines.filterMap Line.statement

/-- For each byte of an image, whether it comes from a label. -/
def labelled (statements : List Statement) : List Bool := statements.flatMap Statement.labelled

def Mentions (statements : List Statement) (name : String) : Prop :=
  ∃ s ∈ statements, Operand.value (.label name) ∈ s.operands

/-- The bytes that come from labels have grown by a number, and the others have not changed. -/
inductive Relocated (distance : Nat) : List Bool → Image → Image → Prop
  | nil : Relocated distance [] [] []
  | same {b flags image after} (rest : Relocated distance flags image after) :
      Relocated distance (false :: flags) (b :: image) (b :: after)
  | moved {b b' flags image after} (hb : b'.toNat = b.toNat + distance)
      (rest : Relocated distance flags image after) :
      Relocated distance (true :: flags) (b :: image) (b' :: after)

namespace Relocated

variable {distance : Nat} {flags flags' : List Bool} {image image' after after' : Image}

theorem append (h : Relocated distance flags image after)
    (h' : Relocated distance flags' image' after') :
    Relocated distance (flags ++ flags') (image ++ image') (after ++ after') := by
  induction h with
  | nil => exact h'
  | same _ ih => exact .same ih
  | moved hb _ ih => exact .moved hb ih

theorem code (bytes : List UInt8) : Relocated distance (bytes.map fun _ => false) bytes bytes := by
  induction bytes with
  | nil => exact .nil
  | cons b bytes ih => exact .same ih

/-- Over no distance, nothing changes. -/
theorem eq_of_zero (h : Relocated 0 flags image after) : after = image := by
  induction h with
  | nil => rfl
  | same _ ih => rw [ih]
  | moved hb _ ih => rw [ih, UInt8.toNat_inj.mp hb]

end Relocated

/-! ## Statements among other labels -/

/-- Labels that have an address here have one there, so much higher. -/
def Moves (labels labels' : List (String × Nat)) (distance : Nat) : Prop :=
  ∀ name address, labels.lookup name = some address →
    labels'.lookup name = some (address + distance)

/-- The labels that are mentioned can be moved so far, if they can be used at all. -/
def Room (labels : List (String × Nat)) (distance : Nat) (mentioned : String → Prop) : Prop :=
  ∀ name address, mentioned name → labels.lookup name = some address → address < 256 →
    address + distance < 256

section Moved

variable {labels labels' : List (String × Nat)} {distance : Nat}

theorem Operand.resolve_of_moves {operand : Operand} {b : UInt8}
    (hmoves : Moves labels labels' distance)
    (hroom : Room labels distance fun name => operand = .value (.label name))
    (h : operand.resolve labels = .ok b) :
    ∃ b', operand.resolve labels' = .ok b' ∧ Relocated distance [operand.isLabel] [b] [b'] := by
  cases operand with
  | register r => exact ⟨b, h, .same .nil⟩
  | value v =>
    cases v with
    | byte b' => exact ⟨b, h, .same .nil⟩
    | label name =>
      simp only [Operand.resolve, Value.resolve] at h ⊢
      split at h
      · contradiction
      · next address hlookup =>
        split at h
        · next hlt =>
          obtain rfl := Except.ok.inj h
          have hlt' := hroom name address rfl hlookup hlt
          simp only [hmoves name address hlookup, if_pos hlt']
          refine ⟨_, rfl, .moved ?_ .nil⟩
          rw [UInt8.toNat_ofNat', UInt8.toNat_ofNat']
          omega
        · contradiction

theorem exists_mapM_resolve_of_moves {operands : List Operand} {bytes : List UInt8}
    (hmoves : Moves labels labels' distance)
    (hroom : Room labels distance fun name => .value (.label name) ∈ operands)
    (h : operands.mapM (Operand.resolve labels) = .ok bytes) :
    ∃ bytes', operands.mapM (Operand.resolve labels') = .ok bytes' ∧
      Relocated distance (operands.map Operand.isLabel) bytes bytes' := by
  simp only [mapM_eq_ok] at h ⊢
  induction h with
  | nil => exact ⟨[], .nil, .nil⟩
  | @cons operand b operands bytes hfirst _ ih =>
    obtain ⟨b', hb', hmoved⟩ := Operand.resolve_of_moves hmoves (by
      intro name address heq
      exact hroom name address (heq ▸ List.mem_cons_self)) hfirst
    obtain ⟨bytes', hbytes', hrest⟩ := ih (by
      intro name address hmem
      exact hroom name address (List.mem_cons_of_mem operand hmem))
    exact ⟨b' :: bytes', .cons hb' hbytes', hmoved.append hrest⟩

theorem Statement.exists_bytes_of_moves {s : Statement} {bytes : List UInt8}
    (hmoves : Moves labels labels' distance)
    (hroom : Room labels distance fun name => .value (.label name) ∈ s.operands)
    (h : s.bytes labels = .ok bytes) :
    ∃ bytes', s.bytes labels' = .ok bytes' ∧ Relocated distance s.labelled bytes bytes' := by
  obtain ⟨operands, hoperands, h⟩ := bind_eq_ok.mp h
  obtain rfl := Except.ok.inj h
  obtain ⟨operands', hoperands', hmoved⟩ := exists_mapM_resolve_of_moves hmoves hroom hoperands
  exact ⟨s.operation.code ++ operands', bind_eq_ok.mpr ⟨operands', hoperands', rfl⟩,
    (Relocated.code s.operation.code).append hmoved⟩

theorem exists_chunks_of_moves {ss : List Statement} {chunks : List (List UInt8)}
    (hmoves : Moves labels labels' distance) (hroom : Room labels distance (Mentions ss))
    (h : List.Forall₂ (fun s chunk => s.bytes labels = .ok chunk) ss chunks) :
    ∃ chunks', List.Forall₂ (fun s chunk => s.bytes labels' = .ok chunk) ss chunks' ∧
      Relocated distance (labelled ss) chunks.flatten chunks'.flatten := by
  induction h with
  | nil => exact ⟨[], .nil, .nil⟩
  | @cons s chunk ss chunks hfirst _ ih =>
    obtain ⟨chunk', hchunk', hmoved⟩ := Statement.exists_bytes_of_moves hmoves (by
      intro name address hmem
      exact hroom name address ⟨s, List.mem_cons_self, hmem⟩) hfirst
    obtain ⟨chunks', hchunks', hrest⟩ := ih (by
      rintro name address ⟨t, ht, hmem⟩
      exact hroom name address ⟨t, List.mem_cons_of_mem s ht, hmem⟩)
    exact ⟨chunk' :: chunks', .cons hchunk' hchunks', hmoved.append hrest⟩

end Moved

/-! ## Layouts of two texts -/

theorem map_statement_placedFrom (number : Nat) (lines : List Line) :
    (placedFrom number lines).map Placed.statement = statementsOf lines := by
  induction lines generalizing number with
  | nil => rfl
  | cons line lines ih =>
    rw [← List.singleton_append, placedFrom_append, List.map_append, ih]
    rcases hs : line.statement with _ | s <;> simp [placedFrom, statementsOf, hs]

/-- Whoever places them, statements become chunks by the labels alone. -/
theorem chunked_iff {layout : Layout} {list : List Placed} {chunks : List (List UInt8)} :
    Chunked layout list chunks ↔
      List.Forall₂ (fun s chunk => s.bytes layout.labels = .ok chunk) (list.map Placed.statement)
        chunks := by
  rw [List.forall₂_map_left_iff, Chunked]

theorem Layout.image_of_chunked {layout : Layout} {chunks : List (List UInt8)}
    (hsize : layout.size ≤ memorySize) (h : Chunked layout layout.placed.toList chunks) :
    layout.image = .ok chunks.flatten := by
  have hplaced : layout.placed.toList.mapM layout.placedBytes = .ok chunks :=
    mapM_eq_ok.mpr (h.imp fun p chunk => mapError_eq_ok.mpr)
  rw [Layout.image, if_neg (Nat.not_lt.mpr hsize)]
  exact bind_eq_ok.mpr ⟨chunks, hplaced, rfl⟩

section Join

variable {front back joined : Layout} {lines more : List Line}

theorem Layout.LaidOut.moves_front (hfront : front.LaidOut lines)
    (hjoined : joined.LaidOut (lines ++ more)) : Moves front.labels joined.labels 0 := by
  intro name address hlookup
  obtain ⟨k, hk, rfl⟩ := hfront.defined hlookup
  have hdefined := (hk k).mpr rfl
  have hlt := hdefined.lt_length
  rw [hjoined.lookup_eq ((defines_append_left hlt).mpr hdefined),
    List.take_append_of_le_length (Nat.le_of_lt hlt), Nat.add_zero]

theorem Layout.LaidOut.moves_back (hback : back.LaidOut more)
    (hjoined : joined.LaidOut (lines ++ more)) :
    Moves back.labels joined.labels (totalWidth (Assembly.placed lines)) := by
  intro name address hlookup
  obtain ⟨k, hk, rfl⟩ := hback.defined hlookup
  rw [hjoined.lookup_eq (defines_append_right.mpr ((hk k).mpr rfl)), List.take_length_add_append,
    totalWidth_placed_append, Nat.add_comm]

theorem Layout.LaidOut.room (hback : back.LaidOut more) {distance : Nat}
    (h : ∀ name k, Mentions (statementsOf more) name → Defines more k name →
      target (Assembly.placed more) (k + 1) + distance ≤ 255) :
    Room back.labels distance (Mentions (statementsOf more)) := by
  intro name address hmentioned hlookup _
  obtain ⟨k, hk, rfl⟩ := hback.defined hlookup
  have hdefined := (hk k).mpr rfl
  have hmoved := h name k hmentioned hdefined
  rw [target_placed (Nat.le_of_lt hdefined.lt_length)] at hmoved
  omega

/-- The image of two layouts, one behind the other, if they fit into memory together. -/
theorem Layout.LaidOut.exists_image_append {p q : Image} {distance : Nat}
    (hfront : front.LaidOut lines) (hback : back.LaidOut more)
    (hjoined : joined.LaidOut (lines ++ more)) (hp : front.image = .ok p) (hq : back.image = .ok q)
    (hdistance : distance = totalWidth (Assembly.placed lines))
    (hsize : joined.size ≤ memorySize)
    (hroom : Room back.labels distance (Mentions (statementsOf more))) :
    ∃ q', joined.image = .ok (p ++ q') ∧
      Relocated distance (labelled (statementsOf more)) q q' := by
  obtain ⟨-, chunks, hchunks, rfl⟩ := Layout.image_eq_ok hp
  obtain ⟨-, chunks', hchunks', rfl⟩ := Layout.image_eq_ok hq
  rw [chunked_iff, hfront.statements, Assembly.placed, map_statement_placedFrom] at hchunks
  rw [chunked_iff, hback.statements, Assembly.placed, map_statement_placedFrom] at hchunks'
  obtain ⟨kept, hkept, hsame⟩ := exists_chunks_of_moves (hfront.moves_front hjoined)
    (fun _ _ _ _ hlt => hlt) hchunks
  obtain ⟨moved, hmoved, hrelocated⟩ := exists_chunks_of_moves
    (hdistance ▸ hback.moves_back hjoined) hroom hchunks'
  refine ⟨moved.flatten, ?_, hrelocated⟩
  rw [← hsame.eq_of_zero, ← List.flatten_append]
  refine Layout.image_of_chunked hsize (chunked_iff.mpr ?_)
  rw [hjoined.statements, Assembly.placed, map_statement_placedFrom, statementsOf,
    List.filterMap_append]
  exact List.rel_append hkept hmoved

end Join

/-- Two texts without a label in common have a layout together. -/
theorem Layout.exists_ofText_append {front back : String} {lines more : List Line}
    (hclosed : front = "" ∨ ∃ text, front = text ++ "\n")
    (hlines : (Text.lines front.toList).mapM Line.parse = .ok lines)
    (hmore : (Text.lines back.toList).mapM Line.parse = .ok more)
    (hunique : ∀ name j k, Defines (lines ++ more) j name → Defines (lines ++ more) k name →
      j = k) :
    ∃ joined, Layout.ofText (front ++ back) = .ok joined ∧ joined.LaidOut (lines ++ more) := by
  have hparse : (Text.lines (front ++ back).toList).mapM Line.parse = .ok (lines ++ more) := by
    rw [Text.lines_append hclosed, mapM_eq_ok]
    exact List.rel_append (mapM_eq_ok.mp hlines) (mapM_eq_ok.mp hmore)
  exact Layout.laidOut_nil.exists_foldlM_addLine hparse hunique

end Assembly

open Assembly

/-- **Relocation.** Let a text be empty or end in a line feed, let it and another one assemble, and
let no label be defined in both. If the images together are too large for memory, the joined text is
refused with their size. Otherwise, if the addresses of the labels that the second text mentions are
still bytes when the length of the first image is added to them, the joined text assembles to the
first image and the relocated second one. -/
theorem assemble_append {front back : String} {p q : Image}
    (hclosed : front = "" ∨ ∃ text, front = text ++ "\n")
    (hp : assemble front = .ok p) (hq : assemble back = .ok q) :
    ∃ lines more, (Text.lines front.toList).mapM Line.parse = .ok lines ∧
      (Text.lines back.toList).mapM Line.parse = .ok more ∧
      ((∀ name j k, Defines lines j name → ¬ Defines more k name) →
        (memorySize < p.length + q.length →
          assemble (front ++ back) = .error (.programTooLarge (p.length + q.length))) ∧
        (p.length + q.length ≤ memorySize →
          (∀ name k, Mentions (statementsOf more) name → Defines more k name →
            target (placed more) (k + 1) + p.length ≤ 255) →
          ∃ q', assemble (front ++ back) = .ok (p ++ q') ∧
            Relocated p.length (labelled (statementsOf more)) q q')) := by
  obtain ⟨front', hfront, himage⟩ := bind_eq_ok.mp hp
  obtain ⟨back', hback, himage'⟩ := bind_eq_ok.mp hq
  obtain ⟨lines, hlines, hlaid⟩ := Layout.laidOut_of_ofText hfront
  obtain ⟨more, hmore, hlaid'⟩ := Layout.laidOut_of_ofText hback
  refine ⟨lines, more, hlines, hmore, fun hdisjoint => ?_⟩
  obtain ⟨joined, hofText, hjoined⟩ := Layout.exists_ofText_append hclosed hlines hmore
    (unique_append (fun name j k => hlaid.unique) (fun name j k => hlaid'.unique) hdisjoint)
  have hassemble : assemble (front ++ back) = joined.image := by
    rw [assemble, hofText]
    rfl
  have hwidth := hlaid.length_image hlines himage
  have hsize : joined.size = p.length + q.length := by
    rw [hjoined.size, totalWidth_placed_append, hwidth, hlaid'.length_image hmore himage']
  rw [hassemble]
  constructor
  · intro htoolarge
    rw [Layout.image, hsize, if_pos htoolarge]
  · intro hfits hroom
    exact hlaid.exists_image_append hlaid' hjoined himage himage' hwidth (hsize ▸ hfits)
      (hlaid'.room hroom)

/-- A text with a reference to its own label. -/
def entryText : String := "DB body\nNOP\nbody: HLT\n"

/-- Two references to a label, and a byte that is like them but is none. -/
def bodyText : String := "NOP\nDB loop\nloop: DB 2\nDB loop"

def entryLines : List Line :=
  [{ statement := some ⟨.data, [.value (.label "BODY")]⟩ },
    { statement := some ⟨.opcode .nop, []⟩ },
    { label := some "BODY", statement := some ⟨.opcode .hlt, []⟩ }]

def bodyLines : List Line :=
  [{ statement := some ⟨.opcode .nop, []⟩ },
    { statement := some ⟨.data, [.value (.label "LOOP")]⟩ },
    { label := some "LOOP", statement := some ⟨.data, [.value (.byte 2)]⟩ },
    { statement := some ⟨.data, [.value (.label "LOOP")]⟩ }]

theorem assemble_append_bodyText :
    (∃ text, entryText = text ++ "\n") ∧
      assemble entryText = .ok [2, 0, 1] ∧ assemble bodyText = .ok [0, 2, 2, 2] ∧
      (Text.lines entryText.toList).mapM Line.parse = .ok entryLines ∧
      (Text.lines bodyText.toList).mapM Line.parse = .ok bodyLines ∧
      (∀ name j k, Defines entryLines j name → ¬ Defines bodyLines k name) ∧
      (∀ name k, Mentions (statementsOf bodyLines) name → Defines bodyLines k name →
        target (placed bodyLines) (k + 1) + 3 ≤ 255) ∧
      ∃ q', assemble (entryText ++ bodyText) = .ok ([2, 0, 1] ++ q') ∧
        Relocated 3 [false, true, false, true] [0, 2, 2, 2] q' := by
  have hclosed : ∃ text, entryText = text ++ "\n" := ⟨"DB body\nNOP\nbody: HLT", by decide⟩
  have hentry : assemble entryText = .ok [2, 0, 1] := by decide +kernel
  have hbody : assemble bodyText = .ok [0, 2, 2, 2] := by decide +kernel
  have hentryLines : (Text.lines entryText.toList).mapM Line.parse = .ok entryLines := by
    decide +kernel
  have hbodyLines : (Text.lines bodyText.toList).mapM Line.parse = .ok bodyLines := by
    decide +kernel
  have hlabels : ∀ name ∈ ["BODY"], name ∉ ["LOOP"] := by decide
  have hdisjoint : ∀ name j k, Defines entryLines j name → ¬ Defines bodyLines k name :=
    fun name j k hj hk => hlabels name hj.mem_labels hk.mem_labels
  have htargets : ∀ k < 4, target (placed bodyLines) (k + 1) + 3 ≤ 255 := by decide +kernel
  obtain ⟨lines, more, hlines, hmore, hjoin⟩ := assemble_append (.inr hclosed) hentry hbody
  obtain rfl := Except.ok.inj (hlines.symm.trans hentryLines)
  obtain rfl := Except.ok.inj (hmore.symm.trans hbodyLines)
  have hroom : ∀ name k, Mentions (statementsOf bodyLines) name → Defines bodyLines k name →
      target (placed bodyLines) (k + 1) + 3 ≤ 255 :=
    fun name k _ hk => htargets k hk.lt_length
  obtain ⟨-, hfits⟩ := hjoin hdisjoint
  exact ⟨hclosed, hentry, hbody, hentryLines, hbodyLines, hdisjoint, hroom,
    hfits (by decide) hroom⟩

end LS8
