import LS8.Proofs.Listing.RoundTrip
import Mathlib.Algebra.GroupWithZero.Nat

/-!
# Three renderings of an image

An image is written as assembly text, as the same text with addresses, and as a binary listing.
All three follow the sweep: its items stand one behind the other from address zero to the end of the
image, each with what can be read at its address (`foundAt_of_getElem?_sweep`), and the listing has
one line for each byte, commented where an instruction begins (`exists_row_at`). So each line of the
first two can be found in the third (`renderings_agree`).
-/
namespace LS8

/-! ## Addresses -/

/-- The address of the item with that number: the width of the items in front of it. -/
def addressOf (items : List Item) (n : Nat) : Nat := ((items.take n).map Item.width).sum

section Addresses

variable {item : Item} {items : List Item} {n : Nat}

@[simp] theorem addressOf_zero (items : List Item) : addressOf items 0 = 0 := rfl

@[simp] theorem addressOf_cons_succ (item : Item) (items : List Item) (n : Nat) :
    addressOf (item :: items) (n + 1) = item.width + addressOf items n := by
  simp [addressOf]

theorem addressOf_succ (h : items[n]? = some item) :
    addressOf items (n + 1) = addressOf items n + item.width := by
  simp [addressOf, List.take_add_one, h]

theorem addressOf_length (items : List Item) :
    addressOf items items.length = (items.flatMap Item.bytes).length := by
  rw [addressOf, List.take_length, List.length_flatMap]
  rfl

theorem map_addressed {α : Type} (f : Nat × Item → α) (start : Nat) (items : List Item) :
    (addressed start items).map f =
      items.mapIdx fun n item => f (start + addressOf items n, item) := by
  induction items generalizing start with
  | nil => rfl
  | cons item items ih =>
    rw [addressed, List.map_cons, ih, List.mapIdx_cons]
    simp [Nat.add_assoc]

theorem Item.width_pos (item : Item) : 0 < item.width := by
  cases item with
  | byte b => exact Nat.one_pos
  | instruction i =>
    rw [Item.width, Item.bytes, i.encode_length]
    exact i.width_pos

end Addresses

/-! ## Items -/

/-- What can be read at an address: the instruction that begins there, or the byte there if none
does. -/
inductive Item.FoundAt (image : Image) (address : Nat) : Item → Prop
  | instruction {i} (h : Instruction.decode (image.drop address) = .ok i) :
      FoundAt image address (.instruction i)
  | byte {b fault} (hbyte : image[address]? = some b)
      (h : Instruction.decode (image.drop address) = .error fault) : FoundAt image address (.byte b)

theorem Item.FoundAt.shift {image : Image} {width address : Nat} {item : Item}
    (h : item.FoundAt (image.drop width) address) : item.FoundAt image (width + address) := by
  cases h with
  | instruction h =>
    rw [List.drop_drop] at h
    exact .instruction h
  | byte hbyte h =>
    rw [List.getElem?_drop] at hbyte
    rw [List.drop_drop] at h
    exact .byte hbyte h

theorem foundAt_of_getElem?_sweep {image : Image} {n : Nat} {item : Item}
    (h : (sweep image)[n]? = some item) : item.FoundAt image (addressOf (sweep image) n) := by
  fun_induction sweep image generalizing n with
  | case1 => simp at h
  | case2 b rest i hdecode ih =>
    cases n with
    | zero =>
      obtain rfl := Option.some.inj h
      exact .instruction hdecode
    | succ n =>
      have hdrop : rest.drop i.opcode.operands.length = (b :: rest).drop i.width := by
        rw [Instruction.width, Opcode.width, Nat.add_comm, List.drop_succ_cons]
      have hfound := ih h
      rw [hdrop] at hfound
      rw [addressOf_cons_succ, Item.width, Item.bytes, i.encode_length, hdrop]
      exact hfound.shift
  | case3 b rest fault hdecode ih =>
    cases n with
    | zero =>
      obtain rfl := Option.some.inj h
      exact .byte rfl hdecode
    | succ n =>
      have hfound : item.FoundAt ((b :: rest).drop 1) (addressOf (sweep rest) n) := ih h
      rw [addressOf_cons_succ]
      exact hfound.shift

theorem Item.not_mem_text {image : Image} {item : Item} {c : Char} (hitem : item ∈ sweep image)
    (halnum : c.isAlphanum = false) (hblank : c ≠ ' ') (hcomma : c ≠ ',') :
    c ∉ item.text.toList := by
  obtain ⟨row, htext, -⟩ := Item.exists_row hitem
  rw [← htext]
  exact Assembly.Row.not_mem_text halnum hblank hcomma

theorem lines_disassemble (image : Image) :
    Text.lines (disassemble image).toList = (sweep image).map fun item => item.text.toList := by
  rw [disassemble, Text.lines_unlines, List.map_map]
  · rfl
  · intro text hmem
    obtain ⟨item, hitem, rfl⟩ := List.mem_map.mp hmem
    exact ⟨Item.not_mem_text hitem rfl (by decide) (by decide),
      Item.not_mem_text hitem rfl (by decide) (by decide)⟩

/-- The text of an item behind its address. -/
theorem not_mem_addressedText {image : Image} {item : Item} {address : Nat} {c : Char}
    (hitem : item ∈ sweep image) (halnum : c.isAlphanum = false) (hcolon : c ≠ ':')
    (hblank : c ≠ ' ') (hcomma : c ≠ ',') :
    c ∉ (Numeral.hex 2 address ++ ": " ++ item.text).toList := by
  have hdigits : c ∉ Numeral.digits 16 2 address := by
    intro hmem
    have hdigit := Numeral.isAlphanum_of_mem_digits (by decide) (by decide) hmem
    rw [halnum] at hdigit
    cases hdigit
  have htext := Item.not_mem_text hitem halnum hblank hcomma
  simp [Numeral.hex, hdigits, htext, hcolon, hblank]

theorem lines_disassembleWithAddresses (image : Image) :
    Text.lines (disassembleWithAddresses image).toList =
      (sweep image).mapIdx fun n item =>
        Numeral.digits 16 2 (addressOf (sweep image) n) ++ ':' :: ' ' :: item.text.toList := by
  rw [disassembleWithAddresses, Text.lines_unlines, List.map_map, map_addressed]
  · simp [Numeral.hex]
  · intro text hmem
    rw [map_addressed] at hmem
    obtain ⟨n, hn, rfl⟩ := List.mem_mapIdx.mp hmem
    have hitem := List.getElem_mem hn
    exact ⟨not_mem_addressedText hitem rfl (by decide) (by decide) (by decide),
      not_mem_addressedText hitem rfl (by decide) (by decide) (by decide)⟩

/-! ## Lines of bytes -/

/-- The item with that number is an instruction, and it begins at the address. -/
def BeginsAt (items : List Item) (address n : Nat) : Prop :=
  addressOf items n = address ∧ ∃ i, items[n]? = some (.instruction i)

theorem beginsAt_cons_add {item : Item} {items : List Item} {address n : Nat} :
    BeginsAt (item :: items) (item.width + address) n ↔
      ∃ m, n = m + 1 ∧ BeginsAt items address m := by
  cases n with
  | zero =>
    have hpos := item.width_pos
    have hne : addressOf (item :: items) 0 ≠ item.width + address := by
      rw [addressOf_zero]
      omega
    simp only [BeginsAt, hne, false_and, false_iff]
    rintro ⟨m, hm, -⟩
    cases hm
  | succ m => simp [BeginsAt]

/-- Nothing begins within the first item but that item itself. -/
theorem beginsAt_cons_of_lt {item : Item} {items : List Item} {address n : Nat}
    (h : address < item.width) :
    BeginsAt (item :: items) address n ↔ n = 0 ∧ address = 0 ∧ ∃ i, item = .instruction i := by
  cases n with
  | zero => simp [BeginsAt, eq_comm]
  | succ m =>
    have hne : addressOf (item :: items) (m + 1) ≠ address := by
      rw [addressOf_cons_succ]
      omega
    simp only [BeginsAt, hne, false_and, false_iff]
    rintro ⟨hzero, -⟩
    cases hzero

namespace Listing

/-- The row of a byte: behind its digits stands, where an instruction begins, what that instruction
is called, and nothing elsewhere. -/
inductive RowAt (items : List Item) (address : Nat) (b : UInt8) : String → Prop
  | commented {n i} (haddress : addressOf items n = address)
      (hitem : items[n]? = some (.instruction i)) :
      RowAt items address b (row b ++ " # " ++ i.text)
  | bare (h : ∀ n, ¬ BeginsAt items address n) : RowAt items address b (row b)

section Rows

variable {item : Item} {items : List Item} {address : Nat} {b : UInt8} {text : String}

theorem RowAt.shift (h : RowAt items address b text) :
    RowAt (item :: items) (item.width + address) b text := by
  cases h with
  | @commented n i haddress hitem =>
    refine .commented (n := n + 1) ?_ hitem
    rw [addressOf_cons_succ, haddress]
  | bare hnone =>
    refine .bare fun n hbegins => ?_
    obtain ⟨m, -, hbegins⟩ := beginsAt_cons_add.mp hbegins
    exact hnone m hbegins

theorem length_rows (item : Item) : (rows item).length = item.width :=
  (forall₂_rows item).length_eq

theorem exists_row_of_lt (h : item.bytes[address]? = some b) :
    ∃ text, (rows item)[address]? = some text ∧ RowAt (item :: items) address b text := by
  have hlt : address < item.width := (List.getElem?_eq_some_iff.mp h).1
  cases item with
  | byte c =>
    obtain ⟨rfl, rfl⟩ : address = 0 ∧ c = b := by
      simpa [Item.bytes, List.getElem?_singleton] using h
    refine ⟨row c, rfl, .bare fun n hbegins => ?_⟩
    obtain ⟨-, -, i, hi⟩ := (beginsAt_cons_of_lt hlt).mp hbegins
    cases hi
  | instruction i =>
    cases address with
    | zero =>
      obtain rfl := Option.some.inj h
      exact ⟨_, rfl, .commented (n := 0) rfl rfl⟩
    | succ address =>
      simp only [Item.bytes, Instruction.encode, List.getElem?_cons_succ, List.getElem?_map] at h
      obtain ⟨operand, hoperand, rfl⟩ := Option.map_eq_some_iff.mp h
      refine ⟨row operand.2, by simp [rows, hoperand], .bare fun n hbegins => ?_⟩
      obtain ⟨-, hzero, -⟩ := (beginsAt_cons_of_lt hlt).mp hbegins
      cases hzero

/-- Each byte of the items has its row, in the place of the byte. -/
theorem exists_row_at (h : (items.flatMap Item.bytes)[address]? = some b) :
    ∃ text, (items.flatMap rows)[address]? = some text ∧ RowAt items address b text := by
  induction items generalizing address with
  | nil => simp at h
  | cons item items ih =>
    rw [List.flatMap_cons] at h ⊢
    rcases Nat.lt_or_ge address item.width with hlt | hge
    · rw [List.getElem?_append_left hlt] at h
      rw [List.getElem?_append_left (by rwa [length_rows])]
      exact exists_row_of_lt h
    · obtain ⟨behind, rfl⟩ := Nat.exists_eq_add_of_le hge
      rw [List.getElem?_append_right hge, Item.width, Nat.add_sub_cancel_left] at h
      rw [List.getElem?_append_right (by rwa [length_rows]), length_rows, Nat.add_sub_cancel_left]
      obtain ⟨text, htext, hrow⟩ := ih h
      exact ⟨text, htext, hrow.shift⟩

end Rows

theorem lines_render (image : Image) :
    Text.lines (render image).toList = ((sweep image).flatMap rows).map String.toList := by
  refine Text.lines_unlines fun text hmem => ?_
  obtain ⟨item, hitem, htext⟩ := List.mem_flatMap.mp hmem
  exact ⟨not_mem_of_mem_rows hitem htext rfl rfl (by decide) (by decide) (by decide),
    not_mem_of_mem_rows hitem htext rfl rfl (by decide) (by decide) (by decide)⟩

theorem length_lines_render (image : Image) :
    (Text.lines (render image).toList).length = image.length := by
  have hlength := (forall₂_flatMap_rows (sweep image)).length_eq
  rw [bytes_sweep] at hlength
  rw [lines_render, List.length_map, hlength]

end Listing

/-- **The renderings agree.** The items of the sweep stand one behind the other from address zero to
the end of the image, and each is what can be read at its address. Assembly text has one line for
each item, and with addresses the same lines, each behind the address of its item in two or more
hexadecimal digits. The binary listing has one line for each byte, which begins with the eight
digits of the byte and carries a comment if and only if an instruction begins there, namely the line
of assembly text of that instruction. -/
theorem renderings_agree (image : Image) :
    let items := sweep image
    let texts := Text.lines (disassemble image).toList
    let addressedTexts := Text.lines (disassembleWithAddresses image).toList
    let rows := Text.lines (Listing.render image).toList
    (addressOf items 0 = 0 ∧ addressOf items items.length = image.length ∧
      ∀ n item, items[n]? = some item →
        item.FoundAt image (addressOf items n) ∧
          addressOf items (n + 1) = addressOf items n + item.width) ∧
      texts = items.map (fun item => item.text.toList) ∧
      addressedTexts = texts.mapIdx (fun n text =>
        Numeral.digits 16 2 (addressOf items n) ++ ':' :: ' ' :: text) ∧
      rows.length = image.length ∧
      ∀ address b, image[address]? = some b →
        (Numeral.digits 2 8 b.toNat).length = 8 ∧
          ((∃ n text, BeginsAt items address n ∧ texts[n]? = some text ∧
              rows[address]? = some (Numeral.digits 2 8 b.toNat ++ ' ' :: '#' :: ' ' :: text)) ∨
            (∀ n, ¬ BeginsAt items address n) ∧
              rows[address]? = some (Numeral.digits 2 8 b.toNat)) := by
  intro items texts addressedTexts rows
  have htexts : texts = items.map fun item => item.text.toList := lines_disassemble image
  refine ⟨⟨addressOf_zero _, ?_, fun n item hitem => ?_⟩, htexts, ?_, ?_, fun address b hb => ?_⟩
  · rw [addressOf_length, bytes_sweep]
  · exact ⟨foundAt_of_getElem?_sweep hitem, addressOf_succ hitem⟩
  · rw [show addressedTexts = _ from lines_disassembleWithAddresses image, htexts]
    refine List.ext_getElem? fun n => ?_
    simp only [List.getElem?_mapIdx, List.getElem?_map, Option.map_map]
    rfl
  · exact Listing.length_lines_render image
  · refine ⟨Listing.length_digits b, ?_⟩
    rw [← bytes_sweep image] at hb
    obtain ⟨text, htext, hrow⟩ := Listing.exists_row_at hb
    have hline : rows[address]? = some text.toList := by
      rw [show rows = _ from Listing.lines_render image, List.getElem?_map, htext]
      rfl
    cases hrow with
    | @commented n i haddress hitem =>
      refine .inl ⟨n, i.text.toList, ⟨haddress, i, hitem⟩, ?_, ?_⟩
      · rw [htexts, List.getElem?_map, hitem]
        rfl
      · rw [hline]
        simp [Listing.toList_row]
    | bare hnone => exact .inr ⟨hnone, by rw [hline, Listing.toList_row]⟩

/-- The first operand byte of 0x47 would be a register 9, which there is not. -/
example :
    disassembleWithAddresses [0x82, 0, 0x47, 0x47, 9] =
        "00: LDI R0,71\n03: DB 0x47\n04: DB 0x09\n" ∧
      Listing.render [0x82, 0, 0x47, 0x47, 9] =
        "10000010 # LDI R0,71\n00000000\n01000111\n01000111\n00001001\n" := by
  decide +kernel

end LS8
