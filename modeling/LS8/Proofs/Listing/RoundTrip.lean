import LS8.Listing
import LS8.Proofs.Assembly.RoundTrip
import LS8.Proofs.Text.Trim
import Mathlib.Data.List.Forall2

/-!
# Reading a written listing

Reading the listing of an image gives the image back, whatever bytes it holds and however many
(`parse_render`). A row of the writer begins with the eight digits of its byte, and what may follow,
a comment, does not matter to the reader (`readLine_row`); the rows of an item hold the bytes of the
item in order (`forall₂_rows`).
-/
namespace LS8

theorem Text.trim_append {word blanks : List Char} (hword : ∀ c ∈ word, isBlank c = false)
    (hblanks : ∀ c ∈ blanks, isBlank c = true) : trim (word ++ blanks) = word := by
  have hfront : AllBlank [] := nofun
  exact trim_of_tight (tight_of_not_blank hword) hfront hblanks

namespace Listing

/-! ## Digits -/

theorem isBit_iff {c : Char} : isBit c = true ↔ c = '0' ∨ c = '1' := by
  simp [isBit]

theorem isBit_of_mem_digits {width n : Nat} {c : Char} (h : c ∈ Numeral.digits 2 width n) :
    isBit c = true := by
  obtain ⟨d, hd, rfl⟩ := Numeral.mem_digits (by decide) h
  have hbits : ∀ d : Fin 2, isBit (Nat.digitChar d.val) = true := by decide
  exact hbits ⟨d, hd⟩

theorem isBlank_of_isBit {c : Char} (h : isBit c = true) : Text.isBlank c = false := by
  rcases isBit_iff.mp h with rfl | rfl <;> rfl

theorem length_digits (b : UInt8) : (Numeral.digits 2 8 b.toNat).length = 8 := by
  have hlength : (Nat.toDigits 2 b.toNat).length ≤ 8 :=
    (Nat.length_toDigits_le_iff (by decide) (by decide)).mpr b.toNat_lt
  rw [Numeral.digits, List.length_leftpad]
  omega

theorem toList_row (b : UInt8) : (row b).toList = Numeral.digits 2 8 b.toNat := String.toList_ofList

/-! ## Rows -/

/-- What the writer may put behind the digits of a row. -/
def Ignored (rest : List Char) : Prop := rest = [] ∨ ∃ comment, rest = ' ' :: '#' :: comment

theorem content_append {bits rest : List Char} (hbits : ∀ c ∈ bits, isBit c = true)
    (hrest : Ignored rest) : content (bits ++ rest) = bits := by
  have hcode : ∀ c ∈ bits, (c != '#') = true := by
    intro c hc
    rcases isBit_iff.mp (hbits c hc) with rfl | rfl <;> rfl
  have hblank : ∀ c ∈ bits, Text.isBlank c = false := fun c hc => isBlank_of_isBit (hbits c hc)
  rw [content, List.takeWhile_append_of_pos hcode]
  rcases hrest with rfl | ⟨comment, rfl⟩
  · exact Text.trim_append hblank (by simp)
  · have hcut : (' ' :: '#' :: comment).takeWhile (· != '#') = [' '] := rfl
    have hspace : ∀ c ∈ [' '], Text.isBlank c = true := by
      intro c hc
      rw [List.mem_singleton.mp hc]
      rfl
    rw [hcut]
    exact Text.trim_append hblank hspace

theorem readLine_row (b : UInt8) {rest : List Char} (hrest : Ignored rest) :
    readLine ((row b).toList ++ rest) = .ok (some b) := by
  have hbits : ∀ c ∈ Numeral.digits 2 8 b.toNat, isBit c = true := fun _ => isBit_of_mem_digits
  have hall : (Numeral.digits 2 8 b.toNat).all isBit = true := List.all_eq_true.mpr hbits
  have hempty : (Numeral.digits 2 8 b.toNat).isEmpty = false := by
    rw [List.isEmpty_eq_false_iff]
    exact Numeral.digits_ne_nil 2 8 b.toNat
  have hread : Numeral.read? 2 255 (Numeral.digits 2 8 b.toNat) = some b.toNat :=
    Numeral.read?_digits (by decide) (by decide) (Nat.le_of_lt_succ b.toNat_lt)
  rw [toList_row]
  simp only [readLine, content_append hbits hrest, hempty, hall, length_digits, hread,
    UInt8.ofNat_toNat]
  rfl

/-- A row stands for a byte. -/
def Stands (text : String) (b : UInt8) : Prop := readLine text.toList = .ok (some b)

theorem stands_row (b : UInt8) : Stands (row b) b := by
  have hread := readLine_row b (Or.inl rfl)
  rwa [List.append_nil] at hread

theorem stands_commented (b : UInt8) (text : String) : Stands (row b ++ " # " ++ text) b := by
  have hlist : (row b ++ " # " ++ text).toList =
      (row b).toList ++ ' ' :: '#' :: ' ' :: text.toList := by simp
  rw [Stands, hlist]
  exact readLine_row b (Or.inr ⟨_, rfl⟩)

theorem forall₂_rows (item : Item) : List.Forall₂ Stands (rows item) item.bytes := by
  cases item with
  | byte b => exact .cons (stands_row b) .nil
  | instruction i =>
    refine .cons (stands_commented i.opcode.byte i.text) ?_
    rw [List.forall₂_map_left_iff, List.forall₂_map_right_iff, List.forall₂_same]
    exact fun operand _ => stands_row operand.2

theorem forall₂_flatMap_rows (items : List Item) :
    List.Forall₂ Stands (items.flatMap rows) (items.flatMap Item.bytes) := by
  induction items with
  | nil => exact .nil
  | cons item items ih => exact List.rel_append (forall₂_rows item) ih

theorem readLines_of_forall₂ {texts : List String} {image : Image}
    (h : List.Forall₂ Stands texts image) (number : Nat) :
    readLines number (texts.map String.toList) = .ok image := by
  induction h generalizing number with
  | nil => rfl
  | cons hline _ ih =>
    rw [Stands] at hline
    rw [List.map_cons, readLines, hline, ih]
    rfl

theorem parse_of_forall₂ {texts : List String} {image : Image}
    (h : List.Forall₂ Stands texts image)
    (hbreaks : ∀ text ∈ texts, '\n' ∉ text.toList ∧ '\r' ∉ text.toList) :
    parse (Text.unlines texts) = .ok image := by
  rw [parse, Text.lines_unlines hbreaks, readLines_of_forall₂ h]

/-! ## Line breaks -/

theorem not_mem_row {c : Char} (hc : isBit c = false) (b : UInt8) : c ∉ (row b).toList := by
  intro hmem
  rw [toList_row] at hmem
  simp [isBit_of_mem_digits hmem] at hc

/-- No character but those of the digits, of the comment sign and of instruction texts. -/
theorem not_mem_of_mem_rows {image : Image} {item : Item} {text : String} {c : Char}
    (hitem : item ∈ sweep image) (htext : text ∈ rows item) (hbit : isBit c = false)
    (halnum : c.isAlphanum = false) (hblank : c ≠ ' ') (hhash : c ≠ '#') (hcomma : c ≠ ',') :
    c ∉ text.toList := by
  cases item with
  | byte b =>
    obtain rfl := List.mem_singleton.mp htext
    exact not_mem_row hbit b
  | instruction i =>
    obtain ⟨written, hwritten, -⟩ := Item.exists_row hitem
    have htail : c ∉ i.text.toList := by
      rw [show i.text = written.text from hwritten.symm]
      exact Assembly.Row.not_mem_text halnum hblank hcomma
    rcases List.mem_cons.mp htext with rfl | hmem
    · simp [not_mem_row hbit, htail, hblank, hhash]
    · obtain ⟨operand, -, rfl⟩ := List.mem_map.mp hmem
      exact not_mem_row hbit operand.2

/-- An image is read back from its listing, whatever its bytes are and however many. -/
theorem parse_render (image : Image) : parse (render image) = .ok image := by
  have hlines : Text.lines (render image).toList =
      ((sweep image).flatMap rows).map String.toList := by
    refine Text.lines_unlines fun text hmem => ?_
    obtain ⟨item, hitem, htext⟩ := List.mem_flatMap.mp hmem
    exact ⟨not_mem_of_mem_rows hitem htext rfl rfl (by decide) (by decide) (by decide),
      not_mem_of_mem_rows hitem htext rfl rfl (by decide) (by decide) (by decide)⟩
  have hread := readLines_of_forall₂ (forall₂_flatMap_rows (sweep image)) 1
  rw [bytes_sweep] at hread
  rw [parse, hlines, hread]

end Listing
end LS8
