import LS8.Proofs.Assembly.Lexing
import LS8.Proofs.Assembly.Offsets
import Mathlib

/-!
# Letter case

The assembler does not tell the two cases of an ASCII letter apart, in whatever word and among
whatever other characters it stands. Raising all letters of a text raises the letters of its lines
and of its pieces, and does not change what a piece is read as; only a numeral that cannot be read
is reported as it was written (`tokenize_sameLetters`). So two texts that differ in letter case
alone give the same image, or are refused for the same reason (`assemble_of_sameLetters`).
-/
namespace LS8

namespace Text

/-- Character by character the same, but for the case of ASCII letters. -/
def SameLetters (text other : List Char) : Prop :=
  List.Forall₂ (fun c d => c.beqCaseInsensitiveAsciiOnly d) text other

/-- The text with all letters of ASCII in upper case. -/
def raise (text : List Char) : List Char := text.map Char.toUpper

theorem beqCaseInsensitive_iff {c d : Char} :
    c.beqCaseInsensitiveAsciiOnly d = true ↔ c.toUpper = d.toUpper := by
  rw [Char.beqCaseInsensitiveAsciiOnly, beq_iff_eq]
  constructor
  · intro h
    rw [← Char.toUpper_toLower_eq_toUpper c, ← Char.toUpper_toLower_eq_toUpper d]
    exact congrArg Char.toUpper h
  · intro h
    have hlower := congrArg Char.toLower h
    rwa [Char.toLower_toUpper_eq_toLower, Char.toLower_toUpper_eq_toLower] at hlower

theorem sameLetters_iff {text other : List Char} :
    SameLetters text other ↔ raise text = raise other := by
  simp only [SameLetters, raise, beqCaseInsensitive_iff]
  rw [← List.forall₂_eq_eq_eq, List.forall₂_map_left_iff, List.forall₂_map_right_iff]

/-- A property that is the same of all letters does not depend on their case. -/
theorem apply_toUpper {α : Type} {f : Char → α} {a : α} (h : ∀ c, c.isAlpha = true → f c = a)
    (c : Char) : f c.toUpper = f c := by
  by_cases hlower : c.isLower = true
  · have halpha : c.isAlpha = true := by simp [Char.isAlpha, hlower]
    rw [h c halpha, h c.toUpper (by rwa [Char.isAlpha_toUpper_eq_isAlpha])]
  · rw [Char.toUpper_eq_of_not_isLower hlower]

theorem toUpper_eq_iff {c d : Char} (hd : d.isAlpha = false) : c.toUpper = d ↔ c = d := by
  have hbeq := apply_toUpper (f := (· == d)) (a := false) (fun c hc => by
    rw [beq_eq_false_iff_ne]
    rintro rfl
    rw [hc] at hd
    cases hd) c
  rw [← beq_iff_eq, ← beq_iff_eq (a := c), hbeq]

theorem isBlank_toUpper (c : Char) : isBlank c.toUpper = isBlank c := by
  refine apply_toUpper (a := false) (fun c hc => ?_) c
  exact Assembly.isBlank_of_isAlphanum (by simp [Char.isAlphanum, hc])

theorem lines_raise (text : List Char) : lines (raise text) = (lines text).map raise := by
  have hfeed {c : Char} : c.toUpper = '\n' ↔ c = '\n' := toUpper_eq_iff rfl
  have hreturn {c : Char} : c.toUpper = '\r' ↔ c = '\r' := toUpper_eq_iff rfl
  have hother {c : Char} {rest : List Char} (hc : c = '\n' → False)
      (hcr : ∀ more, c = '\r' → rest = '\n' :: more → False) :=
    lines.eq_4 c.toUpper (raise rest) (fun heq => hc (hfeed.mp heq)) fun more hce heq => by
      obtain ⟨d, tail, rfl, hd, -⟩ := List.map_eq_cons_iff.mp heq
      exact hcr tail (hreturn.mp hce) (by rw [hfeed.mp hd])
  fun_induction lines text with
  | case1 => rfl
  | case2 rest ih =>
    rw [List.map_cons, ← ih]
    rfl
  | case3 rest ih =>
    rw [List.map_cons, ← ih]
    rfl
  | case4 c rest hc hcr hnone ih =>
    have hstep := hother hc hcr
    rw [ih, hnone] at hstep
    exact hstep
  | case5 c rest hc hcr line more hlines ih =>
    have hstep := hother hc hcr
    rw [ih, hlines] at hstep
    exact hstep

theorem upperChar_toUpper (c : Char) : upperChar c.toUpper = upperChar c := by
  by_cases hlower : c.isLower = true
  · have hupper : c.toUpper.isUpper = true := by simp [Char.isAlpha, hlower]
    rw [Assembly.isUpper_iff] at hupper
    rw [Assembly.isLower_iff] at hlower
    have hascii : c.toUpper.toNat < 0x80 ∧ c.toNat < 0x80 := by omega
    simp only [upperChar, if_pos hascii.1, if_pos hascii.2, Char.toUpper_toUpper_eq_toUpper]
  · rw [Char.toUpper_eq_of_not_isLower hlower]

theorem uppercase_raise (text : List Char) : uppercase (raise text) = uppercase text := by
  rw [uppercase, raise, List.flatMap_map]
  exact List.flatMap_congr fun c _ => upperChar_toUpper c

end Text

namespace Numeral

theorem digitValue?_toUpper (base : Nat) (c : Char) :
    digitValue? base c.toUpper = digitValue? base c := by
  by_cases hlower : c.isLower = true
  · have hle {a b : Char} : a ≤ b ↔ a.toNat ≤ b.toNat := Iff.rfl
    have hupper : c.toUpper.toNat = c.toNat - 32 := by
      rw [Char.toUpper_eq_of_isLower hlower, Char.toNat_ofNat, if_pos]
      rw [Assembly.isLower_iff] at hlower
      exact .inl (by omega)
    rw [Assembly.isLower_iff] at hlower
    simp only [digitValue?, hle, hupper, Char.reduceToNat]
    grind
  · rw [Char.toUpper_eq_of_not_isLower hlower]

theorem unsigned_raise (text : List Char) :
    unsigned (Text.raise text) = Text.raise (unsigned text) := by
  cases text with
  | nil => rfl
  | cons c rest =>
    by_cases hplus : c = '+'
    · rw [hplus]
      rfl
    · have hupper : c.toUpper ≠ '+' := fun heq => hplus ((Text.toUpper_eq_iff rfl).mp heq)
      have hkeep {d : Char} {more : List Char} (hd : d ≠ '+') :
          unsigned (d :: more) = d :: more := by
        rw [unsigned]
        rintro rest heq
        exact hd (List.cons.inj heq).1
      rw [hkeep hplus]
      exact hkeep hupper

theorem read?_raise (base limit : Nat) (text : List Char) :
    read? base limit (Text.raise text) = read? base limit text := by
  have hdigits : (Text.raise (unsigned text)).mapM (digitValue? base) =
      (unsigned text).mapM (digitValue? base) := by
    rw [Text.raise, List.mapM_map]
    congr 1
    exact funext (digitValue?_toUpper base)
  rw [read?, unsigned_raise, hdigits, read?]

end Numeral

namespace Assembly

open Text (raise SameLetters)

/-! ## Pieces and words -/

theorem isComment_toUpper (c : Char) : isComment c.toUpper = isComment c := by
  refine Text.apply_toUpper (a := false) (fun c hc => ?_) c
  exact isComment_of_isAlphanum (by simp [Char.isAlphanum, hc])

theorem isWordChar_toUpper (c : Char) : isWordChar c.toUpper = isWordChar c := by
  refine Text.apply_toUpper (a := true) (fun c hc => ?_) c
  exact isWordChar_of_isAlphanum (by simp [Char.isAlphanum, hc])

theorem isDigit_toUpper (c : Char) : c.toUpper.isDigit = c.isDigit := by
  refine Text.apply_toUpper (f := Char.isDigit) (a := false) (fun c hc => ?_) c
  rw [Char.isAlpha, Bool.or_eq_true, isUpper_iff, isLower_iff] at hc
  rw [Bool.eq_false_iff, Ne, isDigit_iff]
  omega

def Piece.raise : Piece → Piece
  | .word text => .word (Text.raise text)
  | .comma => .comma
  | .colon => .colon

theorem takeWhile_raise {p : Char → Bool} (hp : ∀ c, p c.toUpper = p c) (text : List Char) :
    (raise text).takeWhile p = raise (text.takeWhile p) := by
  rw [raise, List.takeWhile_map]
  congr 2
  exact funext hp

theorem dropWhile_raise {p : Char → Bool} (hp : ∀ c, p c.toUpper = p c) (text : List Char) :
    (raise text).dropWhile p = raise (text.dropWhile p) := by
  rw [raise, List.dropWhile_map]
  congr 2
  exact funext hp

theorem pieces_raise (code : List Char) : pieces (raise code) = (pieces code).map Piece.raise := by
  fun_induction pieces code with
  | case1 => simp [raise, pieces]
  | case2 c rest hblank ih =>
    rw [← ih]
    exact pieces_blank (by rwa [Text.isBlank_toUpper]) _
  | case3 rest hblank ih =>
    rw [List.map_cons, ← ih]
    exact pieces_comma _
  | case4 rest hblank _ ih =>
    rw [List.map_cons, ← ih]
    exact pieces_colon _
  | case5 c rest hblank hcomma hcolon ih =>
    have hother {d : Char} (hd : d.isAlpha = false) (hne : c ≠ d) : c.toUpper ≠ d :=
      fun heq => hne ((Text.toUpper_eq_iff hd).mp heq)
    change pieces (c.toUpper :: raise rest) = _
    rw [pieces, Text.isBlank_toUpper, if_neg hblank, if_neg (hother rfl hcomma),
      if_neg (hother rfl hcolon), takeWhile_raise isWordChar_toUpper,
      dropWhile_raise isWordChar_toUpper, ih]
    rfl

theorem eq_or_eq_toLower_of_toUpper {c d : Char} (h : c.toUpper = d) : c = d ∨ c = d.toLower := by
  by_cases hlower : c.isLower = true
  · have hkeep : c.toLower = c :=
      Char.toLower_eq_of_not_isUpper (Char.not_isUpper_of_isLower hlower)
    rw [← h, Char.toLower_toUpper_eq_toLower, hkeep]
    exact .inr rfl
  · rw [Char.toUpper_eq_of_not_isLower hlower] at h
    exact .inl h

/-- No base is announced at the front of the word. -/
def Plain (word : List Char) : Prop :=
  ∀ d ∈ ['x', 'X', 'b', 'B'], ∀ digits, word ≠ '0' :: d :: digits

theorem Plain.raise {word : List Char} (h : Plain word) : Plain (raise word) := by
  intro d hd digits heq
  obtain ⟨c, more, rfl, hc, hmore⟩ := List.map_eq_cons_iff.mp heq
  obtain ⟨e, rest, rfl, he, -⟩ := List.map_eq_cons_iff.mp hmore
  obtain rfl := (Text.toUpper_eq_iff rfl).mp hc
  rcases eq_or_eq_toLower_of_toUpper he with rfl | rfl
  · exact h e hd rest rfl
  · have hlower : ∀ d ∈ ['x', 'X', 'b', 'B'], d.toLower ∈ ['x', 'X', 'b', 'B'] := by simp
    exact h d.toLower (hlower d hd) rest rfl

theorem numeralParts?_of_plain {word : List Char} (h : Plain word) :
    numeralParts? word = if word.head?.any Char.isDigit then some (10, word) else none := by
  rw [numeralParts?]
  all_goals exact h _ (by simp)

theorem head?_raise (word : List Char) :
    (raise word).head?.any Char.isDigit = word.head?.any Char.isDigit := by
  cases word with
  | nil => rfl
  | cons c rest => exact isDigit_toUpper c

theorem numeralParts?_raise (word : List Char) :
    numeralParts? (raise word) =
      (numeralParts? word).map fun (base, digits) => (base, raise digits) := by
  by_cases hplain : Plain word
  · rw [numeralParts?_of_plain hplain, numeralParts?_of_plain hplain.raise, head?_raise]
    split <;> rfl
  · simp only [Plain, not_forall, not_not] at hplain
    obtain ⟨d, hd, digits, rfl⟩ := hplain
    fin_cases hd <;> rfl

/-- What two words are read as that differ in letter case alone. -/
inductive SameReading {α : Type} : Except LineFault α → Except LineFault α → Prop
  | ok (a : α) : SameReading (.ok a) (.ok a)
  | misspelled {word other : String} (h : SameLetters word.toList other.toList) :
      SameReading (.error (.invalidNumber word)) (.error (.invalidNumber other))

theorem ofWord_sameReading {word other : List Char} (h : raise word = raise other) :
    SameReading (Atom.ofWord word) (Atom.ofWord other) := by
  have hparts := congrArg numeralParts? h
  rw [numeralParts?_raise, numeralParts?_raise] at hparts
  have hname : Text.uppercase word = Text.uppercase other := by
    rw [← Text.uppercase_raise word, h, Text.uppercase_raise]
  cases hword : numeralParts? word with
  | none =>
    have hother : numeralParts? other = none := by simpa [hword] using hparts.symm
    rw [Atom.ofWord, Atom.ofWord, hword, hother, hname]
    exact .ok _
  | some parts =>
    obtain ⟨base, digits⟩ := parts
    rw [hword] at hparts
    obtain ⟨⟨base', digits'⟩, hother, hsame⟩ := Option.map_eq_some_iff.mp hparts.symm
    obtain ⟨hbase, hdigits⟩ := Prod.mk.inj hsame
    have hread (limit : Nat) :
        Numeral.read? base' limit digits' = Numeral.read? base limit digits := by
      rw [hbase, ← Numeral.read?_raise, hdigits, Numeral.read?_raise]
    simp only [Atom.ofWord, hword, hother, hread]
    split
    · exact .ok _
    · refine .misspelled ?_
      rw [String.toList_ofList, String.toList_ofList]
      exact Text.sameLetters_iff.mpr h

theorem SameReading.map {α β : Type} {x y : Except LineFault α} (h : SameReading x y) (f : α → β) :
    SameReading (x.map f) (y.map f) := by
  cases h with
  | ok a => exact .ok (f a)
  | misspelled h => exact .misspelled h

theorem ofPiece_sameReading : ∀ {p q : Piece}, p.raise = q.raise →
    SameReading (Token.ofPiece p) (Token.ofPiece q)
  | .word _, .word _, h => (ofWord_sameReading (Piece.word.inj h)).map _
  | .comma, .comma, _ => .ok _
  | .colon, .colon, _ => .ok _

theorem mapM_ofPiece_sameReading {ps qs : List Piece}
    (h : ps.map Piece.raise = qs.map Piece.raise) :
    SameReading (ps.mapM Token.ofPiece) (qs.mapM Token.ofPiece) := by
  rw [← List.forall₂_eq_eq_eq, List.forall₂_map_left_iff, List.forall₂_map_right_iff] at h
  induction h with
  | nil => exact .ok []
  | @cons p q ps qs hpq _ ih =>
    rw [List.mapM_cons, List.mapM_cons]
    have hfirst := ofPiece_sameReading hpq
    generalize Token.ofPiece p = x, Token.ofPiece q = y at hfirst
    cases hfirst with
    | misspelled hword => exact .misspelled hword
    | ok token => exact ih.map (token :: ·)

/-- The tokens of a line do not depend on the case of its letters, and neither does whether it has
any. -/
theorem tokenize_sameReading {text other : List Char} (h : SameLetters text other) :
    SameReading (tokenize text) (tokenize other) := by
  rw [Text.sameLetters_iff] at h
  have hcode (text : List Char) : (pieces (text.takeWhile (!isComment ·))).map Piece.raise =
      pieces ((raise text).takeWhile (!isComment ·)) := by
    rw [takeWhile_raise (p := (!isComment ·)) (fun c => by rw [isComment_toUpper]), pieces_raise]
  rw [tokenize_eq, tokenize_eq]
  refine mapM_ofPiece_sameReading ?_
  rw [hcode, hcode, h]

/-! ## Texts -/

/-- A word on the line with that index begins with a digit and is no numeral, and it is the first
such word there. -/
def Misspells (texts : List (List Char)) (k : Nat) (word : String) : Prop :=
  ∃ text, texts[k]? = some text ∧ tokenize text = .error (.invalidNumber word)

/-- Both lists are refused for one word, each as it was written. -/
structure Misspelled (texts others : List (List Char)) (k : Nat) (word word' : String) : Prop where
  left : Misspells texts k word
  right : Misspells others k word'
  letters : SameLetters word.toList word'.toList

theorem foldlM_addLine_of_sameLetters {texts others : List (List Char)}
    (h : List.Forall₂ SameLetters texts others) (layout : Layout) :
    others.foldlM Layout.addLine layout = texts.foldlM Layout.addLine layout ∨
      ∃ k word word', Misspelled texts others k word word' ∧
        texts.foldlM Layout.addLine layout =
          .error (.atLine (layout.lines + k + 1) (.invalidNumber word)) ∧
        others.foldlM Layout.addLine layout =
          .error (.atLine (layout.lines + k + 1) (.invalidNumber word')) := by
  induction h generalizing layout with
  | nil => exact .inl rfl
  | @cons text other texts others hletters _ ih =>
    rw [List.foldlM_cons, List.foldlM_cons]
    have hread := tokenize_sameReading hletters
    generalize htext : tokenize text = x, hother : tokenize other = y at hread
    cases hread with
    | misspelled hword =>
      rw [Layout.addLine_of_tokenize_error htext, Layout.addLine_of_tokenize_error hother]
      exact .inr ⟨0, _, _, ⟨⟨text, rfl, htext⟩, ⟨other, rfl, hother⟩, hword⟩, rfl, rfl⟩
    | ok tokens =>
      rw [Layout.addLine_congr (htext.trans hother.symm)]
      cases hnext : layout.addLine other with
      | error e => exact .inl rfl
      | ok next =>
        rcases ih next with hsame | ⟨k, word, word', hbad, hleft, hright⟩
        · exact .inl hsame
        · rw [Layout.lines_of_addLine hnext, Nat.add_assoc layout.lines 1 k, Nat.add_comm 1 k]
            at hleft hright
          exact .inr ⟨k + 1, word, word', ⟨hbad.left, hbad.right, hbad.letters⟩, hleft, hright⟩

end Assembly

open Assembly

/-- **Letter case.** Two texts that differ in the case of ASCII letters alone are assembled alike:
to the same bytes, or with the same error. There is one exception: where a word begins with a digit
and is no numeral, each text is refused for this word, on the same line, as the text has it. -/
theorem assemble_of_sameLetters {text other : String}
    (h : Text.SameLetters text.toList other.toList) :
    assemble other = assemble text ∨
      ∃ k word word', Text.SameLetters word.toList word'.toList ∧
        Misspells (Text.lines text.toList) k word ∧ Misspells (Text.lines other.toList) k word' ∧
        assemble text = .error (.atLine (k + 1) (.invalidNumber word)) ∧
        assemble other = .error (.atLine (k + 1) (.invalidNumber word')) := by
  have hlines :
      List.Forall₂ Text.SameLetters (Text.lines text.toList) (Text.lines other.toList) := by
    have hraise := congrArg Text.lines (Text.sameLetters_iff.mp h)
    rw [Text.lines_raise, Text.lines_raise, ← List.forall₂_eq_eq_eq, List.forall₂_map_left_iff,
      List.forall₂_map_right_iff] at hraise
    exact hraise.imp fun _ _ => Text.sameLetters_iff.mpr
  rw [assemble, assemble, Layout.ofText, Layout.ofText]
  rcases foldlM_addLine_of_sameLetters hlines {} with hsame | ⟨k, word, word', hbad, hleft, hright⟩
  · exact .inl (by rw [hsame])
  · have hfirst : ({} : Layout).lines + k + 1 = k + 1 := congrArg (· + 1) (Nat.zero_add k)
    rw [hfirst] at hleft hright
    rw [hleft, hright]
    exact .inr ⟨k, word, word', hbad.letters, hbad.left, hbad.right, rfl, rfl⟩

/-- A label whose upper case is longer than the label, in one spelling where it is defined and in
another where it is used. -/
theorem assemble_of_sameLetters_sharpS :
    Text.SameLetters "LDI R1,straße\nstrASSe: prn r1\nDB 0x1f\n".toList
        "ldi r1,STRAßE\nStrasse: PRN R1\ndb 0X1F\n".toList ∧
      assemble "ldi r1,STRAßE\nStrasse: PRN R1\ndb 0X1F\n" = .ok [0x82, 1, 3, 0x47, 1, 0x1F] := by
  have hletters : Text.SameLetters "LDI R1,straße\nstrASSe: prn r1\nDB 0x1f\n".toList
      "ldi r1,STRAßE\nStrasse: PRN R1\ndb 0X1F\n".toList := by
    rw [Text.sameLetters_iff]
    decide +kernel
  have htext : assemble "LDI R1,straße\nstrASSe: prn r1\nDB 0x1f\n" =
      .ok [0x82, 1, 3, 0x47, 1, 0x1F] := by
    decide +kernel
  refine ⟨hletters, ?_⟩
  rcases assemble_of_sameLetters hletters with hsame | ⟨k, word, word', -, -, -, hleft, -⟩
  · rw [hsame, htext]
  · rw [htext] at hleft
    cases hleft

end LS8
