import LS8.Proofs.Assembly.OperandWords
import LS8.Proofs.Text.Trim

/-!
# Where tokens come from

In front of its comment a line consists of blanks, single commas and colons, and words, which are
the longest rows of other characters. Wherever one of these stands, but for the blanks, there is one
piece, and the pieces are in the order of their places (`exists_located`). Each token of the line is
what one piece reads as; there are no tokens if a word begins with a digit and is no numeral below
two to the 64, and the first such word is reported (`tokenize_iff`).
-/
namespace LS8.Assembly

/-! ## Places of pieces -/

/-- The piece is all there is between the two texts: what a word is made of continues neither in
front of it nor behind it. -/
inductive Piece.Between (before after : List Char) : Piece → Prop
  | word {text} (hne : text ≠ []) (htext : ∀ c ∈ text, isWordChar c = true)
      (hbefore : before.getLast?.any isWordChar = false)
      (hafter : after.head?.any isWordChar = false) : Between before after (.word text)
  | comma : Between before after .comma
  | colon : Between before after .colon

/-- The piece stands in the text, with so many characters in front of it. -/
inductive Piece.FoundAt : (text : List Char) → (place : Nat) → Piece → Prop
  | intro {before after p} (h : Between before after p) :
      FoundAt (before ++ p.source ++ after) before.length p

/-- All pieces of a text, each with its place, in the order of their places. -/
structure Located (text : List Char) (located : List (Nat × Piece)) : Prop where
  ascending : (located.map Prod.fst).Pairwise (· < ·)
  mem_iff : ∀ i p, (i, p) ∈ located ↔ p.FoundAt text i

/-- No word goes across from one text into the other. -/
def Seam (front back : List Char) : Prop :=
  front.getLast?.any isWordChar = false ∨ back.head?.any isWordChar = false

section Seams

variable {front back text : List Char}

theorem seam_nil_left (back : List Char) : Seam [] back := .inl rfl

theorem seam_nil_right (front : List Char) : Seam front [] := .inr rfl

theorem seam_append_left (hne : text ≠ []) : Seam (front ++ text) back ↔ Seam text back := by
  rw [Seam, Seam, List.getLast?_append_of_ne_nil front hne]

theorem seam_append_right (hne : text ≠ []) : Seam front (text ++ back) ↔ Seam front text := by
  rw [Seam, Seam, List.head?_append_of_ne_nil text hne]

theorem any_getLast? (hne : text ≠ []) (h : ∀ c ∈ text, isWordChar c = true) :
    text.getLast?.any isWordChar = true := by
  rw [List.getLast?_eq_some_getLast hne]
  exact h _ (List.getLast_mem hne)

theorem any_head? (hne : text ≠ []) (h : ∀ c ∈ text, isWordChar c = true) :
    text.head?.any isWordChar = true := by
  rw [List.head?_eq_some_head hne]
  exact h _ (List.head_mem hne)

/-- There is no seam inside the text. -/
def Unbroken (text : List Char) : Prop :=
  ∀ front back, text = front ++ back → front ≠ [] → back ≠ [] → ¬ Seam front back

theorem unbroken_singleton (c : Char) : Unbroken [c] := by
  intro front back htext hfront hback
  rcases List.append_eq_singleton_iff.mp htext.symm with ⟨hnil, -⟩ | ⟨-, hnil⟩
  · exact absurd hnil hfront
  · exact absurd hnil hback

theorem unbroken_of_isWordChar (h : ∀ c ∈ text, isWordChar c = true) : Unbroken text := by
  rintro front back rfl hfront hback
  rw [List.forall_mem_append] at h
  rw [Seam, any_getLast? hfront h.1, any_head? hback h.2]
  simp

end Seams

section Places

variable {text front back before after : List Char} {c : Char} {p : Piece} {i : Nat}

/-- A word is not empty, and made of what words are made of. -/
def Piece.Solid : Piece → Prop
  | .word text => text ≠ [] ∧ ∀ c ∈ text, isWordChar c = true
  | .comma | .colon => True

theorem Piece.Solid.source_ne_nil (h : p.Solid) : p.source ≠ [] := by
  cases p with
  | word text => exact h.1
  | comma | colon => exact List.cons_ne_nil _ _

theorem Piece.Solid.unbroken (h : p.Solid) : Unbroken p.source := by
  cases p with
  | word text => exact unbroken_of_isWordChar h.2
  | comma | colon => exact unbroken_singleton _

theorem Piece.between_iff :
    p.Between before after ↔ p.Solid ∧ Seam before p.source ∧ Seam p.source after := by
  constructor
  · rintro (⟨hne, htext, hbefore, hafter⟩ | _ | _)
    · exact ⟨⟨hne, htext⟩, .inl hbefore, .inr hafter⟩
    · exact ⟨trivial, .inr rfl, .inl rfl⟩
    · exact ⟨trivial, .inr rfl, .inl rfl⟩
  · rintro ⟨hsolid, hbefore, hafter⟩
    cases p with
    | word text =>
      obtain ⟨hne, htext⟩ := hsolid
      refine .word hne htext (hbefore.resolve_right ?_) (hafter.resolve_left ?_)
      · simp [Piece.source, any_head? hne htext]
      · simp [Piece.source, any_getLast? hne htext]
    | comma => exact .comma
    | colon => exact .colon

theorem Piece.foundAt_iff : p.FoundAt text i ↔
    ∃ before after, text = before ++ p.source ++ after ∧ before.length = i ∧
      p.Between before after := by
  constructor
  · rintro ⟨h⟩
    exact ⟨_, _, rfl, rfl, h⟩
  · rintro ⟨before, after, rfl, rfl, h⟩
    exact .intro h

theorem Piece.FoundAt.lt_length (h : p.FoundAt text i) : i < text.length := by
  obtain ⟨before, after, rfl, rfl, hbetween⟩ := foundAt_iff.mp h
  have hpos := List.length_pos_iff.mpr (between_iff.mp hbetween).1.source_ne_nil
  simp only [List.length_append]
  omega

/-- What stands behind a seam does not matter to a piece in front of it. -/
theorem Piece.between_append_right (hseam : Seam (before ++ p.source ++ after) back) :
    p.Between before (after ++ back) ↔ p.Between before after := by
  rw [between_iff, between_iff]
  refine and_congr_right fun hsolid => and_congr_right fun _ => ?_
  cases after with
  | nil =>
    rw [List.append_nil, seam_append_left hsolid.source_ne_nil] at hseam
    exact iff_of_true hseam (seam_nil_right _)
  | cons c after => exact Iff.rfl

theorem Piece.between_append_left (hseam : Seam front (before ++ p.source ++ after)) :
    p.Between (front ++ before) after ↔ p.Between before after := by
  rw [between_iff, between_iff]
  refine and_congr_right fun hsolid => and_congr_left fun _ => ?_
  by_cases hnil : before = []
  · rw [hnil, List.nil_append, seam_append_right hsolid.source_ne_nil] at hseam
    rw [hnil, List.append_nil]
    exact iff_of_true hseam (seam_nil_left _)
  · exact seam_append_left hnil

/-- A piece of two texts with a seam between them lies in one of the two. -/
theorem Piece.Solid.beside_seam (h : p.Solid) (hseam : Seam front back)
    (htext : front ++ back = before ++ p.source ++ after) :
    (∃ rest, front = before ++ p.source ++ rest ∧ after = rest ++ back) ∨
      ∃ rest, before = front ++ rest ∧ back = rest ++ p.source ++ after := by
  rcases List.append_eq_append_iff.mp htext with ⟨rest, hrest, rfl⟩ | ⟨rest, rfl, rfl⟩
  · rcases List.append_eq_append_iff.mp hrest with ⟨tail, rfl, hsource⟩ | ⟨head, rfl, rfl⟩
    · -- The seam would be inside the piece, so there is nothing of it on one of the sides.
      by_cases htail : tail = []
      · exact .inr ⟨[], by rw [htail, List.append_nil, List.append_nil],
          by rw [hsource, htail]; rfl⟩
      by_cases hrest' : rest = []
      · exact .inl ⟨[], by rw [hsource, hrest', List.append_nil, List.append_nil],
          by rw [hrest']; rfl⟩
      rw [seam_append_left htail, seam_append_right hrest'] at hseam
      exact absurd hseam (h.unbroken tail rest hsource htail hrest')
    · exact .inr ⟨head, rfl, rfl⟩
  · exact .inl ⟨rest, rfl, rfl⟩

/-- Two texts have the pieces that each of them has, if no word goes across from one into the
other. -/
theorem Piece.foundAt_append_iff (hseam : Seam front back) :
    p.FoundAt (front ++ back) i ↔
      p.FoundAt front i ∨ ∃ j, i = front.length + j ∧ p.FoundAt back j := by
  simp only [foundAt_iff]
  constructor
  · rintro ⟨before, after, htext, rfl, h⟩
    rcases (between_iff.mp h).1.beside_seam hseam htext with ⟨rest, rfl, rfl⟩ | ⟨rest, rfl, rfl⟩
    · exact .inl ⟨before, rest, rfl, rfl, (between_append_right hseam).mp h⟩
    · exact .inr ⟨rest.length, List.length_append, rest, after, rfl, rfl,
        (between_append_left hseam).mp h⟩
  · rintro (⟨before, after, rfl, rfl, h⟩ | ⟨j, rfl, before, after, rfl, rfl, h⟩)
    · exact ⟨before, after ++ back, by simp, rfl, (between_append_right hseam).mpr h⟩
    · exact ⟨front ++ before, after, by simp, by simp, (between_append_left hseam).mpr h⟩

theorem Piece.foundAt_iff_of_unbroken (hne : text ≠ []) (h : Unbroken text) :
    p.FoundAt text i ↔ i = 0 ∧ p.source = text ∧ p.Solid := by
  rw [foundAt_iff]
  constructor
  · rintro ⟨before, after, htext, rfl, hbetween⟩
    obtain ⟨hsolid, hbefore, hafter⟩ := between_iff.mp hbetween
    have hsource := hsolid.source_ne_nil
    obtain rfl : before = [] := by
      by_contra hne
      have hrest : p.source ++ after ≠ [] := List.append_ne_nil_of_left_ne_nil hsource after
      rw [List.append_assoc] at htext
      exact h before _ htext hne hrest ((seam_append_right hsource).mpr hbefore)
    obtain rfl : after = [] := by
      by_contra hne
      exact h p.source after htext hsource hne hafter
    rw [List.append_nil, List.nil_append] at htext
    exact ⟨rfl, htext.symm, hsolid⟩
  · rintro ⟨rfl, rfl, hsolid⟩
    refine ⟨[], [], by simp, rfl, ?_⟩
    exact between_iff.mpr ⟨hsolid, seam_nil_left _, seam_nil_right _⟩

/-- Words, commas and colons are told apart by their characters. -/
theorem Piece.Solid.eq_of_source {q : Piece} (hp : p.Solid) (hq : q.Solid)
    (h : p.source = q.source) : p = q := by
  have hseparator {text : List Char} {d : Char} (hd : isWordChar d = false)
      (hsolid : (Piece.word text).Solid) : text ≠ [d] := by
    rintro rfl
    have hword := hsolid.2 d List.mem_cons_self
    rw [hd] at hword
    cases hword
  cases p with
  | word text =>
    cases q with
    | word other => exact congrArg _ h
    | comma => exact absurd h (hseparator rfl hp)
    | colon => exact absurd h (hseparator rfl hp)
  | comma =>
    cases q with
    | word other => exact absurd h.symm (hseparator rfl hq)
    | comma => rfl
    | colon => cases h
  | colon =>
    cases q with
    | word other => exact absurd h.symm (hseparator rfl hq)
    | comma => cases h
    | colon => rfl

/-! ## All places -/

theorem located_solid (h : p.Solid) : Located p.source [(0, p)] where
  ascending := List.pairwise_singleton _ _
  mem_iff := by
    intro i q
    rw [Piece.foundAt_iff_of_unbroken h.source_ne_nil h.unbroken, List.mem_singleton, Prod.mk.injEq]
    refine and_congr_right fun _ => ?_
    constructor
    · rintro rfl
      exact ⟨rfl, h⟩
    · rintro ⟨hsource, hq⟩
      exact hq.eq_of_source h hsource

theorem located_blank (h : Text.isBlank c = true) : Located [c] [] where
  ascending := List.Pairwise.nil
  mem_iff := by
    intro i p
    rw [Piece.foundAt_iff_of_unbroken (List.cons_ne_nil c []) (unbroken_singleton c)]
    refine iff_of_false List.not_mem_nil ?_
    rintro ⟨-, hsource, hsolid⟩
    cases p with
    | word text =>
      obtain rfl : text = [c] := hsource
      simpa [isWordChar, h] using hsolid.2 c List.mem_cons_self
    | comma =>
      obtain rfl := List.singleton_inj.mp hsource
      cases h
    | colon =>
      obtain rfl := List.singleton_inj.mp hsource
      cases h

theorem Located.append {located located' : List (Nat × Piece)} (hseam : Seam front back)
    (h : Located front located) (h' : Located back located') :
    Located (front ++ back)
      (located ++ located'.map fun x => (front.length + x.1, x.2)) where
  ascending := by
    rw [List.map_append, List.pairwise_append, List.map_map]
    refine ⟨h.ascending, ?_, ?_⟩
    · have hlater := List.pairwise_map.mp h'.ascending
      exact List.pairwise_map.mpr (hlater.imp fun hlt => Nat.add_lt_add_left hlt _)
    · intro i hi j hj
      obtain ⟨⟨i, p⟩, hp, rfl⟩ := List.mem_map.mp hi
      obtain ⟨⟨j, q⟩, -, rfl⟩ := List.mem_map.mp hj
      have hlt : i < front.length := ((h.mem_iff i p).mp hp).lt_length
      exact Nat.lt_of_lt_of_le hlt (Nat.le_add_right _ _)
  mem_iff := by
    intro i p
    rw [Piece.foundAt_append_iff hseam, List.mem_append, h.mem_iff, List.mem_map]
    refine or_congr_right ?_
    constructor
    · rintro ⟨⟨j, q⟩, hq, heq⟩
      obtain ⟨rfl, rfl⟩ := Prod.mk.inj heq
      exact ⟨j, rfl, (h'.mem_iff j q).mp hq⟩
    · rintro ⟨j, rfl, hp⟩
      exact ⟨(j, p), (h'.mem_iff j p).mpr hp, rfl⟩

theorem located_nil : Located [] [] where
  ascending := List.Pairwise.nil
  mem_iff := fun _ _ =>
    iff_of_false List.not_mem_nil fun h => absurd h.lt_length (Nat.not_lt_zero _)

theorem exists_located_append {ps : List Piece} (hsolid : p.Solid) (hseam : Seam p.source back)
    (h : ∃ located, Located back located ∧ located.map Prod.snd = ps) :
    ∃ located, Located (p.source ++ back) located ∧ located.map Prod.snd = p :: ps := by
  obtain ⟨located, hlocated, rfl⟩ := h
  refine ⟨_, (located_solid hsolid).append hseam hlocated, ?_⟩
  simp

/-- The pieces that a text is cut into are those that stand in it, in the order of their places. -/
theorem exists_located (code : List Char) :
    ∃ located, Located code located ∧ located.map Prod.snd = pieces code := by
  fun_induction pieces code with
  | case1 => exact ⟨[], located_nil, rfl⟩
  | case2 c rest hblank ih =>
    obtain ⟨located, hlocated, hpieces⟩ := ih
    have hseam : Seam [c] rest := .inl (by simp [isWordChar, hblank])
    refine ⟨_, (located_blank hblank).append hseam hlocated, ?_⟩
    simp [← hpieces]
  | case3 rest hblank ih => exact exists_located_append (p := .comma) trivial (.inl rfl) ih
  | case4 rest hblank _ ih => exact exists_located_append (p := .colon) trivial (.inl rfl) ih
  | case5 c rest hblank hcomma hcolon ih =>
    have hword : ∀ x ∈ c :: rest.takeWhile isWordChar, isWordChar x = true := by
      rw [List.forall_mem_cons]
      exact ⟨by simp [isWordChar, hblank, hcomma, hcolon],
        fun x hx => List.all_eq_true.mp List.all_takeWhile x hx⟩
    have htext : c :: rest = (c :: rest.takeWhile isWordChar) ++ rest.dropWhile isWordChar := by
      rw [List.cons_append, List.takeWhile_append_dropWhile]
    conv => enter [1, located, 1]; rw [htext]
    exact exists_located_append (p := .word _) ⟨List.cons_ne_nil _ _, hword⟩
      (.inr (Text.head?_dropWhile isWordChar rest)) ih

end Places

/-! ## What pieces read as -/

/-- The word begins with a digit, but it is no numeral, or one beyond what is read. -/
structure Unreadable (word : List Char) : Prop where
  digit : beginsWithDigit word = true
  value : ∀ v < 2 ^ 64, ¬ SpellsNumber word v

/-- The token of a piece: the number that a word spells, or the word in upper case if it does not
begin with a digit. -/
inductive ReadsAs : Piece → Token → Prop
  | comma : ReadsAs .comma .comma
  | colon : ReadsAs .colon .colon
  | number {word v} (h : SpellsNumber word v) (hlimit : v < 2 ^ 64) :
      ReadsAs (.word word) (.atom (.number v))
  | name {word} (hdigit : beginsWithDigit word = false) :
      ReadsAs (.word word) (.atom (.name (String.ofList (Text.uppercase word))))

/-- A word that is not read is blamed as it is written. -/
inductive RefusedAs : Piece → LineFault → Prop
  | intro {word} (h : Unreadable word) :
      RefusedAs (.word word) (.invalidNumber (String.ofList word))

section Reading

variable {p : Piece} {token : Token} {fault : LineFault} {word : List Char}

theorem ofPiece_of_readsAs (h : ReadsAs p token) : Token.ofPiece p = .ok token := by
  cases h with
  | comma => rfl
  | colon => rfl
  | number h hlimit =>
    rw [Token.ofPiece, ofWord_of_spellsNumber h hlimit]
    rfl
  | name hdigit =>
    rw [Token.ofPiece, ofWord_of_not_digit hdigit]
    rfl

theorem ofPiece_of_refusedAs (h : RefusedAs p fault) : Token.ofPiece p = .error fault := by
  obtain ⟨h⟩ := h
  rw [Token.ofPiece, ofWord_of_misspelled h.digit h.value]
  rfl

theorem readsAs_or_refusedAs (p : Piece) :
    (∃ token, ReadsAs p token) ∨ ∃ fault, RefusedAs p fault := by
  cases p with
  | comma => exact .inl ⟨_, .comma⟩
  | colon => exact .inl ⟨_, .colon⟩
  | word word =>
    cases hdigit : beginsWithDigit word with
    | false => exact .inl ⟨_, .name hdigit⟩
    | true =>
      by_cases hnumber : ∃ v < 2 ^ 64, SpellsNumber word v
      · obtain ⟨v, hlimit, h⟩ := hnumber
        exact .inl ⟨_, .number h hlimit⟩
      · simp only [not_exists, not_and] at hnumber
        exact .inr ⟨_, .intro ⟨hdigit, hnumber⟩⟩

theorem ofPiece_eq_ok_iff : Token.ofPiece p = .ok token ↔ ReadsAs p token :=
  eq_ok_iff_of_cases (fun _ => ofPiece_of_readsAs) (fun _ => ofPiece_of_refusedAs)
    (readsAs_or_refusedAs p)

theorem ofPiece_eq_error_iff : Token.ofPiece p = .error fault ↔ RefusedAs p fault :=
  eq_error_iff_of_cases (fun _ => ofPiece_of_readsAs) (fun _ => ofPiece_of_refusedAs)
    (readsAs_or_refusedAs p)

end Reading

/-! ## Traversals of placed elements -/

section Traversal

variable {ε α β : Type} {f : α → Except ε β} {e : ε}

theorem exists_mapM_eq_error {xs : List α} {x : α} (hmem : x ∈ xs) (hx : f x = .error e) :
    ∃ e', xs.mapM f = .error e' := by
  induction xs with
  | nil => cases hmem
  | cons y ys ih =>
    cases hy : f y with
    | error e' => exact ⟨e', mapM_cons_eq_error.mpr (.inl hy)⟩
    | ok b =>
      have hne : x ≠ y := by
        rintro rfl
        rw [hx] at hy
        cases hy
      obtain ⟨e', he'⟩ := ih (List.mem_of_ne_of_mem hne hmem)
      exact ⟨e', mapM_cons_eq_error.mpr (.inr ⟨⟨b, hy⟩, he'⟩)⟩

/-- Of elements in the order of their places the traversal reports the first that there is something
to report of. -/
theorem mapM_eq_error_iff_of_ascending {xs : List (Nat × α)}
    (h : (xs.map Prod.fst).Pairwise (· < ·)) :
    (xs.map Prod.snd).mapM f = .error e ↔
      ∃ i x, (i, x) ∈ xs ∧ f x = .error e ∧ ∀ j < i, ∀ y, (j, y) ∈ xs → ∃ b, f y = .ok b := by
  induction xs with
  | nil => simp [pure, Except.pure]
  | cons first xs ih =>
    rw [List.map_cons, List.pairwise_cons] at h
    have hlater : ∀ j y, (j, y) ∈ xs → first.1 < j :=
      fun j y hmem => h.1 j (List.mem_map.mpr ⟨(j, y), hmem, rfl⟩)
    rw [List.map_cons, mapM_cons_eq_error, ih h.2]
    constructor
    · rintro (hfirst | ⟨hfirst, i, x, hmem, hx, hbefore⟩)
      · refine ⟨first.1, first.2, List.mem_cons_self, hfirst, fun j hj y hmem => ?_⟩
        rcases List.mem_cons.mp hmem with rfl | hmem
        · exact absurd hj (Nat.lt_irrefl j)
        · exact absurd hj (Nat.lt_asymm (hlater j y hmem))
      · refine ⟨i, x, List.mem_cons_of_mem first hmem, hx, fun j hj y hmem => ?_⟩
        rcases List.mem_cons.mp hmem with rfl | hmem
        · exact hfirst
        · exact hbefore j hj y hmem
    · rintro ⟨i, x, hmem, hx, hbefore⟩
      rcases List.mem_cons.mp hmem with rfl | hmem
      · exact .inl hx
      · refine .inr ⟨hbefore first.1 (hlater i x hmem) first.2 List.mem_cons_self,
          i, x, hmem, hx, ?_⟩
        exact fun j hj y hmem => hbefore j hj y (List.mem_cons_of_mem first hmem)

end Traversal

/-! ## Lines -/

/-- What stands on the line in front of its first comment mark, or all of it if there is none. -/
inductive CodeOf : (line code : List Char) → Prop
  | intro {code comment} (hcode : ';' ∉ code ∧ '#' ∉ code)
      (hcomment : comment = [] ∨ ∃ rest, comment = ';' :: rest ∨ comment = '#' :: rest) :
      CodeOf (code ++ comment) code

theorem isComment_iff {c : Char} : isComment c = true ↔ c = ';' ∨ c = '#' := by
  simp [isComment]

theorem codeOf_takeWhile (line : List Char) : CodeOf line (line.takeWhile (!isComment ·)) := by
  have hcode : ∀ mark, isComment mark = true → mark ∉ line.takeWhile (!isComment ·) := by
    intro mark hmark hmem
    have hother := List.all_eq_true.mp List.all_takeWhile mark hmem
    simp [hmark] at hother
  have hcomment : line.dropWhile (!isComment ·) = [] ∨
      ∃ rest, line.dropWhile (!isComment ·) = ';' :: rest ∨
        line.dropWhile (!isComment ·) = '#' :: rest := by
    rcases Text.dropWhile_eq_nil_or (!isComment ·) line with hnil | ⟨c, rest, hrest, hc⟩
    · exact .inl hnil
    · rcases isComment_iff.mp (by simpa using hc) with rfl | rfl
      · exact .inr ⟨rest, .inl hrest⟩
      · exact .inr ⟨rest, .inr hrest⟩
  have hline := CodeOf.intro ⟨hcode ';' rfl, hcode '#' rfl⟩ hcomment
  rwa [List.takeWhile_append_dropWhile] at hline

section Located

variable {text : List Char} {located : List (Nat × Piece)} {fault : LineFault}

theorem exists_mapM_ofPiece_eq_error_iff (h : Located text located) :
    (∃ fault, (located.map Prod.snd).mapM Token.ofPiece = .error fault) ↔
      ∃ i word, (Piece.word word).FoundAt text i ∧ Unreadable word := by
  constructor
  · rintro ⟨fault, hread⟩
    obtain ⟨p, hp, herror⟩ := exists_of_mapM_eq_error hread
    obtain ⟨⟨i, q⟩, hmem, rfl⟩ := List.mem_map.mp hp
    obtain ⟨hword⟩ := ofPiece_eq_error_iff.mp herror
    exact ⟨i, _, (h.mem_iff i _).mp hmem, hword⟩
  · rintro ⟨i, word, hfound, hword⟩
    have hmem := List.mem_map_of_mem (f := Prod.snd) ((h.mem_iff i _).mpr hfound)
    exact exists_mapM_eq_error hmem (ofPiece_of_refusedAs (.intro hword))

theorem mapM_ofPiece_eq_error_iff (h : Located text located) :
    (located.map Prod.snd).mapM Token.ofPiece = .error fault ↔
      ∃ i word, (Piece.word word).FoundAt text i ∧ Unreadable word ∧
        (∀ j < i, ∀ other, (Piece.word other).FoundAt text j → ¬ Unreadable other) ∧
        fault = .invalidNumber (String.ofList word) := by
  rw [mapM_eq_error_iff_of_ascending h.ascending]
  constructor
  · rintro ⟨i, p, hmem, herror, hbefore⟩
    obtain ⟨hword⟩ := ofPiece_eq_error_iff.mp herror
    refine ⟨i, _, (h.mem_iff i _).mp hmem, hword, fun j hj other hother hunreadable => ?_, rfl⟩
    obtain ⟨token, htoken⟩ := hbefore j hj _ ((h.mem_iff j _).mpr hother)
    rw [ofPiece_of_refusedAs (.intro hunreadable)] at htoken
    cases htoken
  · rintro ⟨i, word, hfound, hword, hbefore, rfl⟩
    refine ⟨i, _, (h.mem_iff i _).mpr hfound, ofPiece_of_refusedAs (.intro hword),
      fun j hj p hmem => ?_⟩
    rcases readsAs_or_refusedAs p with ⟨token, hreads⟩ | ⟨fault, ⟨hother⟩⟩
    · exact ⟨token, ofPiece_of_readsAs hreads⟩
    · exact absurd hother (hbefore j hj _ ((h.mem_iff j _).mp hmem))

end Located

/-- **Tokens and the pieces of a line.** In front of its comment a line has a piece for each of its
commas and colons and for each longest row of other characters that are no blanks, and together
these are all that it has but for blanks. Its tokens are what these pieces read as, one by one in
the order of their places. There are none if and only if a word begins with a digit and is no
numeral that is read, and the first such word is reported as it is written. -/
theorem tokenize_iff (line : List Char) :
    ∃ code located, CodeOf line code ∧ Located code located ∧
      located.flatMap (fun x => x.2.source) = code.filter (!Text.isBlank ·) ∧
      (∀ tokens, tokenize line = .ok tokens ↔
        List.Forall₂ (fun x token => ReadsAs x.2 token) located tokens) ∧
      ((∃ fault, tokenize line = .error fault) ↔
        ∃ i word, (Piece.word word).FoundAt code i ∧ Unreadable word) ∧
      ∀ fault, tokenize line = .error fault ↔
        ∃ i word, (Piece.word word).FoundAt code i ∧ Unreadable word ∧
          (∀ j < i, ∀ other, (Piece.word other).FoundAt code j → ¬ Unreadable other) ∧
          fault = .invalidNumber (String.ofList word) := by
  obtain ⟨located, hlocated, hpieces⟩ := exists_located (line.takeWhile (!isComment ·))
  have htokenize : tokenize line = (located.map Prod.snd).mapM Token.ofPiece := by
    rw [tokenize_eq, hpieces]
  refine ⟨_, located, codeOf_takeWhile line, hlocated, ?_, fun tokens => ?_, ?_, fun fault => ?_⟩
  · rw [← flatMap_source_pieces, ← hpieces, List.flatMap_map]
  · rw [htokenize, mapM_eq_ok, List.forall₂_map_left_iff]
    simp only [ofPiece_eq_ok_iff]
  · rw [htokenize]
    exact exists_mapM_ofPiece_eq_error_iff hlocated
  · rw [htokenize]
    exact mapM_ofPiece_eq_error_iff hlocated

/-- Separators are tokens of their own wherever they stand. -/
example : tokenize ",:a,,b:#c".toList = .ok [.comma, .colon, .atom (.name "A"), .comma, .comma,
    .atom (.name "B"), .colon] := by
  decide +kernel

end LS8.Assembly
