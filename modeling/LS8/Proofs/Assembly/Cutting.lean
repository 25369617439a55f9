import LS8.Assembly.Token
import LS8.Proofs.Text.Lines

/-!
# Cutting a line from left to right

A line is cut twice, at its blanks and then, word by word, at its commas and colons. Both cuts come
to one scan from left to right (`cut_eq_pieces`), as no word is cut off by anything but a blank, a
comma or a colon.
-/
namespace LS8.Assembly

def isWordChar (c : Char) : Bool := !(Text.isBlank c || c == ',' || c == ':')

/-- The pieces of a text by a scan from left to right. -/
def pieces (code : List Char) : List Piece :=
  match code with
  | [] => []
  | c :: rest =>
    if Text.isBlank c then pieces rest
    else if c = ',' then .comma :: pieces rest
    else if c = ':' then .colon :: pieces rest
    else .word (c :: rest.takeWhile isWordChar) :: pieces (rest.dropWhile isWordChar)
termination_by code.length
decreasing_by
  all_goals simp only [List.length_cons]
  · omega
  · omega
  · omega
  · exact Nat.lt_succ_of_le (List.dropWhile_sublist isWordChar).length_le

/-- Nothing but blanks is lost. -/
theorem flatMap_source_pieces (code : List Char) :
    (pieces code).flatMap Piece.source = code.filter (!Text.isBlank ·) := by
  fun_induction pieces code with
  | case1 => rfl
  | case2 c rest hblank ih => simp [hblank, ih]
  | case3 rest hblank ih => simp [hblank, ih, Piece.source]
  | case4 rest hblank _ ih => simp [hblank, ih, Piece.source]
  | case5 c rest hblank _ _ ih =>
    have hword : (rest.takeWhile isWordChar).filter (!Text.isBlank ·) =
        rest.takeWhile isWordChar := by
      refine List.filter_eq_self.mpr fun x hx => ?_
      have hx' := List.all_eq_true.mp List.all_takeWhile x hx
      simp only [isWordChar, Bool.not_eq_true', Bool.or_eq_false_iff] at hx'
      simp [hx'.1.1]
    rw [List.flatMap_cons, ih, Piece.source, List.filter_cons_of_pos (by simpa using hblank),
      List.cons_append]
    conv => rhs; rw [← List.takeWhile_append_dropWhile (p := isWordChar) (l := rest)]
    rw [List.filter_append, hword]

/-! ## The scan -/

theorem pieces_blank {c : Char} (h : Text.isBlank c = true) (rest : List Char) :
    pieces (c :: rest) = pieces rest := by
  rw [pieces, if_pos h]

theorem pieces_comma (rest : List Char) : pieces (',' :: rest) = .comma :: pieces rest := by
  rw [pieces, if_neg (by decide), if_pos rfl]

theorem pieces_colon (rest : List Char) : pieces (':' :: rest) = .colon :: pieces rest := by
  rw [pieces, if_neg (by decide), if_neg (by decide), if_pos rfl]

/-- A word ends where the characters of words end. -/
theorem pieces_word {word rest : List Char} (hne : word ≠ [])
    (hword : ∀ c ∈ word, isWordChar c = true) (hrest : rest.head?.any isWordChar = false) :
    pieces (word ++ rest) = .word word :: pieces rest := by
  cases word with
  | nil => contradiction
  | cons c word =>
    have hc := hword c List.mem_cons_self
    have htail : ∀ x ∈ word, isWordChar x = true := fun x hx => hword x (List.mem_cons_of_mem c hx)
    have hstop : rest.takeWhile isWordChar = [] ∧ rest.dropWhile isWordChar = rest := by
      cases rest with
      | nil => exact ⟨rfl, rfl⟩
      | cons x rest =>
        have hx : isWordChar x = false := by simpa using hrest
        simp [hx]
    simp only [isWordChar, Bool.not_eq_true', Bool.or_eq_false_iff, beq_eq_false_iff_ne] at hc
    obtain ⟨⟨hblank, hcomma⟩, hcolon⟩ := hc
    rw [List.cons_append, pieces, if_neg (by simp [hblank]), if_neg hcomma, if_neg hcolon,
      List.takeWhile_append_of_pos htail, List.dropWhile_append_of_pos htail, hstop.1, hstop.2,
      List.append_nil]

/-- Whatever is made of what words are made of is a word, if there is any of it. -/
theorem pieces_front {front rest : List Char} (hfront : ∀ c ∈ front, isWordChar c = true)
    (hrest : rest.head?.any isWordChar = false) :
    pieces (front ++ rest) = (if front = [] then [] else [.word front]) ++ pieces rest := by
  split
  case isTrue hnil => rw [hnil, List.nil_append, List.nil_append]
  case isFalse hne => exact pieces_word hne hfront hrest

/-! ## The two cuts -/

section Words

variable {word front rest code : List Char} {c : Char}

theorem isWordChar_eq (c : Char) : isWordChar c = (!Text.isBlank c && !isSeparator c) := by
  rw [isWordChar, isSeparator, Bool.or_assoc, Bool.not_or]

theorem isSeparator_iff : isSeparator c = true ↔ c = ',' ∨ c = ':' := by
  simp [isSeparator]

theorem pieces_separator (h : isSeparator c = true) (rest : List Char) :
    pieces (c :: rest) = (Piece.ofMark? c).toList ++ pieces rest := by
  rcases isSeparator_iff.mp h with rfl | rfl
  · exact pieces_comma rest
  · exact pieces_colon rest

theorem cutWord_nil : cutWord [] = [] := by
  rw [cutWord, if_pos rfl]

theorem cutWord_of_not_isSeparator (h : ∀ c ∈ word, isSeparator c = false) :
    cutWord word = if word = [] then [] else [.word word] := by
  split
  case isTrue hnil => rw [hnil, cutWord_nil]
  case isFalse hne =>
    have hstop : word.findIdx isSeparator = word.length := List.findIdx_eq_length.mpr h
    have hpos := List.length_pos_iff.mpr hne
    have hrest : word.drop (word.length + 1) = [] := List.drop_eq_nil_of_le (Nat.le_succ _)
    rw [cutWord, if_neg hne]
    simp [hstop, hpos, hrest, cutWord_nil]

theorem cutWord_append_separator (hfront : ∀ c ∈ front, isSeparator c = false)
    (hc : isSeparator c = true) (rest : List Char) :
    cutWord (front ++ c :: rest) =
      (if front = [] then [] else [.word front]) ++ (Piece.ofMark? c).toList ++ cutWord rest := by
  have hstop : (front ++ c :: rest).findIdx isSeparator = front.length := by
    rw [List.findIdx_append, List.findIdx_eq_length.mpr hfront, if_neg (Nat.lt_irrefl _),
      List.findIdx_cons, hc, cond_true, Nat.zero_add]
  have hrest : (front ++ c :: rest).drop (front.length + 1) = rest := by
    rw [List.drop_append, List.drop_eq_nil_of_le (Nat.le_succ _)]
    simp
  rw [cutWord, if_neg (by simp)]
  simp [hstop, hrest, List.length_pos_iff]

/-- Up to a blank, the scan finds what the word in front of it is cut into. -/
theorem pieces_append_of_not_isBlank (hword : ∀ c ∈ word, Text.isBlank c = false)
    (hrest : rest.head?.any isWordChar = false) :
    pieces (word ++ rest) = cutWord word ++ pieces rest := by
  have hfront {front : List Char} (hblank : ∀ c ∈ front, Text.isBlank c = false)
      (hseparator : ∀ c ∈ front, isSeparator c = false) : ∀ c ∈ front, isWordChar c = true := by
    intro c hc
    simp [isWordChar_eq, hblank c hc, hseparator c hc]
  induction word using Text.induction_on_stops isSeparator with
  | last front h => rw [pieces_front (hfront hword h) hrest, cutWord_of_not_isSeparator h]
  | stop front c tail h hc ih =>
    rw [List.forall_mem_append, List.forall_mem_cons] at hword
    have hseam : (c :: (tail ++ rest)).head?.any isWordChar = false := by
      simp [isWordChar_eq, hc]
    rw [List.append_assoc, List.cons_append, pieces_front (hfront hword.1 h) hseam,
      pieces_separator hc, ih hword.2.2, cutWord_append_separator h hc, List.append_assoc,
      List.append_assoc]

theorem flatMap_cutWord_filter (words : List (List Char)) :
    (words.filter (!·.isEmpty)).flatMap cutWord = words.flatMap cutWord := by
  induction words with
  | nil => rfl
  | cons word words ih =>
    cases word with
    | nil => rw [List.filter_cons_of_neg (by decide), ih, List.flatMap_cons, cutWord_nil]; rfl
    | cons c word => rw [List.filter_cons_of_pos rfl, List.flatMap_cons, List.flatMap_cons, ih]

/-- **The two cuts are one scan.** To cut a line into words at its blanks, and each word at its
commas and colons, gives the pieces of the scan from left to right. -/
theorem cut_eq_pieces (code : List Char) : cut code = pieces code := by
  rw [cut, Text.words, flatMap_cutWord_filter]
  induction code using Text.induction_on_stops Text.isBlank with
  | last word h =>
    rw [List.splitOnP_eq_singleton h, List.flatMap_singleton, ← List.append_nil word,
      pieces_append_of_not_isBlank h rfl, pieces, List.append_nil, List.append_nil]
  | stop word c rest h hc ih =>
    have hseam : (c :: rest).head?.any isWordChar = false := by simp [isWordChar_eq, hc]
    rw [List.splitOnP_append_cons_of_forall_mem h c hc, List.flatMap_cons, ih,
      pieces_append_of_not_isBlank h hseam, pieces_blank hc]

end Words

theorem tokenize_eq (line : List Char) :
    tokenize line = (pieces (line.takeWhile (!isComment ·))).mapM Token.ofPiece := by
  rw [tokenize, cut_eq_pieces]

end LS8.Assembly
