import LS8.Listing
import LS8.Proofs.Assembly.Lexing
import LS8.Proofs.Assembly.Offsets
import LS8.Proofs.Text.Segments
import LS8.Proofs.Text.Trim

/-!
# Comments and line endings

Of a line, a listing keeps the text in front of its comment without the blanks around it, and the
assembler keeps the tokens in front of its comment. Both are the same with a carriage return at the
end of the line, and with a comment put behind whatever the line holds. As both formats read a text
line by line and an empty line at the end comes to nothing, they read it as its segments
(`Listing.parse_eq_readLines`, `assemble_eq_foldlM`), so that neither the kind of its line endings
nor comments change what a text is read as or what it is refused for (`endings_and_comments_inert`).
-/
namespace LS8

/-! ## Listings -/

namespace Listing

theorem content_append_return (line : List Char) : content (line ++ ['\r']) = content line := by
  have hreturn : Text.AllBlank ['\r'] := List.forall_mem_singleton.mpr rfl
  rw [content]
  rcases Text.takeWhile_append_singleton (· != '#') line '\r' with heq | heq
  · rw [heq, content]
  · rw [heq, Text.trim_append_blanks _ hreturn, content]

theorem content_append_comment (line comment : List Char) :
    content (line ++ '#' :: comment) = content line := by
  rw [content, Text.takeWhile_append_stop rfl, content]

theorem readLine_congr {line other : List Char} (h : content line = content other) :
    readLine line = readLine other := by
  simp only [readLine, h]

theorem readLines_congr {lines others : List (List Char)}
    (h : lines.map content = others.map content) (number : Nat) :
    readLines number lines = readLines number others := by
  induction lines generalizing others number with
  | nil => rw [List.map_eq_nil_iff.mp h.symm]
  | cons line lines ih =>
    obtain ⟨other, others, rfl, hline, hlines⟩ := List.map_eq_cons_iff.mp h.symm
    rw [readLines, readLines, readLine_congr hline, ih hlines.symm]

theorem readLines_append_blank (number : Nat) (lines : List (List Char)) :
    readLines number (lines ++ [[]]) = readLines number lines := by
  induction lines generalizing number with
  | nil => rfl
  | cons line lines ih => rw [List.cons_append, readLines, readLines, ih]

theorem parse_eq_readLines (text : String) :
    parse text = readLines 1 (text.toList.splitOn '\n') := by
  obtain ⟨behind, hbehind, hsegments⟩ := Text.map_splitOn content_append_return text.toList
  rw [readLines_congr hsegments]
  rcases hbehind with rfl | rfl
  · rw [List.append_nil, parse]
  · rw [readLines_append_blank, parse]

/-- A listing matters only by the contents of its segments. -/
theorem parse_congr {text other : String}
    (h : (text.toList.splitOn '\n').map content = (other.toList.splitOn '\n').map content) :
    parse text = parse other := by
  rw [parse_eq_readLines, parse_eq_readLines, readLines_congr h]

end Listing

/-! ## Assembly -/

namespace Assembly

/-- A blank at the end ends a word that ends there anyway. -/
theorem pieces_append_blank {c : Char} (h : Text.isBlank c = true) (code : List Char) :
    pieces (code ++ [c]) = pieces code := by
  have hword : isWordChar c = false := by simp [isWordChar, h]
  fun_induction pieces code with
  | case1 => rw [List.nil_append, pieces_blank h, pieces]
  | case2 d rest hblank ih => rw [List.cons_append, pieces_blank hblank, ih]
  | case3 rest _ ih => rw [List.cons_append, pieces_comma, ih]
  | case4 rest _ _ ih => rw [List.cons_append, pieces_colon, ih]
  | case5 d rest hblank hcomma hcolon ih =>
    rw [List.cons_append, pieces, if_neg hblank, if_neg hcomma, if_neg hcolon,
      Text.takeWhile_append_stop hword, Text.dropWhile_append_stop hword, ih]

theorem tokenize_append_return (line : List Char) : tokenize (line ++ ['\r']) = tokenize line := by
  rw [tokenize_eq, tokenize_eq]
  rcases Text.takeWhile_append_singleton (!isComment ·) line '\r' with heq | heq
  · rw [heq]
  · rw [heq, pieces_append_blank (by decide)]

theorem tokenize_append_comment {mark : Char} (h : isComment mark = true)
    (line comment : List Char) : tokenize (line ++ mark :: comment) = tokenize line := by
  rw [tokenize_eq, Text.takeWhile_append_stop (by simp [h]), tokenize_eq]

theorem Layout.foldlM_addLine_congr {texts others : List (List Char)}
    (h : texts.map tokenize = others.map tokenize) (layout : Layout) :
    texts.foldlM addLine layout = others.foldlM addLine layout := by
  induction texts generalizing others layout with
  | nil => rw [List.map_eq_nil_iff.mp h.symm]
  | cons text texts ih =>
    obtain ⟨other, others, rfl, htext, htexts⟩ := List.map_eq_cons_iff.mp h.symm
    rw [List.foldlM_cons, List.foldlM_cons, addLine_congr htext]
    exact bind_congr fun next => ih htexts.symm next

theorem Layout.addLine_blank (layout : Layout) :
    layout.addLine [] = .ok { layout with lines := layout.lines + 1 } := by
  have hline : Line.parse [] = .ok {} := by
    rw [Line.parse, tokenize_eq, List.takeWhile_nil, pieces]
    rfl
  have hplace : layout.place [] = .ok { layout with lines := layout.lines + 1 } := by
    refine bind_eq_ok.mpr ⟨{}, hline, bind_eq_ok.mpr ⟨layout.labels, rfl, ?_⟩⟩
    simp [pure, Except.pure]
  rw [addLine, hplace, Except.mapError]

end Assembly

open Assembly

theorem assemble_eq_foldlM (text : String) :
    assemble text = (do
      let layout ← (text.toList.splitOn '\n').foldlM Layout.addLine {}
      layout.image) := by
  obtain ⟨behind, hbehind, hsegments⟩ := Text.map_splitOn tokenize_append_return text.toList
  rw [assemble, Layout.ofText, Layout.foldlM_addLine_congr hsegments, List.foldlM_append,
    bind_assoc]
  refine bind_congr fun layout => ?_
  rcases hbehind with rfl | rfl
  · rfl
  · rw [List.foldlM_cons, Layout.addLine_blank]
    rfl

/-- An assembly text matters only by the tokens of its segments. -/
theorem assemble_congr {text other : String}
    (h : (text.toList.splitOn '\n').map tokenize = (other.toList.splitOn '\n').map tokenize) :
    assemble text = assemble other := by
  rw [assemble_eq_foldlM, assemble_eq_foldlM, Layout.foldlM_addLine_congr h]

/-! ## Texts -/

namespace Text

/-- The lines with a comment mark and a comment behind each of them. -/
def commented (mark : Char) (lines comments : List String) : List String :=
  (lines.zip comments).map fun (line, comment) => line.push mark ++ comment

section

variable {mark : Char} {lines comments : List String}

theorem toList_commented (mark : Char) (line comment : String) :
    (line.push mark ++ comment).toList = line.toList ++ mark :: comment.toList := by
  simp

theorem not_mem_commented (hmark : mark ≠ '\n') (hlines : ∀ line ∈ lines, '\n' ∉ line.toList)
    (hcomments : ∀ comment ∈ comments, '\n' ∉ comment.toList) :
    ∀ row ∈ commented mark lines comments, '\n' ∉ row.toList := by
  intro row hrow
  obtain ⟨⟨line, comment⟩, hmem, rfl⟩ := List.mem_map.mp hrow
  obtain ⟨hline, hcomment⟩ := List.of_mem_zip hmem
  rw [toList_commented, List.mem_append, List.mem_cons]
  rintro (h | h | h)
  · exact hlines line hline h
  · exact hmark h.symm
  · exact hcomments comment hcomment h

theorem map_commented {α : Type} {f : List Char → α} (hlength : lines.length = comments.length)
    (hcomment : ∀ line comment, f (line ++ mark :: comment) = f line) :
    (commented mark lines comments).map (fun row => f row.toList) =
      lines.map fun row => f row.toList := by
  have hfirst : (lines.zip comments).map Prod.fst = lines := List.map_fst_zip (Nat.le_of_eq hlength)
  conv => rhs; rw [← hfirst]
  rw [commented, List.map_map, List.map_map]
  refine List.map_congr_left fun (line, comment) _ => ?_
  simp only [Function.comp_apply, toList_commented, hcomment]

end

end Text

open Text (crlf unlines commented)

/-- **Line endings and comments are inert.** A text is read alike, or refused for the same reason,
whether its lines end at a line feed or at a carriage return and a line feed. And whatever lines a
text consists of, a comment behind each of them changes nothing, whatever the comments hold. -/
theorem endings_and_comments_inert :
    (∀ text, assemble (crlf text) = assemble text ∧
      Listing.parse (crlf text) = Listing.parse text) ∧
    ∀ lines comments : List String, lines.length = comments.length →
      (∀ line ∈ lines, '\n' ∉ line.toList) → (∀ comment ∈ comments, '\n' ∉ comment.toList) →
      ∀ join ∈ ["\n".intercalate, unlines],
        assemble (join (commented '#' lines comments)) = assemble (join lines) ∧
        assemble (join (commented ';' lines comments)) = assemble (join lines) ∧
        Listing.parse (join (commented '#' lines comments)) = Listing.parse (join lines) := by
  constructor
  · intro text
    have hcrlf : (crlf text).toList = Text.addReturns text.toList := String.toList_ofList
    refine ⟨assemble_congr ?_, Listing.parse_congr ?_⟩
    · rw [hcrlf, Text.map_splitOn_crlf tokenize_append_return]
    · rw [hcrlf, Text.map_splitOn_crlf Listing.content_append_return]
  · intro lines comments hlength hlines hcomments join hjoin
    have hassemble {mark : Char} (hmark : isComment mark = true) (hfeed : mark ≠ '\n') :
        assemble (join (commented mark lines comments)) = assemble (join lines) := by
      refine assemble_congr (Text.map_splitOn_of_rows hjoin ?_ hlines ?_)
      · exact Text.not_mem_commented hfeed hlines hcomments
      · exact Text.map_commented hlength (tokenize_append_comment hmark)
    refine ⟨hassemble rfl (by decide), hassemble rfl (by decide), Listing.parse_congr ?_⟩
    refine Text.map_splitOn_of_rows hjoin ?_ hlines ?_
    · exact Text.not_mem_commented (by decide) hlines hcomments
    · exact Text.map_commented hlength Listing.content_append_comment

/-- The third line is refused, with its comment or without. -/
theorem endings_and_comments_inert_nop :
    let lines := ["start: ldi r1,8 ; eight\r", "", "nop r1 # one"]
    let comments := ["# ; 0:\r", "ß,", "\r12;"]
    (lines.length = comments.length ∧ (∀ line ∈ lines, '\n' ∉ line.toList) ∧
      ∀ comment ∈ comments, '\n' ∉ comment.toList) ∧
    assemble (unlines (commented ';' lines comments)) =
      .error (.atLine 3 (.unexpectedToken "R1")) := by
  intro lines comments
  have hlines : ∀ line ∈ lines, '\n' ∉ line.toList := by decide
  have hcomments : ∀ comment ∈ comments, '\n' ∉ comment.toList := by decide
  refine ⟨⟨rfl, hlines, hcomments⟩, ?_⟩
  have hinert := endings_and_comments_inert.2 lines comments rfl hlines hcomments unlines
    (List.mem_cons_of_mem _ List.mem_cons_self)
  rw [hinert.2.1]
  decide +kernel

end LS8
