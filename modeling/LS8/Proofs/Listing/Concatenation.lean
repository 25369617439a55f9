import LS8.Listing
import LS8.Proofs.Text.Lines
import Mathlib.Data.List.Basic

/-!
# Listings one behind the other

A listing that is empty or ends in a line feed has no part in the lines of a text put behind it. So
the two are read one after the other (`parse_append`): as the bytes of both, or, if one of them is
refused, with its error. If that is the second one, the lines of the first count too, whether they
hold a byte or not.
-/
namespace LS8.Listing

/-- Where lines are counted from matters only to the line of an error. -/
theorem readLines_add (number count : Nat) (lines : List (List Char)) :
    readLines (number + count) lines =
      (readLines number lines).mapError fun e => ⟨e.line + count, e.fault⟩ := by
  induction lines generalizing number with
  | nil => rfl
  | cons line lines ih =>
    rw [readLines, readLines]
    cases readLine line with
    | error fault => rfl
    | ok cell =>
      simp only [Nat.add_right_comm number count 1, ih]
      cases readLines (number + 1) lines <;> rfl

/-- More lines are read only if none of those in front of them is wrong. -/
theorem readLines_append (number : Nat) (lines more : List (List Char)) :
    readLines number (lines ++ more) = readLines number lines >>= fun image =>
      (readLines (number + lines.length) more).map (image ++ ·) := by
  induction lines generalizing number with
  | nil =>
    change readLines number more = (readLines number more).map ([] ++ ·)
    cases readLines number more <;> rfl
  | cons line lines ih =>
    have hnumber : number + (line :: lines).length = number + 1 + lines.length := by
      rw [List.length_cons]
      omega
    rw [List.cons_append, readLines, readLines, hnumber]
    cases readLine line with
    | error fault => rfl
    | ok cell =>
      simp only [ih]
      cases readLines (number + 1) lines with
      | error e => rfl
      | ok image =>
        cases readLines (number + 1 + lines.length) more <;> simp [bind, Except.bind, Except.map]

/-- **Listings one behind the other.** Let the first one be empty or end in a line feed. If it is
refused, so are both, for the same reason. If it is read, then both are refused for the reason that
the second one is, on the line that this has behind the lines of the first, or both are read as the
bytes of the first followed by those of the second. -/
theorem parse_append {front : String} (hclosed : front = "" ∨ ∃ text, front = text ++ "\n")
    (back : String) :
    (∀ e, parse front = .error e → parse (front ++ back) = .error e) ∧
      ∀ image, parse front = .ok image →
        (∀ e, parse back = .error e →
          parse (front ++ back) = .error ⟨e.line + (Text.lines front.toList).length, e.fault⟩) ∧
        ∀ more, parse back = .ok more → parse (front ++ back) = .ok (image ++ more) := by
  have hjoined : parse (front ++ back) = parse front >>= fun image =>
      ((parse back).mapError fun e => ⟨e.line + (Text.lines front.toList).length, e.fault⟩).map
        (image ++ ·) := by
    rw [parse, Text.lines_append hclosed, readLines_append, readLines_add, ← parse, ← parse]
  rw [hjoined]
  refine ⟨fun e h => ?_, fun image h => ⟨fun e hback => ?_, fun more hback => ?_⟩⟩
  · rw [h]
    rfl
  · rw [h, hback]
    rfl
  · rw [h, hback]
    rfl

/-- The carriage return at the seam belongs to an ending of its own, and the three lines in front
count, though only one of them holds a byte. -/
theorem parse_append_returnAtSeam :
    let front := "1 # one\r\n\n# none\n"
    let back := "\r\n10\r\n+1"
    (∃ text, front = text ++ "\n") ∧ parse front = .ok [1] ∧
      parse back = .error ⟨3, .invalidDigit "+1"⟩ ∧
      parse (front ++ back) = .error ⟨6, .invalidDigit "+1"⟩ := by
  intro front back
  have hclosed : ∃ text, front = text ++ "\n" := ⟨"1 # one\r\n\n# none", by decide⟩
  have hfront : parse front = .ok [1] := by decide +kernel
  have hback : parse back = .error ⟨3, .invalidDigit "+1"⟩ := by decide +kernel
  have hlines : (Text.lines front.toList).length = 3 := by decide +kernel
  have hjoined := ((parse_append (.inr hclosed) back).2 [1] hfront).1 _ hback
  rw [hlines] at hjoined
  exact ⟨hclosed, hfront, hback, hjoined⟩

end LS8.Listing
