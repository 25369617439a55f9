import LS8.Assembly.Layout
import LS8.Proofs.Assembly.Parsing

/-!
# Offsets

Where the statements of a text are to stand in its image, and what its labels stand for. The
offset of a statement is the sum of the widths of those in front of it, and a label stands for the
offset of the first statement on its own line or a later one. Both are said here of the list of
parsed lines alone; the layout arrives at the same numbers line by line, before any byte is made
(`Layout.laidOut_of_ofText`).
-/
namespace LS8.Assembly

/-! ## Statements and labels of a list of lines -/

/-- The statements of numbered lines, in order. -/
def placedFrom (number : Nat) (lines : List Line) : List Placed :=
  (lines.zipIdx number).flatMap fun (line, number) => line.statement.toList.map (⟨number, ·⟩)

/-- Lines count from one. -/
def placed (lines : List Line) : List Placed := placedFrom 1 lines

def totalWidth : List Placed → Nat
  | [] => 0
  | p :: rest => p.statement.width + totalWidth rest

/-- The width of so many of the first statements. -/
def offset (statements : List Placed) (count : Nat) : Nat :=
  totalWidth (statements.take count)

/-- The offset of the first statement on the line or a later one, which is the width of all of them
if there is none. -/
def target (statements : List Placed) (number : Nat) : Nat :=
  offset statements (statements.findIdx (number ≤ ·.line))

def Defines (lines : List Line) (k : Nat) (name : String) : Prop :=
  ∃ line, lines[k]? = some line ∧ line.label = some name

section Lines

variable {lines : List Line} {line : Line} {statements more : List Placed} {name : String}
  {k number : Nat}

@[simp] theorem totalWidth_append :
    totalWidth (statements ++ more) = totalWidth statements + totalWidth more := by
  induction statements with
  | nil => simp [totalWidth]
  | cons p rest ih => simp only [List.cons_append, totalWidth, ih, Nat.add_assoc]

theorem placedFrom_append (front back : List Line) :
    placedFrom number (front ++ back) =
      placedFrom number front ++ placedFrom (number + front.length) back := by
  rw [placedFrom, List.zipIdx_append, List.flatMap_append]
  rfl

/-- Line numbers do not take any room. -/
theorem totalWidth_placedFrom :
    totalWidth (placedFrom number lines) = totalWidth (placed lines) := by
  have hnumber (number : Nat) :
      totalWidth (placedFrom number lines) =
        (lines.map fun line => (line.statement.map Statement.width).getD 0).sum := by
    induction lines generalizing number with
    | nil => rfl
    | cons line lines ih =>
      rw [← List.singleton_append, placedFrom_append, totalWidth_append, ih]
      rcases hs : line.statement with _ | s <;> simp [placedFrom, totalWidth, hs]
  rw [placed, hnumber, hnumber]

theorem line_of_mem_placedFrom {p : Placed} (h : p ∈ placedFrom number lines) :
    number ≤ p.line ∧ p.line < number + lines.length := by
  obtain ⟨⟨line, i⟩, hmem, hp⟩ := List.mem_flatMap.mp h
  obtain ⟨s, -, rfl⟩ := List.mem_map.mp hp
  obtain ⟨hle, hlt, -⟩ := List.mem_zipIdx hmem
  exact ⟨hle, hlt⟩

theorem placed_concat :
    placed (lines ++ [line]) =
      placed lines ++ line.statement.toList.map (⟨lines.length + 1, ·⟩) := by
  rw [placed, placedFrom_append, Nat.add_comm]
  simp [placed, placedFrom]

theorem totalWidth_placed_concat :
    totalWidth (placed (lines ++ [line])) =
      totalWidth (placed lines) + (line.statement.map Statement.width).getD 0 := by
  rw [placed_concat, totalWidth_append]
  cases line.statement with
  | none => rfl
  | some s => rfl

/-- What a label on a line stands for is the width of the lines in front of it. -/
theorem target_placed (h : k ≤ lines.length) :
    target (placed lines) (k + 1) = totalWidth (placed (lines.take k)) := by
  have hsplit : placed lines = placed (lines.take k) ++ placedFrom (k + 1) (lines.drop k) := by
    calc placed lines = placedFrom 1 (lines.take k ++ lines.drop k) := by
          rw [List.take_append_drop, placed]
      _ = placed (lines.take k) ++ placedFrom (k + 1) (lines.drop k) := by
          rw [placedFrom_append, List.length_take_of_le h, Nat.add_comm, placed]
  have hfront : (placed (lines.take k)).findIdx (k + 1 ≤ ·.line) =
      (placed (lines.take k)).length := by
    refine List.findIdx_eq_length_of_false fun p hp => decide_eq_false ?_
    obtain ⟨-, hlt⟩ := line_of_mem_placedFrom hp
    rw [List.length_take_of_le h] at hlt
    omega
  have hback : (placedFrom (k + 1) (lines.drop k)).findIdx (k + 1 ≤ ·.line) = 0 := by
    cases hlist : placedFrom (k + 1) (lines.drop k) with
    | nil => rfl
    | cons p ps =>
      obtain ⟨hle, -⟩ := line_of_mem_placedFrom (hlist ▸ List.mem_cons_self)
      rw [List.findIdx_cons, decide_eq_true hle, cond_true]
  rw [target, hsplit, List.findIdx_append, hfront, if_neg (Nat.lt_irrefl _), hback, Nat.zero_add,
    offset, List.take_left]

theorem defines_concat :
    Defines (lines ++ [line]) k name ↔
      Defines lines k name ∨ (k = lines.length ∧ line.label = some name) := by
  unfold Defines
  rcases Nat.lt_trichotomy k lines.length with h | rfl | h
  · rw [List.getElem?_append_left h]
    simp [Nat.ne_of_lt h]
  · simp
  · have hlength : (lines ++ [line]).length ≤ k := by simpa using Nat.succ_le_of_lt h
    rw [List.getElem?_eq_none hlength, List.getElem?_eq_none (Nat.le_of_lt h)]
    simp [Nat.ne_of_gt h]

theorem Defines.lt_length (h : Defines lines k name) : k < lines.length := by
  obtain ⟨line, hline, -⟩ := h
  exact (List.getElem?_eq_some_iff.mp hline).1

end Lines

/-! ## The layout of the lines -/

namespace Layout

/-- The layout is that of the lines: no label is defined twice, and the address of each is the width
of the lines in front of its own. -/
structure LaidOut (layout : Layout) (lines : List Line) : Prop where
  count : layout.lines = lines.length
  statements : layout.placed.toList = Assembly.placed lines
  size : layout.size = totalWidth (Assembly.placed lines)
  undefined {name} (h : layout.labels.lookup name = none) (k : Nat) : ¬ Defines lines k name
  defined {name address} (h : layout.labels.lookup name = some address) :
    ∃ k, (∀ j, Defines lines j name ↔ j = k) ∧
      address = totalWidth (Assembly.placed (lines.take k))

theorem laidOut_nil : LaidOut {} [] where
  count := rfl
  statements := rfl
  size := rfl
  undefined _ k := fun ⟨_, hline, _⟩ => by simp at hline
  defined h := by simp at h

/-- No two lines define one label. -/
theorem LaidOut.unique {layout : Layout} {lines : List Line} (h : layout.LaidOut lines)
    {name : String} {j k : Nat} (hj : Defines lines j name) (hk : Defines lines k name) :
    j = k := by
  cases hlookup : layout.labels.lookup name with
  | none => exact absurd hj (h.undefined hlookup j)
  | some address =>
    obtain ⟨n, hn, -⟩ := h.defined hlookup
    exact ((hn j).mp hj).trans ((hn k).mp hk).symm

theorem LaidOut.lookup_eq {layout : Layout} {lines : List Line} (h : layout.LaidOut lines)
    {name : String} {k : Nat} (hk : Defines lines k name) :
    layout.labels.lookup name = some (totalWidth (Assembly.placed (lines.take k))) := by
  cases hlookup : layout.labels.lookup name with
  | none => exact absurd hk (h.undefined hlookup k)
  | some address =>
    obtain ⟨n, hn, haddress⟩ := h.defined hlookup
    rw [haddress, (hn k).mp hk]

/-- Only a name that is not defined yet can be. -/
theorem lookup_of_define {layout : Layout} {name : String} {labels : List (String × Nat)}
    (h : layout.define (some name) = .ok labels) : layout.labels.lookup name = none := by
  simp only [define] at h
  split at h
  · contradiction
  · next hfree => exact Option.not_isSome_iff_eq_none.mp hfree

theorem lookup_define {layout : Layout} {label : Option String} {labels : List (String × Nat)}
    (h : layout.define label = .ok labels) (name : String) :
    labels.lookup name =
      if label = some name then some layout.size else layout.labels.lookup name := by
  cases label with
  | none =>
    obtain rfl := Except.ok.inj h
    rfl
  | some other =>
    simp only [define, lookup_of_define h, Option.isSome_none, Bool.false_eq_true, if_false,
      Except.ok.injEq] at h
    rw [← h, List.lookup_cons]
    by_cases hname : name = other
    · simp [hname]
    · simp [beq_eq_false_iff_ne.mpr hname, Ne.symm hname]

theorem LaidOut.place {layout next : Layout} {lines : List Line} {text : List Char}
    (hlaid : layout.LaidOut lines) (h : layout.place text = .ok next) :
    ∃ line, Line.parse text = .ok line ∧ next.LaidOut (lines ++ [line]) := by
  obtain ⟨line, hline, h⟩ := bind_eq_ok.mp h
  obtain ⟨labels, hlabels, h⟩ := bind_eq_ok.mp h
  obtain rfl := Except.ok.inj h
  have hlookup := lookup_define hlabels
  refine ⟨line, hline, ?_, ?_, ?_, ?_, ?_⟩
  · simp [hlaid.count]
  · simp [placed_concat, hlaid.statements, hlaid.count]
  · rw [totalWidth_placed_concat, ← hlaid.size]
  · intro name hnone k
    rw [hlookup] at hnone
    split at hnone
    · contradiction
    · next hother =>
      rw [defines_concat]
      exact not_or.mpr ⟨hlaid.undefined hnone k, fun hnew => hother hnew.2⟩
  · intro name address hsome
    rw [hlookup] at hsome
    split at hsome
    · next hnew =>
      -- The label of the new line, which no line before it has.
      have hfree := hlaid.undefined (lookup_of_define (hnew ▸ hlabels))
      refine ⟨lines.length, fun j => ?_, ?_⟩
      · simp [defines_concat, hfree j, hnew]
      · rw [List.take_left, ← hlaid.size, Option.some.inj hsome]
    · next hother =>
      obtain ⟨k, hk, haddress⟩ := hlaid.defined hsome
      have hlt := ((hk k).mpr rfl).lt_length
      refine ⟨k, fun j => ?_, ?_⟩
      · simp [defines_concat, hk j, hother]
      · rw [List.take_append_of_le_length (Nat.le_of_lt hlt), haddress]

theorem LaidOut.foldlM_addLine {layout next : Layout} {before : List Line}
    {texts : List (List Char)} (hlaid : layout.LaidOut before)
    (h : texts.foldlM addLine layout = .ok next) :
    ∃ lines, texts.mapM Line.parse = .ok lines ∧ next.LaidOut (before ++ lines) := by
  simp only [mapM_eq_ok]
  induction texts generalizing layout before with
  | nil =>
    obtain rfl := Except.ok.inj h
    exact ⟨[], .nil, by rwa [List.append_nil]⟩
  | cons text texts ih =>
    rw [List.foldlM_cons] at h
    obtain ⟨first, hfirst, hrest⟩ := bind_eq_ok.mp h
    obtain ⟨line, hline, hlaid⟩ := hlaid.place (mapError_eq_ok.mp hfirst)
    obtain ⟨lines, hlines, hlaid⟩ := ih hlaid hrest
    rw [List.append_assoc] at hlaid
    exact ⟨line :: lines, .cons hline hlines, hlaid⟩

theorem exists_define {layout : Layout} {label : Option String}
    (h : ∀ name, label = some name → layout.labels.lookup name = none) :
    ∃ labels, layout.define label = .ok labels := by
  cases label with
  | none => exact ⟨_, rfl⟩
  | some name => exact ⟨_, if_neg (by simp [h name rfl])⟩

/-- Lines that can be parsed have a layout if no label is defined twice. -/
theorem LaidOut.exists_foldlM_addLine {layout : Layout} {before lines : List Line}
    {texts : List (List Char)} (hlaid : layout.LaidOut before)
    (hparse : texts.mapM Line.parse = .ok lines)
    (hunique : ∀ name j k, Defines (before ++ lines) j name → Defines (before ++ lines) k name →
      j = k) :
    ∃ next, texts.foldlM addLine layout = .ok next ∧ next.LaidOut (before ++ lines) := by
  rw [mapM_eq_ok] at hparse
  induction hparse generalizing layout before with
  | nil => exact ⟨layout, rfl, by rwa [List.append_nil]⟩
  | @cons text line texts lines hline _ ih =>
    have hfree : ∀ name, line.label = some name → layout.labels.lookup name = none := by
      intro name hname
      cases hlookup : layout.labels.lookup name with
      | none => rfl
      | some address =>
        obtain ⟨k, hk, -⟩ := hlaid.defined hlookup
        have hbefore := (hk k).mpr rfl
        have hlt := hbefore.lt_length
        obtain ⟨found, hfound, hlabel⟩ := hbefore
        have hsame := hunique name k before.length
          ⟨found, by rwa [List.getElem?_append_left hlt], hlabel⟩ ⟨line, by simp, hname⟩
        omega
    obtain ⟨labels, hlabels⟩ := exists_define hfree
    obtain ⟨next, hplace⟩ : ∃ next, layout.place text = .ok next :=
      ⟨_, bind_eq_ok.mpr ⟨line, hline, bind_eq_ok.mpr ⟨labels, hlabels, rfl⟩⟩⟩
    obtain ⟨line', hline', hnext⟩ := hlaid.place hplace
    obtain rfl := Except.ok.inj (hline.symm.trans hline')
    have hjoined : before ++ line :: lines = before ++ [line] ++ lines := by
      rw [List.append_assoc, List.singleton_append]
    rw [hjoined] at hunique ⊢
    obtain ⟨last, hlast, hlaid⟩ := ih hnext hunique
    refine ⟨last, ?_, hlaid⟩
    rw [List.foldlM_cons]
    exact bind_eq_ok.mpr ⟨next, mapError_eq_ok.mpr hplace, hlast⟩

/-- A text with a layout can be parsed line by line, and the layout is that of its lines. -/
theorem laidOut_of_ofText {text : String} {layout : Layout} (h : ofText text = .ok layout) :
    ∃ lines, (Text.lines text.toList).mapM Line.parse = .ok lines ∧ layout.LaidOut lines :=
  laidOut_nil.foldlM_addLine h

/-! ## A line and its tokens -/

/-- A line matters only by its tokens. -/
theorem addLine_congr {text other : List Char} (h : tokenize text = tokenize other)
    (layout : Layout) : layout.addLine text = layout.addLine other := by
  simp only [addLine, place, Line.parse, h]

theorem addLine_of_tokenize_error {text : List Char} {fault : LineFault}
    (h : tokenize text = .error fault) (layout : Layout) :
    layout.addLine text = .error (.atLine (layout.lines + 1) fault) := by
  simp only [addLine, place, Line.parse, h]
  rfl

theorem lines_of_addLine {layout next : Layout} {text : List Char}
    (h : layout.addLine text = .ok next) : next.lines = layout.lines + 1 := by
  obtain ⟨line, -, h⟩ := bind_eq_ok.mp (mapError_eq_ok.mp h)
  obtain ⟨labels, -, h⟩ := bind_eq_ok.mp h
  rw [← Except.ok.inj h]

end Layout

end LS8.Assembly
