import LS8.Proofs.Assembly.Offsets
import Mathlib.Data.Nat.Find

/-!
# Which error is reported

Several things can be wrong with a text at once, on the same line or on different ones. Here is the
one that is reported: of the first bad line if there is one, else the size, else the first use of a
label that has no byte (`assemble_error_iff`). A line is bad for what it is, or because a line in
front of it defines the same label.
-/
namespace LS8
namespace Assembly

/-! ## Failures of a traversal -/

section First

variable {ε α β : Type}

/-- The first element with the property, and a value that it has it with. -/
inductive First (P : α → ε → Prop) : List α → α → ε → Prop
  | here {x rest e} (h : P x e) : First P (x :: rest) x e
  | later {y rest x e} (hy : ∀ e, ¬ P y e) (h : First P rest x e) : First P (y :: rest) x e

variable {P : α → ε → Prop} {xs ys : List α} {x y : α} {e : ε}

@[simp] theorem not_first_nil : ¬ First P [] x e := nofun

theorem first_cons_iff :
    First P (y :: ys) x e ↔ (x = y ∧ P y e) ∨ (∀ e, ¬ P y e) ∧ First P ys x e := by
  constructor
  · rintro (h | ⟨hy, h⟩)
    · exact .inl ⟨rfl, h⟩
    · exact .inr ⟨hy, h⟩
  · rintro (⟨rfl, h⟩ | ⟨hy, h⟩)
    · exact .here h
    · exact .later hy h

theorem first_append_iff :
    First P (xs ++ ys) x e ↔ First P xs x e ∨ (∀ y ∈ xs, ∀ e, ¬ P y e) ∧ First P ys x e := by
  induction xs with
  | nil => simp
  | cons z xs ih =>
    rw [List.cons_append, first_cons_iff, first_cons_iff, ih, List.forall_mem_cons]
    tauto

theorem exists_first_or (P : α → ε → Prop) (xs : List α) :
    (∃ x e, First P xs x e) ∨ ∀ x ∈ xs, ∀ e, ¬ P x e := by
  induction xs with
  | nil => exact .inr nofun
  | cons y xs ih =>
    by_cases hy : ∃ e, P y e
    · obtain ⟨e, h⟩ := hy
      exact .inl ⟨y, e, .here h⟩
    · have hy : ∀ e, ¬ P y e := not_exists.mp hy
      rcases ih with ⟨x, e, h⟩ | hxs
      · exact .inl ⟨x, e, .later hy h⟩
      · exact .inr (List.forall_mem_cons.mpr ⟨hy, hxs⟩)

theorem First.mem (h : First P xs x e) : x ∈ xs ∧ P x e := by
  induction h with
  | here h => exact ⟨List.mem_cons_self, h⟩
  | later _ _ ih => exact ⟨List.mem_cons_of_mem _ ih.1, ih.2⟩

theorem bind_eq_error {x : Except ε α} {f : α → Except ε β} {e : ε} :
    (x >>= f) = .error e ↔ x = .error e ∨ ∃ a, x = .ok a ∧ f a = .error e := by
  cases x with
  | error e' => simp [bind, Except.bind]
  | ok a => simp [bind, Except.bind]

theorem mapM_cons_eq_error {f : α → Except ε β} :
    (x :: xs).mapM f = .error e ↔
      f x = .error e ∨ (∃ y, f x = .ok y) ∧ xs.mapM f = .error e := by
  rw [List.mapM_cons]
  cases hx : f x with
  | error e' => simp [bind, Except.bind]
  | ok y => cases hxs : xs.mapM f <;> simp [bind, Except.bind, pure, Except.pure]

theorem mapError_eq_error {ε' : Type} {x : Except ε α} {f : ε → ε'} {e : ε'} :
    x.mapError f = .error e ↔ ∃ e', x = .error e' ∧ f e' = e := by
  cases x with
  | error e' => simp [Except.mapError]
  | ok a => simp [Except.mapError]

/-- A traversal that looks for faults in each of its elements reports the first one of all. -/
theorem mapM_eq_error_iff {ρ φ : Type} {Q : ρ → φ → Prop} {parts : α → List ρ}
    {report : ρ → φ → ε} {f : α → Except ε β}
    (hf : ∀ x e, f x = .error e ↔ ∃ r fault, First Q (parts x) r fault ∧ report r fault = e)
    (xs : List α) (e : ε) :
    xs.mapM f = .error e ↔ ∃ r fault, First Q (xs.flatMap parts) r fault ∧ report r fault = e := by
  induction xs with
  | nil => simp [pure, Except.pure]
  | cons x xs ih =>
    have hok : (∃ y, f x = .ok y) ↔ ∀ r ∈ parts x, ∀ fault, ¬ Q r fault := by
      constructor
      · rintro ⟨y, hy⟩
        rcases exists_first_or Q (parts x) with ⟨r, fault, h⟩ | hnone
        · have herror := (hf x _).mpr ⟨r, fault, h, rfl⟩
          rw [hy] at herror
          cases herror
        · exact hnone
      · intro hnone
        cases hx : f x with
        | error e' =>
          obtain ⟨r, fault, h, -⟩ := (hf x e').mp hx
          exact absurd h.mem.2 (hnone r h.mem.1 fault)
        | ok y => exact ⟨y, rfl⟩
    rw [mapM_cons_eq_error, hf, hok, ih, List.flatMap_cons]
    simp only [first_append_iff, or_and_right, exists_or, and_assoc, exists_and_left]

end First

/-! ## Labels that are used -/

/-- The labels that are used, in order, each with the line that it is used on. -/
def Placed.references (p : Placed) : List (Nat × String) :=
  p.statement.operands.flatMap fun
    | .value (.label name) => [(p.line, name)]
    | _ => []

def references (statements : List Placed) : List (Nat × String) :=
  statements.flatMap Placed.references

/-- There is no byte for such a label: it is not defined, or it stands behind the last byte of a
full memory. -/
inductive Unusable (lines : List Line) (name : String) : LineFault → Prop
  | undefined (h : ∀ k, ¬ Defines lines k name) : Unusable lines name (.undefinedLabel name)
  | behind {k} (hk : Defines lines k name) (h : target (placed lines) (k + 1) = 256) :
      Unusable lines name (.invalidNumber name)

section Labels

variable {layout : Layout} {lines : List Line}

theorem totalWidth_take_le (lines : List Line) (k : Nat) :
    totalWidth (placed (lines.take k)) ≤ totalWidth (placed lines) := by
  conv => rhs; rw [← List.take_append_drop k lines, placed, placedFrom_append, totalWidth_append]
  exact Nat.le_add_right _ _

theorem Layout.LaidOut.resolve_eq_error_iff (hlaid : layout.LaidOut lines)
    (hfits : totalWidth (Assembly.placed lines) ≤ memorySize) (name : String) (fault : LineFault) :
    (Value.label name).resolve layout.labels = .error fault ↔ Unusable lines name fault := by
  simp only [Value.resolve]
  cases hlookup : layout.labels.lookup name with
  | none =>
    have hnone := hlaid.undefined hlookup
    constructor
    · intro h
      cases h
      exact .undefined hnone
    · intro h
      cases h with
      | undefined => rfl
      | behind hk => exact absurd hk (hnone _)
  | some address =>
    obtain ⟨k, hk, haddress⟩ := hlaid.defined hlookup
    have hdefines := (hk k).mpr rfl
    have htarget : target (Assembly.placed lines) (k + 1) = address := by
      rw [haddress, target_placed (Nat.le_of_lt hdefines.lt_length)]
    have hle : address ≤ 256 := by
      have htake := totalWidth_take_le lines k
      rw [haddress]
      exact Nat.le_trans htake hfits
    constructor
    · intro h
      by_cases hlt : address < 256
      · simp [hlt] at h
      · simp only [hlt, if_false] at h
        cases h
        exact .behind hdefines (by omega)
    · intro h
      cases h with
      | undefined hnone => exact absurd hdefines (hnone k)
      | behind hk' hend =>
        obtain rfl := (hk _).mp hk'
        simp only [Nat.not_lt.mpr (Nat.le_of_eq (hend.symm.trans htarget)), if_false]

/-- The first reference of a list that is unusable. -/
def FirstUnusable (lines : List Line) : List (Nat × String) → Nat × String → LineFault → Prop :=
  First fun reference => Unusable lines reference.2

theorem line_of_mem_references {p : Placed} {reference : Nat × String}
    (h : reference ∈ p.references) : reference.1 = p.line := by
  obtain ⟨operand, -, h⟩ := List.mem_flatMap.mp h
  split at h
  · rw [List.mem_singleton.mp h]
  · cases h

theorem Layout.LaidOut.bytes_eq_error_iff (hlaid : layout.LaidOut lines)
    (hfits : totalWidth (Assembly.placed lines) ≤ memorySize) (p : Placed) (fault : LineFault) :
    p.statement.bytes layout.labels = .error fault ↔
      ∃ reference, FirstUnusable lines p.references reference fault := by
  have hoperands : p.statement.operands.mapM (Operand.resolve layout.labels) = .error fault ↔
      ∃ reference fault', FirstUnusable lines p.references reference fault' ∧ fault' = fault := by
    refine mapM_eq_error_iff (fun operand fault => ?_) _ _
    match operand with
    | .register r => simp [Operand.resolve]
    | .value (.byte b) => simp [Operand.resolve, Value.resolve]
    | .value (.label name) =>
      simp [Operand.resolve, hlaid.resolve_eq_error_iff hfits, first_cons_iff]
  simp [Statement.bytes, bind_eq_error, hoperands, pure, Except.pure]

theorem Layout.LaidOut.placedBytes_eq_error_iff (hlaid : layout.LaidOut lines)
    (hfits : totalWidth (Assembly.placed lines) ≤ memorySize) (p : Placed) (e : AssemblyError) :
    layout.placedBytes p = .error e ↔ ∃ reference fault,
      FirstUnusable lines p.references reference fault ∧ .atLine reference.1 fault = e := by
  simp only [Layout.placedBytes, mapError_eq_error, hlaid.bytes_eq_error_iff hfits]
  constructor
  · rintro ⟨fault, ⟨reference, h⟩, rfl⟩
    exact ⟨reference, fault, h, by rw [line_of_mem_references h.mem.1]⟩
  · rintro ⟨reference, fault, h, rfl⟩
    exact ⟨fault, ⟨reference, h⟩, by rw [line_of_mem_references h.mem.1]⟩

/-- The size comes before any label, and the labels in their order. -/
theorem Layout.LaidOut.image_eq_error_iff (hlaid : layout.LaidOut lines) (e : AssemblyError) :
    layout.image = .error e ↔
      (memorySize < totalWidth (Assembly.placed lines) ∧
        .programTooLarge (totalWidth (Assembly.placed lines)) = e) ∨
      (totalWidth (Assembly.placed lines) ≤ memorySize ∧ ∃ reference fault,
        FirstUnusable lines (references (Assembly.placed lines)) reference fault ∧
          .atLine reference.1 fault = e) := by
  rw [Layout.image, hlaid.size, hlaid.statements]
  by_cases hsize : memorySize < totalWidth (Assembly.placed lines)
  · simp [hsize, Nat.not_le.mpr hsize]
  · have hfits := Nat.le_of_not_lt hsize
    rw [if_neg hsize, bind_eq_error,
      mapM_eq_error_iff (hlaid.placedBytes_eq_error_iff hfits) (Assembly.placed lines) e]
    simp [hsize, hfits, references, FirstUnusable, pure, Except.pure]

end Labels

/-! ## Bad lines -/

/-- The line can be read, and it defines the label. -/
def DefinedOn (texts : List (List Char)) (k : Nat) (name : String) : Prop :=
  ∃ text line, texts[k]? = some text ∧ Line.parse text = .ok line ∧ line.label = some name

/-- What is wrong with a line: it has a piece that is no token, or its tokens are no line, or a line
in front of it defines its label. -/
inductive Bad (texts : List (List Char)) (k : Nat) : LineFault → Prop
  | token {text fault} (htext : texts[k]? = some text) (h : tokenize text = .error fault) :
      Bad texts k fault
  | line {text tokens fault} (htext : texts[k]? = some text) (htokens : tokenize text = .ok tokens)
      (h : Line.ofTokens tokens = .error fault) : Bad texts k fault
  | label {j name} (hname : DefinedOn texts k name) (hj : j < k)
      (hearlier : DefinedOn texts j name) : Bad texts k (.duplicateLabel name)

section Lines

variable {texts : List (List Char)} {lines : List Line} {k n : Nat} {name : String}
  {fault : LineFault}

theorem getElem?_eq_some_of_mapM (h : texts.mapM Line.parse = .ok lines) {line : Line} :
    lines[k]? = some line ↔ ∃ text, texts[k]? = some text ∧ Line.parse text = .ok line := by
  rw [mapM_eq_ok] at h
  induction h generalizing k with
  | nil => simp
  | @cons text first texts lines hfirst _ ih =>
    cases k with
    | zero => simp [hfirst]
    | succ k => simpa using ih

theorem defines_iff_definedOn (h : texts.mapM Line.parse = .ok lines) :
    Defines lines k name ↔ DefinedOn texts k name := by
  simp only [Defines, getElem?_eq_some_of_mapM h, DefinedOn]
  constructor
  · rintro ⟨line, ⟨text, htext, hline⟩, hname⟩
    exact ⟨text, line, htext, hline, hname⟩
  · rintro ⟨text, line, htext, hline, hname⟩
    exact ⟨line, ⟨text, htext, hline⟩, hname⟩

theorem definedOn_take : DefinedOn (texts.take n) k name ↔ k < n ∧ DefinedOn texts k name := by
  unfold DefinedOn
  rw [List.getElem?_take]
  split
  · next h => simp [h]
  · next h => simp [h]

theorem Bad.exists_text (h : Bad texts k fault) : ∃ text, texts[k]? = some text := by
  cases h with
  | token htext => exact ⟨_, htext⟩
  | line htext => exact ⟨_, htext⟩
  | label hname =>
    obtain ⟨text, -, htext, -⟩ := hname
    exact ⟨text, htext⟩

/-- A line that is not bad can be parsed. -/
theorem exists_parse_of_not_bad {text : List Char} (htext : texts[k]? = some text)
    (h : ∀ fault, ¬ Bad texts k fault) : ∃ line, Line.parse text = .ok line := by
  cases htokens : tokenize text with
  | error fault => exact absurd (.token htext htokens) (h fault)
  | ok tokens =>
    cases hline : Line.ofTokens tokens with
    | error fault => exact absurd (.line htext htokens hline) (h fault)
    | ok line => exact ⟨line, bind_eq_ok.mpr ⟨tokens, htokens, hline⟩⟩

theorem exists_of_mapM_eq_error {ε α β : Type} {f : α → Except ε β} {xs : List α} {e : ε}
    (h : xs.mapM f = .error e) : ∃ x ∈ xs, f x = .error e := by
  induction xs with
  | nil => cases h
  | cons x xs ih =>
    rcases mapM_cons_eq_error.mp h with hx | ⟨-, hxs⟩
    · exact ⟨x, List.mem_cons_self, hx⟩
    · obtain ⟨y, hy, herror⟩ := ih hxs
      exact ⟨y, List.mem_cons_of_mem x hy, herror⟩

/-- Lines in front of the first bad one have a layout. -/
theorem exists_layout_take (h : ∀ j < n, ∀ fault, ¬ Bad texts j fault) :
    ∃ lines layout, (texts.take n).mapM Line.parse = .ok lines ∧
      (texts.take n).foldlM Layout.addLine {} = .ok layout ∧ layout.LaidOut lines := by
  cases hparse : (texts.take n).mapM Line.parse with
  | error fault =>
    obtain ⟨text, hmem, herror⟩ := exists_of_mapM_eq_error hparse
    obtain ⟨j, htext⟩ := List.mem_iff_getElem?.mp hmem
    rw [List.getElem?_take] at htext
    split at htext
    · next hj =>
      obtain ⟨line, hline⟩ := exists_parse_of_not_bad htext (h j hj)
      rw [herror] at hline
      cases hline
    · cases htext
  | ok lines =>
    have hdefined (name : String) (j : Nat) (h : Defines lines j name) :
        j < n ∧ DefinedOn texts j name :=
      definedOn_take.mp ((defines_iff_definedOn hparse).mp h)
    have hunique : ∀ name i j, Defines ([] ++ lines) i name → Defines ([] ++ lines) j name →
        i = j := by
      intro name i j hi hj
      obtain ⟨hi, hdi⟩ := hdefined name i hi
      obtain ⟨hj, hdj⟩ := hdefined name j hj
      rcases Nat.lt_trichotomy i j with hlt | heq | hlt
      · exact absurd (.label hdj hlt hdi) (h j hj _)
      · exact heq
      · exact absurd (.label hdi hlt hdj) (h i hi _)
    obtain ⟨layout, hlayout, hlaid⟩ := Layout.laidOut_nil.exists_foldlM_addLine hparse hunique
    exact ⟨lines, layout, rfl, hlayout, hlaid⟩

theorem place_of_bad {layout : Layout} {text : List Char} (hbad : Bad texts k fault)
    (htext : texts[k]? = some text) (hparse : (texts.take k).mapM Line.parse = .ok lines)
    (hlaid : layout.LaidOut lines) : layout.place text = .error fault := by
  cases hbad with
  | token htext' htokens =>
    obtain rfl := Option.some.inj (htext.symm.trans htext')
    simp [Layout.place, Line.parse, bind_eq_error, htokens]
  | line htext' htokens hline =>
    obtain rfl := Option.some.inj (htext.symm.trans htext')
    simp [Layout.place, Line.parse, bind_eq_error, htokens, hline]
  | @label j name hname hj hearlier =>
    obtain ⟨text', line, htext', hline, hname⟩ := hname
    obtain rfl := Option.some.inj (htext.symm.trans htext')
    have hbefore := (defines_iff_definedOn hparse).mpr (definedOn_take.mpr ⟨hj, hearlier⟩)
    have hdefine : layout.define line.label = .error (.duplicateLabel name) := by
      rw [hname, Layout.define, hlaid.lookup_eq hbefore]
      rfl
    simp [Layout.place, bind_eq_error, hline, hdefine]

/-- The first bad line ends the layout of the lines. -/
theorem foldlM_addLine_of_bad (hbad : Bad texts k fault)
    (hfirst : ∀ j < k, ∀ fault, ¬ Bad texts j fault) :
    texts.foldlM Layout.addLine {} = .error (.atLine (k + 1) fault) := by
  obtain ⟨text, htext⟩ := hbad.exists_text
  obtain ⟨lines, layout, hparse, hlayout, hlaid⟩ := exists_layout_take hfirst
  obtain ⟨hk, hget⟩ := List.getElem?_eq_some_iff.mp htext
  have hlines : layout.lines = k := by
    rw [hlaid.count, ← (mapM_eq_ok.mp hparse).length_eq, List.length_take_of_le (Nat.le_of_lt hk)]
  have hsplit : texts = texts.take k ++ text :: texts.drop (k + 1) := by
    rw [← hget, ← List.drop_eq_getElem_cons hk, List.take_append_drop]
  rw [hsplit, List.foldlM_append, hlayout]
  apply bind_eq_error.mpr
  refine .inr ⟨layout, rfl, ?_⟩
  rw [List.foldlM_cons, Layout.addLine, place_of_bad hbad htext hparse hlaid, hlines]
  rfl

end Lines

/-! ## The error that is reported -/

/-- The error that a text is blamed for, the strongest one first. -/
inductive Blames (texts : List (List Char)) : AssemblyError → Prop
  | badLine {k fault} (hbad : Bad texts k fault)
      (hfirst : ∀ j < k, ∀ fault, ¬ Bad texts j fault) : Blames texts (.atLine (k + 1) fault)
  | size {lines} (hgood : ∀ k fault, ¬ Bad texts k fault)
      (hlines : texts.mapM Line.parse = .ok lines)
      (hsize : memorySize < totalWidth (placed lines)) :
      Blames texts (.programTooLarge (totalWidth (placed lines)))
  | reference {lines reference fault} (hgood : ∀ k fault, ¬ Bad texts k fault)
      (hlines : texts.mapM Line.parse = .ok lines)
      (hsize : totalWidth (placed lines) ≤ memorySize)
      (hfirst : FirstUnusable lines (references (placed lines)) reference fault) :
      Blames texts (.atLine reference.1 fault)

section Blames

variable {texts : List (List Char)}

theorem exists_first_bad_or (texts : List (List Char)) :
    (∃ k fault, Bad texts k fault ∧ ∀ j < k, ∀ fault, ¬ Bad texts j fault) ∨
      ∀ k fault, ¬ Bad texts k fault := by
  classical
  by_cases h : ∃ k fault, Bad texts k fault
  · obtain ⟨fault, hbad⟩ := Nat.find_spec h
    refine .inl ⟨Nat.find h, fault, hbad, fun j hj fault' hbad' => ?_⟩
    exact Nat.find_min h hj ⟨fault', hbad'⟩
  · exact .inr fun k fault hbad => h ⟨k, fault, hbad⟩

theorem exists_layout (hgood : ∀ k fault, ¬ Bad texts k fault) :
    ∃ lines layout, texts.mapM Line.parse = .ok lines ∧
      texts.foldlM Layout.addLine {} = .ok layout ∧ layout.LaidOut lines := by
  obtain ⟨lines, layout, h⟩ := exists_layout_take (n := texts.length) fun j _ => hgood j
  rw [List.take_length] at h
  exact ⟨lines, layout, h⟩

theorem foldlM_addLine_eq_error_iff {e : AssemblyError} :
    texts.foldlM Layout.addLine {} = .error e ↔
      ∃ k fault, Bad texts k fault ∧ (∀ j < k, ∀ fault, ¬ Bad texts j fault) ∧
        .atLine (k + 1) fault = e := by
  constructor
  · intro h
    rcases exists_first_bad_or texts with ⟨k, fault, hbad, hfirst⟩ | hgood
    · rw [foldlM_addLine_of_bad hbad hfirst] at h
      exact ⟨k, fault, hbad, hfirst, Except.error.inj h⟩
    · obtain ⟨lines, layout, -, hlayout, -⟩ := exists_layout hgood
      rw [hlayout] at h
      cases h
  · rintro ⟨k, fault, hbad, hfirst, rfl⟩
    exact foldlM_addLine_of_bad hbad hfirst

theorem not_bad_of_foldlM_addLine {layout : Layout}
    (h : texts.foldlM Layout.addLine {} = .ok layout) : ∀ k fault, ¬ Bad texts k fault := by
  rcases exists_first_bad_or texts with ⟨k, fault, hbad, hfirst⟩ | hgood
  · rw [foldlM_addLine_of_bad hbad hfirst] at h
    cases h
  · exact hgood

end Blames

end Assembly

open Assembly

/-- **The error that is reported.** The first bad line comes before everything else, whatever lines
in front of it refer to and however large the program is; then comes the size; then the first use
of a label that has no byte, with the line that uses it. A text that nothing of this holds of, and
no other, has an image. -/
theorem assemble_error_iff (text : String) :
    (∀ e, assemble text = .error e ↔ Blames (Text.lines text.toList) e) ∧
      ((∃ image, assemble text = .ok image) ↔ ∀ e, ¬ Blames (Text.lines text.toList) e) := by
  have herror : ∀ e, assemble text = .error e ↔ Blames (Text.lines text.toList) e := by
    intro e
    rw [assemble, bind_eq_error, Layout.ofText, foldlM_addLine_eq_error_iff]
    constructor
    · rintro (⟨k, fault, hbad, hfirst, rfl⟩ | ⟨layout, hlayout, himage⟩)
      · exact .badLine hbad hfirst
      · have hgood := not_bad_of_foldlM_addLine hlayout
        obtain ⟨lines, layout', hlines, hlayout', hlaid⟩ := exists_layout hgood
        obtain rfl := Except.ok.inj (hlayout.symm.trans hlayout')
        rcases (hlaid.image_eq_error_iff e).mp himage with
          ⟨hsize, rfl⟩ | ⟨hsize, reference, fault, hfirst, rfl⟩
        · exact .size hgood hlines hsize
        · exact .reference hgood hlines hsize hfirst
    · intro h
      cases h with
      | badLine hbad hfirst => exact .inl ⟨_, _, hbad, hfirst, rfl⟩
      | size hgood hlines hsize =>
        obtain ⟨lines, layout, hlines', hlayout, hlaid⟩ := exists_layout hgood
        obtain rfl := Except.ok.inj (hlines.symm.trans hlines')
        exact .inr ⟨layout, hlayout, (hlaid.image_eq_error_iff _).mpr (.inl ⟨hsize, rfl⟩)⟩
      | reference hgood hlines hsize hfirst =>
        obtain ⟨lines, layout, hlines', hlayout, hlaid⟩ := exists_layout hgood
        obtain rfl := Except.ok.inj (hlines.symm.trans hlines')
        exact .inr ⟨layout, hlayout,
          (hlaid.image_eq_error_iff _).mpr (.inr ⟨hsize, _, _, hfirst, rfl⟩)⟩
  refine ⟨herror, ?_⟩
  simp only [← herror]
  cases assemble text <;> simp

/-- The second `A` is reported, and not the label on the line in front of it. -/
example : assemble "A: NOP\nLDI R0,B\nA: HLT\n" = .error (.atLine 3 (.duplicateLabel "A")) := by
  decide +kernel

end LS8
