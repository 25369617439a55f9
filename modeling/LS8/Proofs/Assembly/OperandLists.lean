import LS8.Proofs.Assembly.Parsing
import Mathlib.Data.List.Induction

/-!
# Operand lists

Behind the name of an operation stand its operands, with one comma or none between two neighbours
(`Listed`). A row of tokens that is such a list is read as its operands if these are as many as the
operation has. Any other row is refused: for the first token that cannot stand where it stands, and
for an operand that is missing if there is no such token (`operandList_iff`).
-/
namespace LS8.Assembly

/-! ## The grammar -/

/-- The tokens are the operands in their order, and nothing else but single commas between
neighbours. -/
inductive Listed : List Token → List Atom → Prop
  | nil : Listed [] []
  | single {a} : Listed [.atom a] [a]
  | beside {a b tokens atoms} (h : Listed tokens (b :: atoms)) :
      Listed (.atom a :: tokens) (a :: b :: atoms)
  | apart {a b tokens atoms} (h : Listed tokens (b :: atoms)) :
      Listed (.atom a :: .comma :: tokens) (a :: b :: atoms)

def Token.atom? : Token → Option Atom
  | atom a => some a
  | comma | colon => none

/-- The operands among the tokens, in their order. -/
def operandsIn (tokens : List Token) : List Atom := tokens.filterMap Token.atom?

/-- The token cannot stand where these ones are all that stands in front of it: a colon anywhere, a
comma that is not directly behind an operand, and an operand behind as many as are expected. -/
inductive Misplaced (expected : Nat) (before : List Token) : Token → Prop
  | colon : Misplaced expected before .colon
  | comma (h : ∀ a, before.getLast? ≠ some (.atom a)) : Misplaced expected before .comma
  | excess {a} (h : expected ≤ (operandsIn before).length) : Misplaced expected before (.atom a)

/-- None of the tokens is misplaced. -/
def WellPlaced (expected : Nat) (tokens : List Token) : Prop :=
  ∀ before token after, tokens = before ++ token :: after → ¬ Misplaced expected before token

/-- The token is misplaced, and none in front of it is. -/
inductive FirstMisplaced (expected : Nat) : List Token → Token → Prop
  | intro {before token after} (hbefore : WellPlaced expected before)
      (h : Misplaced expected before token) :
      FirstMisplaced expected (before ++ token :: after) token

/-- No token is misplaced, but there are too few operands, or none behind the last comma. -/
structure Unfinished (expected : Nat) (tokens : List Token) : Prop where
  wellPlaced : WellPlaced expected tokens
  missing : (operandsIn tokens).length < expected ∨ tokens.getLast? = some .comma

/-! ## Lists that are read -/

section Listed

variable {operation : String} {expected count : Nat} {fresh : Bool} {tokens : List Token}
  {atoms : List Atom}

theorem operandsFrom_of_listed (h : Listed tokens atoms) (hne : atoms ≠ [])
    (hlength : count + atoms.length = expected) :
    operandsFrom operation expected count fresh tokens = .ok atoms := by
  induction h generalizing count fresh with
  | nil => contradiction
  | single =>
    rw [List.length_singleton] at hlength
    rw [operandsFrom, if_neg (by omega), operandsFrom, if_neg (by simp [hlength])]
    rfl
  | @beside a b tokens atoms _ ih =>
    rw [List.length_cons] at hlength
    have hrest : count + 1 + (b :: atoms).length = expected := by omega
    rw [operandsFrom, if_neg (by omega), ih (List.cons_ne_nil b atoms) hrest]
    rfl
  | @apart a b tokens atoms _ ih =>
    rw [List.length_cons] at hlength
    have hrest : count + 1 + (b :: atoms).length = expected := by omega
    rw [operandsFrom, if_neg (by omega), operandsFrom, if_neg Bool.false_ne_true,
      ih (List.cons_ne_nil b atoms) hrest]
    rfl

/-- What is accepted behind an operand makes a list together with it, whatever operand it is. At the
beginning what is accepted is a list by itself, and behind a comma it is not an empty one. -/
theorem listed_of_operandsFrom (hcount : fresh = true ∨ 0 < count)
    (h : operandsFrom operation expected count fresh tokens = .ok atoms) :
    if fresh then Listed tokens atoms ∧ (0 < count → atoms ≠ [])
    else ∀ a, Listed (.atom a :: tokens) (a :: atoms) := by
  fun_induction operandsFrom operation expected count fresh tokens generalizing atoms with
  | case1 => contradiction
  | case2 count fresh hdone =>
    obtain rfl := Except.ok.inj h
    cases fresh with
    | false => exact fun a => .single
    | true => exact ⟨.nil, fun hpos => absurd (.inr ⟨rfl, hpos⟩) hdone⟩
  | case3 => contradiction
  | case4 count fresh rest hfresh ih =>
    have hpos := hcount.resolve_left hfresh
    obtain rfl : fresh = false := Bool.eq_false_iff.mpr hfresh
    obtain ⟨hrest, hne⟩ := ih (.inl rfl) h
    cases atoms with
    | nil => exact absurd rfl (hne hpos)
    | cons b atoms => exact fun a => .apart hrest
  | case5 => contradiction
  | case6 => contradiction
  | case7 fresh count a rest hmore ih =>
    obtain ⟨others, hothers, rfl⟩ := map_eq_ok.mp h
    have hrest := ih (.inr (Nat.succ_pos count)) hothers a
    cases fresh with
    | false => exact fun b => .beside hrest
    | true => exact ⟨hrest, fun _ => List.cons_ne_nil a others⟩

theorem operandList_eq_ok_iff :
    operandList operation expected tokens = .ok atoms ↔
      Listed tokens atoms ∧ atoms.length = expected := by
  constructor
  · intro h
    have hlength := length_of_operandsFrom (Nat.zero_le expected) h
    rw [Nat.zero_add] at hlength
    exact ⟨(listed_of_operandsFrom (.inl rfl) h).1, hlength⟩
  · rintro ⟨h, rfl⟩
    cases atoms with
    | nil =>
      cases h
      rfl
    | cons a atoms => exact operandsFrom_of_listed h (List.cons_ne_nil a atoms) (Nat.zero_add _)

end Listed

/-! ## Tokens that are misplaced -/

section Misplaced

variable {operation : String} {expected : Nat} {before tokens : List Token} {token : Token}
  {fault : LineFault}

@[simp] theorem operandsIn_append (before after : List Token) :
    operandsIn (before ++ after) = operandsIn before ++ operandsIn after :=
  List.filterMap_append

@[simp] theorem operandsIn_atom (a : Atom) : operandsIn [.atom a] = [a] := rfl

@[simp] theorem operandsIn_comma : operandsIn [.comma] = [] := rfl

theorem wellPlaced_nil (expected : Nat) : WellPlaced expected [] := by
  intro before token after h
  simp at h

theorem wellPlaced_concat_iff :
    WellPlaced expected (tokens ++ [token]) ↔
      WellPlaced expected tokens ∧ ¬ Misplaced expected tokens token := by
  constructor
  · intro h
    refine ⟨fun before other after htokens => ?_, h tokens token [] rfl⟩
    exact h before other (after ++ [token]) (by simp [htokens])
  · rintro ⟨htokens, htoken⟩ before other after h
    rcases List.eq_nil_or_concat after with rfl | ⟨after, last, rfl⟩
    · obtain ⟨rfl, rfl⟩ := List.append_inj' h rfl |>.imp_right List.singleton_inj.mp
      exact htoken
    · have hfront : tokens = before ++ other :: after := by
        rw [List.concat_eq_append, ← List.cons_append, ← List.append_assoc] at h
        exact (List.append_inj' h rfl).1
      exact htokens before other after hfront

theorem wellPlaced_or_firstMisplaced (expected : Nat) (tokens : List Token) :
    WellPlaced expected tokens ∨ ∃ token, FirstMisplaced expected tokens token := by
  induction tokens using List.reverseRecOn with
  | nil => exact .inl (wellPlaced_nil expected)
  | append_singleton tokens last ih =>
    rcases ih with htokens | ⟨token, ⟨hbefore, h⟩⟩
    · by_cases hlast : Misplaced expected tokens last
      · exact .inr ⟨last, .intro htokens hlast⟩
      · exact .inl (wellPlaced_concat_iff.mpr ⟨htokens, hlast⟩)
    · refine .inr ⟨token, ?_⟩
      rw [List.append_assoc, List.cons_append]
      exact .intro hbefore h

/-- An operand that could still be added is one of the expected ones. -/
theorem WellPlaced.length_le (h : WellPlaced expected tokens) :
    (operandsIn tokens).length ≤ expected := by
  induction tokens using List.reverseRecOn with
  | nil => exact Nat.zero_le expected
  | append_singleton tokens last ih =>
    obtain ⟨htokens, hlast⟩ := wellPlaced_concat_iff.mp h
    cases last with
    | atom a =>
      have hroom : ¬ expected ≤ (operandsIn tokens).length := fun hfull => hlast (.excess hfull)
      rw [operandsIn_append, operandsIn_atom, List.length_append, List.length_singleton]
      omega
    | comma => simpa using ih htokens
    | colon => exact absurd .colon hlast

/-- No operand has been read since the beginning or the last comma. -/
def isFresh (before : List Token) : Bool := (before.getLast?.bind Token.atom?).isNone

theorem isFresh_iff : isFresh before = true ↔ ∀ a, before.getLast? ≠ some (.atom a) := by
  unfold isFresh
  cases before.getLast? with
  | none => simp
  | some token => cases token <;> simp [Token.atom?]

@[simp] theorem isFresh_concat (before : List Token) (token : Token) :
    isFresh (before ++ [token]) = token.atom?.isNone := by
  simp [isFresh]

/-- What is read behind these tokens, which tell how many operands there are so far and whether the
last token was one. -/
def operandsBehind (operation : String) (expected : Nat) (before rest : List Token) :
    Except LineFault (List Atom) :=
  operandsFrom operation expected (operandsIn before).length (isFresh before) rest

/-- A token that may stand where it stands is read, and an operand is all that can come of it. -/
theorem operandsBehind_cons (h : ¬ Misplaced expected before token) (rest : List Token) :
    operandsBehind operation expected before (token :: rest) =
      (operandsBehind operation expected (before ++ [token]) rest).map
        (operandsIn [token] ++ ·) := by
  unfold operandsBehind
  cases token with
  | atom a =>
    have hroom : (operandsIn before).length ≠ expected :=
      fun hfull => h (.excess (Nat.le_of_eq hfull.symm))
    rw [operandsFrom, if_neg hroom]
    simp [Token.atom?]
  | comma =>
    have hfresh : ¬ isFresh before = true := fun hfresh => h (.comma (isFresh_iff.mp hfresh))
    rw [operandsFrom, if_neg hfresh]
    simp only [operandsIn_append, operandsIn_comma, List.append_nil, isFresh_concat, Token.atom?,
      Option.isNone_none, List.nil_append]
    cases operandsFrom operation expected (operandsIn before).length true rest <;> rfl
  | colon => exact absurd .colon h

theorem operandsBehind_of_misplaced (hbefore : WellPlaced expected before)
    (h : Misplaced expected before token) (rest : List Token) :
    operandsBehind operation expected before (token :: rest) =
      .error (.unexpectedToken token.text) := by
  cases h with
  | colon => rfl
  | comma h => rw [operandsBehind, operandsFrom, if_pos (isFresh_iff.mpr h)]
  | excess h =>
    have hfull := Nat.le_antisymm hbefore.length_le h
    rw [operandsBehind, operandsFrom, if_pos hfull]
    rfl

/-- Well-placed tokens are read one by one, whatever stands behind them. -/
theorem operandList_append (operation : String) (h : WellPlaced expected before)
    (rest : List Token) :
    operandList operation expected (before ++ rest) =
      (operandsBehind operation expected before rest).map (operandsIn before ++ ·) := by
  induction before using List.reverseRecOn generalizing rest with
  | nil =>
    cases hread : operandsBehind operation expected [] rest <;> exact hread
  | append_singleton before token ih =>
    obtain ⟨hbefore, htoken⟩ := wellPlaced_concat_iff.mp h
    rw [List.append_assoc, List.singleton_append, ih hbefore, operandsBehind_cons htoken]
    cases operandsBehind operation expected (before ++ [token]) rest <;> simp [Except.map]

theorem operandList_of_firstMisplaced (h : FirstMisplaced expected tokens token) :
    operandList operation expected tokens = .error (.unexpectedToken token.text) := by
  cases h with
  | @intro before token after hbefore h =>
    rw [operandList_append operation hbefore, operandsBehind_of_misplaced hbefore h]
    rfl

theorem length_operandsIn_pos {a : Atom} (h : before.getLast? = some (.atom a)) :
    0 < (operandsIn before).length := by
  have hmem : a ∈ operandsIn before :=
    List.mem_filterMap.mpr ⟨.atom a, List.mem_of_getLast? h, rfl⟩
  exact List.length_pos_of_mem hmem

/-- Well-placed tokens in which there is an operand end with one or with a comma. -/
theorem WellPlaced.isFresh_iff (h : WellPlaced expected tokens) :
    (isFresh tokens = true ∧ 0 < (operandsIn tokens).length) ↔
      tokens.getLast? = some .comma := by
  rcases List.eq_nil_or_concat tokens with rfl | ⟨before, last, rfl⟩
  · simp [operandsIn]
  · rw [List.concat_eq_append] at h ⊢
    obtain ⟨-, hlast⟩ := wellPlaced_concat_iff.mp h
    cases last with
    | atom a => simp [Token.atom?]
    | comma =>
      -- The comma is not misplaced, so there is an operand in front of it.
      have hbehind : ¬ ∀ a, before.getLast? ≠ some (.atom a) := fun hnone => hlast (.comma hnone)
      simp only [ne_eq, not_forall, not_not] at hbehind
      obtain ⟨a, ha⟩ := hbehind
      simpa [Token.atom?] using length_operandsIn_pos ha
    | colon => exact absurd .colon hlast

/-- Behind well-placed tokens the list can end, unless there has to be one more operand. -/
theorem operandList_of_wellPlaced (h : WellPlaced expected tokens) :
    operandList operation expected tokens =
      if (operandsIn tokens).length < expected ∨ tokens.getLast? = some .comma then
        .error (.missingArgument operation expected)
      else .ok (operandsIn tokens) := by
  have hread := operandList_append operation h []
  rw [List.append_nil, operandsBehind, operandsFrom] at hread
  rw [hread]
  simp only [h.isFresh_iff]
  split <;> simp [Except.map]

theorem operandList_eq_error_iff :
    operandList operation expected tokens = .error fault ↔
      (∃ token, FirstMisplaced expected tokens token ∧ fault = .unexpectedToken token.text) ∨
      (Unfinished expected tokens ∧ fault = .missingArgument operation expected) := by
  constructor
  · intro h
    rcases wellPlaced_or_firstMisplaced expected tokens with hplaced | ⟨token, hfirst⟩
    · rw [operandList_of_wellPlaced hplaced] at h
      split at h
      · next hmissing => exact .inr ⟨⟨hplaced, hmissing⟩, (Except.error.inj h).symm⟩
      · cases h
    · rw [operandList_of_firstMisplaced hfirst] at h
      exact .inl ⟨token, hfirst, (Except.error.inj h).symm⟩
  · rintro (⟨token, hfirst, rfl⟩ | ⟨hunfinished, rfl⟩)
    · exact operandList_of_firstMisplaced hfirst
    · rw [operandList_of_wellPlaced hunfinished.wellPlaced, if_pos hunfinished.missing]

end Misplaced

/-! ## Statements -/

section Statement

variable {name : String} {tokens : List Token} {s : Statement}

theorem Statement.ofTokens_eq_ok_iff :
    Statement.ofTokens (.atom (.name name) :: tokens) = .ok (some s) ↔
      Operation.ofName name = .ok s.operation ∧
        ∃ atoms, Listed tokens atoms ∧ Taken s.operation.operands atoms s.operands := by
  rw [Statement.ofTokens]
  simp only [bind_eq_ok, operandList_eq_ok_iff]
  constructor
  · rintro ⟨operation, hname, atoms, ⟨hlisted, hlength⟩, operands, hoperands, hs⟩
    obtain rfl := Option.some.inj (Except.ok.inj hs)
    exact ⟨hname, atoms, hlisted, (mapM_zip_eq_ok_iff hlength).mp hoperands⟩
  · rintro ⟨hname, atoms, hlisted, htaken⟩
    have hlength := htaken.length_eq
    exact ⟨s.operation, hname, atoms, ⟨hlisted, hlength⟩, s.operands,
      (mapM_zip_eq_ok_iff hlength).mpr htaken, rfl⟩

end Statement

/-- **Operand lists.** Tokens are read as a list of operands if and only if they are these operands,
as many as expected, with at most one comma between two neighbours and nothing else. If not, the
first token that is misplaced is reported, or that an operand is missing if no token is. A statement
is read if and only if the tokens behind its name are such a list, and it takes each operand of the
list for one of its own. -/
theorem operandList_iff (operation : String) (expected : Nat) (tokens : List Token) :
    (∀ atoms, operandList operation expected tokens = .ok atoms ↔
      Listed tokens atoms ∧ atoms.length = expected) ∧
    (∀ fault, operandList operation expected tokens = .error fault ↔
      (∃ token, FirstMisplaced expected tokens token ∧ fault = .unexpectedToken token.text) ∨
      (Unfinished expected tokens ∧ fault = .missingArgument operation expected)) ∧
    ∀ name s, Statement.ofTokens (.atom (.name name) :: tokens) = .ok (some s) ↔
      Operation.ofName name = .ok s.operation ∧
        ∃ atoms, Listed tokens atoms ∧ Taken s.operation.operands atoms s.operands :=
  ⟨fun _ => operandList_eq_ok_iff, fun _ => operandList_eq_error_iff,
    fun _ _ => Statement.ofTokens_eq_ok_iff⟩

/-- Where no operand is expected, there is none that a comma could follow. -/
example : operandList "HLT" 0 [.comma] = .error (.unexpectedToken ",") := rfl

end LS8.Assembly
