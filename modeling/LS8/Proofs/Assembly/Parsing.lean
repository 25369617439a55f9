import LS8.Assembly.Statement
import Mathlib.Data.List.Forall2

/-!
# Parsed statements

A statement that comes out of a line has the operands its operation has, in number and in kind
(`Line.wellKinded_of_parse`). This is what keeps the size of a statement, which is known from its
operation alone, equal to the number of bytes that are made of it.
-/
namespace LS8.Assembly

/-! ## Results of readings -/

section Success

variable {ε α β : Type}

theorem bind_eq_ok {x : Except ε α} {f : α → Except ε β} {b : β} :
    (x >>= f) = .ok b ↔ ∃ a, x = .ok a ∧ f a = .ok b := by
  cases x with
  | error e => simp [bind, Except.bind]
  | ok a => simp [bind, Except.bind]

theorem map_eq_ok {x : Except ε α} {f : α → β} {b : β} :
    x.map f = .ok b ↔ ∃ a, x = .ok a ∧ f a = b := by
  cases x with
  | error e => simp [Except.map]
  | ok a => simp [Except.map]

theorem mapError_eq_ok {ε' : Type} {x : Except ε α} {f : ε → ε'} {a : α} :
    x.mapError f = .ok a ↔ x = .ok a := by
  cases x with
  | error e => simp [Except.mapError]
  | ok b => simp [Except.mapError]

theorem mapM_eq_ok {f : α → Except ε β} {xs : List α} {ys : List β} :
    xs.mapM f = .ok ys ↔ List.Forall₂ (fun x y => f x = .ok y) xs ys := by
  induction xs generalizing ys with
  | nil => simp [List.mapM_nil, pure, Except.pure, eq_comm]
  | cons x xs ih =>
    simp only [List.mapM_cons, bind_eq_ok, pure, Except.pure, Except.ok.injEq, ih,
      List.forall₂_cons_left_iff]
    constructor
    · rintro ⟨y, hy, rest, hrest, rfl⟩
      exact ⟨y, rest, hy, hrest, rfl⟩
    · rintro ⟨y, rest, hy, hrest, rfl⟩
      exact ⟨y, hy, rest, hrest, rfl⟩

theorem exists_of_mem_mapM {f : α → Except ε β} {xs : List α} {ys : List β}
    (h : xs.mapM f = .ok ys) {y : β} (hy : y ∈ ys) : ∃ x ∈ xs, f x = .ok y := by
  have hall := mapM_eq_ok.mp h
  obtain ⟨i, hi, rfl⟩ := List.getElem_of_mem hy
  have hi' : i < xs.length := by rwa [hall.length_eq]
  exact ⟨xs[i], List.getElem_mem hi', hall.get hi' hi⟩

variable {accepted : α → Prop} {refused : ε → Prop} {x : Except ε α}

/-- Where every case has its result, the result tells the case. -/
theorem eq_ok_iff_of_cases (hok : ∀ a, accepted a → x = .ok a)
    (herror : ∀ e, refused e → x = .error e) (hcases : (∃ a, accepted a) ∨ ∃ e, refused e)
    {a : α} : x = .ok a ↔ accepted a := by
  refine ⟨fun h => ?_, hok a⟩
  rcases hcases with ⟨b, hb⟩ | ⟨e, he⟩
  · rw [hok b hb] at h
    exact Except.ok.inj h ▸ hb
  · rw [herror e he] at h
    cases h

theorem eq_error_iff_of_cases (hok : ∀ a, accepted a → x = .ok a)
    (herror : ∀ e, refused e → x = .error e) (hcases : (∃ a, accepted a) ∨ ∃ e, refused e)
    {e : ε} : x = .error e ↔ refused e := by
  refine ⟨fun h => ?_, herror e⟩
  rcases hcases with ⟨a, ha⟩ | ⟨e', he'⟩
  · rw [hok a ha] at h
    cases h
  · rw [herror e' he'] at h
    exact Except.error.inj h ▸ he'

end Success

/-! ## Operands -/

def Operand.kind : Operand → OperandKind
  | .register _ => .register
  | .value _ => .immediate

theorem Operand.kind_of_ofAtom {kind : OperandKind} {a : Atom} {operand : Operand}
    (h : Operand.ofAtom kind a = .ok operand) : operand.kind = kind := by
  cases kind with
  | register =>
    obtain ⟨r, -, rfl⟩ := map_eq_ok.mp h
    rfl
  | immediate =>
    obtain ⟨v, -, rfl⟩ := map_eq_ok.mp h
    rfl

/-- Each kind has an operand of its own that is read as one of that kind, and none is left over. -/
inductive Taken : List OperandKind → List Atom → List Operand → Prop
  | nil : Taken [] [] []
  | cons {kind kinds a atoms operand operands} (h : Operand.ofAtom kind a = .ok operand)
      (hrest : Taken kinds atoms operands) :
      Taken (kind :: kinds) (a :: atoms) (operand :: operands)

section Taken

variable {kinds : List OperandKind} {atoms : List Atom} {operands : List Operand}

theorem Taken.length_eq (h : Taken kinds atoms operands) : atoms.length = kinds.length := by
  induction h with
  | nil => rfl
  | cons _ _ ih => rw [List.length_cons, List.length_cons, ih]

theorem Taken.map_kind (h : Taken kinds atoms operands) : operands.map Operand.kind = kinds := by
  induction h with
  | nil => rfl
  | cons h _ ih => rw [List.map_cons, Operand.kind_of_ofAtom h, ih]

theorem mapM_zip_eq_ok_iff (hlength : atoms.length = kinds.length) :
    (kinds.zip atoms).mapM (fun (kind, a) => Operand.ofAtom kind a) = .ok operands ↔
      Taken kinds atoms operands := by
  rw [mapM_eq_ok]
  constructor
  · intro h
    induction kinds generalizing atoms operands with
    | nil =>
      obtain rfl := List.eq_nil_of_length_eq_zero hlength
      obtain rfl := List.forall₂_nil_left_iff.mp h
      exact .nil
    | cons kind kinds ih =>
      cases atoms with
      | nil => contradiction
      | cons a atoms =>
        obtain ⟨operand, rest, hread, hrest, rfl⟩ := List.forall₂_cons_left_iff.mp h
        exact .cons hread (ih (Nat.succ.inj hlength) hrest)
  · intro h
    induction h with
    | nil => exact .nil
    | cons h _ ih => exact .cons h (ih (Nat.succ.inj hlength))

end Taken

/-- An operand list that is accepted has as many operands as were expected. -/
theorem length_of_operandsFrom {operation : String} {expected count : Nat} {fresh : Bool}
    {tokens : List Token} {atoms : List Atom} (hcount : count ≤ expected)
    (h : operandsFrom operation expected count fresh tokens = .ok atoms) :
    count + atoms.length = expected := by
  fun_induction operandsFrom operation expected count fresh tokens generalizing atoms with
  | case1 => contradiction
  | case2 count fresh hdone =>
    obtain rfl := Except.ok.inj h
    simp only [List.length_nil]
    omega
  | case3 => contradiction
  | case4 count fresh rest hfresh ih => exact ih hcount h
  | case5 => contradiction
  | case6 => contradiction
  | case7 count fresh a rest hmore ih =>
    obtain ⟨others, hothers, rfl⟩ := map_eq_ok.mp h
    have hlength := ih (by omega) hothers
    simp only [List.length_cons]
    omega

/-! ## Statements -/

/-- The operands are of the kinds that the operation has. -/
def Statement.WellKinded (s : Statement) : Prop :=
  s.operands.map Operand.kind = s.operation.operands

theorem Statement.wellKinded_of_ofTokens {tokens : List Token} {s : Statement}
    (h : Statement.ofTokens tokens = .ok (some s)) : s.WellKinded := by
  unfold Statement.ofTokens at h
  split at h
  · cases h
  · next name rest =>
    obtain ⟨operation, -, h⟩ := bind_eq_ok.mp h
    obtain ⟨atoms, hatoms, h⟩ := bind_eq_ok.mp h
    obtain ⟨operands, hoperands, h⟩ := bind_eq_ok.mp h
    obtain rfl := Option.some.inj (Except.ok.inj h)
    have hlength := length_of_operandsFrom (Nat.zero_le _) hatoms
    rw [Nat.zero_add] at hlength
    exact ((mapM_zip_eq_ok_iff hlength).mp hoperands).map_kind
  · cases h

theorem Line.wellKinded_of_parse {text : List Char} {line : Line} {s : Statement}
    (h : Line.parse text = .ok line) (hs : line.statement = some s) : s.WellKinded := by
  obtain ⟨tokens, -, h⟩ := bind_eq_ok.mp h
  unfold Line.ofTokens at h
  split at h
  all_goals
    obtain ⟨statement, hstatement, h⟩ := bind_eq_ok.mp h
    obtain rfl := Except.ok.inj h
    obtain rfl : statement = some s := hs
    exact Statement.wellKinded_of_ofTokens hstatement

end LS8.Assembly
