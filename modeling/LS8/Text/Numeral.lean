/-!
# Numerals

Writing a natural number in a base, padded with zeros to a least width, and reading one back under
an upper limit. The reader takes more than the writer produces: one leading plus sign and any number
of leading zeros are allowed, letters count in either case. What is written is read back
(`read?_digits`).
-/
namespace LS8.Numeral

/-- The digits of `n`, with lower-case letters above nine and zeros in front up to the width. -/
def digits (base width n : Nat) : List Char := (Nat.toDigits base n).leftpad width '0'

def decimal (n : Nat) : String := String.ofList (digits 10 1 n)

def hex (width n : Nat) : String := String.ofList (digits 16 width n)

def upperHex (width n : Nat) : String := String.ofList ((digits 16 width n).map Char.toUpper)

def binary (width n : Nat) : String := String.ofList (digits 2 width n)

/-- A byte as `0x` and two lower-case digits. -/
def byteText (b : UInt8) : String := "0x" ++ hex 2 b.toNat

def digitValue? (base : Nat) (c : Char) : Option Nat :=
  let value :=
    if '0' ≤ c ∧ c ≤ '9' then c.toNat - '0'.toNat
    else if 'a' ≤ c ∧ c ≤ 'f' then c.toNat - 'a'.toNat + 10
    else if 'A' ≤ c ∧ c ≤ 'F' then c.toNat - 'A'.toNat + 10
    else base
  if value < base then some value else none

/-- The number that a list of digit values denotes, the most significant first. -/
def ofDigits (base : Nat) (values : List Nat) : Nat := values.foldl (fun n d => n * base + d) 0

/-- The text without its sign: one plus sign in front is dropped. -/
def unsigned : List Char → List Char
  | '+' :: rest => rest
  | text => text

/-- A number not above `limit`: at least one digit, nothing but digits after the sign. -/
def read? (base limit : Nat) (text : List Char) : Option Nat :=
  match (unsigned text).mapM (digitValue? base) with
  | none | some [] => none
  | some values => if ofDigits base values ≤ limit then some (ofDigits base values) else none

theorem le_limit_of_read? {base limit n : Nat} {text : List Char}
    (h : read? base limit text = some n) : n ≤ limit := by
  unfold read? at h
  split at h
  · contradiction
  · contradiction
  · split at h
    · next hle => exact Option.some.inj h ▸ hle
    · contradiction

private theorem digitValue?_digitChar : ∀ d : Fin 16, ∀ base : Fin 17, d.val < base.val →
    digitValue? base.val (Nat.digitChar d.val) = some d.val := by
  decide

theorem digitValue?_eq {base d : Nat} (hbase : base ≤ 16) (hd : d < base) :
    digitValue? base (Nat.digitChar d) = some d :=
  digitValue?_digitChar ⟨d, by omega⟩ ⟨base, by omega⟩ hd

theorem ofDigits_append_singleton (base d : Nat) (values : List Nat) :
    ofDigits base (values ++ [d]) = ofDigits base values * base + d := by
  simp [ofDigits, List.foldl_append]

theorem ofDigits_replicate_zero (base k : Nat) (values : List Nat) :
    ofDigits base (List.replicate k 0 ++ values) = ofDigits base values := by
  have hzero : ofDigits base (List.replicate k 0) = 0 := by
    induction k with
    | zero => rfl
    | succ k ih => rw [List.replicate_succ', ofDigits_append_singleton, ih]; simp
  unfold ofDigits at hzero ⊢
  rw [List.foldl_append, hzero]

/-- The digits of a number in a base, as values. -/
theorem mapM_toDigits {base : Nat} (hlow : 1 < base) (hbase : base ≤ 16) (n : Nat) :
    ∃ values, (Nat.toDigits base n).mapM (digitValue? base) = some values ∧
      values ≠ [] ∧ ofDigits base values = n := by
  induction n using Nat.strongRecOn with
  | ind n ih =>
    by_cases hn : n < base
    · refine ⟨[n], ?_, by simp, by simp [ofDigits]⟩
      rw [Nat.toDigits_of_lt_base hn]
      simp [digitValue?_eq hbase hn]
    · have hdiv : 0 < n / base := Nat.div_pos (by omega) (by omega)
      have hmod : n % base < base := Nat.mod_lt _ (by omega)
      obtain ⟨values, hmap, _, hvalue⟩ := ih (n / base) (Nat.div_lt_self (by omega) hlow)
      refine ⟨values ++ [n % base], ?_, by simp, ?_⟩
      · have happend := Nat.toDigits_append_toDigits (n := n / base) hlow hdiv hmod
        rw [Nat.div_add_mod, Nat.toDigits_of_lt_base hmod] at happend
        rw [← happend, List.mapM_append, hmap]
        simp [digitValue?_eq hbase hmod]
      · rw [ofDigits_append_singleton, hvalue, Nat.mul_comm, Nat.div_add_mod]

theorem unsigned_of_mapM {base : Nat} {text : List Char} {values : List Nat}
    (h : text.mapM (digitValue? base) = some values) : unsigned text = text := by
  unfold unsigned
  split
  · have hplus : digitValue? base '+' = none := by simp [digitValue?]
    simp [hplus] at h
  · rfl

/-- What is written is read back, whatever zeros stand in front. -/
theorem read?_digits {base width limit n : Nat} (hlow : 1 < base) (hbase : base ≤ 16)
    (hn : n ≤ limit) : read? base limit (digits base width n) = some n := by
  obtain ⟨values, hmap, hne, hvalue⟩ := mapM_toDigits hlow hbase n
  have hzero : digitValue? base '0' = some 0 := by
    exact digitValue?_eq hbase (d := 0) (by omega)
  have hzeros (k : Nat) :
      (List.replicate k '0').mapM (digitValue? base) = some (List.replicate k 0) := by
    induction k with
    | zero => rfl
    | succ k ih => simp [List.replicate_succ, hzero, ih]
  have hdigits : (digits base width n).mapM (digitValue? base) =
      some (List.replicate (width - (Nat.toDigits base n).length) 0 ++ values) := by
    rw [digits, List.leftpad, List.mapM_append, hzeros, hmap]
    rfl
  unfold read?
  rw [unsigned_of_mapM hdigits, hdigits]
  split
  · contradiction
  · next h => simp_all
  · next h =>
    obtain rfl := Option.some.inj h
    rw [ofDigits_replicate_zero, hvalue, if_pos hn]

end LS8.Numeral
