/-!
# Decimal digits

Natural numbers are written and read in decimal, most significant digit first.

* `ofDigits_append`: a digit string is read from the left.
* `ofDigits_digits`: what is written reads back.
-/

namespace FormCalc.Number

/-- The value of an ASCII digit. -/
def digitValue (c : Char) : Nat :=
  c.toNat - '0'.toNat

/-- The number that a string of digits denotes. -/
def ofDigits (ds : List Char) : Nat :=
  ds.foldl (fun n d => 10 * n + digitValue d) 0

/-- The decimal digits of a number, without leading zeros; zero is one digit. -/
def digits (n : Nat) : List Char :=
  Nat.toDigits 10 n

theorem foldl_digits (ds : List Char) (n : Nat) :
    ds.foldl (fun n d => 10 * n + digitValue d) n = Nat.pow 10 ds.length * n + ofDigits ds := by
  induction ds generalizing n with
  | nil => simp [ofDigits]
  | cons d ds ih =>
    simp only [ofDigits, List.foldl_cons, List.length_cons]
    rw [ih (10 * n + digitValue d), ih (10 * 0 + digitValue d), Nat.pow]
    grind

theorem ofDigits_append (a b : List Char) :
    ofDigits (a ++ b) = Nat.pow 10 b.length * ofDigits a + ofDigits b := by
  rw [ofDigits, List.foldl_append, foldl_digits]
  rfl

theorem digitValue_digitChar {n : Nat} (h : n < 10) : digitValue n.digitChar = n := by
  have all : ∀ d, d < 10 → digitValue d.digitChar = d := by decide
  exact all n h

/-- **Written digits read back.** -/
theorem ofDigits_digits (n : Nat) : ofDigits (digits n) = n := by
  induction n using Nat.strongRecOn with
  | ind n ih =>
    rw [digits, Nat.toDigits_eq_if (by decide)]
    by_cases h : n < 10
    · simp [h, ofDigits, digitValue_digitChar h]
    · have := ih (n / 10) (by omega)
      rw [digits] at this
      rw [if_neg h, ofDigits_append, this]
      simp [ofDigits, digitValue_digitChar (show n % 10 < 10 by omega)]
      omega

theorem isDigit_of_mem_digits {n : Nat} {c : Char} (h : c ∈ digits n) : c.isDigit = true :=
  Nat.isDigit_of_mem_toDigits (by decide) (by decide) h

/-- The value of a hexadecimal digit of either case. -/
def hexValue? (c : Char) : Option Nat :=
  if c.isDigit then some (c.toNat - '0'.toNat)
  else if 'a' ≤ c ∧ c ≤ 'f' then some (c.toNat - 'a'.toNat + 10)
  else if 'A' ≤ c ∧ c ≤ 'F' then some (c.toNat - 'A'.toNat + 10)
  else none

theorem hexValue?_digitChar {n : Nat} (h : n < 16) : hexValue? n.digitChar = some n := by
  have all : ∀ d, d < 16 → hexValue? d.digitChar = some d := by decide
  exact all n h

/-- Whether the character is a hexadecimal digit. -/
def isHexDigit (c : Char) : Bool :=
  (hexValue? c).isSome

end FormCalc.Number
