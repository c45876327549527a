import FormCalc.Error

/-!
# Numerals of formulas

A numeral begins with a digit; a sign in front of it is an operator. A point belongs to it only
before a digit, and the letter of an exponent always. Behind it there may be no letter, digit,
underscore or point.

* `cutNumeral_split`: the numeral and the text behind it make up the text that was read.
-/

namespace FormCalc

open Number (Numeral Exponent)

/-- The digits of the whole part: a leading zero stands alone. -/
def cutWhole (c : Char) (cs : List Char) : List Char × List Char :=
  if c = '0' then ([c], cs) else (c :: cs.takeWhile Char.isDigit, cs.dropWhile Char.isDigit)

/-- The digits behind a point, if a digit follows it. -/
def cutFraction : List Char → List Char × List Char
  | '.' :: d :: cs =>
    if d.isDigit then (d :: cs.takeWhile Char.isDigit, cs.dropWhile Char.isDigit)
    else ([], '.' :: d :: cs)
  | cs => ([], cs)

/-- The letter of an exponent, a sign if there is one, and the digits, of which there may be
none. -/
def cutExponent : List Char → Option Exponent × List Char
  | [] => (none, [])
  | c :: cs =>
    if c = 'e' ∨ c = 'E' then
      match cs with
      | '+' :: ds => (some ⟨c, some '+', ds.takeWhile Char.isDigit⟩, ds.dropWhile Char.isDigit)
      | '-' :: ds => (some ⟨c, some '-', ds.takeWhile Char.isDigit⟩, ds.dropWhile Char.isDigit)
      | ds => (some ⟨c, none, ds.takeWhile Char.isDigit⟩, ds.dropWhile Char.isDigit)
    else (none, c :: cs)

/-- The numeral that begins with the digit `c`, and the text behind it. -/
def cutNumeral (c : Char) (cs : List Char) : Numeral × List Char :=
  let (whole, cs) := cutWhole c cs
  let (fraction, cs) := cutFraction cs
  let (exponent?, cs) := cutExponent cs
  (⟨whole, fraction, exponent?⟩, cs)

/-- Characters that may not follow a numeral. -/
def extendsNumeral (c : Char) : Bool :=
  c == '_' || c == '.' || c.isAlphanum

/-- An exponent was begun but has no digits. -/
def lacksExponentDigits (n : Numeral) : Bool :=
  match n.exponent? with
  | some e => e.digits.isEmpty
  | none => false

/-- Reads the numeral that begins with the digit `c`. A fault comes with its distance from the
first digit. -/
def readNumeral (c : Char) (cs : List Char) : Except (Fault × Nat) (Numeral × List Char) :=
  let (n, rest) := cutNumeral c cs
  if rest.head?.any extendsNumeral then .error (.invalidNumber, n.text.length)
  else if lacksExponentDigits n then .error (.noExponentDigits, 0)
  else if n.stepwise?.isNone then .error (.numberOutOfRange, 0)
  else .ok (n, rest)

theorem cutWhole_split (c : Char) (cs : List Char) :
    (cutWhole c cs).1 ++ (cutWhole c cs).2 = c :: cs := by
  unfold cutWhole
  split <;> simp

theorem cutFraction_split (cs : List Char) :
    Number.fractionText (cutFraction cs).1 ++ (cutFraction cs).2 = cs := by
  unfold cutFraction
  split
  · split <;> simp [Number.fractionText]
  · simp [Number.fractionText]

theorem cutExponent_split (cs : List Char) :
    Number.exponentText (cutExponent cs).1 ++ (cutExponent cs).2 = cs := by
  unfold cutExponent
  split
  · simp [Number.exponentText]
  · split
    · split <;> simp [Number.exponentText]
    · simp [Number.exponentText]

/-- **Nothing is lost in reading a numeral.** -/
theorem cutNumeral_split (c : Char) (cs : List Char) :
    (cutNumeral c cs).1.text ++ (cutNumeral c cs).2 = c :: cs := by
  have h1 := cutWhole_split c cs
  have h2 := cutFraction_split (cutWhole c cs).2
  have h3 := cutExponent_split (cutFraction (cutWhole c cs).2).2
  simp only [cutNumeral, Numeral.text, List.append_assoc]
  rw [h3, h2, h1]

theorem cutNumeral_length (c : Char) (cs : List Char) :
    (cutNumeral c cs).2.length ≤ cs.length := by
  have h1 : (cutWhole c cs).2.length ≤ cs.length := by
    have := congrArg List.length (cutWhole_split c cs)
    have : (cutWhole c cs).1 ≠ [] := by unfold cutWhole; split <;> simp
    have := List.length_pos_iff.2 this
    simp at *; omega
  have h2 := congrArg List.length (cutFraction_split (cutWhole c cs).2)
  have h3 := congrArg List.length (cutExponent_split (cutFraction (cutWhole c cs).2).2)
  simp only [List.length_append] at h2 h3
  simp only [cutNumeral]
  omega

theorem readNumeral_split {c : Char} {cs rest : List Char} {n : Numeral}
    (h : readNumeral c cs = .ok (n, rest)) : n.text ++ rest = c :: cs := by
  simp only [readNumeral] at h
  split at h
  · simp at h
  · split at h
    · simp at h
    · split at h
      · simp at h
      · simp only [Except.ok.injEq, Prod.mk.injEq] at h
        rw [← h.1, ← h.2]
        exact cutNumeral_split c cs

theorem readNumeral_length {c : Char} {cs rest : List Char} {n : Numeral}
    (h : readNumeral c cs = .ok (n, rest)) : rest.length ≤ cs.length := by
  simp only [readNumeral] at h
  split at h
  · simp at h
  · split at h
    · simp at h
    · split at h
      · simp at h
      · simp only [Except.ok.injEq, Prod.mk.injEq] at h
        rw [← h.2]
        exact cutNumeral_length c cs

end FormCalc
