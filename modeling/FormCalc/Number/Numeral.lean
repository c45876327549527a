import FormCalc.Number.Digits

/-!
# Numerals

An unsigned decimal numeral: digits, and after them a fraction and an exponent, either of which
may be missing. The type keeps what was written; its value is a double, found in one of two ways.

* `nearest`: the double nearest to the number written.
* `stepwise?`: a significand of at most 64 bits is collected first and then scaled by a power of
  ten in doubles, which may miss the nearest double by one unit and which fails if the product is
  infinite. This is the value of a number in JSON, and its failure is what decides that a numeral
  of a formula is out of range.
-/

namespace FormCalc.Number

/-- The exponent of a numeral as written: the letter, the sign if there is one, and the digits. -/
structure Exponent where
  letter : Char
  sign? : Option Char
  digits : List Char
deriving DecidableEq

/-- An unsigned numeral as written. The fraction is empty if there is no point. -/
structure Numeral where
  whole : List Char
  fraction : List Char
  exponent? : Option Exponent
deriving DecidableEq

/-- The text of a fraction: a point and its digits, unless there are none. -/
def fractionText : List Char → List Char
  | [] => []
  | d :: ds => '.' :: d :: ds

/-- The text of an exponent, if there is one. -/
def exponentText : Option Exponent → List Char
  | none => []
  | some e => e.letter :: (e.sign?.toList ++ e.digits)

namespace Numeral

/-- The text of the numeral. -/
def text (n : Numeral) : List Char :=
  n.whole ++ (fractionText n.fraction ++ exponentText n.exponent?)

/-- Neither point nor exponent is written. -/
def isInteger (n : Numeral) : Bool :=
  n.fraction.isEmpty && n.exponent?.isNone

/-- The power of ten written after the letter. -/
def power (n : Numeral) : Int :=
  match n.exponent? with
  | none => 0
  | some e => if e.sign? = some '-' then -(ofDigits e.digits : Int) else ofDigits e.digits

/-- The number is `significand * 10 ^ scale`. -/
def significand (n : Numeral) : Nat :=
  ofDigits (n.whole ++ n.fraction)

/-- The power of ten that the significand is multiplied by. -/
def scale (n : Numeral) : Int :=
  n.power - n.fraction.length

/-- The double nearest to the number, ties to even. A number of at least `10 ^ 400` is infinite and
one below `10 ^ (-400)` is zero, whatever the size of its exponent. -/
def nearest (n : Numeral) : Float :=
  let s := n.significand
  let top : Int := (digits s).length + n.scale
  if s = 0 ∨ top < -400 then 0
  else if 400 < top then 1 / 0
  else match n.scale with
    | .ofNat k => Float.ofScientific s false k
    | .negSucc k => Float.ofScientific s true (k + 1)

/-- The largest significand that is collected. -/
def maxSignificand : Nat := Nat.pow 2 64 - 1

/-- Collects digits as long as the significand fits. Gives the significand, the number of digits
taken, and the number of digits left. -/
def collect : Nat → Nat → List Char → Nat × Nat × Nat
  | s, taken, [] => (s, taken, 0)
  | s, taken, d :: ds =>
    let t := 10 * s + digitValue d
    if t ≤ maxSignificand then collect t (taken + 1) ds else (s, taken, ds.length + 1)

/-- A power of ten as a double. -/
def tenTo (k : Nat) : Float :=
  Float.ofScientific 1 false k

/-- Scales a double by a power of ten. Powers up to 308 are one factor; a larger negative one is
taken in steps until the double is zero. `none` means that the result is infinite. -/
def scaleBy (f : Float) (e : Int) : Option Float :=
  if 0 ≤ e then
    if e ≤ 308 then
      let p := f * tenTo e.toNat
      if p.isInf then none else some p
    else if f == 0 then some f
    else none
  else if -308 ≤ e then some (f / tenTo (-e).toNat)
  else if f == 0 then some f
  else scaleBy (f / tenTo 308) (e + 308)
termination_by (-e).toNat

/-- The significand that is collected, the digits of the whole part that are left out of it, and
the digits of the fraction that are taken into it. -/
def collected (n : Numeral) : Nat × Nat × Nat :=
  let (s, _, left) := collect 0 0 n.whole
  let (t, places, _) := collect s 0 n.fraction
  (t, left, places)

/-- The number of an integer numeral that fits 64 bits. -/
def natural? (n : Numeral) : Option Nat :=
  let (s, left, _) := n.collected
  if n.isInteger && left == 0 then some s else none

/-- The written power of ten does not fit 31 bits. -/
def hasHugePower (n : Numeral) : Bool :=
  Nat.pow 2 31 ≤ n.power.natAbs

/-- The value of the numeral found by collecting and scaling; `none` if it is out of range. -/
def stepwise? (n : Numeral) : Option Float :=
  let (s, left, places) := n.collected
  if n.isInteger && left == 0 then some (Float.ofNat s)
  else if n.hasHugePower then
    if s ≠ 0 ∧ 0 < n.power then none else some 0
  else scaleBy (Float.ofNat s) (left - places + n.power)

end Numeral

end FormCalc.Number
