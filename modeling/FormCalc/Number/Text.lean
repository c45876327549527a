import FormCalc.Number.Digits
import FormCalc.Number.Shortest

/-!
# Numbers as text

Two formats share the shortest decimal that reads back.

* `json`: the text in JSON. Integers of at most `maxSafeInteger` in magnitude have no point; the
  other numbers have a point or an exponent; what is no number is `null`.
* `plain`: the text of a number that is joined to a string. It never has an exponent, and
  integers never have a point.
-/

namespace FormCalc.Number

/-- The largest integer up to which a double represents every integer. -/
def maxSafeInteger : Nat := Nat.pow 2 53 - 1

/-- The digits of a decimal with its point in place, zeros added on either side as needed; an
integer has no point. -/
def positional (d : Decimal) : List Char :=
  let ds := digits d.digits
  match d.exponent with
  | .ofNat k => ds ++ List.replicate k '0'
  | .negSucc k =>
    let places := k + 1
    if places < ds.length then
      ds.take (ds.length - places) ++ '.' :: ds.drop (ds.length - places)
    else ['0', '.'] ++ List.replicate (places - ds.length) '0' ++ ds

/-- One digit before the point, the others after it, and the power of ten. -/
def scientific (d : Decimal) : List Char :=
  let ds := digits d.digits
  let e : Int := d.exponent + (ds.length - 1 : Nat)
  let fraction := if ds.length = 1 then [] else '.' :: ds.drop 1
  ds.take 1 ++ fraction ++ ['e', if 0 ≤ e then '+' else '-'] ++ digits e.natAbs

/-- A decimal in JSON, with a point or an exponent: from `10 ^ (-5)` up to below `10 ^ 16` in
positional form, else in scientific form. -/
def jsonDecimal (d : Decimal) : List Char :=
  let e : Int := d.exponent + ((digits d.digits).length - 1 : Nat)
  if -5 ≤ e ∧ e ≤ 15 then
    if 0 ≤ d.exponent then positional d ++ ['.', '0'] else positional d
  else scientific d

/-- A minus sign in front of what is negative. -/
def signed (negative : Bool) (text : List Char) : List Char :=
  if negative then '-' :: text else text

/-- A double in JSON as a number with a point or an exponent. -/
def jsonFloat (x : Float) : List Char :=
  match Binary.ofFloat x with
  | .nan | .infinite _ => "null".toList
  | .finite negative m e =>
    signed negative (if m = 0 then ['0', '.', '0'] else jsonDecimal (shortest .even m e))

/-- A number of a value in JSON. -/
def json (x : Float) : List Char :=
  match integer? x with
  | some (negative, n) =>
    if n ≤ maxSafeInteger then signed (negative && n != 0) (digits n) else jsonFloat x
  | none => jsonFloat x

/-- A number joined to a string. All digits of an integer below `10 ^ 21` are written. -/
def plain (x : Float) : List Char :=
  match Binary.ofFloat x with
  | .nan => "NaN".toList
  | .infinite negative => signed negative "inf".toList
  | .finite negative m e =>
    match wholePart? m e with
    | some n =>
      if n = 0 then ['0']
      else if n < Nat.pow 10 21 then signed negative (digits n)
      else signed negative (positional (shortest .up m e))
    | none => signed negative (positional (shortest .up m e))

end FormCalc.Number
