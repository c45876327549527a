/-!
# The number a double stands for

A finite double is a sign, a mantissa and a power of two. The three are read off its bits, and
everything that needs the exact number (which digits to print, whether it is an integer) works
on them.
-/

namespace FormCalc.Number

/-- What a double stands for: `finite s m e` is `m * 2 ^ e`, negative if `s`. -/
inductive Binary where
  | nan
  | infinite (negative : Bool)
  | finite (negative : Bool) (mantissa : Nat) (exponent : Int)
deriving DecidableEq

/-- The leading bit of a mantissa: all that stands above the fraction bits. -/
def leadingBit : Nat := Nat.pow 2 52

/-- Reads the sign bit, the eleven exponent bits and the fifty-two fraction bits. -/
def Binary.ofFloat (x : Float) : Binary :=
  let bits := x.toBits.toNat
  let fraction : Nat := bits % leadingBit
  let field : Nat := bits / leadingBit % 2048
  let negative := bits / leadingBit / 2048 == 1
  if field = 2047 then
    if fraction = 0 then .infinite negative else .nan
  else if field = 0 then .finite negative fraction (-1074)
  else .finite negative (leadingBit + fraction) ((field : Int) - 1075)

/-- The natural number `m * 2 ^ e`, if it is one. -/
def wholePart? (m : Nat) : Int → Option Nat
  | .ofNat k => some (m * Nat.pow 2 k)
  | .negSucc k => if m % Nat.pow 2 (k + 1) = 0 then some (m / Nat.pow 2 (k + 1)) else none

/-- The sign and the magnitude of a double that is an integer. -/
def integer? (x : Float) : Option (Bool × Nat) :=
  match Binary.ofFloat x with
  | .finite negative m e => (wholePart? m e).map (negative, ·)
  | _ => none

/-- The natural number a double is equal to, if any. Negative zero counts as zero. -/
def natural? (x : Float) : Option Nat :=
  match integer? x with
  | some (negative, n) => if negative ∧ n ≠ 0 then none else some n
  | none => none

end FormCalc.Number
