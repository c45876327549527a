import FormCalc.Number.Binary

/-!
# The fewest digits that read back

Among the decimals that round to a given double, the shortest is on the coarsest grid
`{ k * 10 ^ g }` that has a point among them. On each grid only the two points around the
number can be the nearest, so the search looks at those two, from coarse grids to fine ones,
in exact arithmetic.

* `Rounding.Holds`: the points that round to the double, as a condition on natural numbers.
-/

namespace FormCalc.Number

/-- A decimal number `digits * 10 ^ exponent`. -/
structure Decimal where
  digits : Nat
  exponent : Int
deriving DecidableEq

/-- Which of two decimals is taken when the double lies halfway between them. -/
inductive Tie where
  | even
  | up
deriving DecidableEq

/-- The reals that round to a double, on one decimal grid: the point `k` of the grid is
`k * unit`, the double itself is `value`, and the reals between `lower` and `upper` round to
it, the ends included if `closed`. -/
structure Rounding where
  unit : Nat
  lower : Nat
  value : Nat
  upper : Nat
  closed : Bool

namespace Rounding

/-- The doubles around `m * 2 ^ e` lie one unit of `2 ^ e` away, except below a power of two,
where they lie half as far; the reals up to half that distance round to it. Both sides are
multiplied so that all numbers are whole. -/
def onGrid (m : Nat) (e : Int) (g : Int) : Rounding :=
  let below := if m = leadingBit ∧ -1074 < e then 1 else 2
  let up := Nat.pow 2 (e - 2).toNat * Nat.pow 10 (-g).toNat
  { unit := Nat.pow 2 (2 - e).toNat * Nat.pow 10 g.toNat
    lower := (4 * m - below) * up
    value := 4 * m * up
    upper := (4 * m + 2) * up
    closed := m % 2 == 0 }

/-- The point `k` of the grid rounds to the double. -/
def Holds (r : Rounding) (k : Nat) : Prop :=
  if r.closed then r.lower ≤ k * r.unit ∧ k * r.unit ≤ r.upper
  else r.lower < k * r.unit ∧ k * r.unit < r.upper

instance (r : Rounding) (k : Nat) : Decidable (r.Holds k) := by
  unfold Holds
  infer_instance

/-- The point of the grid that rounds to the double and is nearest to it. -/
def nearest? (tie : Tie) (r : Rounding) : Option Nat :=
  let k := r.value / r.unit
  if r.Holds k then
    if r.Holds (k + 1) then
      match compare (2 * (r.value - k * r.unit)) r.unit with
      | .lt => some k
      | .gt => some (k + 1)
      | .eq => if tie = .even ∧ k % 2 = 0 then some k else some (k + 1)
    else some k
  else if r.Holds (k + 1) then some (k + 1)
  else none

end Rounding

/-- The first grid, of the next `n` from `g` downwards, with a point that rounds to the double. -/
def shortestFrom (tie : Tie) (m : Nat) (e : Int) : Nat → Int → Decimal
  | 0, g => ⟨m, g⟩
  | n + 1, g =>
    match (Rounding.onGrid m e g).nearest? tie with
    | some k => ⟨k, g⟩
    | none => shortestFrom tie m e n (g - 1)

/-- The shortest decimal that rounds to `m * 2 ^ e`. The largest double is below `10 ^ 309` and
the distance between doubles is never below `10 ^ (-324)`, so one of the grids between has a
point. -/
def shortest (tie : Tie) (m : Nat) (e : Int) : Decimal :=
  shortestFrom tie m e 634 309

end FormCalc.Number
