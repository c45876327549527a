/-!
# Functions of formulas

The functions a formula can call, with the number of arguments each takes.

* `ofName?_eq_some_iff`: a function is found under its own name and no other.
-/

namespace FormCalc

/-- How many arguments a function takes. -/
inductive Arity where
  | exactly (n : Nat)
  | atLeast (n : Nat)
deriving DecidableEq

namespace Arity

/-- Whether so many arguments are accepted. -/
def accepts : Arity → Nat → Bool
  | .exactly n, m => m == n
  | .atLeast n, m => n ≤ m

/-- How the number is told to the author of a formula. -/
def text : Arity → String
  | .exactly n => toString n
  | .atLeast n => s!"at least {n}"

/-- The noun that goes with the number. -/
def noun : Arity → String
  | .exactly 1 | .atLeast 1 => "argument"
  | _ => "arguments"

end Arity

/-- The functions, in alphabetical order. -/
inductive Builtin where
  | abs | count | max | min | sum
deriving DecidableEq

namespace Builtin

/-- All functions. -/
def all : List Builtin := [.abs, .count, .max, .min, .sum]

/-- The name of a function. -/
def name : Builtin → String
  | .abs => "abs"
  | .count => "count"
  | .max => "max"
  | .min => "min"
  | .sum => "sum"

/-- The number of arguments of a function. -/
def arity : Builtin → Arity
  | .abs => .exactly 1
  | .count => .exactly 1
  | .max => .atLeast 1
  | .min => .atLeast 1
  | .sum => .exactly 1

/-- The function of a name. -/
def ofName? (name : String) : Option Builtin :=
  all.find? fun b => b.name = name

/-- The names of all functions. -/
def nameList : String :=
  ", ".intercalate (all.map name)

theorem ofName?_eq_some_iff {name : String} {b : Builtin} :
    ofName? name = some b ↔ b.name = name := by
  constructor
  · intro h
    simpa using List.find?_some h
  · rintro rfl
    cases b <;> decide

/-- No function takes no arguments. -/
theorem accepts_zero (b : Builtin) : b.arity.accepts 0 = false := by
  cases b <;> rfl

end Builtin

end FormCalc
