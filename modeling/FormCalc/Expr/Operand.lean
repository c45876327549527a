import FormCalc.Error
import FormCalc.Expr

/-!
# Operands

What operators and functions make of the values they are applied to. Absent values and null count
as zero, as the empty text and as the empty array; booleans count as one and zero, and as their
names in a text. What cannot be used is reported at the operand.

* `Operand.number`, `Operand.text`, `Operand.items`: the three views of an operand.
* `ArithOp.apply`: the binary operators.
* `Builtin.apply`: the functions.
-/

namespace FormCalc

/-- A value and the span of the expression that it is the value of. -/
structure Operand where
  span : Span
  value : Value

namespace Operand

/-- The operand as a number. -/
def number (operation : String) (o : Operand) : Except FormulaError Float :=
  match o.value with
  | .number x => .ok x
  | .bool b => .ok (if b then 1 else 0)
  | .null | .undefined => .ok 0
  | v => .error (.typeMismatch o.span.site (.notNumeric operation v.kind))

/-- The operand as a text. -/
def text (operation : String) (o : Operand) : Except FormulaError String :=
  match o.value with
  | .string s => .ok s
  | .number x => .ok (String.ofList (Number.plain x))
  | .bool b => .ok (if b then "true" else "false")
  | .null | .undefined => .ok ""
  | v => .error (.typeMismatch o.span.site (.notText operation v.kind))

/-- The operand as an array. -/
def items (operation : String) (o : Operand) : Except FormulaError (List Value) :=
  match o.value with
  | .array items => .ok items
  | .null | .undefined => .ok []
  | v => .error (.typeMismatch o.span.site (.notArray operation v.kind))

end Operand

/-- Whether the value is a string. -/
def Value.isString : Value → Bool
  | .string _ => true
  | _ => false

/-- The numbers among values. -/
def Value.numbers (items : List Value) : List Float :=
  items.filterMap fun
    | .number x => some x
    | _ => none

namespace ArithOp

/-- The number that an operator makes of two numbers; a division by zero has none. -/
def compute? (op : ArithOp) (x y : Float) : Option Float :=
  match op with
  | .add => some (x + y)
  | .sub => some (x - y)
  | .mul => some (x * y)
  | .div => if y == 0 then none else some (x / y)
  | .pow => some (Float.pow x y)

/-- Applies an operator. An addition with a string on either side joins texts. -/
def apply (op : ArithOp) (span : Span) (lhs rhs : Operand) : Except FormulaError Value := do
  if op = .add ∧ (lhs.value.isString ∨ rhs.value.isString) then
    let s ← lhs.text op.symbol
    let t ← rhs.text op.symbol
    return .string (s ++ t)
  else
    let x ← lhs.number op.symbol
    let y ← rhs.number op.symbol
    match op.compute? x y with
    | some z => return .number z
    | none => throw (.divisionByZero span.site)

end ArithOp

/-- The larger of two numbers; what is no number loses against a number. -/
def larger (x y : Float) : Float :=
  if x.isNaN then y else if y.isNaN then x else if x < y then y else x

/-- The smaller of two numbers; what is no number loses against a number. -/
def smaller (x y : Float) : Float :=
  if x.isNaN then y else if y.isNaN then x else if y < x then y else x

/-- The best of numbers by a choice between two; absent if there are none. -/
def best (choose : Float → Float → Float) : List Float → Value
  | [] => .undefined
  | x :: xs => .number (xs.foldl choose x)

namespace Builtin

/-- The numbers that `max` and `min` compare: those in the array, if it is the only argument, and
else all arguments as numbers. -/
def comparands (b : Builtin) (limits : Limits) (args : List Operand) :
    Except FormulaError (List Float) :=
  match args with
  | [⟨_, .array items⟩] => do
    ensure (limits.checkArray items.length)
    return Value.numbers items
  | _ => args.mapM (Operand.number b.name)

/-- The elements of the array that is the argument of `count` or `sum`. -/
def elements (b : Builtin) (limits : Limits) (arg : Operand) :
    Except FormulaError (List Value) := do
  let items ← arg.items b.name
  ensure (limits.checkArray items.length)
  return items

/-- Applies a function. The number of arguments is not checked again: parsed calls have as many as
the function accepts. In a tree from elsewhere, surplus arguments are ignored, and a first one that
is missing is read all the same, which ends the program. -/
def apply (b : Builtin) (limits : Limits) (args : List Operand) : Except FormulaError Value :=
  match b, args with
  | .max, args => return best larger (← comparands .max limits args)
  | .min, args => return best smaller (← comparands .min limits args)
  | .abs, arg :: _ => return .number (← arg.number Builtin.abs.name).abs
  | .count, arg :: _ => return .number (Float.ofNat (← elements .count limits arg).length)
  | .sum, arg :: _ =>
    return .number ((Value.numbers (← elements .sum limits arg)).foldl (· + ·) 0)
  | _, [] => .error .aborted

end Builtin

end FormCalc
