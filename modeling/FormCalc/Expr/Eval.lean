import FormCalc.Expr.Operand
import FormCalc.Expr.Parser

/-!
# Evaluation

An expression is evaluated against a value, its context, of which identifiers are members. The
context is given apart from the formula, so blocked names and the size of arrays are checked here
again, before anything is looked up.

* `Evaluation.eval`: the value of an expression.
* `Formula.eval`: the value of a formula.
-/

namespace FormCalc

/-- What an expression is evaluated with. -/
structure Evaluation where
  limits : Limits
  context : Value

/-- The element that a value addresses in an array, or the member that it addresses in an object.
Only natural numbers address elements and only strings address members. -/
def Value.select (target address : Value) : Except LimitError Value :=
  match target, address with
  | .array _, .number x =>
    match Number.natural? x with
    | some i => .ok (target.element i)
    | none => .ok .undefined
  | .object _, .string name => do
    checkName name
    return target.member name
  | _, _ => .ok .undefined

namespace Evaluation

/-- The name may be looked up. -/
def checkName (name : String) : Except FormulaError Unit :=
  ensure (FormCalc.checkName name)

theorem checkName_eq_ok {name : String} {u : Unit} :
    checkName name = .ok u ↔ name ∉ blockedNames :=
  ensure_checkName_eq_ok

variable (ev : Evaluation)

/-- A value that is an array has to be within its ceiling before it is looked into. -/
def checkTarget (target : Value) : Except FormulaError Unit :=
  match target with
  | .array items => ensure (ev.limits.checkArray items.length)
  | _ => .ok ()

mutual

/-- The value of an expression. -/
def eval : Expr → Except FormulaError Value
  | .number _ x => return .number x
  | .text _ s => return .string s
  | .var _ name => do
    checkName name
    return ev.context.member name
  | .field _ target _ name => do
    checkName name
    let v ← eval target
    return v.member name
  | .index _ target i => do
    let v ← eval target
    ev.checkTarget v
    let j ← eval i
    ensure (v.select j)
  | .negate _ operand => do
    let v ← eval operand
    let x ← (Operand.mk operand.span v).number "-"
    return .number (-x)
  | .arith span op lhs rhs => do
    let v ← eval lhs
    let w ← eval rhs
    op.apply span ⟨lhs.span, v⟩ ⟨rhs.span, w⟩
  | .call _ nameSpan name args =>
    match Builtin.ofName? name with
    | none => throw (.unknownFunction nameSpan.site name .evaluation)
    | some b => do
      let operands ← evalAll args
      b.apply ev.limits operands

/-- The operands that expressions evaluate to, from left to right. -/
def evalAll : List Expr → Except FormulaError (List Operand)
  | [] => return []
  | e :: es => do
    let v ← eval e
    let operands ← evalAll es
    return ⟨e.span, v⟩ :: operands

end

end Evaluation

/-- The value of a formula in a context. -/
def Formula.eval (f : Formula) (limits : Limits) (context : Value) : Except FormulaError Value :=
  Evaluation.eval ⟨limits, context⟩ f.tree

end FormCalc
