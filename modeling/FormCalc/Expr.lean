import FormCalc.Source

/-!
# Expressions

The tree of a formula. Every node carries the span of its text; parentheses leave no node and lie
outside the spans.

* `Expr.nodeCount`: the number of nodes.
* `Expr.join`: the node of a binary operator, which spans from its left to its right operand.
-/

namespace FormCalc

/-- The binary operators. -/
inductive ArithOp where
  | add | sub | mul | div | pow
deriving DecidableEq

/-- The symbol of an operator. -/
def ArithOp.symbol : ArithOp → String
  | .add => "+"
  | .sub => "-"
  | .mul => "*"
  | .div => "/"
  | .pow => "^"

/-- An expression. -/
inductive Expr where
  | number (span : Span) (value : Float)
  | text (span : Span) (value : String)
  | var (span : Span) (name : String)
  | field (span : Span) (target : Expr) (nameSpan : Span) (name : String)
  | index (span : Span) (target : Expr) (position : Expr)
  | negate (span : Span) (operand : Expr)
  | arith (span : Span) (op : ArithOp) (lhs rhs : Expr)
  | call (span : Span) (nameSpan : Span) (name : String) (args : List Expr)

namespace Expr

/-- The span of a node. -/
def span : Expr → Span
  | .number span _ | .text span _ | .var span _ | .field span _ _ _ | .index span _ _
  | .negate span _ | .arith span _ _ _ | .call span _ _ _ => span

mutual

/-- The number of nodes of a tree. -/
def nodeCount : Expr → Nat
  | .number _ _ | .text _ _ | .var _ _ => 1
  | .field _ target _ _ => nodeCount target + 1
  | .index _ target i => nodeCount target + nodeCount i + 1
  | .negate _ operand => nodeCount operand + 1
  | .arith _ _ lhs rhs => nodeCount lhs + nodeCount rhs + 1
  | .call _ _ _ args => nodeCounts args + 1

/-- The number of nodes of several trees. -/
def nodeCounts : List Expr → Nat
  | [] => 0
  | e :: es => nodeCount e + nodeCounts es

end

/-- The node of a binary operator. -/
def join (op : ArithOp) (lhs rhs : Expr) : Expr :=
  .arith { lhs.span with stop := rhs.span.stop } op lhs rhs

/-- The operands of a chain of powers, joined from the right. -/
def powers (first : Expr) : List Expr → Expr
  | [] => first
  | next :: rest => join .pow first (powers next rest)

@[simp] theorem nodeCount_join (op : ArithOp) (lhs rhs : Expr) :
    (join op lhs rhs).nodeCount = lhs.nodeCount + rhs.nodeCount + 1 := by
  simp [join, nodeCount]

/-- Each operator of a chain of powers is a node. -/
theorem nodeCount_powers (first : Expr) (rest : List Expr) :
    (powers first rest).nodeCount = first.nodeCount + nodeCounts rest + rest.length := by
  induction rest generalizing first with
  | nil => simp [powers, nodeCounts]
  | cons next rest ih => simp [powers, nodeCounts, ih]; omega

end Expr

end FormCalc
