import FormCalc.Expr
import FormCalc.Token.Recovery

/-!
# From tokens to expressions

The grammar, from what binds loosest to what binds tightest:

```text
expression     := product (('+' | '-') product)*
product        := power (('*' | '/') power)*
power          := unary ('^' unary)*            joined from the right
unary          := '-'? postfix
postfix        := primary ('.' ident | '[' expression ']')*
primary        := number | string | call | ident | '(' expression ')'
call           := ident '(' (expression (',' expression)*)? ')'
```

A rule is a function of the parser for the expressions inside brackets. Two counters are kept: the
depth, which brackets raise and lower, and the number of nodes, which only grows. Passing a
ceiling ends the parse. A parse that fails keeps the counters and the token it had reached, and if
it could read no further token, the next parse reads on behind the fault.

* `Parser.expression`: one expression.
* `Parser.formula`: one expression that is the whole formula.
* `parse`: the formula of a text.
-/

namespace FormCalc

/-- How far a parse has come: the token in hand, the tokens after it, where the last token that
was taken ends, and the two counters. -/
structure Progress where
  current : Token
  upcoming : List Token
  lastStop : Nat
  depth : Nat
  nodes : Nat
deriving DecidableEq

/-- What a parse works on: the source and the ceilings, and the error that stands behind the last
token, if the text could not be cut into tokens up to its end. -/
structure Assignment where
  source : Source
  limits : Limits
  failure? : Option FormulaError
deriving DecidableEq

/-- A parse changes its progress also when it fails. -/
abbrev Parse := EStateM FormulaError Progress

namespace Parse

/-- Lifts a result that does not depend on the progress. -/
def lift {α : Type} (r : Except FormulaError α) : Parse α := fun s =>
  match r with
  | .ok a => .ok a s
  | .error e => .error e s

/-- The token in hand. -/
def current : Parse Token := fun s => .ok s.current s

/-- The symbol in hand, if it is one. -/
def symbol? : Parse (Option Symbol) := fun s => .ok s.current.lexeme.symbol? s

/-- A number of steps that no loop reaches in which each step takes a token. -/
def steps : Parse Nat := fun s => .ok (s.upcoming.length + 1) s

/-- Where the last token that was taken ends. -/
def lastStop : Parse Nat := fun s => .ok s.lastStop s

variable (a : Assignment)

/-- Fails at the token in hand. -/
def fault {α : Type} (f : Fault) : Parse α := fun s =>
  .error (.malformed s.current.span.site f) s

/-- Takes the token in hand. The end is never left behind. -/
def advance : Parse Unit := fun s =>
  let s' := { s with lastStop := s.current.span.stop }
  match s.upcoming, a.failure? with
  | t :: ts, _ => .ok () { s' with current := t, upcoming := ts }
  | [], some e => .error e s'
  | [], none => .ok () s'

/-- Counts a node. -/
def countNode : Parse Unit := fun s =>
  let s' := { s with nodes := s.nodes + 1 }
  match a.limits.checkNodes s'.nodes with
  | .ok _ => .ok () s'
  | .error e => .error (.limit e) s'

/-- Goes down a level. -/
def enter : Parse Unit := fun s =>
  let s' := { s with depth := s.depth + 1 }
  match a.limits.checkDepth s'.depth with
  | .ok _ => .ok () s'
  | .error e => .error (.limit e) s'

/-- Comes back up a level. -/
def leave : Parse Unit := fun s => .ok () { s with depth := s.depth - 1 }

/-- Parses one level down. -/
def nested {α : Type} (p : Parse α) : Parse α := do
  enter a
  let x ← p
  leave
  return x

/-- Takes the bracket that closes a construct. -/
def close (c : Construct) : Parse Unit := do
  if (← symbol?) = some c.closing then advance a else fault (.unclosed c)

/-- Takes an identifier that is no blocked name. -/
def ident : Parse (Span × String) := do
  let t ← current
  match t.lexeme with
  | .ident name =>
    let name := String.ofList name
    lift (ensure (checkName name))
    advance a
    return (t.span, name)
  | _ => fault .expectingIdentifier

/-- The arguments of a call, of which there is at least one. -/
def arguments (expression : Parse Expr) : Nat → Parse (List Expr)
  | 0 => fault .unexpectedEnd
  | n + 1 => do
    let arg ← nested a expression
    if (← symbol?) = some .comma then
      advance a
      let args ← arguments expression n
      return arg :: args
    else return [arg]

/-- The arguments of a call whose bracket has been taken. -/
def callArguments (expression : Parse Expr) : Parse (List Expr) := do
  if (← symbol?) = some .closeParen then return [] else arguments a expression (← steps)

/-- Checks the number of arguments of a call. -/
def checkArity (nameSpan : Span) (name : String) (b : Builtin) (count : Nat) :
    Except FormulaError Unit :=
  if b.arity.accepts count then .ok ()
  else .error (.argumentCount nameSpan.site name b.arity count)

/-- The rest of a call whose name has been taken. -/
def call (expression : Parse Expr) (nameSpan : Span) (name : String) : Parse Expr := do
  match Builtin.ofName? name with
  | none => throw (.unknownFunction nameSpan.site name .parsing)
  | some b =>
    advance a
    let args ← callArguments a expression
    close a .call
    lift (checkArity nameSpan name b args.length)
    countNode a
    return .call { nameSpan with stop := ← lastStop } nameSpan name args

/-- A primary expression. -/
def primary (expression : Parse Expr) : Parse Expr := do
  let t ← current
  match t.lexeme with
  | .number n =>
    countNode a
    advance a
    return .number t.span n.nearest
  | .doubleQuoted _ | .singleQuoted _ =>
    countNode a
    let value ← lift t.value
    advance a
    return .text t.span value
  | .ident _ =>
    let (span, name) ← ident a
    if (← symbol?) = some .openParen then call a expression span name
    else
      countNode a
      return .var span name
  | .symbol .openParen =>
    advance a
    let e ← nested a expression
    close a .group
    return e
  | .eof => fault .unexpectedEnd
  | .symbol s => fault (.unexpected [s.char])

/-- The fields and indices behind a target. -/
def references (expression : Parse Expr) : Nat → Expr → Parse Expr
  | 0, target => return target
  | n + 1, target => do
    match ← symbol? with
    | some .dot =>
      advance a
      let (nameSpan, name) ← ident a
      countNode a
      let span := { target.span with stop := ← lastStop }
      references expression n (.field span target nameSpan name)
    | some .openBracket =>
      advance a
      let i ← nested a expression
      close a .index
      countNode a
      let span := { target.span with stop := ← lastStop }
      references expression n (.index span target i)
    | _ => return target

/-- A primary expression with its fields and indices. -/
def postfixed (expression : Parse Expr) : Parse Expr := do
  let e ← primary a expression
  references a expression (← steps) e

/-- A postfix expression with a minus sign or without. -/
def unary (expression : Parse Expr) : Parse Expr := do
  let t ← current
  if t.lexeme = .symbol .minus then
    advance a
    let e ← postfixed a expression
    countNode a
    return .negate { t.span with stop := ← lastStop } e
  else postfixed a expression

/-- The operands behind the first one of a chain of powers. -/
def exponents (expression : Parse Expr) : Nat → Parse (List Expr)
  | 0 => return []
  | n + 1 => do
    if (← symbol?) = some .power then
      advance a
      let e ← unary a expression
      countNode a
      let es ← exponents expression n
      return e :: es
    else return []

/-- A chain of powers. -/
def power (expression : Parse Expr) : Parse Expr := do
  let e ← unary a expression
  let es ← exponents a expression (← steps)
  return Expr.powers e es

/-- Operands behind the first one, joined from the left by operators of one level. -/
def chain (operator? : Symbol → Option ArithOp) (operand : Parse Expr) : Nat → Expr → Parse Expr
  | 0, lhs => return lhs
  | n + 1, lhs => do
    match (← symbol?).bind operator? with
    | some op =>
      advance a
      let rhs ← operand
      countNode a
      chain operator? operand n (Expr.join op lhs rhs)
    | none => return lhs

/-- The operators that join powers. -/
def productOperator? : Symbol → Option ArithOp
  | .times => some .mul
  | .divide => some .div
  | _ => none

/-- The operators that join products. -/
def sumOperator? : Symbol → Option ArithOp
  | .plus => some .add
  | .minus => some .sub
  | _ => none

/-- A chain of multiplications and divisions. -/
def product (expression : Parse Expr) : Parse Expr := do
  let e ← power a expression
  chain a productOperator? (power a expression) (← steps) e

/-- A chain of additions and subtractions. -/
def sum (expression : Parse Expr) : Parse Expr := do
  let e ← product a expression
  chain a sumOperator? (product a expression) (← steps) e

/-- An expression with brackets nested less than `n` deep. -/
def expressionWithin : Nat → Parse Expr
  | 0 => fault .unexpectedEnd
  | n + 1 => sum a (expressionWithin n)

/-- An expression. A bracket takes a token, so the tokens ahead bound the nesting. -/
def expression : Parse Expr := do
  expressionWithin a (← steps)

/-- An expression that is the whole formula. -/
def formula : Parse Expr := do
  if (← current).lexeme = .eof then fault .emptyFormula
  else
    let e ← nested a (expression a)
    let t ← current
    if t.lexeme = .eof then return e else fault (.afterExpression t.lexeme.text)

end Parse

/-- A parse that can be taken up again where it stopped. -/
structure Parser where
  assignment : Assignment
  progress : Progress
  /-- Where the reading of the tokens ahead began. -/
  origin : Cursor
deriving DecidableEq

namespace Parser

/-- A parser at the first token of a source. -/
def ofSource (source : Source) (limits : Limits) : Except FormulaError Parser :=
  let stream := tokenize source
  match stream.tokens, stream.failure? with
  | t :: ts, failure? => .ok ⟨⟨source, limits, failure?⟩, ⟨t, ts, 0, 0, 0⟩, .front source⟩
  | [], some e => .error e
  | [], none => .error (.malformed ⟨source, 1, 1⟩ .emptyFormula)

/-- The parser that goes on with the tokens behind the fault at which reading stopped. -/
def resumed (p : Parser) : Parser :=
  match p.origin.behindFault with
  | some k =>
    let stream := k.tokens p.assignment.source
    { assignment := { p.assignment with failure? := stream.failure? }
      progress := { p.progress with upcoming := stream.tokens }
      origin := k }
  | none => p

/-- Runs a parse; the parser that is given back goes on where the parse stopped, and behind the
fault of the text if that is what the parse failed for. -/
def run (p : Parser) (rule : Assignment → Parse Expr) : Except FormulaError Expr × Parser :=
  match rule p.assignment p.progress with
  | .ok e s => (.ok e, { p with progress := s })
  | .error err s =>
    let stopped := { p with progress := s }
    (.error err, if p.assignment.failure? = some err then stopped.resumed else stopped)

/-- Parses one expression. -/
def expression (p : Parser) : Except FormulaError Expr × Parser :=
  p.run Parse.expression

/-- Parses one expression that is the rest of the formula. -/
def formula (p : Parser) : Except FormulaError Expr × Parser :=
  p.run Parse.formula

/-- The text of the token in hand; the text of a string literal is not shown. -/
def tokenText (p : Parser) : List Char :=
  let l := p.progress.current.lexeme
  if l.isLiteral then [] else l.text

/-- The nodes counted so far. -/
def nodeCount (p : Parser) : Nat := p.progress.nodes

end Parser

/-- The source of a text that is short enough. A text has no more characters than bytes, so the
characters are counted only if the bytes pass the ceiling. -/
def Source.ofText (file text : String) (limits : Limits) : Except FormulaError Source := do
  if limits.formulaLength < Text.size text.toList then
    ensure (limits.checkLength text.length)
  return ⟨file, text.toList⟩

/-- The expression that the text of a source is. -/
def Source.parse (source : Source) (limits : Limits) : Except FormulaError Expr := do
  let p ← Parser.ofSource source limits
  p.formula.1

/-- A formula: its source and the expression that the source is. -/
structure Formula where
  source : Source
  tree : Expr

/-- The formula of a text. -/
def parse (file text : String) (limits : Limits) : Except FormulaError Formula := do
  let source ← Source.ofText file text limits
  let tree ← source.parse limits
  return ⟨source, tree⟩

end FormCalc
