import FormCalc.Builtin
import FormCalc.Json.Fault
import FormCalc.Limits
import FormCalc.Token
import FormCalc.Value

/-!
# Errors of formulas

An error is a cause together with the site it is reported at; `FormulaError.message` is its full
text. All errors are local to one formula, so that a form can show each beside its field.

* `Fault`: why a text is no formula.
* `Mismatch`: why an operation cannot be applied to a value.
* `FormulaError`: all errors.
* `FormulaError.isTold`: whether the error gets out of the program.
-/

namespace FormCalc

/-- A construct that ends with a bracket. -/
inductive Construct where
  | group | call | index
deriving DecidableEq

/-- The bracket that ends a construct. -/
def Construct.closing : Construct → Symbol
  | .group => .closeParen
  | .call => .closeParen
  | .index => .closeBracket

/-- How a construct is named. -/
def Construct.text : Construct → String
  | .group => "parenthesized expression"
  | .call => "function call"
  | .index => "bracketed reference"

/-- Why a text is no formula. -/
inductive Fault where
  | invalidCharacter (c : Char)
  | invalidNumber
  | numberOutOfRange
  | noExponentDigits
  | unterminatedString
  | controlInString
  | invalidEscape
  | invalidHexEscape
  | invalidString (fault : Json.Fault) (column : Nat)
  | expectingString
  | emptyFormula
  | unexpectedEnd
  | unexpected (text : List Char)
  | afterExpression (text : List Char)
  | expectingIdentifier
  | unclosed (construct : Construct)
  | note (text : String)
deriving DecidableEq

/-- The wording of a fault. -/
def Fault.text : Fault → String
  | .invalidCharacter c => "invalid character `" ++ String.ofList (Text.lone c) ++ "`"
  | .invalidNumber => "invalid number"
  | .numberOutOfRange => "invalid number: out of range"
  | .noExponentDigits => "invalid number: missing exponent digits"
  | .unterminatedString => "unterminated string literal"
  | .controlInString => "invalid character in string"
  | .invalidEscape => "invalid escape sequence"
  | .invalidHexEscape => "invalid hex escape sequence"
  | .invalidString fault column =>
    s!"invalid string literal. {fault.message} at line 1 column {column}"
  | .expectingString => "expecting string"
  | .emptyFormula => "empty formula"
  | .unexpectedEnd => "unexpected end of formula, expecting expression"
  | .unexpected text => "unexpected `" ++ String.ofList text ++ "`, expecting expression"
  | .afterExpression text => "unexpected `" ++ String.ofList text ++ "` after expression"
  | .expectingIdentifier => "expecting identifier"
  | .unclosed construct =>
    let closing := String.singleton construct.closing.char
    s!"expecting `{closing}` while parsing {construct.text}"
  | .note text => text

/-- Why an operation, named by its symbol or its function, cannot be applied to a value. -/
inductive Mismatch where
  | notNumeric (operation : String) (kind : Kind)
  | notArray (operation : String) (kind : Kind)
  | notText (operation : String) (kind : Kind)
deriving DecidableEq

/-- The wording of a mismatch. -/
def Mismatch.text : Mismatch → String
  | .notNumeric operation kind =>
    s!"`{operation}` expects numeric argument. Got {kind.name} instead"
  | .notArray operation kind =>
    s!"`{operation}` expects array argument. Got {kind.name} instead"
  | .notText operation kind => s!"cannot apply `{operation}` to {kind.name} and string"

/-- The place that an error is reported at. -/
structure Site where
  source : Source
  line : Nat
  col : Nat
deriving DecidableEq

/-- The start of a span. -/
def Span.site (sp : Span) : Site :=
  ⟨sp.source, sp.line, sp.col⟩

/-- When a call was found to name no function. A parser tells the names there are. -/
inductive Stage where
  | parsing | evaluation
deriving DecidableEq

/-- An error of a formula, or that the program ends without one because a function reads an argument
that is not there. -/
inductive FormulaError where
  | aborted
  | limit (e : LimitError)
  | malformed (site : Site) (fault : Fault)
  | unknownFunction (site : Site) (name : String) (stage : Stage)
  | argumentCount (site : Site) (name : String) (arity : Arity) (actual : Nat)
  | notParsed (id : String)
  | divisionByZero (site : Site)
  | typeMismatch (site : Site) (mismatch : Mismatch)
deriving DecidableEq

namespace FormulaError

/-- The text of an error without its place. -/
def text : FormulaError → String
  | .aborted => ""
  | .limit e => e.message
  | .malformed _ fault => fault.text
  | .unknownFunction _ _ .evaluation => "unknown function"
  | .unknownFunction _ name .parsing =>
    let names := Builtin.nameList
    s!"unknown function `{name}`. Supported functions are {names}."
  | .argumentCount _ name arity actual =>
    s!"`{name}` expects {arity.text} {arity.noun}, got {actual}"
  | .notParsed id =>
    s!"formula for field `{id}` has not been parsed. Call parse_formula before evaluate."
  | .divisionByZero _ => "division by zero"
  | .typeMismatch _ mismatch => mismatch.text

/-- The place of an error that has one. -/
def site? : FormulaError → Option Site
  | .aborted | .limit _ | .notParsed _ => none
  | .malformed site _ | .unknownFunction site _ _ | .argumentCount site _ _ _
  | .divisionByZero site | .typeMismatch site _ => some site

/-- The full text of an error: located errors quote the row they stand on. -/
def message (e : FormulaError) : String :=
  match e.site? with
  | some site => site.source.message site.line site.col "error" e.text
  | none => e.text

/-- Whether the error is told. It is not if the program ends before: at a missing argument, or where
it would lay out a diagnostic that has no room. -/
def isTold (e : FormulaError) : Bool :=
  e ≠ .aborted && e.site?.all fun site => site.source.hasRoom site.line site.col

/-- The ceiling behind an error, if it is one. -/
def limit? : FormulaError → Option LimitError
  | .limit e => some e
  | _ => none

end FormulaError

/-- A failed check of a ceiling is an error of the formula. -/
def ensure {α : Type} (check : Except LimitError α) : Except FormulaError α :=
  check.mapError .limit

@[simp] theorem ensure_ok {α : Type} (x : α) : ensure (.ok x) = .ok x := rfl

@[simp] theorem ensure_error {α : Type} (e : LimitError) :
    ensure (.error e : Except LimitError α) = .error (.limit e) := rfl

theorem ensure_checkName_eq_ok {name : String} {u : Unit} :
    ensure (checkName name) = .ok u ↔ name ∉ blockedNames := by
  rw [← checkName_eq_ok_iff]
  cases h : checkName name <;> simp

end FormCalc
