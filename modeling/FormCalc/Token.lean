import FormCalc.Number.Numeral
import FormCalc.Source

/-!
# Tokens

A formula is a sequence of tokens with blanks between them. A token is a lexeme, which says what
was written, and the span of its text. The quotes of a string literal are outside its span.

* `Lexeme.text`: the text inside the span.
* `Lexeme.written`: the text with its quotes, as it stands in the formula.
-/

namespace FormCalc

/-- Operators, brackets and separators. -/
inductive Symbol where
  | plus | minus | times | divide | power
  | openParen | closeParen | openBracket | closeBracket | comma | dot
deriving DecidableEq

namespace Symbol

/-- All symbols. -/
def all : List Symbol :=
  [.plus, .minus, .times, .divide, .power, .openParen, .closeParen, .openBracket, .closeBracket,
    .comma, .dot]

/-- The character of a symbol. -/
def char : Symbol → Char
  | .plus => '+'
  | .minus => '-'
  | .times => '*'
  | .divide => '/'
  | .power => '^'
  | .openParen => '('
  | .closeParen => ')'
  | .openBracket => '['
  | .closeBracket => ']'
  | .comma => ','
  | .dot => '.'

/-- The symbol of a character. -/
def ofChar? (c : Char) : Option Symbol :=
  all.find? fun s => s.char = c

theorem ofChar?_eq_some_iff {c : Char} {s : Symbol} : ofChar? c = some s ↔ s.char = c := by
  constructor
  · intro h
    simpa using List.find?_some h
  · rintro rfl
    cases s <;> decide

end Symbol

/-- What was written. The body of a string literal is kept as it stands between its quotes. -/
inductive Lexeme where
  | symbol (s : Symbol)
  | ident (name : List Char)
  | number (n : Number.Numeral)
  | doubleQuoted (body : List Char)
  | singleQuoted (body : List Char)
  | eof
deriving DecidableEq

namespace Lexeme

/-- The text inside the span of the token. -/
def text : Lexeme → List Char
  | .symbol s => [s.char]
  | .ident name => name
  | .number n => n.text
  | .doubleQuoted body => body
  | .singleQuoted body => body
  | .eof => []

/-- The quote around the text, if there is one. -/
def quote : Lexeme → List Char
  | .doubleQuoted _ => ['"']
  | .singleQuoted _ => ['\'']
  | _ => []

/-- The text as it stands in the formula. -/
def written (l : Lexeme) : List Char :=
  l.quote ++ l.text ++ l.quote

/-- The symbol, if the lexeme is one. -/
def symbol? : Lexeme → Option Symbol
  | .symbol s => some s
  | _ => none

/-- Whether the lexeme is a string literal. -/
def isLiteral : Lexeme → Bool
  | .doubleQuoted _ | .singleQuoted _ => true
  | _ => false

end Lexeme

/-- A lexeme and the span of its text. -/
structure Token where
  lexeme : Lexeme
  span : Span
deriving DecidableEq

end FormCalc
