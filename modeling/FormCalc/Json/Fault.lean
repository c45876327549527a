import FormCalc.Number.Text
import FormCalc.Text.Diagnostic

/-!
# Faults of JSON text

Why a JSON text cannot be read. A `Fault` is a cause, and `Fault.message` is its wording. The last
group of causes arises only where the text has to hold a record or a value of a certain type.
-/

namespace FormCalc.Json

/-- What was found where something else had to stand. -/
inductive Found where
  | null
  | boolean (b : Bool)
  | integer (i : Int)
  | floating (x : Float)
  | string (s : List Char)
  | sequence
  | map
deriving DecidableEq

/-- What had to stand there. -/
inductive Wanted where
  | natural
  | string
  | boolean
  | sequence
  | record (name : String)
deriving DecidableEq

/-- Why a text cannot be read. -/
inductive Fault where
  | endInList
  | endInObject
  | endInString
  | endInValue
  | noColon
  | noListComma
  | noObjectComma
  | badKeyword
  | noValue
  | badEscape
  | badNumber
  | outOfRange
  | controlCharacter
  | keyNotString
  | loneSurrogate
  | trailingComma
  | trailingCharacters
  | cutSurrogatePair
  | tooDeep
  | missingField (name : String)
  | duplicateField (name : String)
  | tooFewElements (count : Nat) (record : String) (size : Nat)
  | wrongType (found : Found) (wanted : Wanted)
  | negative (i : Int)
deriving DecidableEq

/-- How a found value is named. -/
def Found.text : Found → String
  | .null => "null"
  | .boolean b => s!"boolean `{b}`"
  | .integer i => s!"integer `{i}`"
  | .floating x => "floating point `" ++ String.ofList (Number.jsonFloat x) ++ "`"
  | .string s => "string " ++ String.ofList (Text.quoted s)
  | .sequence => "sequence"
  | .map => "map"

/-- How a wanted value is named. -/
def Wanted.text : Wanted → String
  | .natural => "usize"
  | .string => "a string"
  | .boolean => "a boolean"
  | .sequence => "a sequence"
  | .record name => s!"struct {name}"

/-- The wording of a fault. -/
def Fault.message : Fault → String
  | .endInList => "EOF while parsing a list"
  | .endInObject => "EOF while parsing an object"
  | .endInString => "EOF while parsing a string"
  | .endInValue => "EOF while parsing a value"
  | .noColon => "expected `:`"
  | .noListComma => "expected `,` or `]`"
  | .noObjectComma => "expected `,` or `\x7d`"
  | .badKeyword => "expected ident"
  | .noValue => "expected value"
  | .badEscape => "invalid escape"
  | .badNumber => "invalid number"
  | .outOfRange => "number out of range"
  | .controlCharacter => "control character (\\u0000-\\u001F) found while parsing a string"
  | .keyNotString => "key must be a string"
  | .loneSurrogate => "lone leading surrogate in hex escape"
  | .trailingComma => "trailing comma"
  | .trailingCharacters => "trailing characters"
  | .cutSurrogatePair => "unexpected end of hex escape"
  | .tooDeep => "recursion limit exceeded"
  | .missingField name => s!"missing field `{name}`"
  | .duplicateField name => s!"duplicate field `{name}`"
  | .tooFewElements count record size =>
    s!"invalid length {count}, expected struct {record} with {size} elements"
  | .wrongType found wanted => s!"invalid type: {found.text}, expected {wanted.text}"
  | .negative i => s!"invalid value: integer `{i}`, expected {Wanted.natural.text}"

end FormCalc.Json
