import FormCalc.Json.Record
import FormCalc.Value

/-!
# Values in JSON

* `write`: the text of a value on one line. The absent value and what is no number become `null`.
* `writeIndented`: the same with one member or element to a line.
* `read`: reads a value; of a key that occurs more than once the last value counts.
-/

namespace FormCalc.Value

open Json (Reader)

mutual

/-- The text of a value without blanks. -/
def write : Value → List Char
  | .null => "null".toList
  | .undefined => "null".toList
  | .bool true => "true".toList
  | .bool false => "false".toList
  | .number x => Number.json x
  | .string s => Json.quote s.toList
  | .array items => '[' :: writeItems items true
  | .object members => '{' :: writeMembers members true

/-- The elements of an array and its closing bracket; `first` tells that no comma is due. -/
def writeItems : List Value → Bool → List Char
  | [], _ => [']']
  | v :: items, first => (if first then [] else [',']) ++ write v ++ writeItems items false

/-- The members of an object and its closing brace. -/
def writeMembers : List (String × Value) → Bool → List Char
  | [], _ => ['}']
  | (k, v) :: members, first =>
    (if first then [] else [',']) ++ Json.quote k.toList ++ ':' :: write v ++
      writeMembers members false

end

/-- A new line at a level of indentation of two blanks each. -/
def newLine (level : Nat) : List Char :=
  '\n' :: List.replicate (2 * level) ' '

mutual

/-- The text of a value with one member or element to a line. -/
def writeAt (level : Nat) : Value → List Char
  | .array items => '[' :: writeItemsAt level items true
  | .object members => '{' :: writeMembersAt level members true
  | .null => "null".toList
  | .undefined => "null".toList
  | .bool true => "true".toList
  | .bool false => "false".toList
  | .number x => Number.json x
  | .string s => Json.quote s.toList

/-- The elements of an array, each on its line, and the closing bracket. -/
def writeItemsAt (level : Nat) : List Value → Bool → List Char
  | [], first => (if first then [] else newLine level) ++ [']']
  | v :: items, first =>
    (if first then [] else [',']) ++ newLine (level + 1) ++ writeAt (level + 1) v ++
      writeItemsAt level items false

/-- The members of an object, each on its line, and the closing brace. -/
def writeMembersAt (level : Nat) : List (String × Value) → Bool → List Char
  | [], first => (if first then [] else newLine level) ++ ['}']
  | (k, v) :: members, first =>
    (if first then [] else [',']) ++ newLine (level + 1) ++ Json.quote k.toList ++
      [':', ' '] ++ writeAt (level + 1) v ++ writeMembersAt level members false

end

/-- The text of a value with one member or element to a line. -/
def writeIndented (v : Value) : List Char :=
  writeAt 0 v

/-- Reads the members of an object whose brace has been read. -/
def readMembers (value : Reader Value) : Nat → Bool → Reader (List (String × Value))
  | 0, _ => return []
  | n + 1, first => do
    if ← Json.moreMembers first then
      let key ← Json.stringBody
      Json.colon
      let v ← value
      let members ← readMembers value n false
      return (key, v) :: members
    else return []

/-- Reads one value, given a reader for the values inside it, if it may have any. -/
def readOver (inner? : Option (Reader Value)) (bound : Nat) : Reader Value := do
  match ← Json.peek with
  | none => throw .endInValue
  | some c =>
    if c = 'n' then do Json.skip; Json.keyword ['u', 'l', 'l']; return .null
    else if c = 't' then do Json.skip; Json.keyword ['r', 'u', 'e']; return .bool true
    else if c = 'f' then do Json.skip; Json.keyword ['a', 'l', 's', 'e']; return .bool false
    else if c = '-' then do Json.skip; return .number (← Json.number true).toFloat
    else if c.isDigit then return .number (← Json.number false).toFloat
    else if c = '"' then do Json.skip; return .string (← Json.stringBody)
    else if c = '[' then
      match inner? with
      | none => throw .tooDeep
      | some inner =>
        Json.skip
        let items ← Json.elements inner bound true
        Json.closeList
        return .array items
    else if c = '{' then
      match inner? with
      | none => throw .tooDeep
      | some inner =>
        Json.skip
        let members ← readMembers inner bound true
        Json.closeObject
        return .object (Table.ofList members)
    else throw .noValue

/-- Reads one value with at most the given number of arrays and objects inside one another. -/
def readNested (bound : Nat) : Nat → Reader Value
  | 0 => readOver none bound
  | depth + 1 => readOver (some (readNested bound depth)) bound

/-- The number of arrays and objects that may stand inside one another. -/
def maxNesting : Nat := 127

/-- Reads a text that holds one value. -/
def read (text : String) : Except Json.Fault Value :=
  Json.document (readNested (text.length + 1) maxNesting) text

end FormCalc.Value
