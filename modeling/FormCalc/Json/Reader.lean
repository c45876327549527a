import FormCalc.Json.Quoted
import FormCalc.Number.Numeral

/-!
# Reading JSON text

A reader takes what it needs from the front of a text or stops with a fault. Here are the readers
that all others are made of: blanks, keywords, strings, numbers, and the punctuation of lists and
objects, where the same punctuation is a different fault depending on what stood before it.

* `document`: a whole text holds one value and blanks.
* `moreElements`, `moreMembers`: whether another element or member follows.
-/

namespace FormCalc.Json

open Number (Numeral)

/-- Takes something from the front of a text. -/
abbrev Reader := StateT (List Char) (Except Fault)

/-- Characters that may stand between any two tokens. -/
def isBlank (c : Char) : Bool :=
  c == ' ' || c == '\n' || c == '\t' || c == '\r'

/-- The next character that is no blank; it is left in the text. -/
def peek : Reader (Option Char) := fun cs =>
  let cs := cs.dropWhile isBlank
  .ok (cs.head?, cs)

/-- Drops the character that was peeked at. -/
def skip : Reader Unit := fun cs => .ok ((), cs.tail)

/-- Reads the rest of a keyword. -/
def keyword : List Char → Reader Unit
  | [] => pure ()
  | c :: cs => do
    match ← get with
    | [] => throw .endInValue
    | d :: rest => if d = c then set rest; keyword cs else throw .badKeyword

/-- Reads the rest of a string whose opening quote has been read. -/
def stringBody : Reader String := fun cs =>
  match body cs with
  | .ok (s, rest) => .ok (String.ofList s, rest)
  | .error e => .error e.fault

/-- Reads the digits in front. -/
def digitRun : Reader (List Char) := fun cs =>
  .ok (cs.takeWhile Char.isDigit, cs.dropWhile Char.isDigit)

/-- Reads digits where there has to be one. The text may end here with the given fault. -/
def someDigits (atEnd : Fault) : Reader (List Char) := do
  let ds ← digitRun
  if ds = [] then throw (if (← get) = [] then atEnd else .badNumber)
  return ds

/-- Reads the digits of the whole part, which have no leading zero. -/
def wholePart (atEnd : Fault) : Reader (List Char) := do
  let ds ← someDigits atEnd
  if ds.head? = some '0' ∧ 1 < ds.length then throw .badNumber
  return ds

/-- Reads a fraction if there is one. -/
def fractionPart (atEnd : Fault) : Reader (List Char) := do
  match ← get with
  | '.' :: rest => set rest; someDigits atEnd
  | _ => return []

/-- Reads an exponent if there is one. -/
def exponentPart (atEnd : Fault) : Reader (Option Number.Exponent) := do
  match ← get with
  | c :: rest =>
    if c = 'e' ∨ c = 'E' then
      match rest with
      | s :: rest' =>
        if s = '+' ∨ s = '-' then set rest'; return some ⟨c, some s, ← someDigits atEnd⟩
        else set rest; return some ⟨c, none, ← someDigits atEnd⟩
      | [] => throw atEnd
    else return none
  | [] => return none

/-- Reads a numeral without sign. `atEnd` is the fault if the text ends where a digit is due. -/
def numeral (atEnd : Fault) : Reader Numeral := do
  let whole ← wholePart atEnd
  let fraction ← fractionPart atEnd
  let exponent? ← exponentPart atEnd
  return ⟨whole, fraction, exponent?⟩

/-- A number of a JSON text: an integer that fits 64 bits, or a double. -/
inductive NumberToken where
  | integer (i : Int)
  | floating (x : Float)
deriving DecidableEq

/-- The number of a numeral behind its sign. Integers are exact up to `2 ^ 64 - 1` and down to
`-2 ^ 63`; the negative zero is a double. -/
def NumberToken.ofNumeral? (negative : Bool) (n : Numeral) : Option NumberToken :=
  match n.natural? with
  | some k =>
    if !negative then some (.integer k)
    else if k = 0 ∨ Nat.pow 2 63 < k then some (.floating (-(Float.ofNat k)))
    else some (.integer (-k))
  | none => n.stepwise?.map fun x => .floating (if negative then -x else x)

/-- The number as a double. -/
def NumberToken.toFloat : NumberToken → Float
  | .integer i => if i < 0 then -(Float.ofNat i.natAbs) else Float.ofNat i.natAbs
  | .floating x => x

/-- Reads a number whose sign has been read. -/
def number (negative : Bool) : Reader NumberToken := do
  let n ← numeral .endInValue
  match NumberToken.ofNumeral? negative n with
  | some t => return t
  | none => throw .outOfRange

/-- Whether another element of a list follows; the bracket that closes the list is left in the
text. `first` tells that no element has been read yet. -/
def moreElements (first : Bool) : Reader Bool := do
  match ← peek with
  | none => throw .endInList
  | some c =>
    if c = ']' then return false
    else if first then return true
    else if c = ',' then
      skip
      match ← peek with
      | none => throw .endInValue
      | some d => if d = ']' then throw .trailingComma else return true
    else throw .noListComma

/-- Whether another member of an object follows. The quote that opens its key has then been read;
the brace that closes the object is left in the text. -/
def moreMembers (first : Bool) : Reader Bool := do
  match ← peek with
  | none => throw .endInObject
  | some c =>
    if c = '}' then return false
    else if first then
      if c = '"' then skip; return true else throw .keyNotString
    else if c = ',' then
      skip
      match ← peek with
      | none => throw .endInValue
      | some d =>
        if d = '"' then skip; return true
        else if d = '}' then throw .trailingComma
        else throw .keyNotString
    else throw .noObjectComma

/-- Reads the colon behind a key. -/
def colon : Reader Unit := do
  match ← peek with
  | none => throw .endInObject
  | some c => if c = ':' then skip else throw .noColon

/-- Reads the end of a list after which no more elements are taken. -/
def closeList : Reader Unit := do
  match ← peek with
  | none => throw .endInList
  | some c =>
    if c = ']' then skip
    else if c = ',' then
      skip
      if (← peek) = some ']' then throw .trailingComma else throw .trailingCharacters
    else throw .trailingCharacters

/-- Reads the end of an object after which no more members are taken. -/
def closeObject : Reader Unit := do
  match ← peek with
  | none => throw .endInObject
  | some c =>
    if c = '}' then skip
    else if c = ',' then throw .trailingComma
    else throw .trailingCharacters

/-- Reads the elements of a list whose bracket has been read. A text of less than `bound`
characters has less than `bound` elements. -/
def elements {α : Type} (element : Reader α) : Nat → Bool → Reader (List α)
  | 0, _ => return []
  | n + 1, first => do
    if ← moreElements first then
      let x ← element
      let xs ← elements element n false
      return x :: xs
    else return []

/-- Reads a text that holds one value, with blanks around it. -/
def document {α : Type} (reader : Reader α) (text : String) : Except Fault α := do
  let (x, rest) ← reader text.toList
  if (rest.dropWhile isBlank).isEmpty then return x else throw .trailingCharacters

end FormCalc.Json
