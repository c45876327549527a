import FormCalc.Json.Reader

/-!
# Skipping a JSON value

The value of a member that nobody asks for is read and dropped. It may nest to any depth, numbers
are only checked for their form, and surrogates are not paired.
-/

namespace FormCalc.Json

/-- Reads the rest of a string and drops it. Escapes have to be well formed, but the numbers of
characters may be any. -/
def skipString (cs : List Char) : Except Fault (Unit × List Char) :=
  match cs with
  | [] => .error .endInString
  | c :: cs =>
    if c = '"' then .ok ((), cs)
    else if c = '\\' then
      match cs with
      | [] => .error .endInString
      | d :: ds =>
        if (shortEscape? d).isSome then skipString ds
        else if d = 'u' then
          match h : hexCode ds with
          | .error e => .error e.fault
          | .ok (_, rest) =>
            have := hexCode_length h
            skipString rest
        else .error .badEscape
    else if c.toNat < 0x20 then .error .controlCharacter
    else skipString cs
termination_by cs.length

/-- Whether another element of a skipped list or another member of a skipped object follows. -/
def moreSkipped (closing : Char) (first : Bool) : Reader Bool := do
  match ← peek with
  | none => throw (if closing = ']' then .endInList else .endInObject)
  | some c =>
    if c = closing then skip; return false
    else if first then return true
    else if c = ',' then skip; return true
    else throw (if closing = ']' then .noListComma else .noObjectComma)

/-- Skips the key of a member and its colon. -/
def skipKey : Reader Unit := do
  match ← peek with
  | none => throw .endInObject
  | some c =>
    if c = '"' then skip; skipString; colon else throw .keyNotString

/-- Skips the elements of a list, or the members of an object, up to the closing bracket. -/
def skipElements (element : Reader Unit) (closing : Char) : Nat → Bool → Reader Unit
  | 0, _ => return
  | n + 1, first => do
    if ← moreSkipped closing first then
      if closing = '}' then skipKey
      element
      skipElements element closing n false

/-- Skips one value, given a reader that skips the values inside it. -/
def skipValueOver (inner : Reader Unit) (bound : Nat) : Reader Unit := do
  match ← peek with
  | none => throw .endInValue
  | some c =>
    if c = 'n' then skip; keyword ['u', 'l', 'l']
    else if c = 't' then skip; keyword ['r', 'u', 'e']
    else if c = 'f' then skip; keyword ['a', 'l', 's', 'e']
    else if c = '-' then do skip; let _ ← numeral .badNumber
    else if c.isDigit then do let _ ← numeral .badNumber
    else if c = '"' then skip; skipString
    else if c = '[' then skip; skipElements inner ']' bound true
    else if c = '{' then skip; skipElements inner '}' bound true
    else throw .noValue

/-- Skips one value that nests less than `depth` deep, in a text of less than `bound`
characters. -/
def skipNested (bound : Nat) : Nat → Reader Unit
  | 0 => throw .tooDeep
  | depth + 1 => skipValueOver (skipNested bound depth) bound

/-- Skips one value. Each level of nesting takes a character, so the length of the text bounds the
depth. -/
def skipValue : Reader Unit := do
  let bound := (← get).length + 1
  skipNested bound bound

end FormCalc.Json
