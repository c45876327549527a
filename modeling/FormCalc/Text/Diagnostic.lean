import FormCalc.Text.Combining
import FormCalc.Text.Printable

/-!
# Text inside diagnostics

A diagnostic shows characters that would be invisible, or would break its layout, in escaped
form: a backslash and a letter, or the code point in hexadecimal between braces. Three places
differ in what else they escape, and each is a `Style`.

* `quoted`: a text in double quotes; single quotes stand as they are.
* `excerpt`: a piece of a formula; a combining character is escaped only where it comes first,
  since elsewhere it attaches to a character that is shown.
* `lone`: a single character between backquotes.
-/

namespace FormCalc.Text

/-- What is escaped besides control characters, backslashes and unprintable characters. -/
structure Style where
  /-- A single quote is escaped. -/
  single : Bool
  /-- A double quote is escaped. -/
  double : Bool
  /-- A combining character is escaped. -/
  combining : Bool

/-- The code point in hexadecimal between braces. -/
def codePoint (c : Char) : List Char :=
  ['\\', 'u', '{'] ++ Nat.toDigits 16 c.toNat ++ ['}']

/-- The form in which a character is shown. -/
def escapeChar (style : Style) (c : Char) : List Char :=
  if c = '\x00' then ['\\', '0']
  else if c = '\t' then ['\\', 't']
  else if c = '\r' then ['\\', 'r']
  else if c = '\n' then ['\\', 'n']
  else if c = '\\' then ['\\', '\\']
  else if c = '"' ∧ style.double then ['\\', '"']
  else if c = '\'' ∧ style.single then ['\\', '\'']
  else if style.combining && isCombining c then codePoint c
  else if isPrintable c then [c]
  else codePoint c

/-- A text in double quotes. -/
def quoted (cs : List Char) : List Char :=
  ['"'] ++ cs.flatMap (escapeChar ⟨false, true, true⟩) ++ ['"']

/-- A piece of a formula. -/
def excerpt : List Char → List Char
  | [] => []
  | c :: cs => escapeChar ⟨true, true, true⟩ c ++ cs.flatMap (escapeChar ⟨true, true, false⟩)

/-- A single character. -/
def lone (c : Char) : List Char :=
  escapeChar ⟨true, true, true⟩ c

/-- The first `width` characters, with three dots after them if more follow. -/
def cutAfter (width : Nat) (cs : List Char) : List Char :=
  if width < cs.length then cs.take width ++ ['.', '.', '.'] else cs

end FormCalc.Text
