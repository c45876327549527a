import FormCalc.Token.Stream

/-!
# Behind a fault

Tokens are read one by one, and reading can be taken up again behind a fault. It then goes on where
the lexeme with the fault was given up, which is not always where the fault is reported.

* `Cursor`: a place in a text, and the text that is left there.
* `Lexeme.givenUp`: how far a lexeme with a fault has been read.
* `Cursor.behindFault`: where reading goes on behind the first fault.
-/

namespace FormCalc

/-- A place in a text, and the text that is left there. -/
structure Cursor where
  place : Place
  rest : List Char
deriving DecidableEq

/-- The text that is left where a literal in double quotes is given up. The character behind a
backslash has been taken; one that is no hexadecimal digit, or that may not stand in a string, has
not. -/
def doubleGivenUp : List Char → List Char
  | [] => []
  | '"' :: cs => cs
  | '\\' :: 'u' :: a :: b :: c :: d :: cs =>
    if [a, b, c, d].all Number.isHexDigit then doubleGivenUp cs
    else (a :: b :: c :: d :: cs).dropWhile Number.isHexDigit
  | '\\' :: 'u' :: cs => cs.dropWhile Number.isHexDigit
  | '\\' :: c :: cs => if (Json.shortEscape? c).isSome then doubleGivenUp cs else cs
  | '\\' :: [] => []
  | c :: cs => if c.toNat < 0x20 then c :: cs else doubleGivenUp cs

/-- The text that is left where a literal in single quotes is given up: behind a backslash that
escapes nothing, or at the end of the line. -/
def singleGivenUp : List Char → List Char
  | [] => []
  | '\'' :: cs => cs
  | '\\' :: '\'' :: cs => singleGivenUp cs
  | '\\' :: '\\' :: cs => singleGivenUp cs
  | '\\' :: cs => cs
  | c :: cs => if c = '\n' ∨ c = '\r' then c :: cs else singleGivenUp cs

/-- How far a lexeme with a fault has been read: the columns that are counted for it, and the text
that is left. Of a literal only the quote is counted, and a character that begins no token is not
taken. -/
def Lexeme.givenUp : List Char → Nat × List Char
  | [] => (0, [])
  | c :: cs =>
    if c = '"' then (1, doubleGivenUp cs)
    else if c = '\'' then (1, singleGivenUp cs)
    else if c.isDigit then
      let (n, rest) := cutNumeral c cs
      (n.text.length, rest)
    else (0, c :: cs)

namespace Cursor

/-- The front of a text. -/
def front (source : Source) : Cursor :=
  ⟨.start, source.contents⟩

/-- The tokens from there on. -/
def tokens (source : Source) (k : Cursor) : TokenStream :=
  tokensFrom source k.place k.rest

/-- Where reading goes on behind the first fault, if there is one. -/
def behindFault (k : Cursor) : Option Cursor :=
  let q := k.place.behindBlanks (k.rest.takeWhile isBlank)
  match h : k.rest.dropWhile isBlank with
  | [] => none
  | c :: ds =>
    match hr : Lexeme.read (c :: ds) with
    | .error _ =>
      let (columns, rest) := Lexeme.givenUp (c :: ds)
      let taken := Text.size (c :: ds) - Text.size rest
      some ⟨⟨q.offset + taken, q.line, q.col + columns⟩, rest⟩
    | .ok (l, rest) =>
      have : rest.length < k.rest.length := by
        have h1 := Lexeme.read_length hr
        have h2 := (List.dropWhile_sublist isBlank (l := k.rest)).length_le
        rw [h] at h2
        simp at h2
        omega
      behindFault ⟨q.behind l.written, rest⟩
termination_by k.rest.length

end Cursor

end FormCalc
