import FormCalc.Text.Bytes
import FormCalc.Text.Diagnostic

/-!
# Sources and places in them

A source is the text of a formula under a name. Diagnostics quote the row of the source on which
they stand. Rows are ended by a line feed, and a carriage return directly before it belongs to
the line end. After the last line feed there is one more row, which may be empty.

* `Source.lineTable`: the byte range of every row; there is one row more than line feeds.
* `Source.message`: the layout of a located diagnostic; `Source.hasRoom`: where there is one.
* `Span`: a piece of a source, with the line and column of its start.
-/

namespace FormCalc

/-- The text of a formula, and the name under which diagnostics refer to it. -/
structure Source where
  file : String
  contents : List Char
deriving DecidableEq

/-- The byte ranges of the rows of a text that goes on at byte `now`, on a row that began at byte
`start`. `afterReturn` tells whether the last character was a carriage return. A last row without
characters is the empty range before the last byte. -/
def rowRanges (start now : Nat) (afterReturn : Bool) : List Char → List (Nat × Nat)
  | [] => if start < now then [(start, now)] else [(now - 1, now - 1)]
  | c :: cs =>
    if c = '\n' then
      (start, if afterReturn then now - 1 else now) :: rowRanges (now + 1) (now + 1) false cs
    else rowRanges start (now + c.utf8Size) (c == '\r') cs

theorem length_rowRanges (start now : Nat) (afterReturn : Bool) (cs : List Char) :
    (rowRanges start now afterReturn cs).length = cs.count '\n' + 1 := by
  induction cs generalizing start now afterReturn with
  | nil => unfold rowRanges; split <;> rfl
  | cons c cs ih =>
    unfold rowRanges
    split
    · rename_i hc
      subst hc
      rw [List.length_cons, ih, List.count_cons_self]
    · rename_i hc
      rw [ih, List.count_cons_of_ne hc]

namespace Source

/-- The byte range of every row, line ends not included. -/
def lineTable (s : Source) : List (Nat × Nat) :=
  rowRanges 0 0 false s.contents

/-- The row with the given index, counted from zero; empty beyond the last one. -/
def line (s : Source) (i : Nat) : List Char :=
  match s.lineTable[i]? with
  | some (start, stop) => Text.slice s.contents start stop
  | none => []

/-- The row with the given number, counted from one; there is no row zero. -/
def row (s : Source) : Nat → List Char
  | 0 => []
  | i + 1 => s.line i

/-- Whether a diagnostic can be laid out. The mark is put under its column by padding, which takes
no width of more than sixteen bits; a line beyond the table gets no mark. -/
def hasRoom (s : Source) (line col : Nat) : Bool :=
  s.lineTable.length < line || col ≤ 65536

/-- A diagnostic at a line and a column, both counted from one: the place, the row, a mark under
the column, and the text. There is one only if `hasRoom`; else the program ends in its place. -/
def message (s : Source) (line col : Nat) (kind text : String) : String :=
  if s.lineTable.length < line then
    s!"{s.file}: invalid line {line} specified"
  else
    let number := toString line
    let margin := String.ofList (List.replicate (number.length + 1) ' ')
    let row := String.ofList (s.row line)
    let indent := String.ofList (List.replicate (col - 1) ' ')
    s!"\n--> {s.file}:{line}:{col}\n" ++ s!"{margin}|\n" ++ s!"{number} | {row}\n" ++
      s!"{margin}| {indent}^\n" ++ s!"{kind}: {text}"

/-- The name of the source in quotes. -/
def quotedFile (s : Source) : String :=
  String.ofList (Text.quoted s.file.toList)

/-- **There is one row more than line feeds.** -/
theorem length_lineTable (s : Source) :
    s.lineTable.length = s.contents.count '\n' + 1 :=
  length_rowRanges 0 0 false s.contents

end Source

/-- A piece of a source: the source, the line and the column where the piece starts, counted from
one, and the byte offsets of its ends. As in a `Place`, these have no bound. -/
structure Span where
  source : Source
  line : Nat
  col : Nat
  start : Nat
  stop : Nat
deriving DecidableEq

namespace Span

/-- The text of the piece. -/
def text (sp : Span) : List Char :=
  Text.slice sp.source.contents sp.start sp.stop

/-- The place of the piece and the first thirty-two characters of its escaped text. -/
def summary (sp : Span) : String :=
  let shown := String.ofList (Text.cutAfter 32 (Text.excerpt sp.text))
  s!"{sp.line}:{sp.col}:{sp.start}:{sp.stop}, \"{shown}\""

/-- A diagnostic at the start of the piece. -/
def message (sp : Span) (kind text : String) : String :=
  sp.source.message sp.line sp.col kind text

end Span

end FormCalc
