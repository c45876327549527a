import FormCalc.Proofs.Parse.Formula
import FormCalc.Proofs.Rows
import Mathlib.Algebra.Group.Nat.Defs

/-!
# The line table of a text

The line table has a range for every piece between the line feeds of a text. The ranges begin and
end between characters, so every row can be cut out of the text, whatever stands next to its ends.

* `Text.IsBorder`: an offset between two characters.
* `Text.Stands.within`, `Text.Stands.isBorder`: where the ranges lie.
* `Source.line_of_piece`, `Source.line_beyond`: what the rows are.
* `lineTable_splits`: all of this for a text that is short enough.
-/

namespace FormCalc

/-- A byte offset lies between two characters, before the first one or behind the last one. -/
def Text.IsBorder (cs : List Char) (offset : Nat) : Prop :=
  ∃ front, front <+: cs ∧ Text.size front = offset

variable {source : Source} {cs piece : List Char} {range : Nat × Nat} {i : Nat}

/-- The range of a piece lies in the text. -/
theorem Text.Stands.within (h : Text.Stands cs range piece) :
    range.1 ≤ range.2 ∧ range.2 ≤ Text.size cs := by
  obtain ⟨before, behind, rfl, rfl⟩ := h
  simp only [Text.size_append]
  omega

/-- The range of a piece begins and ends between characters. -/
theorem Text.Stands.isBorder (h : Text.Stands cs range piece) :
    Text.IsBorder cs range.1 ∧ Text.IsBorder cs range.2 := by
  obtain ⟨before, behind, rfl, rfl⟩ := h
  refine ⟨⟨before, List.prefix_append _ _, rfl⟩, before ++ piece, ?_, rfl⟩
  rw [← List.append_assoc]
  exact List.prefix_append _ _

namespace Source

/-- In every range of the line table a piece of the text stands. -/
theorem exists_stands (h : range ∈ source.lineTable) :
    ∃ row, Text.Stands source.contents range row := by
  obtain ⟨n, hn, rfl⟩ := List.mem_iff_getElem.1 h
  have hstand := source.lineTable_stand
  have hrow : n < (rowsOf (source.contents.splitOn '\n')).length := by
    rw [← hstand.length_eq]
    exact hn
  exact ⟨_, hstand.get hn hrow⟩

/-- **A row is the piece between line feeds with its number.** It is trimmed if a line feed ends
it, and only the last piece is not ended by one. -/
theorem line_of_piece (h : (source.contents.splitOn '\n')[i]? = some piece) :
    source.line i = if i < source.contents.count '\n' then trimReturn piece else piece := by
  have hlength := length_splitOn source.contents
  rw [line_eq_getElem?]
  generalize source.contents.splitOn '\n' = pieces at h hlength ⊢
  obtain ⟨hi, hpiece⟩ := List.getElem?_eq_some_iff.1 h
  have hsplit : pieces.take i ++ piece :: pieces.drop (i + 1) = pieces := by
    rw [← hpiece, List.getElem_cons_drop, List.take_append_drop]
  have htake : (pieces.take i).length = i := by
    rw [List.length_take]
    omega
  -- the pieces are one more than the line feeds, so the last one has their number
  have hlast : pieces.drop (i + 1) = [] ↔ ¬i < source.contents.count '\n' := by
    rw [List.drop_eq_nil_iff]
    omega
  have hrow := getElem?_rowsOf (pieces.take i) (pieces.drop (i + 1)) piece
  rw [hsplit, htake] at hrow
  rw [hrow, Option.getD_some]
  by_cases hfeed : i < source.contents.count '\n'
  · rw [if_pos hfeed, if_neg fun hnil => hlast.1 hnil hfeed]
  · rw [if_neg hfeed, if_pos (hlast.2 hfeed)]

/-- Beyond the last piece the rows are empty. -/
theorem line_beyond (h : source.contents.count '\n' < i) : source.line i = [] := by
  have hnone : (rowsOf (source.contents.splitOn '\n'))[i]? = none := by
    rw [List.getElem?_eq_none_iff, length_rowsOf, length_splitOn]
    exact h
  rw [line_eq_getElem?, hnone, Option.getD_none]

end Source

/-- **The line table is the split of a text at its line feeds.** For every text that is short enough
and has less than four gibibytes: there is one range more than line feeds; the ranges lie in the
text, begin and end between characters and need 32 bits at most; a row is the piece with its number,
without a carriage return at its end if a line feed ends it; and beyond the last piece there are
empty rows only. -/
theorem lineTable_splits {file text : String} {limits : Limits}
    (h : Source.ofText file text limits = .ok source) (hsize : Text.size text.toList < 2 ^ 32) :
    source.lineTable.length = 1 + text.toList.count '\n' ∧
      (∀ range ∈ source.lineTable,
        (range.1 ≤ range.2 ∧ range.2 ≤ Text.size text.toList ∧ range.2 < 2 ^ 32) ∧
          Text.IsBorder text.toList range.1 ∧ Text.IsBorder text.toList range.2) ∧
      (∀ i piece, (text.toList.splitOn '\n')[i]? = some piece →
        source.line i = if i < text.toList.count '\n' then trimReturn piece else piece) ∧
      ∀ i, (text.toList.splitOn '\n')[i]? = none → source.line i = [] := by
  have hcontents : source.contents = text.toList := by
    rw [Source.ofText_eq] at h
    split at h
    · rw [← Except.ok.inj h]
    · cases h
  rw [← hcontents] at hsize ⊢
  refine ⟨?_, fun range hrange => ?_, fun i piece => Source.line_of_piece, fun i hnone => ?_⟩
  · rw [Source.length_lineTable, Nat.add_comm]
  · obtain ⟨row, hstands⟩ := Source.exists_stands hrange
    have hwithin := hstands.within
    exact ⟨⟨hwithin.1, hwithin.2, by omega⟩, hstands.isBorder⟩
  · refine Source.line_beyond ?_
    rw [List.getElem?_eq_none_iff, length_splitOn] at hnone
    exact hnone

/-- A text of nine characters and more bytes, with both line ends, an empty row, two carriage
returns before a line feed and one that no line feed follows. -/
theorem lineTable_splits_returns :
    let text := "é\r\n\n\r\r\nü\r"
    let limits := { Limits.standard with formulaLength := 9 }
    let source : Source := ⟨"f", text.toList⟩
    Source.ofText "f" text limits = .ok source ∧ Text.size text.toList < 2 ^ 32 ∧
      source.lineTable.length = 1 + text.toList.count '\n' ∧
      (∀ range ∈ source.lineTable,
        (range.1 ≤ range.2 ∧ range.2 ≤ Text.size text.toList ∧ range.2 < 2 ^ 32) ∧
          Text.IsBorder text.toList range.1 ∧ Text.IsBorder text.toList range.2) ∧
      (∀ i piece, (text.toList.splitOn '\n')[i]? = some piece →
        source.line i = if i < text.toList.count '\n' then trimReturn piece else piece) ∧
      ∀ i, (text.toList.splitOn '\n')[i]? = none → source.line i = [] := by
  intro text limits source
  have hok : Source.ofText "f" text limits = .ok source := by
    rw [Source.ofText_eq]
    exact if_pos (by decide)
  have hsize : Text.size text.toList < 2 ^ 32 := by decide
  exact ⟨hok, hsize, lineTable_splits hok hsize⟩

/-- Behind the last line feed the table has an empty range, before the last byte. -/
example : (Source.mk "f" "é\r\nü\n".toList).lineTable = [(0, 2), (4, 6), (6, 6)] := by decide

end FormCalc
