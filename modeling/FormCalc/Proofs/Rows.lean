import FormCalc.Source
import Mathlib.Data.List.DropRight
import Mathlib.Data.List.Forall2

/-!
# The rows of a text

The rows of the line table are the pieces between the line feeds of a text. A carriage return at
the end of a piece belongs to the line end, if there is one.

* `trimReturn`, `rowsOf`: the pieces without their line ends.
* `Text.Stands`, `Source.lineTable_stand`: they stand in the ranges of the line table.
* `Source.map_lineTable`: they are the texts of these ranges.
* `splitOn_around`: the pieces around a place in the text.
* `rowAround`, `Source.line_count`: the row around it.
-/

namespace FormCalc

/-- A piece of a text without the carriage return at its end. -/
def trimReturn (piece : List Char) : List Char :=
  if piece.getLast? = some '\r' then piece.dropLast else piece

/-- The rows that pieces between line feeds make: all but the last one are trimmed. -/
def rowsOf : List (List Char) → List (List Char)
  | [] => []
  | [piece] => [piece]
  | piece :: next :: pieces => trimReturn piece :: rowsOf (next :: pieces)

variable {before behind row cs piece : List Char} {pieces : List (List Char)}

/-- Where characters follow, only they are trimmed. -/
theorem trimReturn_append (h : cs ≠ []) : trimReturn (row ++ cs) = row ++ trimReturn cs := by
  have hlast : (row ++ cs).getLast? = cs.getLast? := List.getLast?_append_of_ne_nil _ h
  unfold trimReturn
  rw [hlast]
  split
  · exact List.dropLast_append_of_ne_nil h
  · rfl

theorem trimReturn_of_not_mem (h : '\r' ∉ piece) : trimReturn piece = piece :=
  if_neg fun hlast => h (List.mem_of_getLast? hlast)

theorem rowsOf_cons (h : pieces ≠ []) :
    rowsOf (piece :: pieces) = trimReturn piece :: rowsOf pieces := by
  cases pieces with
  | nil => exact absurd rfl h
  | cons next pieces => rfl

@[simp] theorem length_rowsOf (pieces : List (List Char)) :
    (rowsOf pieces).length = pieces.length := by
  fun_induction rowsOf pieces with
  | case1 => rfl
  | case2 => rfl
  | case3 piece next pieces ih => rw [List.length_cons, ih, List.length_cons (a := piece)]

/-- A row by its number: it is trimmed unless it is the last one. -/
theorem getElem?_rowsOf (us vs : List (List Char)) (piece : List Char) :
    (rowsOf (us ++ piece :: vs))[us.length]? =
      some (if vs = [] then piece else trimReturn piece) := by
  induction us with
  | nil =>
    cases vs with
    | nil => rfl
    | cons next vs => rfl
  | cons u us ih =>
    rw [List.cons_append, rowsOf_cons (by simp), List.length_cons, List.getElem?_cons_succ]
    exact ih

/-- A piece of a text stands in a byte range, between the parts of the text before and behind it. -/
def Text.Stands (cs : List Char) (range : Nat × Nat) (piece : List Char) : Prop :=
  ∃ before behind, cs = before ++ (piece ++ behind) ∧
    range = (Text.size before, Text.size (before ++ piece))

/-- The slice of a range is the piece that stands there. -/
theorem Text.Stands.slice_eq {range : Nat × Nat} (h : Text.Stands cs range piece) :
    Text.slice cs range.1 range.2 = piece := by
  obtain ⟨before, behind, rfl, rfl⟩ := h
  rw [Text.size_append]
  exact Text.slice_append _ _ _

/-- In a range that ends before a carriage return the trimmed piece stands. -/
theorem stands_trimReturn (before row cs : List Char) :
    Text.Stands (before ++ (row ++ cs)) (Text.size before,
      if row.getLast? == some '\r' then Text.size (before ++ row) - 1
        else Text.size (before ++ row)) (trimReturn row) := by
  unfold trimReturn
  by_cases h : row.getLast? = some '\r'
  · obtain ⟨front, rfl⟩ := List.getLast?_eq_some_iff.1 h
    have hstop : Text.size (before ++ (front ++ ['\r'])) - 1 = Text.size (before ++ front) := by
      rw [← List.append_assoc, Text.size_concat]
      rfl
    rw [if_pos h, if_pos (by simp), hstop, List.dropLast_concat]
    exact ⟨before, '\r' :: cs, by simp, rfl⟩
  · rw [if_neg h, if_neg (by simpa using h)]
    exact ⟨before, cs, rfl, rfl⟩

/-- A row begins behind a part of a text that is empty or ends with a line feed. -/
def BeginsRow (before : List Char) : Prop :=
  ∀ c ∈ before.getLast?, c = '\n'

/-- An empty row at the end of a text stands before the last byte, which is a line feed if there
is one. -/
theorem BeginsRow.stands_nil (h : BeginsRow before) :
    Text.Stands before (Text.size before - 1, Text.size before - 1) [] := by
  cases hlast : before.getLast? with
  | none =>
    obtain rfl := List.getLast?_eq_none_iff.1 hlast
    exact ⟨[], [], rfl, rfl⟩
  | some c =>
    obtain rfl : c = '\n' := h c hlast
    obtain ⟨front, rfl⟩ := List.getLast?_eq_some_iff.1 hlast
    have hstart : Text.size (front ++ ['\n']) - 1 = Text.size front := by
      rw [Text.size_concat]
      rfl
    rw [hstart]
    exact ⟨front, ['\n'], rfl, by rw [List.append_nil]⟩

/-- **In the ranges of rows the pieces between line feeds stand**, from any place on a row on. -/
theorem rowRanges_stand (before row cs : List Char) (hbefore : BeginsRow before)
    (hrow : '\n' ∉ row) :
    List.Forall₂ (Text.Stands (before ++ (row ++ cs)))
      (rowRanges (Text.size before) (Text.size (before ++ row)) (row.getLast? == some '\r') cs)
      (rowsOf ((row ++ cs).splitOn '\n')) := by
  -- the induction moves the end of the row on, and over a line feed also its beginning
  induction cs generalizing before row with
  | nil =>
    rw [List.append_nil, List.splitOn_eq_singleton hrow, rowRanges, rowsOf]
    split
    · exact .cons ⟨before, [], by rw [List.append_nil], rfl⟩ .nil
    · rename_i hsize
      have hnil : row = [] := by
        have hlength := Text.length_le_size row
        rw [Text.size_append] at hsize
        exact List.length_eq_zero_iff.1 (by omega)
      subst hnil
      rw [List.append_nil]
      exact .cons hbefore.stands_nil .nil
  | cons c cs ih =>
    rw [rowRanges]
    by_cases hc : c = '\n'
    · subst hc
      have hsize : Text.size (before ++ (row ++ ['\n'])) = Text.size (before ++ row) + 1 := by
        rw [← List.append_assoc, Text.size_concat]
        rfl
      have hcontents : before ++ (row ++ ['\n']) ++ ([] ++ cs) =
          before ++ (row ++ '\n' :: cs) := by simp
      have hbegins : BeginsRow (before ++ (row ++ ['\n'])) := by simp [BeginsRow]
      have hnext := ih (before ++ (row ++ ['\n'])) [] hbegins List.not_mem_nil
      rw [List.append_nil, hsize, hcontents, List.nil_append] at hnext
      rw [if_pos rfl, List.splitOn_append_cons_self_of_not_mem hrow,
        rowsOf_cons (List.splitOn_ne_nil _ _)]
      exact .cons (stands_trimReturn before row ('\n' :: cs)) hnext
    · have hlast : ((row ++ [c]).getLast? == some '\r') = (c == '\r') := by simp
      have hsize : Text.size (before ++ (row ++ [c])) =
          Text.size (before ++ row) + c.utf8Size := by
        rw [← List.append_assoc, Text.size_concat]
      have hnext := ih before (row ++ [c]) hbefore (by simp [hrow, Ne.symm hc])
      rw [hlast, hsize, List.append_assoc row, List.singleton_append] at hnext
      rw [if_neg hc]
      exact hnext

/-- **In the ranges of the line table the rows stand.** -/
theorem Source.lineTable_stand (source : Source) :
    List.Forall₂ (Text.Stands source.contents) source.lineTable
      (rowsOf (source.contents.splitOn '\n')) :=
  rowRanges_stand [] [] source.contents (by simp [BeginsRow]) List.not_mem_nil

/-- The part of a text on its last row. -/
def lastRow (cs : List Char) : List Char :=
  cs.rtakeWhile (· != '\n')

/-- The part of a text on its first row. -/
def firstRow (cs : List Char) : List Char :=
  cs.takeWhile (· != '\n')

/-- The row around a place between two parts of a text, without its line end. -/
def rowAround (before behind : List Char) : List Char :=
  if '\n' ∈ behind then trimReturn (lastRow before ++ firstRow behind)
  else lastRow before ++ firstRow behind

theorem not_mem_lastRow (cs : List Char) : '\n' ∉ lastRow cs := by
  intro h
  simpa using List.mem_rtakeWhile_imp h

/-- A text is its last row, or its last row stands behind a line feed. -/
theorem lastRow_cases (cs : List Char) :
    lastRow cs = cs ∨ ∃ front, cs = front ++ '\n' :: lastRow cs := by
  have hsplit : cs.rdropWhile (· != '\n') ++ lastRow cs = cs := List.rdropWhile_append_rtakeWhile
  by_cases hnil : cs.rdropWhile (· != '\n') = []
  · rw [hnil, List.nil_append] at hsplit
    exact .inl hsplit
  · have hfeed := List.rdropWhile_last_not (· != '\n') cs hnil
    have hfront := List.dropLast_append_getLast hnil
    simp only [bne_iff_ne, ne_eq, not_not] at hfeed
    rw [hfeed] at hfront
    refine .inr ⟨(cs.rdropWhile (· != '\n')).dropLast, ?_⟩
    rw [← List.singleton_append, ← List.append_assoc, hfront, hsplit]

theorem firstRow_append (h : '\n' ∉ row) : firstRow (row ++ cs) = row ++ firstRow cs := by
  refine List.takeWhile_append_of_pos fun c hc => ?_
  rw [bne_iff_ne]
  rintro rfl
  exact h hc

theorem firstRow_of_not_mem (h : '\n' ∉ row) : firstRow row = row := by
  have happend : firstRow (row ++ []) = row ++ [] := firstRow_append h
  rwa [List.append_nil] at happend

/-- A text that goes on behind a part of a row: its first piece ends where it has a line feed. -/
theorem splitOn_append (hrow : '\n' ∉ row) (behind : List Char) :
    ∃ pieces, (row ++ behind).splitOn '\n' = (row ++ firstRow behind) :: pieces ∧
      (pieces = [] ↔ '\n' ∉ behind) := by
  by_cases hmem : '\n' ∈ behind
  · obtain ⟨us, vs, rfl, hus⟩ := List.eq_append_cons_of_mem hmem
    have hfirst : firstRow (us ++ '\n' :: vs) = us := by
      rw [firstRow_append hus, firstRow, List.takeWhile_cons_of_neg (by simp), List.append_nil]
    have hboth : '\n' ∉ row ++ us := by simp [hrow, hus]
    refine ⟨vs.splitOn '\n', ?_, by simp [List.splitOn_ne_nil]⟩
    rw [hfirst, ← List.append_assoc, List.splitOn_append_cons_self_of_not_mem hboth]
  · have hboth : '\n' ∉ row ++ behind := by simp [hrow, hmem]
    refine ⟨[], ?_, by simpa using hmem⟩
    rw [firstRow_of_not_mem hmem, List.splitOn_eq_singleton hboth]

theorem length_splitOn (cs : List Char) : (cs.splitOn '\n').length = cs.count '\n' + 1 := by
  have hlength := (Source.lineTable_stand ⟨"", cs⟩).length_eq
  rw [Source.length_lineTable, length_rowsOf] at hlength
  exact hlength.symm

/-- **The pieces of a text around a place**: the one in which the place is stands behind as many
others as there are line feeds before the place. -/
theorem splitOn_around (before behind : List Char) :
    ∃ us vs, (before ++ behind).splitOn '\n' = us ++ (lastRow before ++ firstRow behind) :: vs ∧
      us.length = before.count '\n' ∧ (vs = [] ↔ '\n' ∉ behind) := by
  obtain ⟨vs, hpieces, hlast⟩ := splitOn_append (not_mem_lastRow before) behind
  rcases lastRow_cases before with hrow | ⟨front, hrow⟩
  · have hcount : before.count '\n' = 0 :=
      List.count_eq_zero.2 (by rw [← hrow]; exact not_mem_lastRow before)
    rw [hrow] at hpieces ⊢
    exact ⟨[], vs, hpieces, hcount.symm, hlast⟩
  · refine ⟨front.splitOn '\n', vs, ?_, ?_, hlast⟩
    · rw [← hpieces, ← List.splitOn_append_cons_self, ← List.cons_append, ← List.append_assoc,
        ← hrow]
    · rw [length_splitOn, hrow, List.count_append, List.count_cons_self,
        List.count_eq_zero.2 (not_mem_lastRow before)]

/-- **The row around a place has the number of line feeds before it.** -/
theorem getElem?_rowsOf_splitOn (before behind : List Char) :
    (rowsOf ((before ++ behind).splitOn '\n'))[before.count '\n']? =
      some (rowAround before behind) := by
  obtain ⟨us, vs, hsplit, hcount, hlast⟩ := splitOn_around before behind
  rw [hsplit, ← hcount, getElem?_rowsOf, rowAround]
  by_cases hmem : '\n' ∈ behind
  · rw [if_pos hmem, if_neg (by simpa [hlast] using hmem)]
  · rw [if_neg hmem, if_pos (hlast.2 hmem)]

namespace Source

variable {source : Source}

/-- **The line table gives the pieces between line feeds**, without their line ends. -/
theorem map_lineTable (source : Source) :
    source.lineTable.map (fun range => Text.slice source.contents range.1 range.2) =
      rowsOf (source.contents.splitOn '\n') := by
  rw [← List.forall₂_eq_eq_eq, List.forall₂_map_left_iff]
  exact source.lineTable_stand.imp fun _ _ h => h.slice_eq

theorem line_eq_getElem? (source : Source) (i : Nat) :
    source.line i = (rowsOf (source.contents.splitOn '\n'))[i]?.getD [] := by
  rw [← map_lineTable, List.getElem?_map, line]
  cases source.lineTable[i]? <;> rfl

/-- **The row of a source around a place in its text.** -/
theorem line_count (h : source.contents = before ++ behind) :
    source.line (before.count '\n') = rowAround before behind := by
  rw [line_eq_getElem?, h, getElem?_rowsOf_splitOn, Option.getD_some]

end Source

end FormCalc
