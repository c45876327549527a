import FormCalc.Proofs.Diagnostics
import FormCalc.Proofs.Effects
import Mathlib.Algebra.Group.Nat.Defs

/-!
# What is told

The mark of a diagnostic is put under its column by padding, and there is no padding of more than
sixteen bits. A character takes four columns at most, so on a row of fewer than 16384 characters
every column has room, and every error of a text of such rows is told.

* `Text.Narrow`: all rows of a text are that short; `Text.HasRoom`: and its offsets have 32 bits.
* `Limits.GivesRoom`, `Entry.HasRoom`: the texts and the formulas of which every error is told.
* `FormulaError.Placed.isTold`: an error on a narrow row is told.
* `parse_told`, `eval_told`, `Engine.answer_told`: the errors of parsing and of evaluation.
-/

namespace FormCalc

/-- A value, or an error that is told. -/
def Told {α : Type} (r : Except FormulaError α) : Prop :=
  ∀ err, r = .error err → err.isTold = true

/-- All rows of the text have fewer than 16384 characters. -/
def Text.Narrow (cs : List Char) : Prop :=
  ∀ row ∈ cs.splitOn '\n', row.length < 2 ^ 14

instance (cs : List Char) : Decidable (Text.Narrow cs) :=
  inferInstanceAs (Decidable (∀ row ∈ cs.splitOn '\n', row.length < 2 ^ 14))

/-- The text has less than four gibibytes and narrow rows. -/
structure Text.HasRoom (cs : List Char) : Prop where
  size : Text.size cs < 2 ^ 32
  narrow : Text.Narrow cs

/-- The text has room, or it is refused for its length. -/
def Limits.GivesRoom (limits : Limits) (text : String) : Prop :=
  text.length ≤ limits.formulaLength → Text.HasRoom text.toList

/-- The formula was parsed from its text, and the text has room. -/
structure Entry.HasRoom (entry : Entry) : Prop where
  parsed : ∃ limits, parse Engine.sourceName entry.text limits = .ok entry.formula
  text : Text.HasRoom entry.text.toList

variable {source : Source} {err : FormulaError} {site : Site} {before behind cs row : List Char}
  {file text : String} {limits ceilings : Limits} {context : Value}

theorem length_le_of_mem_splitOn (h : row ∈ cs.splitOn '\n') : row.length ≤ cs.length := by
  induction cs generalizing row with
  | nil =>
    obtain rfl : row = [] := by simpa using h
    exact Nat.le_refl _
  | cons c cs ih =>
    obtain ⟨piece, pieces, hsplit⟩ := List.exists_cons_of_ne_nil (List.splitOn_ne_nil '\n' cs)
    rw [hsplit] at ih
    rw [List.splitOn_cons_eq_if_modifyHead, hsplit, List.modifyHead_cons] at h
    rw [List.length_cons]
    split at h
    · rcases List.mem_cons.1 h with rfl | h
      · exact Nat.zero_le _
      · exact Nat.le_succ_of_le (ih h)
    · rcases List.mem_cons.1 h with rfl | h
      · exact Nat.succ_le_succ (ih List.mem_cons_self)
      · exact Nat.le_succ_of_le (ih (List.mem_cons_of_mem _ h))

/-- **Under a ceiling of fewer than 16384 characters every text has room**, as under the standard
ceilings. -/
theorem Limits.givesRoom_of_lt (h : limits.formulaLength < 2 ^ 14) (text : String) :
    limits.GivesRoom text := by
  intro hlength
  have hsize := Text.size_le text.toList
  rw [String.length_toList] at hsize
  refine ⟨by omega, fun row hrow => ?_⟩
  have hle := length_le_of_mem_splitOn hrow
  rw [String.length_toList] at hle
  omega

/-- **An error on a narrow row is told.** -/
theorem FormulaError.Placed.isTold (h : err.Placed source site before behind)
    (hnarrow : Text.Narrow source.contents) : err.isTold = true := by
  obtain ⟨us, vs, hsplit, -, -⟩ := splitOn_around before behind
  have hrow : (lastRow before ++ firstRow behind).length < 2 ^ 14 := by
    refine hnarrow _ ?_
    rw [h.contents, hsplit]
    simp
  rw [List.length_append] at hrow
  have hcol := columnAt_le_row before
  have hwithin := h.within
  have hroom : site.source.hasRoom site.line site.col = true := by
    simp only [Source.hasRoom, Bool.or_eq_true, decide_eq_true_eq]
    omega
  have habort : err ≠ .aborted := by
    rintro rfl
    cases h.found
  simp [FormulaError.isTold, h.found, habort, hroom]

/-- **The errors of parsing a text that is given room are told.** -/
theorem parse_told (file : String) (h : limits.GivesRoom text) : Told (parse file text limits) := by
  intro err herr
  rcases parse_eq_error_iff.1 herr with ⟨-, rfl⟩ | ⟨hlength, herr⟩
  · rfl
  · rcases Source.parse_placed herr with ⟨e, rfl⟩ | ⟨site, before, behind, hplaced, -⟩
    · rfl
    · exact hplaced.isTold (h hlength).narrow

/-- **The errors of evaluating the formula of a text of narrow rows are told**, whatever the
ceilings and the context. -/
theorem eval_told {f : Formula} (hparse : parse file text limits = .ok f)
    (hnarrow : Text.Narrow text.toList) (ceilings : Limits) (context : Value) :
    Told (f.eval ceilings context) := by
  intro err herr
  rcases eval_placed hparse herr with ⟨e, rfl⟩ | ⟨site, before, behind, hplaced, -⟩
  · rfl
  · exact hplaced.isTold hnarrow

theorem Entry.HasRoom.eval_told {entry : Entry} (h : entry.HasRoom) (ceilings : Limits)
    (context : Value) : Told (entry.formula.eval ceilings context) := by
  obtain ⟨limits, hparse⟩ := h.parsed
  exact FormCalc.eval_told hparse h.text.narrow ceilings context

/-- What an engine answers is told. -/
theorem Engine.answer_told {e : Engine} (h : e.limits.GivesRoom text) (context : Value) :
    Told (e.answer text context) := by
  intro err herr
  rcases bind_error_iff.1 herr with herr | ⟨f, hparse, herr⟩
  · exact parse_told sourceName h err herr
  · have hroom := h (parse_eq_ok_iff.1 hparse).2.1
    exact eval_told hparse hroom.narrow e.limits context err herr

end FormCalc
