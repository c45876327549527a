import FormCalc.Proofs.Ceilings
import FormCalc.Proofs.Eval.Errors
import FormCalc.Proofs.Faults
import FormCalc.Proofs.Parse.Sites
import FormCalc.Proofs.Placement
import FormCalc.Proofs.Spans
import FormCalc.Proofs.WellFormed
import Mathlib.Algebra.Group.Nat.Defs

/-!
# Where errors are reported

Every error of a formula that is no ceiling and no blocked name is reported at a place in the text
of the formula, and the row on which it stands is quoted.

* `layout`: a diagnostic that quotes a row.
* `FormulaError.Placed`: what is claimed of an error that is reported at a place in a text;
  `FormulaError.Located`: and that the counters of the place have not run over.
* `Source.stops_at`: where the text cannot be cut.
* `ParseOrigin`, `EvalOrigin`: what begins at the place.
* `Source.parse_placed`, `eval_placed`: the errors of parsing and of evaluation.
* `diagnostics_located`: both, in texts that are not too large for the counters.
-/

namespace FormCalc

/-- A diagnostic that quotes a row: the place, the row, a mark under the column, and the text. -/
def layout (file : String) (line col : Nat) (row : List Char) (text : String) : String :=
  let number := toString line
  let margin := String.ofList (List.replicate (number.length + 1) ' ')
  let quoted := String.ofList row
  let indent := String.ofList (List.replicate (col - 1) ' ')
  s!"\n--> {file}:{line}:{col}\n" ++ s!"{margin}|\n" ++ s!"{number} | {quoted}\n" ++
    s!"{margin}| {indent}^\n" ++ s!"error: {text}"

/-- An error is reported behind a part of a text: on the line that has been reached there, which
is a line of the table, and in a column of it. The message quotes the row around the place. -/
structure FormulaError.Placed (source : Source) (err : FormulaError) (site : Site)
    (before behind : List Char) : Prop where
  found : err.site? = some site
  inSource : site.source = source
  contents : source.contents = before ++ behind
  line : site.line = lineAt before
  inTable : 1 ≤ site.line ∧ site.line ≤ source.lineTable.length
  col : columnAt before ≤ site.col ∧ 1 ≤ site.col
  /-- No character of the row takes more than four columns. -/
  within : site.col ≤ columnAt before + 4 * (firstRow behind).length
  row : source.line (site.line - 1) = rowAround before behind
  message : err.message = source.message site.line site.col "error" err.text
  quotes : err.message = layout source.file site.line site.col (rowAround before behind) err.text

/-- The line and the column of the place need 32 bits at most. -/
structure FormulaError.Located (source : Source) (err : FormulaError) (site : Site)
    (before behind : List Char) : Prop extends err.Placed source site before behind where
  fits : site.line < 2 ^ 32 ∧ site.col < 2 ^ 32

variable {source : Source} {err : FormulaError} {site : Site} {before behind cs : List Char}
  {d : Nat}

/-- On a line of the table the row is quoted. -/
theorem Source.message_eq_layout {line : Nat} (hpos : 1 ≤ line)
    (hle : line ≤ source.lineTable.length) (col : Nat) (text : String) :
    source.message line col "error" text =
      layout source.file line col (source.line (line - 1)) text := by
  obtain ⟨i, rfl⟩ := Nat.exists_eq_add_of_le' hpos
  unfold message
  rw [if_neg (by omega), Nat.add_sub_cancel]
  rfl

/-- **A place in the text is a place for an error.** -/
theorem FormulaError.placed_of_site (hcontents : source.contents = before ++ behind)
    (hsite : err.site? = some ⟨source, lineAt before, columnAt before + d⟩)
    (hd : d ≤ 4 * (firstRow behind).length) :
    err.Placed source ⟨source, lineAt before, columnAt before + d⟩ before behind := by
  have hpos : 1 ≤ lineAt before ∧ 1 ≤ columnAt before := by
    unfold lineAt columnAt
    simp only
    omega
  have htable : lineAt before ≤ source.lineTable.length := by
    rw [Source.length_lineTable, hcontents, List.count_append, lineAt]
    omega
  have hrow : source.line (lineAt before - 1) = rowAround before behind := by
    rw [lineAt_sub_one]
    exact Source.line_count hcontents
  have hmessage : err.message =
      source.message (lineAt before) (columnAt before + d) "error" err.text := by
    unfold message
    rw [hsite]
  refine ⟨hsite, rfl, hcontents, rfl, ⟨hpos.1, htable⟩, ⟨Nat.le_add_right _ _, ?_⟩,
    Nat.add_le_add_left hd _, hrow, hmessage, ?_⟩
  · exact Nat.le_trans hpos.2 (Nat.le_add_right _ _)
  · rw [hmessage, Source.message_eq_layout hpos.1 htable, hrow]

/-- In a text of less than half a gibibyte the counters do not run over. -/
theorem FormulaError.Placed.located (h : err.Placed source site before behind)
    (hsize : Text.size source.contents < 2 ^ 29) : err.Located source site before behind := by
  have hbytes := congrArg Text.size h.contents
  rw [Text.size_append] at hbytes
  have hline := lineAt_le before
  have hcol := columnAt_le before
  have hwithin := h.within
  have hrow : (firstRow behind).length ≤ behind.length := (List.takeWhile_prefix _).length_le
  have hbehind := Text.length_le_size behind
  refine ⟨h, ?_, ?_⟩
  · rw [h.line]
    omega
  · omega

/-- The distance of a fault is not larger than four times the row on which it is. -/
theorem FaultAt.le_row {fault : Fault} (h : FaultAt cs fault d) : d ≤ 4 * (firstRow cs).length := by
  obtain ⟨part, behind, rfl, hblames, rfl⟩ := h
  obtain ⟨s, hcrosses⟩ := hblames.crosses
  have hsize := Text.size_le part
  rw [firstRow_append hcrosses.not_mem_feed, List.length_append]
  unfold overshoot
  split <;> omega

/-- What cannot be read as a token begins at a place in the text, and the error is reported on the
line of this place, in its column or behind it. -/
theorem Source.stops_at (h : (tokenize source).failure? = some err) :
    ∃ before behind fault d, source.contents = before ++ behind ∧
      Lexeme.read behind = .error (fault, d) ∧ d ≤ 4 * (firstRow behind).length ∧
      err = .malformed ⟨source, lineAt before, columnAt before + d⟩ fault := by
  obtain ⟨k, hreads, hfails⟩ := reads_tokensFrom source .start source.contents
  obtain ⟨taken, -, ⟨hcontents, -⟩, hfollows⟩ :=
    hreads.follows (Cursor.tracks_front source) Place.Follows.start
  rw [List.nil_append] at hcontents hfollows
  have hplace := hfollows.blanks (IsGap.takeWhile k.rest)
  have hnext := hfails err h
  unfold Cursor.next at hnext
  simp only at hnext
  split at hnext
  · rename_i fault d hread
    have hfault := Lexeme.read_blames hread (all_head?_dropWhile isBlank k.rest)
    refine ⟨taken ++ k.rest.takeWhile isBlank, _, fault, d, ?_, hread, hfault.le_row, ?_⟩
    · rw [hcontents, List.append_assoc, List.takeWhile_append_dropWhile]
    · rw [← hplace.line, ← hplace.col]
      exact (Except.error.inj hnext).symm
  · simp at hnext

/-- What begins at the place where an error of the parser is reported. -/
inductive ParseOrigin (source : Source) (err : FormulaError) (site : Site)
    (before behind : List Char) : Prop where
  /-- A token. -/
  | token {t : Token} (ht : t ∈ (tokenize source).tokens) (hstart : t.span.start = Text.size before)
      (hsite : site = t.span.site)
  /-- What cannot be read as a token. -/
  | lexeme {fault : Fault} {d : Nat} (hfails : (tokenize source).failure? = some err)
      (hread : Lexeme.read behind = .error (fault, d)) (hcol : site.col = columnAt before + d)

/-- What begins at the place where an error of evaluation is reported: a node of the tree. -/
def EvalOrigin (tree : Expr) (site : Site) (before : List Char) : Prop :=
  ∃ x ∈ tree.subtrees, x.span.start = Text.size before ∧ site = x.span.site

/-- An error at the start of a token is reported at the place of this token. -/
theorem Token.Located.error {t : Token} (h : t.Located source before behind)
    (hsite : err.site? = some t.span.site) :
    err.Placed source t.span.site before (t.span.text ++ behind) := by
  have hplace : t.span.site = ⟨source, lineAt before, columnAt before + 0⟩ := by
    rw [Span.site, h.stands.inSource, h.line, h.col, Nat.add_zero]
  rw [hplace] at hsite ⊢
  exact FormulaError.placed_of_site h.stands.contents hsite (Nat.zero_le _)

variable {limits ceilings : Limits} {f : Formula} {file text : String} {context : Value}

/-- **The errors of parsing a source are reported in it**, at a token or at what is no token. -/
theorem Source.parse_placed (h : source.parse limits = .error err) :
    (∃ e, err = .limit e) ∨ ∃ site before behind, err.Placed source site before behind ∧
      ParseOrigin source err site before behind := by
  rcases Source.parse_raised h with hfails | hlimit | ⟨sp, ⟨t, ht, rfl⟩, hsite⟩
  · obtain ⟨before, behind, fault, d, hcontents, hread, hd, rfl⟩ := Source.stops_at hfails
    exact .inr ⟨_, before, behind, FormulaError.placed_of_site hcontents rfl hd,
      .lexeme hfails hread rfl⟩
  · exact .inl hlimit
  · obtain ⟨before, behind, hlocated⟩ := source.located t ht
    exact .inr ⟨_, before, _, hlocated.error hsite, .token ht hlocated.stands.start rfl⟩

/-- The errors of parsing a text. -/
theorem parse_placed (h : parse file text limits = .error err) :
    (∃ e, err = .limit e) ∨ ∃ site before behind,
      err.Placed ⟨file, text.toList⟩ site before behind ∧
        ParseOrigin ⟨file, text.toList⟩ err site before behind := by
  rcases parse_eq_error_iff.1 h with ⟨-, rfl⟩ | ⟨-, h⟩
  · exact .inl ⟨_, rfl⟩
  · exact Source.parse_placed h

/-- **The errors of evaluating a formula are reported in its text**, at a node of its tree. -/
theorem eval_placed (hparse : parse file text limits = .ok f)
    (h : f.eval ceilings context = .error err) :
    (∃ e, err = .limit e) ∨ ∃ site before behind,
      err.Placed ⟨file, text.toList⟩ site before behind ∧ EvalOrigin f.tree site before := by
  have hcalls : ∀ x ∈ f.tree.subtrees, x.CallAccepted := fun x hx =>
    (wellFormed_of_parse hparse x hx).call
  obtain ⟨hsource, -, hok⟩ := parse_eq_ok_iff.1 hparse
  obtain ⟨hnone, hder, -⟩ := Source.parse_eq_ok_iff.1 hok
  rcases Evaluation.eval_raised hcalls h with hlimit | ⟨sp, ⟨x, hx, rfl⟩, hsite⟩
  · exact .inl hlimit
  · -- a node begins where its first token does, on the same line and in the same column
    obtain ⟨t, ht, u, -, -, hspan⟩ := (hder.nested (Source.words_inOrder hnone).1 x hx).span
    have hfirst : x.span.site = t.span.site := by
      rw [hspan]
      rfl
    obtain ⟨before, behind, hlocated⟩ := f.source.located t ((List.dropLast_sublist _).subset ht)
    have hstart : x.span.start = Text.size before := by
      rw [hspan]
      exact hlocated.stands.start
    rw [hfirst] at hsite
    rw [← hsource]
    exact .inr ⟨_, before, _, hlocated.error hsite, x, hx, hstart, hfirst.symm⟩

/-- **Every diagnostic is located.** Whatever the ceilings and the context: an error of parsing a
text of less than half a gibibyte, or of evaluating its formula, is a limit, or it is reported in
the text, on a line of the table and in a column, and its message quotes the row on which the
token or the node begins that it is reported at. -/
theorem diagnostics_located (file text : String) (limits : Limits)
    (hsize : Text.size text.toList < 2 ^ 29) :
    let source : Source := ⟨file, text.toList⟩
    (∀ err, parse file text limits = .error err → (∃ e, err = .limit e) ∨
      ∃ site before behind, err.Located source site before behind ∧
        ParseOrigin source err site before behind) ∧
    ∀ f, parse file text limits = .ok f → ∀ (ceilings : Limits) (context : Value) (err),
      f.eval ceilings context = .error err → (∃ e, err = .limit e) ∨
        ∃ site before behind, err.Located source site before behind ∧
          EvalOrigin f.tree site before := by
  refine ⟨fun err h => ?_, fun f hparse ceilings context err h => ?_⟩
  · rcases parse_placed h with hlimit | ⟨site, before, behind, hplaced, horigin⟩
    · exact .inl hlimit
    · exact .inr ⟨site, before, behind, hplaced.located hsize, horigin⟩
  · rcases eval_placed hparse h with hlimit | ⟨site, before, behind, hplaced, horigin⟩
    · exact .inl hlimit
    · exact .inr ⟨site, before, behind, hplaced.located hsize, horigin⟩

/-- A text of two rows that is a formula, which fails at its second row. -/
theorem diagnostics_located_mismatch :
    let text := "1 +\r\n\t'é' * 2"
    let source : Source := ⟨"f", text.toList⟩
    Text.size text.toList < 2 ^ 29 ∧ ∃ f err, parse "f" text .standard = .ok f ∧
      f.eval .standard .null = .error err ∧ ((∃ e, err = .limit e) ∨
        ∃ site before behind, err.Located source site before behind ∧
          EvalOrigin f.tree site before) := by
  intro text
  have hsize : Text.size text.toList < 2 ^ 29 := by decide
  have hok : (parse "f" text .standard).isOk = true := by decide +kernel
  have hfails : ((parse "f" text .standard).bind fun f => f.eval .standard .null).isOk = false := by
    decide +kernel
  obtain ⟨f, hf⟩ := exists_eq_ok_of_isOk hok
  rw [hf] at hfails
  cases herr : f.eval .standard .null with
  | ok v =>
    simp only [Except.bind, herr] at hfails
    cases hfails
  | error err =>
    have hlocated := (diagnostics_located "f" text .standard hsize).2 f hf _ _ _ herr
    exact ⟨hsize, f, err, hf, herr, hlocated⟩

end FormCalc
