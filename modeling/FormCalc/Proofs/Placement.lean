import FormCalc.Proofs.Positions
import FormCalc.Proofs.Rows
import Mathlib.Algebra.Group.Nat.Defs

/-!
# Where tokens stand

The line and the column of a token are counted while the text is read. They are those of the place
in the text where the token begins, and there the row of the line table has the text of the token.

* `Token.Located`: what is claimed of the place of a token.
* `Cursor.next_located`, `Cursor.Reads.located`: it holds of a token that is read.
* `tokens_located`: it holds of all tokens of a text.
-/

namespace FormCalc

/-- A token stands between two parts of the text, and its line, its column and the row of its line
are those of the place between them. -/
structure Token.Located (source : Source) (t : Token) (before behind : List Char) : Prop where
  stands : t.Stands source before behind
  line : t.span.line = lineAt before
  col : t.span.col = columnAt before
  /-- On its row the token stands behind the last row of what is before it. -/
  row : ¬t.IsEnd → ∃ rest, source.line (t.span.line - 1) =
    lastRow before ++ (t.span.text ++ rest)

variable {source : Source} {k k' : Cursor} {t : Token} {ts : List Token}
  {before behind text cs : List Char}

/-- A place is on the first line, or on one more for every line feed before it. -/
theorem lineAt_sub_one (before : List Char) : lineAt before - 1 = before.count '\n' := by
  unfold lineAt
  omega

theorem lineAt_le (before : List Char) : lineAt before ≤ 1 + Text.size before := by
  have hcount := List.count_le_length (a := '\n') (l := before)
  have hsize := Text.length_le_size before
  unfold lineAt
  omega

/-- **A character takes four columns at most**, so a place is not farther to the right than four
times the part of its row before it. -/
theorem columnAt_le_row (before : List Char) :
    columnAt before ≤ 1 + 4 * (lastRow before).length := by
  induction before using List.reverseRecOn with
  | nil => decide
  | append_singleton before c ih =>
    rw [columnAt_concat, lastRow, List.rtakeWhile_concat]
    by_cases hc : c = '\n'
    · simp [hc]
    · simp only [bne_iff_ne, ne_eq, hc, not_false_eq_true, if_true, if_false, List.length_append,
        List.length_singleton]
      rw [lastRow] at ih
      split <;> omega

theorem columnAt_le (before : List Char) : columnAt before ≤ 1 + 4 * Text.size before := by
  have hcol := columnAt_le_row before
  have hrow : (lastRow before).length ≤ before.length := (List.rtakeWhile_suffix _ before).length_le
  have hsize := Text.length_le_size before
  omega

/-- **A text that stands on one line is found on its row**, if it or what is behind it begins with
a character that no line end has. -/
theorem rowAround_append (htext : ∀ c ∈ text, endsLine c = false)
    (hfirst : ∃ c rest, text ++ behind = c :: rest ∧ endsLine c = false) :
    ∃ rest, rowAround before (text ++ behind) = lastRow before ++ (text ++ rest) := by
  have hfeed : '\n' ∉ text := fun h => absurd (htext _ h) (by decide)
  have hreturn : '\r' ∉ text := fun h => absurd (htext _ h) (by decide)
  rw [rowAround, firstRow_append hfeed]
  split
  · by_cases hrest : firstRow behind = []
    · -- nothing of the row is behind the text, so the text has characters
      have hne : text ≠ [] := by
        rintro rfl
        obtain ⟨c, rest, hbehind, hc⟩ := hfirst
        rw [List.nil_append] at hbehind
        have hnot : c ≠ '\n' := by
          rintro rfl
          exact absurd hc (by decide)
        simp [hbehind, firstRow, hnot] at hrest
      rw [hrest, List.append_nil, trimReturn_append hne, trimReturn_of_not_mem hreturn]
      exact ⟨[], by rw [List.append_nil]⟩
    · rw [← List.append_assoc, trimReturn_append hrest, List.append_assoc]
      exact ⟨_, rfl⟩
  · exact ⟨_, rfl⟩

/-- The quote before a literal takes one column. -/
theorem Lexeme.crosses_quote (l : Lexeme) : ∃ s, Crosses .outside l.quote s := by
  cases l with
  | doubleQuoted body => exact ⟨_, FormCalc.crosses_quote (.inl rfl) (.nil _)⟩
  | singleQuoted body => exact ⟨_, FormCalc.crosses_quote (.inr rfl) (.nil _)⟩
  | symbol _ | ident _ | number _ | eof => exact ⟨_, .nil _⟩

namespace Cursor

/-- What is read before the end begins with a character that no line end has, its closing quote
included. -/
theorem Takes.first {gap : List Char} (h : Takes source k t k' gap) (ht : ¬t.IsEnd) :
    ∃ c rest, t.lexeme.text ++ (t.lexeme.quote ++ k'.rest) = c :: rest ∧ endsLine c = false := by
  cases htext : t.lexeme.text with
  | cons c rest =>
    have hline := h.oneLine c (by rw [htext]; exact List.mem_cons_self)
    exact ⟨c, _, rfl, hline⟩
  | nil =>
    have hwritten := h.written_ne_nil ht
    rw [Lexeme.written, htext, List.append_nil] at hwritten
    cases hlexeme : t.lexeme with
    | doubleQuoted body => exact ⟨'"', k'.rest, rfl, by decide⟩
    | singleQuoted body => exact ⟨'\'', k'.rest, rfl, by decide⟩
    | symbol _ | ident _ | number _ | eof => simp [hlexeme, Lexeme.quote] at hwritten

/-- **A token that is read has the place where it begins**, on its line and in its column. -/
theorem next_located (h : k.next source = .ok (t, k')) (hk : k.Tracks source before)
    (hp : k.place.Follows before) : ∃ before behind, t.Located source before behind := by
  have htakes := next_takes_blanks h
  have hplace := (next_place h).1
  have hstands := htakes.stands hk
  have hblanks := hp.blanks htakes.blank
  obtain ⟨s, hquote⟩ := t.lexeme.crosses_quote
  rw [← hblanks.outside] at hquote
  obtain ⟨hline, hcol, -⟩ := hquote.moves
  have hline' : t.span.line = lineAt (before ++ (k.rest.takeWhile isBlank ++ t.lexeme.quote)) := by
    rw [← List.append_assoc, hline, ← hblanks.line, hplace]
    rfl
  have hcol' : t.span.col = columnAt (before ++ (k.rest.takeWhile isBlank ++ t.lexeme.quote)) := by
    rw [← List.append_assoc, hcol, ← hblanks.col, hplace]
    rfl
  refine ⟨_, _, hstands, hline', hcol', fun ht => ?_⟩
  rw [hline', lineAt_sub_one, Source.line_count hstands.contents, hstands.text]
  exact rowAround_append htakes.oneLine (htakes.first ht)

/-- **All tokens that are read have the places where they begin.** -/
theorem Reads.located (h : Reads source k ts k') (hk : k.Tracks source before)
    (hp : k.place.Follows before) :
    ∀ t ∈ ts, ∃ before behind, t.Located source before behind := by
  induction h generalizing before with
  | nil k => simp
  | cons hnext _ ih =>
    have htracks := (next_takes_blanks hnext).tracks hk
    have hfollows := next_follows hnext hp
    exact List.forall_mem_cons.2 ⟨next_located hnext hk hp, ih htracks hfollows⟩

end Cursor

/-- All tokens of a text have the places where they begin. -/
theorem Source.located (source : Source) :
    ∀ t ∈ (tokenize source).tokens, ∃ before behind, t.Located source before behind := by
  obtain ⟨k, hreads, -⟩ : ∃ k, Cursor.Reads source (.front source) (tokenize source).tokens k ∧
      ∀ err, (tokenize source).failure? = some err → k.next source = .error err :=
    reads_tokensFrom source .start source.contents
  exact hreads.located (Cursor.tracks_front source) Place.Follows.start

/-- **The places of tokens agree with the text.** Every token of a text of less than half a
gibibyte, up to its end or to the first fault, has the line and the column of the place where it
begins, and its text stands there on the row of its line; the counters need 32 bits at most. -/
theorem tokens_located (source : Source) (hsize : Text.size source.contents < 2 ^ 29) :
    ∀ t ∈ (tokenize source).tokens,
      (∃ before behind, t.Located source before behind) ∧
        t.span.line < 2 ^ 32 ∧ t.span.col < 2 ^ 32 ∧ t.span.stop < 2 ^ 32 := by
  intro t ht
  obtain ⟨before, behind, hlocated⟩ := source.located t ht
  have hstart := hlocated.stands.start
  have hwithin := hlocated.stands.within
  have hline := lineAt_le before
  have hcol := columnAt_le before
  refine ⟨⟨before, behind, hlocated⟩, ?_, ?_, ?_⟩
  · rw [hlocated.line]
    omega
  · rw [hlocated.col]
    omega
  · omega

/-- A text with rows of both line ends, tabs outside and inside of literals, and characters of
several bytes, at which reading stops. -/
theorem tokens_located_rows :
    let source : Source := ⟨"f", "a\t+ 'ü\t'\r\n\t\"é\\t\" * ''\n\r#".toList⟩
    Text.size source.contents < 2 ^ 29 ∧ ∀ t ∈ (tokenize source).tokens,
      (∃ before behind, t.Located source before behind) ∧
        t.span.line < 2 ^ 32 ∧ t.span.col < 2 ^ 32 ∧ t.span.stop < 2 ^ 32 := by
  intro source
  have hsize : Text.size source.contents < 2 ^ 29 := by decide
  exact ⟨hsize, tokens_located source hsize⟩

end FormCalc
