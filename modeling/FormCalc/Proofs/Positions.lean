import FormCalc.Proofs.Lossless
import Mathlib.Data.List.DropRight

/-!
# Lines and columns

The line and the column of a place follow from the text before it: the line from its line feeds,
the column from the characters behind the last one. A tab takes four columns, but inside a string
literal one; so it has to be known of each character whether it stands in a literal.

* `Standing`: whether a character stands in a literal.
* `lineAt`, `columnAt`: the line and the column behind a text.
* `Crosses`: characters of one line that take one column each.
* `Lexeme.crosses`: such are the characters of a lexeme as it is written.
* `Place.Follows`, `Cursor.Reads.follows`: reading keeps the place where the text read so far ends.
-/

namespace FormCalc

/-- Whether a character stands outside of string literals, inside one that began with a quote, or
behind a backslash inside of it. -/
inductive Standing where
  | outside
  | inside (quote : Char)
  | escaped (quote : Char)
deriving DecidableEq

namespace Standing

/-- How the next character stands. -/
def step : Standing → Char → Standing
  | outside, c => if c = '"' ∨ c = '\'' then inside c else outside
  | inside q, c => if c = '\\' then escaped q else if c = q then outside else inside q
  | escaped q, _ => inside q

/-- How the character behind a text stands. -/
def behind (s : Standing) (cs : List Char) : Standing :=
  cs.foldl step s

@[simp] theorem behind_cons (s : Standing) (c : Char) (cs : List Char) :
    s.behind (c :: cs) = (s.step c).behind cs := rfl

theorem behind_append (s : Standing) (cs ds : List Char) :
    s.behind (cs ++ ds) = (s.behind cs).behind ds :=
  List.foldl_append

theorem step_inside {q c : Char} (hslash : c ≠ '\\') (hquote : c ≠ q) :
    (inside q).step c = inside q := by
  simp [step, hslash, hquote]

end Standing

/-- The characters of a text, each with how it stands. -/
def marked (s : Standing) : List Char → List (Char × Standing)
  | [] => []
  | c :: cs => (c, s) :: marked (s.step c) cs

theorem marked_append (s : Standing) (cs ds : List Char) :
    marked s (cs ++ ds) = marked s cs ++ marked (s.behind cs) ds := by
  induction cs generalizing s with
  | nil => rfl
  | cons c cs ih => simp only [List.cons_append, marked, ih, Standing.behind_cons]

/-- A tab outside of string literals. -/
def isWideTab (x : Char × Standing) : Bool :=
  x.1 == '\t' && decide (x.2 = .outside)

/-- The line behind a text: one more than the line feeds in it. -/
def lineAt (before : List Char) : Nat :=
  1 + before.count '\n'

/-- The column behind a text: one more than the characters behind its last line feed, where a tab
outside of string literals counts as four. -/
def columnAt (before : List Char) : Nat :=
  let row := (marked .outside before).rtakeWhile fun x => x.1 != '\n'
  1 + row.length + 3 * row.countP isWideTab

/-- How the character behind a text stands, if the text is read from its front. -/
def standingAt (before : List Char) : Standing :=
  Standing.outside.behind before

variable {before cs ds : List Char} {c : Char} {s s' s'' : Standing}

theorem standingAt_concat (before : List Char) (c : Char) :
    standingAt (before ++ [c]) = (standingAt before).step c :=
  Standing.behind_append _ _ _

theorem lineAt_concat (before : List Char) (c : Char) :
    lineAt (before ++ [c]) = if c = '\n' then lineAt before + 1 else lineAt before := by
  unfold lineAt
  by_cases hc : c = '\n'
  · rw [if_pos hc, hc, List.count_append, List.count_singleton_self]
    omega
  · rw [if_neg hc, List.count_append, List.count_singleton, if_neg (by simpa using hc)]
    omega

/-- **What one character does to the column.** -/
theorem columnAt_concat (before : List Char) (c : Char) :
    columnAt (before ++ [c]) = if c = '\n' then 1
      else columnAt before + if isWideTab (c, standingAt before) then 4 else 1 := by
  have hmarked : marked .outside (before ++ [c]) =
      marked .outside before ++ [(c, standingAt before)] := marked_append _ _ _
  unfold columnAt
  rw [hmarked, List.rtakeWhile_concat]
  by_cases hc : c = '\n'
  · simp [hc]
  · simp only [bne_iff_ne, ne_eq, hc, not_false_eq_true, if_true, if_false, List.length_append,
      List.length_singleton, List.countP_append, List.countP_singleton]
    split <;> omega

/-- Characters of one line that take one column each, and how characters stand before and behind
them. -/
inductive Crosses : Standing → List Char → Standing → Prop where
  | nil (s : Standing) : Crosses s [] s
  | cons {s s' : Standing} {c : Char} {cs : List Char} (hline : c ≠ '\n')
      (hnarrow : isWideTab (c, s) = false) (h : Crosses (s.step c) cs s') : Crosses s (c :: cs) s'

namespace Crosses

theorem append (h : Crosses s cs s') (h' : Crosses s' ds s'') : Crosses s (cs ++ ds) s'' := by
  induction h with
  | nil => exact h'
  | cons hline hnarrow _ ih => exact .cons hline hnarrow (ih h')

theorem not_mem_feed (h : Crosses s cs s') : '\n' ∉ cs := by
  induction h with
  | nil => exact List.not_mem_nil
  | cons hline _ _ ih => simp [Ne.symm hline, ih]

/-- They leave the line as it is and move the column on by their number. -/
theorem moves (h : Crosses (standingAt before) cs s') :
    lineAt (before ++ cs) = lineAt before ∧ columnAt (before ++ cs) = columnAt before + cs.length ∧
      standingAt (before ++ cs) = s' := by
  generalize hs : standingAt before = s at h
  induction h generalizing before with
  | nil => simp [hs]
  | @cons s s' c cs hline hnarrow _ ih =>
    have hstanding : standingAt (before ++ [c]) = s.step c := by rw [standingAt_concat, hs]
    obtain ⟨hl, hc, hb⟩ := ih hstanding
    rw [List.append_assoc, List.singleton_append] at hl hc hb
    rw [lineAt_concat, if_neg hline] at hl
    rw [columnAt_concat, if_neg hline, hs, hnarrow] at hc
    refine ⟨hl, ?_, hb⟩
    rw [hc, List.length_cons]
    simp only [Bool.false_eq_true, if_false]
    omega

/-- A character inside a literal that neither ends it nor begins an escape. -/
theorem inside {q : Char} (hline : c ≠ '\n') (hslash : c ≠ '\\') (hquote : c ≠ q)
    (h : Crosses (.inside q) cs s) : Crosses (.inside q) (c :: cs) s := by
  refine .cons hline (by simp [isWideTab]) ?_
  rwa [Standing.step_inside hslash hquote]

/-- A backslash inside a literal, and the character behind it. -/
theorem escape {q : Char} (hline : c ≠ '\n') (h : Crosses (.inside q) cs s) :
    Crosses (.inside q) ('\\' :: c :: cs) s :=
  .cons (by decide) (by simp [isWideTab]) (.cons hline (by simp [Standing.step, isWideTab]) h)

end Crosses

/-- Characters that leave a text outside of literals as it is: no quotes, line feeds or tabs. -/
def isOrdinary (c : Char) : Bool :=
  c != '"' && c != '\'' && c != '\n' && c != '\t'

/-- What none of the four others is, is ordinary. -/
theorem isOrdinary_of {p : Char → Bool} (hp : ['"', '\'', '\n', '\t'].all (fun c => !p c) = true)
    (hc : p c = true) : isOrdinary c = true := by
  simp only [isOrdinary, Bool.and_eq_true, bne_iff_ne, ne_eq]
  refine ⟨⟨⟨?_, ?_⟩, ?_⟩, ?_⟩ <;> rintro rfl <;> simp [hc] at hp

/-- Ordinary characters outside of literals. -/
theorem crosses_ordinary (h : ∀ c ∈ cs, isOrdinary c = true) : Crosses .outside cs .outside := by
  induction cs with
  | nil => exact .nil _
  | cons c cs ih =>
    obtain ⟨hc, hcs⟩ := List.forall_mem_cons.1 h
    simp only [isOrdinary, Bool.and_eq_true, bne_iff_ne, ne_eq] at hc
    obtain ⟨⟨⟨hdouble, hsingle⟩, hline⟩, htab⟩ := hc
    have hstep : Standing.outside.step c = .outside := by simp [Standing.step, hdouble, hsingle]
    refine .cons hline (by simp [isWideTab, htab]) ?_
    rw [hstep]
    exact ih hcs

/-- A quote outside of literals. -/
theorem crosses_quote {q : Char} (hq : q = '"' ∨ q = '\'') (h : Crosses (.inside q) cs s) :
    Crosses .outside (q :: cs) s := by
  have hstep : Standing.outside.step q = .inside q := by simp [Standing.step, hq]
  have hline : q ≠ '\n' ∧ q ≠ '\t' := by rcases hq with rfl | rfl <;> decide
  refine .cons hline.1 (by simp [isWideTab, hline.2]) ?_
  rwa [hstep]

/-- A literal with its quotes. -/
theorem crosses_literal {q : Char} {body : List Char} (hq : q = '"' ∨ q = '\'')
    (h : Crosses (.inside q) body (.inside q)) :
    Crosses .outside (q :: (body ++ [q])) .outside := by
  have hslash : q ≠ '\\' := by rcases hq with rfl | rfl <;> decide
  have hline : q ≠ '\n' := by rcases hq with rfl | rfl <;> decide
  have hstep : (Standing.inside q).step q = .outside := by simp [Standing.step, hslash]
  have hclosing : Crosses (.inside q) [q] .outside := by
    refine .cons hline (by simp [isWideTab]) ?_
    rw [hstep]
    exact .nil _
  exact crosses_quote hq (h.append hclosing)

theorem ne_of_isHexDigit (hc : Number.isHexDigit c = true) : c ≠ '\n' ∧ c ≠ '\\' ∧ c ≠ '"' := by
  refine ⟨?_, ?_, ?_⟩ <;> rintro rfl <;> revert hc <;> decide

/-- Hexadecimal digits inside a literal. -/
theorem crosses_hexDigits (h : cs.all Number.isHexDigit = true) :
    Crosses (.inside '"') cs (.inside '"') := by
  induction cs with
  | nil => exact .nil _
  | cons c cs ih =>
    obtain ⟨hc, hcs⟩ : Number.isHexDigit c = true ∧ cs.all Number.isHexDigit = true := by
      simpa using h
    obtain ⟨hline, hslash, hquote⟩ := ne_of_isHexDigit hc
    exact .inside hline hslash hquote (ih hcs)

theorem IsDoubleBody.crosses {body : List Char} (h : IsDoubleBody body) :
    Crosses (.inside '"') body (.inside '"') := by
  induction h with
  | nil => exact .nil _
  | @plain c body hquote hslash hc _ ih =>
    have hline : c ≠ '\n' := by
      rintro rfl
      exact absurd hc (by decide)
    exact .inside hline hslash hquote ih
  | @short c d body hc _ ih =>
    have hline : c ≠ '\n' := by
      rintro rfl
      exact absurd hc (by simp [Json.shortEscape?])
    exact .escape hline ih
  | @hex a b c d body hx _ ih =>
    exact .escape (by decide) ((crosses_hexDigits hx).append ih)

theorem IsSingleBody.crosses {body : List Char} (h : IsSingleBody body) :
    Crosses (.inside '\'') body (.inside '\'') := by
  induction h with
  | nil => exact .nil _
  | plain hquote hslash hc _ ih => exact .inside hc.1 hslash hquote ih
  | quote _ ih | slash _ ih => exact .escape (by decide) ih

theorem Number.Numeral.Begun.crosses {n : Number.Numeral} (h : n.Begun) :
    Crosses .outside n.text .outside :=
  crosses_ordinary fun x hx => isOrdinary_of (by decide) (h.mem_text x hx)

/-- **A lexeme takes one column for each of its characters**, its quotes included. -/
theorem Lexeme.crosses {l : Lexeme} {rest : List Char} (h : read (c :: cs) = .ok (l, rest)) :
    Crosses .outside l.written .outside := by
  cases readAs_of_read h with
  | symbol symbol hc =>
    have hchar : isOrdinary symbol.char = true := by cases symbol <;> decide
    exact crosses_ordinary (by simpa [written, quote, text] using hchar)
  | doubleQuoted hc h => exact crosses_literal (.inl rfl) (isDoubleBody_of_read h).crosses
  | singleQuoted hc h => exact crosses_literal (.inr rfl) (isSingleBody_of_read h).crosses
  | @number n rest hc h =>
    have hcrosses := ((readNumeral_ok_iff hc).1 h).1.begun.crosses
    simpa [written, quote, text] using hcrosses
  | ident hc =>
    have hfirst : isOrdinary c = true := isOrdinary_of (by decide) hc
    have hall : ∀ d ∈ cs.takeWhile isIdentChar, isOrdinary d = true := fun d hd =>
      isOrdinary_of (by decide) (List.all_eq_true.1 List.all_takeWhile d hd)
    have hcrosses := crosses_ordinary (List.forall_mem_cons.2 ⟨hfirst, hall⟩)
    simpa [written, quote, text] using hcrosses

/-- The place is the one behind a text that does not end inside a literal. -/
structure Place.Follows (p : Place) (before : List Char) : Prop where
  line : p.line = lineAt before
  col : p.col = columnAt before
  outside : standingAt before = .outside

namespace Place.Follows

variable {p : Place} {gap : List Char}

theorem start : Place.start.Follows [] := ⟨rfl, rfl, rfl⟩

/-- One blank. -/
theorem blank (h : p.Follows before) (hc : isBlank c = true) :
    (p.behindBlank c).Follows (before ++ [c]) := by
  have hstep : Standing.outside.step c = .outside :=
    forall_isBlank (P := fun c => Standing.outside.step c = .outside) (by decide) hc
  refine ⟨?_, ?_, ?_⟩
  · rw [lineAt_concat, ← h.line]
    unfold behindBlank
    by_cases hn : c = '\n'
    · rw [if_pos hn, if_pos hn]
    · rw [if_neg hn, if_neg hn]
      split <;> rfl
  · rw [columnAt_concat, ← h.col, h.outside]
    unfold behindBlank
    by_cases hn : c = '\n'
    · rw [if_pos hn, if_pos hn]
    · rw [if_neg hn, if_neg hn]
      by_cases ht : c = '\t'
      · simp [ht, isWideTab]
      · simp [ht, isWideTab]
  · rw [standingAt_concat, h.outside, hstep]

/-- Blanks one behind the other. -/
theorem blanks (h : p.Follows before) (hgap : IsGap gap) :
    (p.behindBlanks gap).Follows (before ++ gap) := by
  induction gap generalizing p before with
  | nil => simpa [behindBlanks] using h
  | cons c gap ih =>
    obtain ⟨hc, hrest⟩ := IsGap.cons_iff.1 hgap
    have hnext := ih (h.blank hc) hrest
    rw [List.append_assoc, List.singleton_append] at hnext
    exact hnext

/-- Characters that take one column each. -/
theorem across (h : p.Follows before) (hcs : Crosses .outside cs .outside) :
    (p.behind cs).Follows (before ++ cs) := by
  rw [← h.outside] at hcs
  obtain ⟨hline, hcol, hstanding⟩ := hcs.moves
  refine ⟨?_, ?_, ?_⟩
  · rw [hline, ← h.line, behind]
  · rw [hcol, ← h.col, behind]
  · rw [hstanding, h.outside]

end Place.Follows

namespace Cursor

variable {source : Source} {k k' : Cursor} {t : Token} {ts : List Token}

/-- **One reading keeps the place where the text read so far ends.** -/
theorem next_follows (h : k.next source = .ok (t, k')) (hp : k.place.Follows before) :
    k'.place.Follows (before ++ (k.rest.takeWhile isBlank ++ t.lexeme.written)) := by
  have htakes := next_takes_blanks h
  have hwritten : Crosses .outside t.lexeme.written .outside := by
    have hread := htakes.read
    cases hcs : t.lexeme.written ++ k'.rest with
    | nil =>
      rw [(List.append_eq_nil_iff.1 hcs).1]
      exact .nil _
    | cons c cs =>
      rw [hcs] at hread
      exact Lexeme.crosses hread
  rw [(next_place h).2, ← List.append_assoc]
  exact (hp.blanks htakes.blank).across hwritten

/-- **Reading keeps the place where the text read so far ends**, which is the tokens that were read
with gaps around them. -/
theorem Reads.follows (h : Reads source k ts k') (hk : k.Tracks source before)
    (hp : k.place.Follows before) : ∃ taken, Spaced ts taken ∧
      k'.Tracks source (before ++ taken) ∧ k'.place.Follows (before ++ taken) := by
  induction h generalizing before with
  | nil k => exact ⟨[], .nil IsGap.nil, by simpa using hk, by simpa using hp⟩
  | @cons k k' k'' t ts hnext _ ih =>
    have htakes := next_takes_blanks hnext
    obtain ⟨taken, hspaced, hk', hp'⟩ := ih (htakes.tracks hk) (next_follows hnext hp)
    have hfirst : Spaced (t :: ts) _ := .cons htakes.blank hspaced
    rw [htakes.wrapped hk, ← List.append_assoc] at hfirst
    rw [List.append_assoc] at hk' hp'
    exact ⟨_, hfirst, hk', hp'⟩

end Cursor

end FormCalc
