import FormCalc.Proofs.Positions

/-!
# Where a text cannot be cut

Where reading stops, a character is blamed. What it is depends on the fault: the quote in front of
a literal that does not end, the backslash of an escape, the first character that should have been
a hexadecimal digit, the character behind a numeral, or the first character of what is no token.

* `Blames`: which character a fault blames.
* `doubleBody_blames`, `singleBody_blames`, `readNumeral_blames`, `Lexeme.read_blames`: reading
  stops with such a fault, and tells how far in front of the character it began to read.
* `tokenize_blames`: the line and the column of the error are those of the character, unless an
  escape in single quotes stands behind characters of several bytes.
-/

namespace FormCalc

open Number (Numeral)

variable {c : Char} {cs pre part behind : List Char} {fault : Fault} {col dist d : Nat}

/-- The characters that begin a token. -/
def beginsToken (c : Char) : Prop :=
  (∃ s : Symbol, s.char = c) ∨ c = '"' ∨ c = '\'' ∨ c.isDigit = true ∨ beginsIdent c = true

/-- **The character that a fault blames**, at the front of a text that is no token. It stands
between two parts of this text, as the first character of the second one, or at its end. -/
inductive Blames : List Char → List Char → Fault → Prop where
  /-- The quote in front of a literal that goes on to the end of the text. -/
  | unterminatedDouble {body : List Char} (h : IsDoubleBody body) :
      Blames [] ('"' :: body) .unterminatedString
  /-- The quote in front of a literal that goes on to the end of its line. -/
  | unterminatedSingle {body rest : List Char} (h : IsSingleBody body)
      (hrest : ∀ c ∈ rest.head?, c = '\n' ∨ c = '\r') :
      Blames [] ('\'' :: (body ++ rest)) .unterminatedString
  /-- A backslash in front of a character that is not escaped in double quotes. -/
  | doubleEscape {body rest : List Char} (h : IsDoubleBody body)
      (hrest : ∀ c ∈ rest.head?, Json.shortEscape? c = none ∧ c ≠ 'u') :
      Blames ('"' :: body) ('\\' :: rest) .invalidEscape
  /-- A backslash in front of a character that is not escaped in single quotes. -/
  | singleEscape {body rest : List Char} (h : IsSingleBody body)
      (hrest : ∀ c ∈ rest.head?, c ≠ '\'' ∧ c ≠ '\\') :
      Blames ('\'' :: body) ('\\' :: rest) .invalidEscape
  /-- What stands in the place of one of four hexadecimal digits, or the end of the text. -/
  | hexEscape {body digits rest : List Char} (h : IsDoubleBody body)
      (hdigits : digits.all Number.isHexDigit = true) (hlength : digits.length < 4)
      (hrest : ∀ c ∈ rest.head?, Number.isHexDigit c = false) :
      Blames ('"' :: (body ++ '\\' :: 'u' :: digits)) rest .invalidHexEscape
  /-- A control character in double quotes. -/
  | control {body rest : List Char} {c : Char} (h : IsDoubleBody body) (hc : c.toNat < 0x20) :
      Blames ('"' :: body) (c :: rest) .controlInString
  /-- A letter, a digit, an underscore or a point behind a numeral. -/
  | extended {n : Numeral} {rest : List Char} {c : Char} (h : n.Longest (n.text ++ c :: rest))
      (hc : extendsNumeral c = true) : Blames n.text (c :: rest) .invalidNumber
  /-- The first digit of a numeral whose exponent has no digits. -/
  | noExponentDigits {n : Numeral} {e : Number.Exponent} {cs : List Char} (h : n.Longest cs)
      (he : n.exponent? = some e) (hdigits : e.digits = []) : Blames [] cs .noExponentDigits
  /-- The first digit of a numeral that is too large. -/
  | outOfRange {n : Numeral} {cs : List Char} (h : n.Longest cs) (hformed : n.Formed)
      (hrange : n.stepwise? = none) : Blames [] cs .numberOutOfRange
  /-- A character that begins no token. -/
  | character {c : Char} {rest : List Char} (hblank : isBlank c = false) (hc : ¬beginsToken c) :
      Blames [] (c :: rest) (.invalidCharacter c)

/-- How far behind the character the error is reported. The distance of an escape from its opening
quote is counted in bytes if the quote is a single one. -/
def overshoot (part : List Char) (fault : Fault) : Nat :=
  if fault = .invalidEscape ∧ part.head? = some '\'' then Text.size part - part.length else 0

theorem overshoot_double (cs : List Char) (fault : Fault) : overshoot ('"' :: cs) fault = 0 := by
  simp [overshoot]

/-- The text of a fault is split in front of the character that is blamed, and reading tells its
distance. -/
def FaultAt (cs : List Char) (fault : Fault) (d : Nat) : Prop :=
  ∃ part behind, cs = part ++ behind ∧ Blames part behind fault ∧
    d = part.length + overshoot part fault

/-- A run of characters that ends inside of a text is shorter than the text. -/
theorem length_takeWhile_lt {p : Char → Bool} (h : ¬cs.all p = true) :
    (cs.takeWhile p).length < cs.length := by
  by_contra hnot
  have heq := (List.takeWhile_prefix p).eq_of_length_le (Nat.not_lt.1 hnot)
  rw [← heq] at h
  exact h List.all_takeWhile

/-- An escape by number ends at the first character that is no hexadecimal digit. -/
theorem faultAt_hexEscape (h : IsDoubleBody pre)
    (hlength : (cs.takeWhile Number.isHexDigit).length < 4) :
    FaultAt ('"' :: (pre ++ '\\' :: 'u' :: cs)) .invalidHexEscape
      (1 + pre.length + 2 + (cs.takeWhile Number.isHexDigit).length) := by
  refine ⟨'"' :: (pre ++ '\\' :: 'u' :: cs.takeWhile Number.isHexDigit),
    cs.dropWhile Number.isHexDigit, by simp, .hexEscape h List.all_takeWhile hlength ?_, ?_⟩
  · intro c hc
    have hhead := all_head?_dropWhile Number.isHexDigit cs
    rw [Option.mem_def.1 hc] at hhead
    simpa using hhead
  · rw [overshoot_double]
    simp only [List.length_cons, List.length_append]
    omega

/-- **Where a literal in double quotes cannot be read on.** -/
theorem doubleBody_blames (h : doubleBody col cs = .error (fault, d)) (hpre : IsDoubleBody pre)
    (hcol : col = 1 + pre.length) : FaultAt ('"' :: (pre ++ cs)) fault d := by
  fun_induction doubleBody col cs generalizing pre with
  | case1 col =>
    obtain ⟨rfl, rfl⟩ : .unterminatedString = fault ∧ 0 = d := by simpa using h
    rw [List.append_nil]
    exact ⟨[], _, rfl, .unterminatedDouble hpre, rfl⟩
  | case2 col cs => simp at h
  | case3 col a b c d' cs hx ih =>
    have hbody : IsDoubleBody (pre ++ ['\\', 'u', a, b, c, d']) := hpre.append (.hex hx .nil)
    have hlength : (pre ++ ['\\', 'u', a, b, c, d']).length = pre.length + 6 := by simp
    have hrest := ih (map_eq_error h) hbody (by omega)
    simpa using hrest
  | case4 col a b c d' cs hx =>
    obtain ⟨rfl, rfl⟩ : .invalidHexEscape = fault ∧ _ = d := by simpa using h
    have hlength := length_takeWhile_lt hx
    have htake : ([a, b, c, d'] ++ cs).takeWhile Number.isHexDigit =
        [a, b, c, d'].takeWhile Number.isHexDigit := by
      rw [List.takeWhile_append, if_neg (Nat.ne_of_lt hlength)]
    have hdigits : (([a, b, c, d'] ++ cs).takeWhile Number.isHexDigit).length < 4 := by
      rw [htake]
      exact hlength
    rw [hcol, ← htake]
    exact faultAt_hexEscape hpre hdigits
  | case5 col cs hshort =>
    obtain ⟨rfl, rfl⟩ : .invalidHexEscape = fault ∧ _ = d := by simpa using h
    have hlength : (cs.takeWhile Number.isHexDigit).length < 4 := by
      have hle := (List.takeWhile_sublist Number.isHexDigit (l := cs)).length_le
      rcases cs with _ | ⟨a, _ | ⟨b, _ | ⟨c, _ | ⟨d', ds⟩⟩⟩⟩
      case cons.cons.cons.cons => exact (hshort a b c d' ds rfl).elim
      all_goals simp only [List.length_cons, List.length_nil] at hle; omega
    rw [hcol]
    exact faultAt_hexEscape hpre hlength
  | case6 col c cs _ _ hc ih =>
    obtain ⟨x, hx⟩ := Option.isSome_iff_exists.1 hc
    have hbody : IsDoubleBody (pre ++ ['\\', c]) := hpre.append (.short hx .nil)
    have hlength : (pre ++ ['\\', c]).length = pre.length + 2 := by simp
    have hrest := ih (map_eq_error h) hbody (by omega)
    simpa using hrest
  | case7 col c cs _ hu hc =>
    obtain ⟨rfl, rfl⟩ : .invalidEscape = fault ∧ _ = d := by simpa using h
    refine ⟨'"' :: pre, '\\' :: c :: cs, rfl, .doubleEscape hpre ?_, ?_⟩
    · simpa using And.intro hc hu
    · rw [overshoot_double, List.length_cons]
      omega
  | case8 col =>
    obtain ⟨rfl, rfl⟩ : .invalidEscape = fault ∧ _ = d := by simpa using h
    refine ⟨'"' :: pre, ['\\'], rfl, .doubleEscape hpre (by simp), ?_⟩
    rw [overshoot_double, List.length_cons]
    omega
  | case9 col c cs _ _ _ _ _ hc =>
    obtain ⟨rfl, rfl⟩ : .controlInString = fault ∧ _ = d := by simpa using h
    refine ⟨'"' :: pre, c :: cs, rfl, .control hpre hc, ?_⟩
    rw [overshoot_double, List.length_cons]
    omega
  | case10 col c cs hquote _ _ hpair hlast hc ih =>
    have hslash : c ≠ '\\' := by
      intro heq
      cases cs with
      | nil => exact hlast heq rfl
      | cons d ds => exact hpair d ds heq rfl
    have hbody : IsDoubleBody (pre ++ [c]) :=
      hpre.append (.plain hquote hslash (Nat.not_lt.1 hc) .nil)
    have hlength : (pre ++ [c]).length = pre.length + 1 := by simp
    have hrest := ih (map_eq_error h) hbody (by omega)
    simpa using hrest

/-- **Where a literal in single quotes cannot be read on.** -/
theorem singleBody_blames (h : singleBody dist cs = .error (fault, d)) (hpre : IsSingleBody pre)
    (hdist : dist = 1 + Text.size pre) : FaultAt ('\'' :: (pre ++ cs)) fault d := by
  fun_induction singleBody dist cs generalizing pre with
  | case1 dist =>
    obtain ⟨rfl, rfl⟩ : .unterminatedString = fault ∧ 0 = d := by simpa using h
    exact ⟨[], _, rfl, .unterminatedSingle hpre (by simp), rfl⟩
  | case2 dist cs => simp at h
  | case3 dist cs ih =>
    have hbody : IsSingleBody (pre ++ ['\\', '\'']) := hpre.append (.quote .nil)
    have hsize : Text.size ['\\', '\''] = 2 := by decide
    have hrest := ih (map_eq_error h) hbody (by rw [Text.size_append]; omega)
    simpa using hrest
  | case4 dist cs ih =>
    have hbody : IsSingleBody (pre ++ ['\\', '\\']) := hpre.append (.slash .nil)
    have hsize : Text.size ['\\', '\\'] = 2 := by decide
    have hrest := ih (map_eq_error h) hbody (by rw [Text.size_append]; omega)
    simpa using hrest
  | case5 dist cs hquote hslash =>
    obtain ⟨rfl, rfl⟩ : .invalidEscape = fault ∧ _ = d := by simpa using h
    refine ⟨'\'' :: pre, '\\' :: cs, rfl, .singleEscape hpre ?_, ?_⟩
    · intro c hc
      obtain ⟨ds, rfl⟩ := List.head?_eq_some_iff.1 (Option.mem_def.1 hc)
      exact ⟨fun heq => hquote ds (by rw [heq]), fun heq => hslash ds (by rw [heq])⟩
    · -- a single quote takes one byte, so the rest of the part is what is counted in bytes
      have hone : '\''.utf8Size = 1 := by decide
      have hle := Text.length_le_size pre
      simp only [overshoot, List.head?_cons, and_self, if_true, Text.size_cons, hone,
        List.length_cons]
      omega
  | case6 dist c cs _ _ _ _ hline =>
    obtain ⟨rfl, rfl⟩ : .unterminatedString = fault ∧ 0 = d := by simpa using h
    exact ⟨[], _, rfl, .unterminatedSingle hpre (by simpa using hline), rfl⟩
  | case7 dist c cs hquote _ _ hslash hline ih =>
    have hbody : IsSingleBody (pre ++ [c]) :=
      hpre.append (.plain hquote hslash (not_or.1 hline) .nil)
    have hsize : Text.size (pre ++ [c]) = Text.size pre + c.utf8Size := by simp
    have hrest := ih (map_eq_error h) hbody (by omega)
    simpa using hrest

/-- **Where a numeral cannot be read on.** -/
theorem readNumeral_blames (hc : c.isDigit = true) (h : readNumeral c cs = .error (fault, d)) :
    FaultAt (c :: cs) fault d := by
  have hlongest := longest_cutNumeral hc cs
  have hsplit := cutNumeral_split c cs
  have hformed : lacksExponentDigits (cutNumeral c cs).1 = false →
      (cutNumeral c cs).1.Formed := formed_cutNumeral hc
  unfold readNumeral at h
  generalize cutNumeral c cs = r at h hlongest hsplit hformed
  obtain ⟨n, rest⟩ := r
  simp only at h hlongest hsplit hformed
  split at h
  · rename_i hextends
    obtain ⟨rfl, rfl⟩ : .invalidNumber = fault ∧ _ = d := by simpa using h
    cases rest with
    | nil => simp at hextends
    | cons x rest =>
      rw [← hsplit] at hlongest ⊢
      refine ⟨n.text, x :: rest, rfl, .extended hlongest (by simpa using hextends), ?_⟩
      simp [overshoot]
  · split at h
    · rename_i hlacks
      obtain ⟨rfl, rfl⟩ : .noExponentDigits = fault ∧ 0 = d := by simpa using h
      unfold lacksExponentDigits at hlacks
      split at hlacks
      · rename_i e he
        exact ⟨[], _, rfl, .noExponentDigits hlongest he (by simpa using hlacks), rfl⟩
      · simp at hlacks
    · split at h
      · rename_i hlacks hrange
        obtain ⟨rfl, rfl⟩ : .numberOutOfRange = fault ∧ 0 = d := by simpa using h
        have hrange : n.stepwise? = none := by simpa using hrange
        exact ⟨[], _, rfl, .outOfRange hlongest (hformed (by simpa using hlacks)) hrange, rfl⟩
      · simp at h

/-- **Where a text cannot be read on**, a character is blamed. -/
theorem Lexeme.read_blames (h : read cs = .error (fault, d))
    (hblank : cs.head?.all (fun c => !isBlank c) = true) : FaultAt cs fault d := by
  cases cs with
  | nil => simp [read] at h
  | cons c cs =>
    simp only [read] at h
    split at h
    · simp at h
    rename_i hsymbol
    split at h
    · rename_i hc
      subst hc
      exact doubleBody_blames (map_eq_error h) .nil rfl
    rename_i hdouble
    split at h
    · rename_i hc
      subst hc
      exact singleBody_blames (map_eq_error h) .nil rfl
    rename_i hsingle
    split at h
    · rename_i hc
      exact readNumeral_blames hc (map_eq_error h)
    rename_i hdigit
    split at h
    · simp at h
    rename_i hident
    obtain ⟨rfl, rfl⟩ : .invalidCharacter c = fault ∧ 0 = d := by simpa using h
    refine ⟨[], c :: cs, rfl, .character (by simpa using hblank) ?_, rfl⟩
    rintro (⟨s, hs⟩ | hc | hc | hc | hc)
    · rw [Symbol.ofChar?_eq_some_iff.2 hs] at hsymbol
      simp at hsymbol
    · exact hdouble hc
    · exact hsingle hc
    · exact hdigit hc
    · exact hident hc

/-- What stands in front of the character that is blamed takes one column for each character. -/
theorem Blames.crosses (h : Blames part behind fault) : ∃ s, Crosses .outside part s := by
  cases h with
  | unterminatedDouble _ | unterminatedSingle _ _ | noExponentDigits _ _ _ | outOfRange _ _ _
  | character _ _ => exact ⟨_, .nil _⟩
  | doubleEscape h _ | control h _ => exact ⟨_, crosses_quote (.inl rfl) h.crosses⟩
  | singleEscape h _ => exact ⟨_, crosses_quote (.inr rfl) h.crosses⟩
  | hexEscape h hdigits _ _ =>
    have hline : 'u' ≠ '\n' := by decide
    have hescape := h.crosses.append (.escape hline (crosses_hexDigits hdigits))
    exact ⟨_, crosses_quote (.inl rfl) hescape⟩
  | extended h _ => exact ⟨_, h.begun.crosses⟩

theorem overshoot_eq_zero_iff : overshoot part fault = 0 ↔
    ¬(fault = .invalidEscape ∧ part.head? = some '\'' ∧ ∃ c ∈ part, c.utf8Size ≠ 1) := by
  have hle := Text.length_le_size part
  have hsize : Text.size part - part.length = 0 ↔ ∀ c ∈ part, c.utf8Size = 1 := by
    rw [← Text.size_eq_length_iff]
    omega
  unfold overshoot
  by_cases h : fault = .invalidEscape ∧ part.head? = some '\''
  · rw [if_pos h, hsize]
    simp [h.1, h.2]
  · rw [if_neg h]
    simp only [true_iff]
    rintro ⟨hfault, hhead, -⟩
    exact h ⟨hfault, hhead⟩

/-- **Errors of the text point at the character that is blamed.** Where a text cannot be cut into
tokens, it is the tokens that were read with gaps around them, a part of what could not be read, and
the character that is blamed in front of the rest. The error is reported on the line of this
character, and in its column, unless a backslash in single quotes is blamed; then it is reported as
many columns behind it as the part takes bytes beyond its characters. -/
theorem tokenize_blames {source : Source} {err : FormulaError}
    (h : (tokenize source).failure? = some err) :
    ∃ before part behind fault, source.contents = before ++ (part ++ behind) ∧
      Spaced (tokenize source).tokens before ∧ Blames part behind fault ∧
      err = .malformed ⟨source, lineAt (before ++ part),
        columnAt (before ++ part) + overshoot part fault⟩ fault ∧
      (overshoot part fault = 0 ↔
        ¬(fault = .invalidEscape ∧ part.head? = some '\'' ∧ ∃ c ∈ part, c.utf8Size ≠ 1)) := by
  obtain ⟨k, hreads, hfails⟩ := reads_tokensFrom source .start source.contents
  obtain ⟨taken, hspaced, ⟨hcontents, -⟩, hfollows⟩ :=
    hreads.follows (Cursor.tracks_front source) Place.Follows.start
  rw [List.nil_append] at hcontents hfollows
  have hnext : k.next source = .error err := hfails err h
  -- what is left begins with blanks, and behind them with what cannot be read
  have hgap := IsGap.takeWhile k.rest
  have hplace := hfollows.blanks hgap
  unfold Cursor.next at hnext
  simp only at hnext
  split at hnext
  · rename_i fault d hread
    obtain ⟨part, behind, hsplit, hblames, hd⟩ :=
      Lexeme.read_blames hread (all_head?_dropWhile isBlank k.rest)
    obtain ⟨s, hcrosses⟩ := hblames.crosses
    rw [← hplace.outside] at hcrosses
    obtain ⟨hline, hcol, -⟩ := hcrosses.moves
    refine ⟨taken ++ k.rest.takeWhile isBlank, part, behind, fault, ?_, hspaced.append_gap hgap,
      hblames, ?_, overshoot_eq_zero_iff⟩
    · rw [hcontents, ← hsplit, List.append_assoc, List.takeWhile_append_dropWhile]
    · obtain rfl := Except.error.inj hnext
      rw [hline, hcol, ← hplace.line, ← hplace.col, hd, Nat.add_assoc]
  · simp at hnext

/-- An escape in double quotes behind a character of two bytes, on a line with one tab outside of
literals and one inside. -/
theorem tokenize_blames_tab :
    let source : Source := ⟨"f", "a +\n\t'\t' \"é\\x\"".toList⟩
    let err : FormulaError := .malformed ⟨source, 2, 11⟩ .invalidEscape
    (tokenize source).failure? = some err ∧
      ∃ before part behind fault, source.contents = before ++ (part ++ behind) ∧
        Spaced (tokenize source).tokens before ∧ Blames part behind fault ∧
        err = .malformed ⟨source, lineAt (before ++ part),
          columnAt (before ++ part) + overshoot part fault⟩ fault := by
  intro source err
  have hfails : (tokenize source).failure? = some err := by decide +kernel
  obtain ⟨before, part, behind, fault, hsplit, hspaced, hblames, herr, -⟩ :=
    tokenize_blames hfails
  exact ⟨hfails, before, part, behind, fault, hsplit, hspaced, hblames, herr⟩

/-- **An escape in single quotes is reported too far behind.** The backslash stands in the third
column, but the character in front of it takes two bytes, so the error is reported in the fourth.
-/
theorem tokenize_overshoots :
    let part := "'é".toList
    let behind := "\\n'".toList
    let source : Source := ⟨"formula", part ++ behind⟩
    Blames part behind .invalidEscape ∧ lineAt part = 1 ∧ columnAt part = 3 ∧
      (tokenize source).failure? = some (.malformed ⟨source, 1, 4⟩ .invalidEscape) := by
  intro part behind source
  have hbody : IsSingleBody ['é'] := .plain (by decide) (by decide) (by decide) .nil
  have hblames : Blames ['\'', 'é'] ['\\', 'n', '\''] .invalidEscape :=
    .singleEscape hbody (by simp)
  exact ⟨hblames, by decide, by decide, by decide +kernel⟩

end FormCalc
