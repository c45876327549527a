import FormCalc.Proofs.Reading
import Mathlib.Algebra.Group.Nat.Defs

/-!
# Nothing of a text is lost in its tokens

* `Lexeme.InClass`: what the text of a kind of token looks like, and what may stand behind it.
* `Token.Stands`: a token stands in the text, between characters.
* `Spaced`: the text is the tokens with their quotes, and gaps around them.
* `Source.OffsetsFit`: the offsets of all tokens have 32 bits.
* `Source.Lossless`: what is claimed of the tokens of a text.
* `tokenize_lossless`: it holds of every text that is short enough and cut into tokens up to its
  end.
-/

namespace FormCalc

variable {source : Source} {k k' : Cursor} {t : Token} {ts : List Token} {l : Lexeme}
  {rest gap : List Char}

/-- The text of a kind of token, and what may stand behind it. -/
def Lexeme.InClass (text behind : List Char) : Lexeme → Prop
  | .symbol _ => ∃ c ∈ ['+', '-', '*', '/', '^', '(', ')', '[', ']', ',', '.'], text = [c]
  | .ident _ => IsIdentifier text ∧
    ∀ c, behind.head? = some c → ¬(c.isAlpha ∨ c.isDigit ∨ c = '_')
  | .number _ => IsNumeral text ∧
    ∀ c, behind.head? = some c → ¬(c.isAlpha ∨ c.isDigit ∨ c = '_' ∨ c = '.')
  | .doubleQuoted _ => IsDoubleBody text
  | .singleQuoted _ => IsSingleBody text
  | .eof => text = [] ∧ behind = []

/-- The text inside a token's span, with its quotes. -/
def Token.wrapped (t : Token) : List Char :=
  t.lexeme.quote ++ (t.span.text ++ t.lexeme.quote)

/-- The text is the wrapped tokens with gaps before, between and behind them. -/
inductive Spaced : List Token → List Char → Prop where
  | nil {gap : List Char} (hgap : IsGap gap) : Spaced [] gap
  | cons {gap cs : List Char} {t : Token} {ts : List Token} (hgap : IsGap gap)
      (h : Spaced ts cs) : Spaced (t :: ts) (gap ++ (t.wrapped ++ cs))

/-- A gap behind them. -/
theorem Spaced.append_gap {cs : List Char} (h : Spaced ts cs) (hgap : IsGap gap) :
    Spaced ts (cs ++ gap) := by
  induction h with
  | nil hfirst => exact .nil (hfirst.append hgap)
  | cons hfirst _ ih =>
    rw [List.append_assoc, List.append_assoc]
    exact .cons hfirst ih

/-- A token stands between two parts of the text. -/
structure Token.Stands (source : Source) (t : Token) (before behind : List Char) : Prop where
  /-- The span is one of the source. -/
  inSource : t.span.source = source
  /-- The text of the span lies between them. -/
  contents : source.contents = before ++ (t.span.text ++ behind)
  /-- The span begins where the first part ends. -/
  start : t.span.start = Text.size before
  /-- It ends where the second part begins. -/
  stop : t.span.stop = Text.size (before ++ t.span.text)
  /-- The text of the span is the text of the lexeme. -/
  text : t.span.text = t.lexeme.text
  /-- It belongs to the class of the token. -/
  inClass : t.lexeme.InClass t.span.text behind

/-- The offsets of all tokens have 32 bits, so nothing of them is lost if no more bits are kept. -/
def Source.OffsetsFit (source : Source) : Prop :=
  ∀ t ∈ (tokenize source).tokens, t.span.start < 2 ^ 32 ∧ t.span.stop < 2 ^ 32

/-- **Nothing of a text is lost in its tokens**, which are words and the end behind them. -/
structure Source.Lossless (source : Source) (words : List Token) (last : Token) : Prop where
  /-- Reading token by token gives the words and the end, and then the end again. -/
  reads : ∃ k, Cursor.Reads source (.front source) (words ++ [last]) k ∧
    k.next source = .ok (last, k)
  /-- Every reading before the end takes characters from the text. -/
  takes : ∀ (k k' : Cursor) (t : Token), k.next source = .ok (t, k') → ¬t.IsEnd →
    ∃ taken, taken ≠ [] ∧ k.rest = taken ++ k'.rest
  /-- The spans lie in the text between characters, and their texts belong to their classes. -/
  stands : ∀ t ∈ words ++ [last], ∃ before behind, t.Stands source before behind
  /-- The spans are in order and do not overlap. -/
  ordered : (words ++ [last]).Pairwise fun t u =>
    t.span.start < u.span.start ∧ t.span.stop ≤ u.span.start
  /-- The text is the wrapped words with nothing but gaps around them. -/
  spaced : Spaced words source.contents
  /-- No word is the end. -/
  inner : ∀ t ∈ words, ¬t.IsEnd
  /-- The end is empty and stands at the end of the text. -/
  ending : last.IsEnd ∧ last.span.start = Text.size source.contents ∧
    last.span.stop = Text.size source.contents
  /-- No token goes over a line end. -/
  oneLine : ∀ t ∈ words ++ [last], ∀ c ∈ t.span.text, c ≠ '\n' ∧ c ≠ '\r'

theorem Lexeme.inClass_of_read (h : Lexeme.read (l.written ++ rest) = .ok (l, rest)) :
    l.InClass l.text (l.quote ++ rest) := by
  cases hcs : l.written ++ rest with
  | nil =>
    rw [hcs] at h
    obtain ⟨rfl, rfl⟩ : Lexeme.eof = l ∧ [] = rest := by simpa [read] using h
    exact ⟨rfl, rfl⟩
  | cons c cs =>
    rw [hcs] at h
    have hformed := read_formed h
    have hstop := read_stop h
    cases readAs_of_read h with
    | symbol s hc => exact ⟨s.char, by cases s <;> decide, rfl⟩
    | doubleQuoted hc h => exact isDoubleBody_of_read h
    | singleQuoted hc h => exact isSingleBody_of_read h
    | number hc h =>
      refine ⟨⟨_, ((readNumeral_ok_iff hc).1 h).1, rfl⟩, fun d hd => ?_⟩
      simp only [quote, List.nil_append] at hd
      rw [hd] at hstop
      simpa [stop, endsNumeral, extendsNumeral, Char.isAlphanum, and_assoc, and_comm,
        and_left_comm] using hstop
    | ident hc =>
      refine ⟨hformed, fun d hd => ?_⟩
      simp only [quote, List.nil_append] at hd
      rw [hd] at hstop
      simpa [stop, endsIdent, isIdentChar, Char.isAlphanum, and_assoc] using hstop

namespace Cursor

/-- The part of the text that was read lies before the place. -/
def Tracks (source : Source) (k : Cursor) (before : List Char) : Prop :=
  source.contents = before ++ k.rest ∧ k.place.offset = Text.size before

variable {before : List Char}

theorem tracks_front (source : Source) : (front source).Tracks source [] :=
  ⟨rfl, rfl⟩

namespace Takes

/-- One reading keeps track of the part that was read. -/
theorem tracks (h : Takes source k t k' gap) (hk : k.Tracks source before) :
    k'.Tracks source (before ++ (gap ++ t.lexeme.written)) := by
  obtain ⟨hcontents, hplace⟩ := hk
  refine ⟨?_, ?_⟩
  · rw [hcontents, h.split]
    simp only [List.append_assoc]
  · rw [h.offset, hplace]
    simp only [Text.size_append]

/-- The token that is read stands behind the part that was read. -/
theorem stands (h : Takes source k t k' gap) (hk : k.Tracks source before) :
    t.Stands source (before ++ (gap ++ t.lexeme.quote)) (t.lexeme.quote ++ k'.rest) := by
  obtain ⟨hcontents, hplace⟩ := hk
  have hsplit : source.contents = (before ++ (gap ++ t.lexeme.quote)) ++
      (t.lexeme.text ++ (t.lexeme.quote ++ k'.rest)) := by
    rw [hcontents, h.split, Lexeme.written]
    simp only [List.append_assoc]
  have hstart : t.span.start = Text.size (before ++ (gap ++ t.lexeme.quote)) := by
    rw [h.start, hplace]
    simp only [Text.size_append]
  have htext : t.span.text = t.lexeme.text := by
    rw [Span.text, h.inSource, h.stop, hstart, hsplit]
    exact Text.slice_append _ _ _
  refine ⟨h.inSource, ?_, hstart, ?_, htext, ?_⟩
  · rw [htext]
    exact hsplit
  · rw [h.stop, hstart, htext, Text.size_append _ t.lexeme.text]
  · rw [htext]
    exact Lexeme.inClass_of_read h.read

theorem wrapped (h : Takes source k t k' gap) (hk : k.Tracks source before) :
    t.wrapped = t.lexeme.written := by
  rw [Token.wrapped, (h.stands hk).text, Lexeme.written, List.append_assoc]

theorem oneLine (h : Takes source k t k' gap) : ∀ c ∈ t.lexeme.text, endsLine c = false := by
  have hread := h.read
  cases hcs : t.lexeme.written ++ k'.rest with
  | nil =>
    have hnil : t.lexeme.text = [] := by simp_all [Lexeme.written]
    simp [hnil]
  | cons c cs =>
    rw [hcs] at hread
    exact Lexeme.read_oneLine hread

end Takes

namespace Reads

/-- **Every token that is read stands in the text**, on one line. -/
theorem stands (h : Reads source k ts k') (hk : k.Tracks source before) :
    ∀ t ∈ ts, (∃ before behind, t.Stands source before behind) ∧
      ∀ c ∈ t.lexeme.text, endsLine c = false := by
  induction h generalizing before with
  | nil k => simp
  | cons hnext _ ih =>
    obtain ⟨gap, htakes⟩ := next_takes hnext
    exact List.forall_mem_cons.2
      ⟨⟨⟨_, _, htakes.stands hk⟩, htakes.oneLine⟩, ih (htakes.tracks hk)⟩

/-- **The text is the wrapped tokens with gaps around them**, if it is read to its end. -/
theorem spaced (h : Reads source k (ts ++ [t]) k') (hk : k.Tracks source before)
    (ht : t.IsEnd) : Spaced ts k.rest := by
  induction ts generalizing k before with
  | nil =>
    cases h with
    | cons hnext hs =>
      obtain ⟨gap, htakes⟩ := next_takes hnext
      have hsplit := htakes.split
      rw [htakes.rest_of_isEnd ht, ht] at hsplit
      have hrest : k.rest = gap := by
        simpa [Lexeme.written, Lexeme.quote, Lexeme.text] using hsplit
      rw [hrest]
      exact .nil htakes.blank
  | cons u ts ih =>
    cases h with
    | cons hnext hs =>
      obtain ⟨gap, htakes⟩ := next_takes hnext
      rw [htakes.split, ← htakes.wrapped hk]
      exact .cons htakes.blank (ih hs (htakes.tracks hk))

end Reads

end Cursor

/-- A token ends where the text does, or before. -/
theorem Token.Stands.within {before behind : List Char} (h : t.Stands source before behind) :
    t.span.start ≤ t.span.stop ∧ t.span.stop ≤ Text.size source.contents := by
  rw [h.start, h.stop, h.contents, ← List.append_assoc, Text.size_append (before ++ t.span.text),
    Text.size_append before]
  omega

/-- All tokens of a text stand in it. -/
theorem Source.stands (source : Source) :
    ∀ t ∈ (tokenize source).tokens, ∃ before behind, t.Stands source before behind := by
  intro t ht
  obtain ⟨k, hreads, -⟩ := reads_tokensFrom source .start source.contents
  exact (hreads.stands (Cursor.tracks_front source) t ht).1

/-- **In a text of less than four gibibytes all offsets have 32 bits.** -/
theorem Source.offsetsFit (hsize : Text.size source.contents < 2 ^ 32) : source.OffsetsFit := by
  intro t ht
  obtain ⟨before, behind, hstands⟩ := source.stands t ht
  have hwithin := hstands.within
  omega

/-- **Tokenisation is lossless.** Where repeated reading reaches the end of a text of less than four
gibibytes, its tokens are words and the end behind them, their offsets have 32 bits, and nothing of
the text is lost in them. -/
theorem tokenize_lossless (source : Source) (hsize : Text.size source.contents < 2 ^ 32)
    (h : (tokenize source).failure? = none) :
    source.OffsetsFit ∧ ∃ last, (tokenize source).tokens = source.words ++ [last] ∧
      source.Lossless source.words last := by
  obtain ⟨last, k, htokens, hlast, hwords, hreads⟩ := Source.exists_reads h
  obtain ⟨k₀, -, hend⟩ := Cursor.Reads.append_iff.1 hreads
  cases hend with
  | cons hnext hnil =>
  cases hnil
  have hstands := hreads.stands (Cursor.tracks_front source)
  refine ⟨Source.offsetsFit hsize, last, htokens, ?_⟩
  constructor
  case reads => exact ⟨k, hreads, Cursor.next_again hnext hlast⟩
  case takes =>
    intro k k' t hk ht
    obtain ⟨gap, htakes⟩ := Cursor.next_takes hk
    refine ⟨gap ++ t.lexeme.written, ?_, ?_⟩
    · simp [htakes.written_ne_nil ht]
    · rw [htakes.split, List.append_assoc]
  case stands => exact fun t ht => (hstands t ht).1
  case ordered => exact hreads.ordered hwords
  case spaced => exact hreads.spaced (Cursor.tracks_front source) hlast
  case inner => exact hwords
  case ending =>
    obtain ⟨before, behind, hstand⟩ := (hstands last (by simp)).1
    have hclass := hstand.inClass
    rw [hlast] at hclass
    obtain ⟨htext, rfl⟩ := hclass
    have hcontents := hstand.contents
    have hstop := hstand.stop
    rw [htext] at hcontents hstop
    simp only [List.append_nil] at hcontents hstop
    exact ⟨hlast, by rw [hstand.start, hcontents], by rw [hstop, hcontents]⟩
  case oneLine =>
    intro t ht c hc
    obtain ⟨⟨before, behind, hstand⟩, hline⟩ := hstands t ht
    rw [hstand.text] at hc
    simpa [endsLine] using hline c hc

/-- A text with characters of several bytes, both kinds of strings, numerals before a point and
before a bracket, and all blanks. -/
theorem tokenize_lossless_blanks :
    let source : Source :=
      ⟨"f", " max(\ta_1.b, 'é\\'ü')\r\n[10]*\"\\n€\" + 0.25E+1 .x\n".toList⟩
    Text.size source.contents < 2 ^ 32 ∧ (tokenize source).failure? = none ∧
      source.OffsetsFit ∧ ∃ last, (tokenize source).tokens = source.words ++ [last] ∧
        source.Lossless source.words last := by
  intro source
  have hsize : Text.size source.contents < 2 ^ 32 := by decide
  have hnone : (tokenize source).failure? = none := by decide +kernel
  exact ⟨hsize, hnone, tokenize_lossless source hsize hnone⟩

end FormCalc
