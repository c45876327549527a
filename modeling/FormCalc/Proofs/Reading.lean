import FormCalc.Proofs.Lexemes
import FormCalc.Token.Recovery

/-!
# Reading token by token

Tokens are read one after the other, and the place in the text moves on with them. What one reading
takes from the text is told once; what holds of many readings follows by induction.

* `IsGap`: blanks.
* `Cursor.next`: one reading; `tokensFrom_eq_next`: the tokens of a text are its repetition.
* `Cursor.Takes`, `Cursor.next_takes`: what one reading does to the text and the place.
* `Cursor.Reads`: readings one behind the other.
* `reads_tokensFrom`: the tokens of every text are read so, up to its end or to the first fault.
* `Source.exists_reads`: where nothing stops the reading, all tokens are read.
* `Cursor.Reads.cut`: the lexemes of what is read are those that the text is cut into.
* `Source.IsToken`: the whole text is one token.
-/

namespace FormCalc

/-- A run of spaces, carriage returns, tabs and line feeds. -/
def IsGap (cs : List Char) : Prop :=
  ∀ c ∈ cs, c ∈ [' ', '\r', '\t', '\n']

theorem isBlank_iff {c : Char} : isBlank c = true ↔ c ∈ [' ', '\r', '\t', '\n'] := by
  simp only [isBlank, Bool.or_eq_true, beq_iff_eq, List.mem_cons, List.not_mem_nil, or_false,
    or_assoc]

/-- There are four blanks. -/
theorem forall_isBlank {P : Char → Prop} (h : P ' ' ∧ P '\r' ∧ P '\t' ∧ P '\n') {c : Char}
    (hc : isBlank c = true) : P c := by
  obtain rfl | rfl | rfl | rfl : c = ' ' ∨ c = '\r' ∨ c = '\t' ∨ c = '\n' := by
    simpa using isBlank_iff.1 hc
  · exact h.1
  · exact h.2.1
  · exact h.2.2.1
  · exact h.2.2.2

instance (cs : List Char) : Decidable (IsGap cs) :=
  decidable_of_iff (cs.all isBlank = true) (by simp only [List.all_eq_true, isBlank_iff, IsGap])

namespace IsGap

theorem nil : IsGap [] := by
  simp [IsGap]

theorem cons_iff {c : Char} {cs : List Char} : IsGap (c :: cs) ↔ isBlank c = true ∧ IsGap cs := by
  rw [isBlank_iff]
  exact List.forall_mem_cons

theorem append {gap gap' : List Char} (h : IsGap gap) (h' : IsGap gap') :
    IsGap (gap ++ gap') := by
  intro c hc
  rcases List.mem_append.1 hc with hc | hc
  · exact h c hc
  · exact h' c hc

theorem takeWhile (cs : List Char) : IsGap (cs.takeWhile isBlank) := by
  intro c hc
  have hall : (cs.takeWhile isBlank).all isBlank = true := List.all_takeWhile
  exact isBlank_iff.1 (List.all_eq_true.1 hall c hc)

/-- A gap is passed over as a whole. -/
theorem dropWhile_append {gap cs : List Char} (h : IsGap gap)
    (hcs : cs.head?.all (fun c => !isBlank c) = true) : (gap ++ cs).dropWhile isBlank = cs := by
  have hdrop : gap.dropWhile isBlank = [] :=
    List.dropWhile_eq_nil_iff.2 fun c hc => isBlank_iff.2 (h c hc)
  rw [dropWhile_append_of_stop gap hcs, hdrop, List.nil_append]

end IsGap

namespace Cursor

/-- Reads the next token. At the end of the text this is the end, and nothing moves. -/
def next (source : Source) (k : Cursor) : Except FormulaError (Token × Cursor) :=
  let q := k.place.behindBlanks (k.rest.takeWhile isBlank)
  match Lexeme.read (k.rest.dropWhile isBlank) with
  | .error (fault, distance) => .error (.malformed ⟨source, q.line, q.col + distance⟩ fault)
  | .ok (l, rest) => .ok (l.token source q, ⟨q.behind l.written, rest⟩)

/-- Tokens that are read one behind the other. -/
inductive Reads (source : Source) : Cursor → List Token → Cursor → Prop where
  | nil (k : Cursor) : Reads source k [] k
  | cons {k k' k'' : Cursor} {t : Token} {ts : List Token} (h : k.next source = .ok (t, k'))
      (hs : Reads source k' ts k'') : Reads source k (t :: ts) k''

/-- What the reading of one token takes: blanks, and the lexeme as it is written. -/
structure Takes (source : Source) (k : Cursor) (t : Token) (k' : Cursor) (gap : List Char) :
    Prop where
  /-- Only blanks are passed over. -/
  blank : IsGap gap
  /-- Blanks and the lexeme are the front of the text. -/
  split : k.rest = gap ++ (t.lexeme.written ++ k'.rest)
  /-- The lexeme is what the text behind the blanks is read as. -/
  read : Lexeme.read (t.lexeme.written ++ k'.rest) = .ok (t.lexeme, k'.rest)
  /-- The span is one of the source. -/
  inSource : t.span.source = source
  /-- The span begins behind the quote. -/
  start : t.span.start = k.place.offset + (Text.size gap + Text.size t.lexeme.quote)
  /-- The span is as long as the text of the lexeme. -/
  stop : t.span.stop = t.span.start + Text.size t.lexeme.text
  /-- The place moves on by what is taken. -/
  offset : k'.place.offset = k.place.offset + (Text.size gap + Text.size t.lexeme.written)

end Cursor

variable {source : Source} {k k' k'' : Cursor} {t : Token} {ts : List Token} {l : Lexeme}
  {cs rest gap : List Char}

/-- A blank takes one byte. -/
theorem utf8Size_of_isBlank {c : Char} (h : isBlank c = true) : c.utf8Size = 1 :=
  forall_isBlank (P := fun c => c.utf8Size = 1) (by decide) h

theorem Place.offset_behindBlank (p : Place) (c : Char) :
    (p.behindBlank c).offset = p.offset + 1 := by
  unfold behindBlank
  split
  · rfl
  · split <;> rfl

/-- Blanks move the offset on by their size. -/
theorem Place.offset_behindBlanks (h : IsGap gap) (p : Place) :
    (p.behindBlanks gap).offset = p.offset + Text.size gap := by
  induction gap generalizing p with
  | nil => rfl
  | cons c gap ih =>
    obtain ⟨hc, hgap⟩ := IsGap.cons_iff.1 h
    have htail := ih hgap (p.behindBlank c)
    have hstep := p.offset_behindBlank c
    have hsize := utf8Size_of_isBlank hc
    simp only [behindBlanks, List.foldl_cons, Text.size_cons] at htail ⊢
    omega

namespace Cursor

/-- **What one reading does**, with the blanks that are passed over. -/
theorem next_takes_blanks (h : k.next source = .ok (t, k')) :
    Takes source k t k' (k.rest.takeWhile isBlank) := by
  unfold next at h
  simp only at h
  split at h
  · simp at h
  rename_i l rest hread
  obtain ⟨rfl, rfl⟩ := by simpa using h
  have hgap := IsGap.takeWhile k.rest
  have hoffset := Place.offset_behindBlanks hgap k.place
  have hsplit := Lexeme.read_split hread
  refine ⟨hgap, ?_, ?_, rfl, ?_, rfl, ?_⟩
  · rw [Lexeme.token, ← hsplit, List.takeWhile_append_dropWhile]
  · rw [Lexeme.token, ← hsplit]
    exact hread
  · simp only [Lexeme.token, Place.behind]
    omega
  · simp only [Lexeme.token, Place.behind]
    omega

theorem next_takes (h : k.next source = .ok (t, k')) : ∃ gap, Takes source k t k' gap :=
  ⟨_, next_takes_blanks h⟩

/-- One reading moves the place over the blanks and then over the lexeme. -/
theorem next_place (h : k.next source = .ok (t, k')) :
    t = t.lexeme.token source (k.place.behindBlanks (k.rest.takeWhile isBlank)) ∧
      k'.place = (k.place.behindBlanks (k.rest.takeWhile isBlank)).behind t.lexeme.written := by
  unfold next at h
  simp only at h
  split at h
  · simp at h
  · obtain ⟨rfl, rfl⟩ := by simpa using h
    exact ⟨rfl, rfl⟩

/-- **Reading at the end of a text gives the end again**, and does not move. -/
theorem next_again (h : k.next source = .ok (t, k')) (ht : t.IsEnd) :
    k'.next source = .ok (t, k') := by
  unfold next at h
  simp only at h
  split at h
  · simp at h
  rename_i l rest hread
  obtain ⟨rfl, rfl⟩ := by simpa using h
  -- only where nothing is left the end is read
  cases hrest : k.rest.dropWhile isBlank with
  | nil =>
    rw [hrest] at hread
    obtain ⟨rfl, rfl⟩ : Lexeme.eof = l ∧ [] = rest := by simpa [Lexeme.read] using hread
    rfl
  | cons c ds =>
    rw [hrest] at hread
    have hformed := Lexeme.read_formed hread
    obtain rfl : l = .eof := ht
    exact hformed.elim

namespace Takes

/-- A lexeme that is not the end is written with characters. -/
theorem written_ne_nil (h : Takes source k t k' gap) (ht : ¬t.IsEnd) : t.lexeme.written ≠ [] := by
  intro hnil
  have hread := h.read
  rw [hnil, List.nil_append] at hread
  cases hrest : k'.rest with
  | nil =>
    rw [hrest] at hread
    obtain hend : Lexeme.eof = t.lexeme := by simpa [Lexeme.read] using hread
    exact ht hend.symm
  | cons c ds =>
    rw [hrest] at hread
    obtain ⟨w, hw⟩ := Lexeme.exists_written hread
    rw [hnil] at hw
    cases hw

/-- The end of a lexeme is the place behind it, less its closing quote. -/
theorem stop_eq (h : Takes source k t k' gap) :
    t.span.stop + Text.size t.lexeme.quote = k'.place.offset := by
  have hstart := h.start
  have hstop := h.stop
  have hoffset := h.offset
  simp only [Lexeme.written, Text.size_append] at hoffset
  omega

/-- The end has no characters. -/
theorem rest_of_isEnd (h : Takes source k t k' gap) (ht : t.IsEnd) : k'.rest = [] := by
  have hread := h.read
  rw [ht] at hread
  cases hrest : k'.rest with
  | nil => rfl
  | cons c ds =>
    rw [hrest] at hread
    exact (Lexeme.read_formed hread).elim

end Takes

namespace Reads

theorem append_iff {us : List Token} :
    Reads source k (ts ++ us) k'' ↔ ∃ k', Reads source k ts k' ∧ Reads source k' us k'' := by
  constructor
  · intro h
    induction ts generalizing k with
    | nil => exact ⟨k, .nil k, h⟩
    | cons t ts ih =>
      cases h with
      | cons hnext hs =>
        obtain ⟨k₁, hts, hus⟩ := ih hs
        exact ⟨k₁, .cons hnext hts, hus⟩
  · rintro ⟨k', hts, hus⟩
    induction hts with
    | nil k => exact hus
    | cons hnext _ ih => exact .cons hnext (ih hus)

/-- Spans begin behind the place where reading began. -/
theorem offset_le (h : Reads source k ts k') :
    k.place.offset ≤ k'.place.offset ∧ ∀ t ∈ ts, k.place.offset ≤ t.span.start := by
  induction h with
  | nil k => simp
  | @cons k k' k'' t ts hnext _ ih =>
    obtain ⟨gap, htakes⟩ := next_takes hnext
    have hstart := htakes.start
    have hoffset := htakes.offset
    obtain ⟨hplace, hspans⟩ := ih
    refine ⟨by omega, fun u hu => ?_⟩
    rcases List.mem_cons.1 hu with rfl | hu
    · omega
    · have := hspans u hu
      omega

/-- **Spans are in order and do not overlap.** -/
theorem ordered (h : Reads source k (ts ++ [t]) k') (hwords : ∀ u ∈ ts, ¬u.IsEnd) :
    (ts ++ [t]).Pairwise fun u v =>
      u.span.start < v.span.start ∧ u.span.stop ≤ v.span.start := by
  induction ts generalizing k with
  | nil => simp
  | cons u ts ih =>
    obtain ⟨hu, hts⟩ := List.forall_mem_cons.1 hwords
    cases h with
    | @cons _ k₁ _ _ _ hnext hs =>
      refine List.pairwise_cons.2 ⟨fun v hv => ?_, ih hs hts⟩
      -- what is read later begins behind this token, which is not empty
      have hlater := hs.offset_le.2 v hv
      obtain ⟨gap, htakes⟩ := next_takes hnext
      have hstop := htakes.stop_eq
      have hlength := htakes.stop
      have hsize : 0 < Text.size u.lexeme.written :=
        Nat.lt_of_lt_of_le (List.length_pos_iff.2 (htakes.written_ne_nil hu))
          (Text.length_le_size _)
      simp only [Lexeme.written, Text.size_append] at hsize
      omega

end Reads

end Cursor

/-- **The tokens of a text are what is read one behind the other**, up to the end or to the first
fault. -/
theorem tokensFrom_eq_next (source : Source) (p : Place) (cs : List Char) :
    tokensFrom source p cs =
      match Cursor.next source ⟨p, cs⟩ with
      | .error err => ⟨[], some err⟩
      | .ok (t, k) =>
        if t.lexeme = .eof then ⟨[t], none⟩
        else ⟨t :: (tokensFrom source k.place k.rest).tokens,
          (tokensFrom source k.place k.rest).failure?⟩ := by
  rw [tokensFrom_eq, Cursor.next]
  simp only
  cases hrest : cs.dropWhile isBlank with
  | nil => rfl
  | cons c ds =>
    cases hread : Lexeme.read (c :: ds) with
    | error e => simp only [hread]
    | ok r =>
      obtain ⟨l, rest⟩ := r
      have hl : (l.token source (p.behindBlanks (cs.takeWhile isBlank))).lexeme ≠ .eof := by
        intro heq
        obtain rfl : l = .eof := heq
        exact (Lexeme.read_formed hread).elim
      simp only [hread, hl, if_false]

/-- **The tokens of a text are read one behind the other**, and where they end reading fails, if it
fails. -/
theorem reads_tokensFrom (source : Source) (p : Place) (cs : List Char) :
    ∃ k, Cursor.Reads source ⟨p, cs⟩ (tokensFrom source p cs).tokens k ∧
      ∀ err, (tokensFrom source p cs).failure? = some err → k.next source = .error err := by
  induction hn : cs.length using Nat.strong_induction_on generalizing p cs with
  | _ n ih =>
    rw [tokensFrom_eq_next]
    cases hnext : Cursor.next source ⟨p, cs⟩ with
    | error err =>
      refine ⟨⟨p, cs⟩, .nil _, fun err' h => ?_⟩
      obtain rfl : err = err' := by simpa using h
      exact hnext
    | ok r =>
      obtain ⟨t, k⟩ := r
      simp only
      by_cases ht : t.lexeme = .eof
      · rw [if_pos ht]
        exact ⟨k, .cons hnext (.nil k), fun err h => by simp at h⟩
      · rw [if_neg ht]
        obtain ⟨gap, htakes⟩ := Cursor.next_takes hnext
        have hlength : k.rest.length < n := by
          have hsplit := congrArg List.length htakes.split
          have hpos := List.length_pos_iff.2 (htakes.written_ne_nil ht)
          simp only [List.length_append] at hsplit
          omega
        obtain ⟨k', hs, hfails⟩ := ih _ hlength k.place k.rest rfl
        exact ⟨k', .cons hnext hs, hfails⟩

/-- Where nothing stops the reading, the words and then the end are read one behind the other. -/
theorem Source.exists_reads (h : (tokenize source).failure? = none) :
    ∃ last k, (tokenize source).tokens = source.words ++ [last] ∧ last.IsEnd ∧
      (∀ t ∈ source.words, ¬t.IsEnd) ∧
      Cursor.Reads source (.front source) (source.words ++ [last]) k := by
  obtain ⟨last, htokens, hlast, hformed⟩ := Source.tokens_eq h
  obtain ⟨k, hreads, -⟩ : ∃ k, Cursor.Reads source (.front source) (tokenize source).tokens k ∧
      ∀ err, (tokenize source).failure? = some err → k.next source = .error err :=
    reads_tokensFrom source .start source.contents
  rw [htokens] at hreads
  exact ⟨last, k, htokens, hlast, fun t ht => Lexeme.Formed.not_isEnd (hformed t ht), hreads⟩

/-- Blanks before a text that is cut. -/
theorem Cut.blanks {ls : List Lexeme} (hgap : IsGap gap) (h : Cut cs ls) : Cut (gap ++ cs) ls := by
  induction gap with
  | nil => exact h
  | cons c gap ih =>
    obtain ⟨hc, hgap⟩ := IsGap.cons_iff.1 hgap
    exact .blank hc (ih hgap)

/-- What is read up to the end is cut into the lexemes that are read. -/
theorem Cursor.Reads.cut (h : Cursor.Reads source k (ts ++ [t]) k')
    (hwords : ∀ u ∈ ts, ¬u.IsEnd) (ht : t.IsEnd) : Cut k.rest (ts.map Token.lexeme) := by
  induction ts generalizing k with
  | nil =>
    cases h with
    | cons hnext _ =>
      obtain ⟨gap, htakes⟩ := Cursor.next_takes hnext
      have hsplit := htakes.split
      rw [htakes.rest_of_isEnd ht, ht] at hsplit
      rw [hsplit]
      exact .blanks htakes.blank .nil
  | cons u ts ih =>
    obtain ⟨hu, hts⟩ := List.forall_mem_cons.1 hwords
    cases h with
    | cons hnext hs =>
      obtain ⟨gap, htakes⟩ := Cursor.next_takes hnext
      obtain ⟨c, w, hw⟩ := List.exists_cons_of_ne_nil (htakes.written_ne_nil hu)
      have hread := htakes.read
      rw [hw] at hread
      rw [htakes.split, hw]
      exact .blanks htakes.blank (.lexeme hread (ih hs hts))

variable {ls : List Lexeme}

/-- The words of a text are the lexemes that it is cut into. -/
theorem Source.words_of_cut (h : Cut source.contents ls) :
    (tokenize source).failure? = none ∧ source.words.map Token.lexeme = ls := by
  obtain ⟨ts, t, htokens, -, hls⟩ := h.tokens source .start
  have hstream : tokenize source = ⟨ts ++ [t], none⟩ := htokens
  rw [words, hstream]
  exact ⟨rfl, by rw [List.dropLast_concat, hls]⟩

/-- A text is cut into its words, where nothing stops the reading. -/
theorem Source.cut_words (h : (tokenize source).failure? = none) :
    Cut source.contents (source.words.map Token.lexeme) := by
  obtain ⟨last, k, -, hlast, hwords, hreads⟩ := Source.exists_reads h
  exact hreads.cut hwords hlast

/-- The whole text is one token, with blanks around it. -/
def Source.IsToken (source : Source) (t : Token) : Prop :=
  ∃ last, tokenize source = ⟨[t, last], none⟩ ∧ last.IsEnd

/-- **A text is one token if it is cut into one lexeme.** -/
theorem Source.exists_isToken_iff :
    (∃ t, source.IsToken t ∧ t.lexeme = l) ↔ Cut source.contents [l] := by
  constructor
  · rintro ⟨t, ⟨last, hstream, -⟩, rfl⟩
    have hnone : (tokenize source).failure? = none := by rw [hstream]
    have hwords : source.words = [t] := by rw [words, hstream]; rfl
    have hcut := Source.cut_words hnone
    rwa [hwords] at hcut
  · intro h
    obtain ⟨ts, last, hstream, hlast, hls⟩ := h.tokens source .start
    obtain ⟨t, rfl, ht⟩ := List.map_eq_singleton_iff.1 hls
    exact ⟨t, ⟨last, hstream, hlast⟩, ht⟩

end FormCalc
