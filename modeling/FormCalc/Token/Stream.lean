import FormCalc.Token.Literal
import FormCalc.Token.Numeral

/-!
# The tokens of a source

A source is cut into tokens from the left. Blanks between tokens move the place on: a line feed
begins a row, a tab takes four columns, and every other blank takes one.

* `Lexeme.read`: the lexeme at the front of a text.
* `Lexeme.read_split`: the lexeme as written and the text behind it make up the text.
* `tokenize`: all tokens of a source up to its end, or up to the first fault.
-/

namespace FormCalc

/-- Characters that separate tokens. -/
def isBlank (c : Char) : Bool :=
  c == ' ' || c == '\r' || c == '\t' || c == '\n'

/-- Characters that begin an identifier. -/
def beginsIdent (c : Char) : Bool :=
  c.isAlpha || c == '_'

/-- Characters of which an identifier consists. -/
def isIdentChar (c : Char) : Bool :=
  c.isAlphanum || c == '_'

/-- Reads the lexeme at the front of a text. A fault comes with its distance in columns from
the front. -/
def Lexeme.read : List Char → Except (Fault × Nat) (Lexeme × List Char)
  | [] => .ok (.eof, [])
  | c :: cs =>
    match Symbol.ofChar? c with
    | some s => .ok (.symbol s, cs)
    | none =>
      if c = '"' then (doubleBody 1 cs).map fun r => (.doubleQuoted r.1, r.2)
      else if c = '\'' then (singleBody 1 cs).map fun r => (.singleQuoted r.1, r.2)
      else if c.isDigit then (readNumeral c cs).map fun r => (.number r.1, r.2)
      else if beginsIdent c then
        .ok (.ident (c :: cs.takeWhile isIdentChar), cs.dropWhile isIdentChar)
      else .error (.invalidCharacter c, 0)

theorem map_eq_ok {α β ε : Type} {r : Except ε α} {f : α → β} {b : β} (h : r.map f = .ok b) :
    ∃ a, r = .ok a ∧ f a = b := by
  cases r with
  | error e => simp [Except.map] at h
  | ok a => exact ⟨a, rfl, by simpa [Except.map] using h⟩

theorem map_eq_error {α β ε : Type} {r : Except ε α} {f : α → β} {e : ε}
    (h : r.map f = .error e) : r = .error e := by
  cases r with
  | error e' => simpa [Except.map] using h
  | ok a => simp [Except.map] at h

/-- **Nothing is lost in reading a lexeme.** -/
theorem Lexeme.read_split {cs rest : List Char} {l : Lexeme} (h : read cs = .ok (l, rest)) :
    cs = l.written ++ rest := by
  cases cs with
  | nil =>
    simp only [read, Except.ok.injEq, Prod.mk.injEq] at h
    simp [← h.1, ← h.2, written, Lexeme.quote, Lexeme.text]
  | cons c cs =>
    simp only [read] at h
    split at h
    · rename_i s hs
      simp only [Except.ok.injEq, Prod.mk.injEq] at h
      simp [← h.1, ← h.2, written, Lexeme.quote, Lexeme.text, Symbol.ofChar?_eq_some_iff.1 hs]
    · split at h
      · rename_i hc
        obtain ⟨r, hr, hl⟩ := map_eq_ok h
        simp only [Prod.mk.injEq] at hl
        simp [← hl.1, ← hl.2, written, Lexeme.quote, Lexeme.text, doubleBody_split hr, hc]
      · split at h
        · rename_i hc
          obtain ⟨r, hr, hl⟩ := map_eq_ok h
          simp only [Prod.mk.injEq] at hl
          simp [← hl.1, ← hl.2, written, Lexeme.quote, Lexeme.text, singleBody_split hr, hc]
        · split at h
          · obtain ⟨r, hr, hl⟩ := map_eq_ok h
            simp only [Prod.mk.injEq] at hl
            simp [← hl.1, ← hl.2, written, Lexeme.quote, Lexeme.text, readNumeral_split hr]
          · split at h
            · simp only [Except.ok.injEq, Prod.mk.injEq] at h
              simp [← h.1, ← h.2, written, Lexeme.quote, Lexeme.text]
            · simp at h

/-- **Reading consumes a character unless the text is at its end.** -/
theorem Lexeme.read_length {c : Char} {cs rest : List Char} {l : Lexeme}
    (h : read (c :: cs) = .ok (l, rest)) : rest.length ≤ cs.length := by
  simp only [read] at h
  split at h
  · simp only [Except.ok.injEq, Prod.mk.injEq] at h
    simp [← h.2]
  · split at h
    · obtain ⟨r, hr, hl⟩ := map_eq_ok h
      simp only [Prod.mk.injEq] at hl
      rw [← hl.2, doubleBody_split hr]
      simp; omega
    · split at h
      · obtain ⟨r, hr, hl⟩ := map_eq_ok h
        simp only [Prod.mk.injEq] at hl
        rw [← hl.2, singleBody_split hr]
        simp; omega
      · split at h
        · obtain ⟨r, hr, hl⟩ := map_eq_ok h
          simp only [Prod.mk.injEq] at hl
          rw [← hl.2]
          exact readNumeral_length hr
        · split at h
          · simp only [Except.ok.injEq, Prod.mk.injEq] at h
            rw [← h.2]
            exact (List.dropWhile_sublist _).length_le
          · simp at h

/-- A place in a source: the byte offset, and the line and column counted from one. The three have
no bound here; `Source.offsetsFit` tells in which texts offsets have 32 bits, and `tokens_located`
in which texts lines and columns have. -/
structure Place where
  offset : Nat
  line : Nat
  col : Nat
deriving DecidableEq

namespace Place

/-- The place where a source begins. -/
def start : Place := ⟨0, 1, 1⟩

/-- The place behind a blank. -/
def behindBlank (p : Place) (c : Char) : Place :=
  if c = '\n' then ⟨p.offset + 1, p.line + 1, 1⟩
  else if c = '\t' then ⟨p.offset + 1, p.line, p.col + 4⟩
  else ⟨p.offset + 1, p.line, p.col + 1⟩

/-- The place behind blanks. -/
def behindBlanks (p : Place) (cs : List Char) : Place :=
  cs.foldl behindBlank p

/-- The place behind a token, which stands on one line. -/
def behind (p : Place) (cs : List Char) : Place :=
  ⟨p.offset + Text.size cs, p.line, p.col + cs.length⟩

end Place

/-- The token of a lexeme that is written at a place of a source. -/
def Lexeme.token (l : Lexeme) (source : Source) (p : Place) : Token :=
  let q := p.behind l.quote
  ⟨l, ⟨source, q.line, q.col, q.offset, q.offset + Text.size l.text⟩⟩

/-- The tokens of a source, and the error at which reading stopped, if it did. If it did not, the
last token is the end. -/
structure TokenStream where
  tokens : List Token
  failure? : Option FormulaError
deriving DecidableEq

/-- The tokens of the rest of a source that goes on at a place. -/
def tokensFrom (source : Source) (p : Place) (cs : List Char) : TokenStream :=
  let q := p.behindBlanks (cs.takeWhile isBlank)
  match h : cs.dropWhile isBlank with
  | [] => ⟨[Lexeme.eof.token source q], none⟩
  | c :: ds =>
    match hr : Lexeme.read (c :: ds) with
    | .error (fault, distance) => ⟨[], some (.malformed ⟨source, q.line, q.col + distance⟩ fault)⟩
    | .ok (l, rest) =>
      have : rest.length < cs.length := by
        have h1 := Lexeme.read_length hr
        have h2 := (List.dropWhile_sublist isBlank (l := cs)).length_le
        rw [h] at h2
        simp at h2
        omega
      let stream := tokensFrom source (q.behind l.written) rest
      ⟨l.token source q :: stream.tokens, stream.failure?⟩
termination_by cs.length

/-- The tokens of a source. -/
def tokenize (source : Source) : TokenStream :=
  tokensFrom source .start source.contents

/-- The text that a string literal stands for; a fault is reported at the token. -/
def Token.value (t : Token) : Except FormulaError String :=
  match t.lexeme.value with
  | .ok s => .ok (String.ofList s)
  | .error fault => .error (.malformed t.span.site fault)

end FormCalc
