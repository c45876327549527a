import FormCalc.Proofs.Numerals

/-!
# Lexemes one by one

What the text of a lexeme looks like, which character may stand behind it, and that nothing behind
that character matters to how it is read.

* `Lexeme.ReadAs`: the five ways of reading a lexeme.
* `doubleBody_ok_iff`, `singleBody_ok_iff`: what a string literal is, and where it ends.
* `Lexeme.stop`, `Lexeme.read_stop`: the characters that may stand behind a lexeme.
* `Lexeme.read_again`: the text of a lexeme is read as this lexeme wherever such a character, or
  nothing, stands behind it.
* `Lexeme.read_oneLine`: the text of a lexeme has no line end.
-/

namespace FormCalc

open Number (Numeral fractionText exponentText)

variable {c : Char} {cs rest rest' : List Char} {l : Lexeme}

/-- How a lexeme is read that begins with the character `c`. -/
inductive Lexeme.ReadAs (c : Char) (cs : List Char) : Lexeme → List Char → Prop where
  | symbol (s : Symbol) (hc : s.char = c) : ReadAs c cs (.symbol s) cs
  | doubleQuoted {body rest : List Char} (hc : c = '"') (h : doubleBody 1 cs = .ok (body, rest)) :
      ReadAs c cs (.doubleQuoted body) rest
  | singleQuoted {body rest : List Char} (hc : c = '\'') (h : singleBody 1 cs = .ok (body, rest)) :
      ReadAs c cs (.singleQuoted body) rest
  | number {n : Numeral} {rest : List Char} (hc : c.isDigit = true)
      (h : readNumeral c cs = .ok (n, rest)) : ReadAs c cs (.number n) rest
  | ident (hc : beginsIdent c = true) :
      ReadAs c cs (.ident (c :: cs.takeWhile isIdentChar)) (cs.dropWhile isIdentChar)

/-- A lexeme is read in one of these ways. -/
theorem Lexeme.readAs_of_read (h : read (c :: cs) = .ok (l, rest)) : ReadAs c cs l rest := by
  simp only [read] at h
  split at h
  · rename_i s hs
    obtain ⟨rfl, rfl⟩ : .symbol s = l ∧ cs = rest := by simpa using h
    exact .symbol s (Symbol.ofChar?_eq_some_iff.1 hs)
  split at h
  · rename_i hc
    obtain ⟨⟨body, rest'⟩, hbody, hl⟩ := map_eq_ok h
    obtain ⟨rfl, rfl⟩ : .doubleQuoted body = l ∧ rest' = rest := by simpa using hl
    exact .doubleQuoted hc hbody
  split at h
  · rename_i hc
    obtain ⟨⟨body, rest'⟩, hbody, hl⟩ := map_eq_ok h
    obtain ⟨rfl, rfl⟩ : .singleQuoted body = l ∧ rest' = rest := by simpa using hl
    exact .singleQuoted hc hbody
  split at h
  · rename_i hc
    obtain ⟨⟨n, rest'⟩, hn, hl⟩ := map_eq_ok h
    obtain ⟨rfl, rfl⟩ : .number n = l ∧ rest' = rest := by simpa using hl
    exact .number hc hn
  split at h
  · rename_i hc
    simp only [Except.ok.injEq, Prod.mk.injEq] at h
    obtain ⟨rfl, rfl⟩ := h
    exact .ident hc
  · simp at h

/-- A lexeme is written with the character that it is read from. -/
theorem Lexeme.exists_written (h : read (c :: cs) = .ok (l, rest)) :
    ∃ w, l.written = c :: w := by
  have hsplit := read_split h
  cases hw : l.written with
  | nil =>
    have hlength := read_length h
    rw [hw, List.nil_append] at hsplit
    rw [← hsplit, List.length_cons] at hlength
    omega
  | cons d w =>
    rw [hw] at hsplit
    obtain ⟨rfl, -⟩ : c = d ∧ cs = w ++ rest := by simpa using hsplit
    exact ⟨w, rfl⟩

/-- A digit begins nothing but a numeral. -/
theorem Lexeme.read_of_isDigit (h : c.isDigit = true) (cs : List Char) :
    read (c :: cs) = (readNumeral c cs).map fun r => (.number r.1, r.2) := by
  have hsymbol : Symbol.ofChar? c = none := by
    cases hs : Symbol.ofChar? c with
    | none => rfl
    | some s =>
      rw [← Symbol.ofChar?_eq_some_iff.1 hs] at h
      cases s <;> simp [Symbol.char] at h
  have hquote : c ≠ '"' ∧ c ≠ '\'' := by
    constructor <;> rintro rfl <;> simp at h
  simp only [read, hsymbol, hquote.1, hquote.2, h, if_false, if_true]

section Literals

variable {body : List Char}

/-- The bodies of literals in double quotes: plain characters, short escapes and escapes by four
hexadecimal digits. -/
inductive IsDoubleBody : List Char → Prop where
  | nil : IsDoubleBody []
  | plain {c : Char} {body : List Char} (hquote : c ≠ '"') (hslash : c ≠ '\\')
      (hc : 0x20 ≤ c.toNat) (h : IsDoubleBody body) : IsDoubleBody (c :: body)
  | short {c d : Char} {body : List Char} (hc : Json.shortEscape? c = some d)
      (h : IsDoubleBody body) : IsDoubleBody ('\\' :: c :: body)
  | hex {a b c d : Char} {body : List Char} (hx : [a, b, c, d].all Number.isHexDigit = true)
      (h : IsDoubleBody body) : IsDoubleBody ('\\' :: 'u' :: a :: b :: c :: d :: body)

/-- The bodies of literals in single quotes: plain characters and two escapes. -/
inductive IsSingleBody : List Char → Prop where
  | nil : IsSingleBody []
  | plain {c : Char} {body : List Char} (hquote : c ≠ '\'') (hslash : c ≠ '\\')
      (hc : c ≠ '\n' ∧ c ≠ '\r') (h : IsSingleBody body) : IsSingleBody (c :: body)
  | quote {body : List Char} (h : IsSingleBody body) : IsSingleBody ('\\' :: '\'' :: body)
  | slash {body : List Char} (h : IsSingleBody body) : IsSingleBody ('\\' :: '\\' :: body)

theorem isDoubleBody_of_read {col : Nat} (h : doubleBody col cs = .ok (body, rest)) :
    IsDoubleBody body := by
  fun_induction doubleBody col cs generalizing body with
  | case2 =>
    obtain ⟨rfl, -⟩ : [] = body ∧ _ := by simpa using h
    exact .nil
  | case3 col a b c d cs hx ih =>
    obtain ⟨tail, ht, rfl⟩ := map_prepend_eq_ok h
    exact .hex hx (ih ht)
  | case6 col c cs _ _ hshort ih =>
    obtain ⟨tail, ht, rfl⟩ := map_prepend_eq_ok h
    obtain ⟨d, hd⟩ := Option.isSome_iff_exists.1 hshort
    exact .short hd (ih ht)
  | case10 col c cs hquote _ _ hpair hlast hc ih =>
    obtain ⟨tail, ht, rfl⟩ := map_prepend_eq_ok h
    have hslash : c ≠ '\\' := by
      intro heq
      cases cs with
      | nil => exact hlast heq rfl
      | cons d ds => exact hpair d ds heq rfl
    exact .plain hquote hslash (Nat.not_lt.1 hc) (ih ht)
  | _ => simp at h

theorem isSingleBody_of_read {dist : Nat} (h : singleBody dist cs = .ok (body, rest)) :
    IsSingleBody body := by
  fun_induction singleBody dist cs generalizing body with
  | case2 =>
    obtain ⟨rfl, -⟩ : [] = body ∧ _ := by simpa using h
    exact .nil
  | case3 dist cs ih =>
    obtain ⟨tail, ht, rfl⟩ := map_prepend_eq_ok h
    exact .quote (ih ht)
  | case4 dist cs ih =>
    obtain ⟨tail, ht, rfl⟩ := map_prepend_eq_ok h
    exact .slash (ih ht)
  | case7 dist c cs hquote _ _ hslash hc ih =>
    obtain ⟨tail, ht, rfl⟩ := map_prepend_eq_ok h
    exact .plain hquote hslash (not_or.1 hc) (ih ht)
  | _ => simp at h

/-- Bodies one behind the other. -/
theorem IsDoubleBody.append {body body' : List Char} (h : IsDoubleBody body)
    (h' : IsDoubleBody body') : IsDoubleBody (body ++ body') := by
  induction h with
  | nil => exact h'
  | plain hquote hslash hc _ ih => exact .plain hquote hslash hc ih
  | short hc _ ih => exact .short hc ih
  | hex hx _ ih => exact .hex hx ih

theorem IsSingleBody.append {body body' : List Char} (h : IsSingleBody body)
    (h' : IsSingleBody body') : IsSingleBody (body ++ body') := by
  induction h with
  | nil => exact h'
  | plain hquote hslash hc _ ih => exact .plain hquote hslash hc ih
  | quote _ ih => exact .quote ih
  | slash _ ih => exact .slash ih

/-- A body is read up to its closing quote. -/
theorem IsDoubleBody.read (h : IsDoubleBody body) (col : Nat) (rest : List Char) :
    doubleBody col (body ++ '"' :: rest) = .ok (body, rest) := by
  induction h generalizing col with
  | nil => simp [doubleBody]
  | plain hquote hslash hc _ ih =>
    rw [List.cons_append, doubleBody_of_plain hquote hslash hc, ih]
    rfl
  | short hc _ ih =>
    rw [List.cons_append, List.cons_append, doubleBody_of_short hc, ih]
    rfl
  | hex hx _ ih =>
    simp only [List.cons_append]
    rw [doubleBody_of_hex hx, ih]
    rfl

theorem IsSingleBody.read (h : IsSingleBody body) (dist : Nat) (rest : List Char) :
    singleBody dist (body ++ '\'' :: rest) = .ok (body, rest) := by
  induction h generalizing dist with
  | nil => simp [singleBody]
  | @plain c body hquote hslash hc _ ih =>
    rw [List.cons_append, singleBody, if_neg (not_or.2 hc), ih]
    · rfl
    all_goals simp_all
  | quote _ ih =>
    simp only [List.cons_append]
    rw [singleBody, ih]
    rfl
  | slash _ ih =>
    simp only [List.cons_append]
    rw [singleBody, ih]
    rfl

/-- **A literal in double quotes is read up to its first quote behind a body.** -/
theorem doubleBody_ok_iff {col : Nat} :
    doubleBody col cs = .ok (body, rest) ↔ IsDoubleBody body ∧ cs = body ++ '"' :: rest := by
  constructor
  · intro h
    exact ⟨isDoubleBody_of_read h, doubleBody_split h⟩
  · rintro ⟨hbody, rfl⟩
    exact hbody.read col rest

/-- **A literal in single quotes is read up to its first quote behind a body.** -/
theorem singleBody_ok_iff {dist : Nat} :
    singleBody dist cs = .ok (body, rest) ↔ IsSingleBody body ∧ cs = body ++ '\'' :: rest := by
  constructor
  · intro h
    exact ⟨isSingleBody_of_read h, singleBody_split h⟩
  · rintro ⟨hbody, rfl⟩
    exact hbody.read dist rest

end Literals

namespace Lexeme

/-- The characters that may stand behind a lexeme. -/
def stop : Lexeme → Char → Bool
  | .ident _ => endsIdent
  | .number _ => endsNumeral
  | _ => anyChar

theorem all_anyChar (cs : List Char) : cs.head?.all anyChar = true := by
  cases cs <;> rfl

/-- **Behind a lexeme stands a character that ends it, or nothing.** -/
theorem read_stop (h : read (c :: cs) = .ok (l, rest)) : rest.head?.all l.stop = true := by
  cases readAs_of_read h with
  | symbol s hc => exact all_anyChar _
  | doubleQuoted hc h => exact all_anyChar _
  | singleQuoted hc h => exact all_anyChar _
  | number hc h => exact (readNumeral_eq_ok h).2.1
  | ident hc =>
    exact all_head?_dropWhile isIdentChar cs

/-- **A lexeme is read again from its text**, whatever stands behind the character that ends it. -/
theorem read_again (h : read (c :: cs) = .ok (l, rest)) (hrest : rest'.head?.all l.stop = true) :
    read (l.written ++ rest') = .ok (l, rest') := by
  cases readAs_of_read h with
  | symbol s hc =>
    simp only [written, quote, text, List.nil_append, List.append_nil, List.singleton_append,
      read, Symbol.ofChar?_eq_some_iff.2 rfl]
  | @doubleQuoted body rest hc h =>
    have hbody : doubleBody 1 (body ++ '"' :: rest') = .ok (body, rest') :=
      doubleBody_ok_iff.2 ⟨isDoubleBody_of_read h, rfl⟩
    have hsymbol : Symbol.ofChar? '"' = none := by decide
    simp [written, quote, text, read, hsymbol, hbody, Except.map]
  | @singleQuoted body rest hc h =>
    have hbody : singleBody 1 (body ++ '\'' :: rest') = .ok (body, rest') :=
      singleBody_ok_iff.2 ⟨isSingleBody_of_read h, rfl⟩
    have hsymbol : Symbol.ofChar? '\'' = none := by decide
    simp [written, quote, text, read, hsymbol, hbody, Except.map]
  | @number n rest hc h =>
    obtain ⟨hformed, htext, -, hrange⟩ := (readNumeral_ok_iff hc).1 h
    obtain ⟨ds, hds⟩ := hformed.exists_text htext
    have hagain : readNumeral c (ds ++ rest') = .ok (n, rest') :=
      (readNumeral_ok_iff hc).2 ⟨hformed, by rw [hds]; rfl, hrest, hrange⟩
    simp only [written, quote, text, List.nil_append, List.append_nil, hds, List.cons_append]
    rw [read_of_isDigit hc, hagain]
    rfl
  | ident hc =>
    have hall : ∀ x ∈ cs.takeWhile isIdentChar, isIdentChar x = true :=
      List.all_eq_true.1 List.all_takeWhile
    simp only [written, quote, text, List.nil_append, List.append_nil, List.cons_append]
    rw [read_of_beginsIdent hc, takeWhile_append_of_stop _ hrest, dropWhile_append_of_stop _ hrest,
      List.takeWhile_eq_self_iff.2 hall, List.dropWhile_eq_nil_iff.2 hall, List.nil_append]

end Lexeme

section OneLine

/-- The characters that end a line. -/
def endsLine (c : Char) : Bool :=
  c == '\n' || c == '\r'

/-- What neither line end is, is none. -/
theorem not_endsLine {p : Char → Bool} (hn : p '\n' = false) (hr : p '\r' = false)
    (hc : p c = true) : endsLine c = false := by
  cases h : endsLine c with
  | false => rfl
  | true =>
    obtain rfl | rfl : c = '\n' ∨ c = '\r' := by simpa [endsLine] using h
    · simp [hn] at hc
    · simp [hr] at hc

theorem not_endsLine_of_isIdentChar (hc : isIdentChar c = true) : endsLine c = false :=
  not_endsLine (by decide) (by decide) hc

theorem not_endsLine_of_isHexDigit (hc : Number.isHexDigit c = true) : endsLine c = false :=
  not_endsLine (by decide) (by decide) hc

theorem IsDoubleBody.oneLine {body : List Char} (h : IsDoubleBody body) :
    ∀ d ∈ body, endsLine d = false := by
  induction h with
  | nil => simp
  | @plain c body _ _ hc _ ih =>
    have hline : endsLine c = false :=
      not_endsLine (p := fun c => decide (0x20 ≤ c.toNat)) (by decide) (by decide)
        (by simpa using hc)
    exact List.forall_mem_cons.2 ⟨hline, ih⟩
  | @short c d body hc _ ih =>
    have hline : endsLine c = false :=
      not_endsLine (p := fun c => (Json.shortEscape? c).isSome) (by decide) (by decide)
        (by simp [hc])
    exact List.forall_mem_cons.2 ⟨by decide, List.forall_mem_cons.2 ⟨hline, ih⟩⟩
  | hex hx _ ih =>
    simp only [List.all_cons, List.all_nil, Bool.and_true, Bool.and_eq_true] at hx
    obtain ⟨ha, hb, hc, hd⟩ := hx
    simp only [List.forall_mem_cons]
    exact ⟨by decide, by decide, not_endsLine_of_isHexDigit ha, not_endsLine_of_isHexDigit hb,
      not_endsLine_of_isHexDigit hc, not_endsLine_of_isHexDigit hd, ih⟩

theorem IsSingleBody.oneLine {body : List Char} (h : IsSingleBody body) :
    ∀ d ∈ body, endsLine d = false := by
  induction h with
  | nil => simp
  | plain _ _ hc _ ih => exact List.forall_mem_cons.2 ⟨by simp [endsLine, hc.1, hc.2], ih⟩
  | quote _ ih | slash _ ih =>
    exact List.forall_mem_cons.2 ⟨by decide, List.forall_mem_cons.2 ⟨by decide, ih⟩⟩

theorem Number.Numeral.Formed.oneLine {n : Numeral} (h : n.Formed) :
    ∀ d ∈ n.text, endsLine d = false :=
  fun d hd => not_endsLine (by decide) (by decide) (h.begun.mem_text d hd)

/-- **The text of a lexeme stands on one line.** -/
theorem Lexeme.read_oneLine (h : read (c :: cs) = .ok (l, rest)) :
    ∀ d ∈ l.text, endsLine d = false := by
  cases readAs_of_read h with
  | symbol s hc =>
    intro d hd
    obtain rfl : d = s.char := by simpa [text] using hd
    cases s <;> decide
  | doubleQuoted hc h => exact (isDoubleBody_of_read h).oneLine
  | singleQuoted hc h => exact (isSingleBody_of_read h).oneLine
  | number hc h => exact ((readNumeral_ok_iff hc).1 h).1.oneLine
  | ident hc =>
    have hall : ∀ d ∈ cs.takeWhile isIdentChar, isIdentChar d = true :=
      List.all_eq_true.1 List.all_takeWhile
    have hfirst : isIdentChar c = true := by
      simp only [beginsIdent, Bool.or_eq_true] at hc
      simp only [isIdentChar, Char.isAlphanum, Bool.or_eq_true]
      exact hc.imp .inl id
    exact List.forall_mem_cons.2 ⟨not_endsLine_of_isIdentChar hfirst, fun d hd =>
      not_endsLine_of_isIdentChar (hall d hd)⟩

end OneLine

end FormCalc
