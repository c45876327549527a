import FormCalc.Proofs.Tokens
import Mathlib.Data.List.TakeWhile

/-!
# Cutting a text into lexemes

Where the tokens of a text stand does not matter to what they are. So it is told for lexemes how a
text is cut, and which text stands for a lexeme wherever it is written.

* `Cut`: a text is cut into lexemes up to its end.
* `Cut.tokens`: these are the lexemes of its tokens.
* `Lexes`: a text stands for lexemes if a fitting character follows it, or nothing.
* `Lexes.symbol`, `lexes_ident`, `lexes_number`, `lexes_quote`: the texts of single lexemes.
* `Lexes.append`: texts one behind the other.
-/

namespace FormCalc

/-- The text is cut into the lexemes up to its end. -/
inductive Cut : List Char → List Lexeme → Prop where
  | nil : Cut [] []
  | blank {c : Char} {cs : List Char} {ls : List Lexeme} (hc : isBlank c = true) (h : Cut cs ls) :
      Cut (c :: cs) ls
  | lexeme {c : Char} {cs rest : List Char} {l : Lexeme} {ls : List Lexeme}
      (hread : Lexeme.read (c :: cs) = .ok (l, rest)) (h : Cut rest ls) : Cut (c :: cs) (l :: ls)

/-- A lexeme does not begin with a blank. -/
theorem isBlank_of_read {c : Char} {cs rest : List Char} {l : Lexeme}
    (h : Lexeme.read (c :: cs) = .ok (l, rest)) : isBlank c = false := by
  cases hc : isBlank c with
  | false => rfl
  | true =>
    -- no lexeme begins with one of the four blanks
    simp only [isBlank, Bool.or_eq_true, beq_iff_eq] at hc
    obtain (((rfl | rfl) | rfl) | rfl) := hc <;>
      simp [Lexeme.read, Symbol.ofChar?, Symbol.all, Symbol.char, beginsIdent] at h

/-- The tokens of a text, by the lexeme behind its blanks. -/
theorem tokensFrom_eq (source : Source) (p : Place) (cs : List Char) :
    tokensFrom source p cs =
      let q := p.behindBlanks (cs.takeWhile isBlank)
      match cs.dropWhile isBlank with
      | [] => ⟨[Lexeme.eof.token source q], none⟩
      | c :: ds =>
        match Lexeme.read (c :: ds) with
        | .error (fault, distance) =>
          ⟨[], some (.malformed ⟨source, q.line, q.col + distance⟩ fault)⟩
        | .ok (l, rest) =>
          ⟨l.token source q :: (tokensFrom source (q.behind l.written) rest).tokens,
            (tokensFrom source (q.behind l.written) rest).failure?⟩ := by
  rw [tokensFrom.eq_def]
  simp only
  split
  · rename_i h
    rw [h]
  · rename_i c ds h
    rw [h]
    split <;> rename_i hr <;> simp only [hr]

/-- Blanks move the place on. -/
theorem tokensFrom_blank {c : Char} (hc : isBlank c = true) (source : Source) (p : Place)
    (cs : List Char) : tokensFrom source p (c :: cs) = tokensFrom source (p.behindBlank c) cs := by
  rw [tokensFrom_eq, tokensFrom_eq source (p.behindBlank c)]
  simp only [List.takeWhile_cons, List.dropWhile_cons, hc, if_true, Place.behindBlanks,
    List.foldl_cons]

/-- A lexeme at the front is the first token. -/
theorem tokensFrom_lexeme {c : Char} {cs rest : List Char} {l : Lexeme}
    (h : Lexeme.read (c :: cs) = .ok (l, rest)) (source : Source) (p : Place) :
    tokensFrom source p (c :: cs) =
      ⟨l.token source p :: (tokensFrom source (p.behind l.written) rest).tokens,
        (tokensFrom source (p.behind l.written) rest).failure?⟩ := by
  have hc := isBlank_of_read h
  rw [tokensFrom_eq]
  simp only [List.takeWhile_cons, List.dropWhile_cons, hc, Bool.false_eq_true, if_false,
    Place.behindBlanks, List.foldl_nil, h]

/-- **The tokens of a text that is cut into lexemes.** -/
theorem Cut.tokens {cs : List Char} {ls : List Lexeme} (h : Cut cs ls) (source : Source)
    (p : Place) : ∃ ts t, tokensFrom source p cs = ⟨ts ++ [t], none⟩ ∧ t.IsEnd ∧
      ts.map Token.lexeme = ls := by
  induction h generalizing p with
  | nil =>
    refine ⟨[], Lexeme.eof.token source p, ?_, rfl, rfl⟩
    rw [tokensFrom.eq_def]
    rfl
  | blank hc _ ih =>
    rw [tokensFrom_blank hc]
    exact ih _
  | @lexeme c cs rest l ls hread _ ih =>
    obtain ⟨ts, t, hts, ht, hls⟩ := ih (p.behind l.written)
    refine ⟨l.token source p :: ts, t, ?_, ht, by rw [List.map_cons, hls]; rfl⟩
    rw [tokensFrom_lexeme hread, hts]
    rfl

/-- The text stands for the lexemes if a character that `stop` allows follows it, or nothing. -/
def Lexes (stop : Char → Bool) (cs : List Char) (ls : List Lexeme) : Prop :=
  ∀ rest ms, rest.head?.all stop = true → Cut rest ms → Cut (cs ++ rest) (ls ++ ms)

/-- Any character. -/
def anyChar : Char → Bool := fun _ => true

/-- Characters that end an identifier. -/
def endsIdent (c : Char) : Bool := !isIdentChar c

/-- Characters that end a numeral; they end an identifier, too. -/
def endsNumeral (c : Char) : Bool := !extendsNumeral c

theorem endsIdent_of_endsNumeral {c : Char} (h : endsNumeral c = true) : endsIdent c = true := by
  simp only [endsNumeral, extendsNumeral, endsIdent, isIdentChar, Bool.not_eq_true',
    Bool.or_eq_false_iff] at h ⊢
  exact ⟨h.2, h.1.1⟩

namespace Lexes

variable {stop stop' : Char → Bool} {c : Char} {cs ds : List Char} {l : Lexeme}
  {ls ms : List Lexeme}

theorem mono (h : Lexes stop cs ls) (hstop : ∀ c, stop' c = true → stop c = true) :
    Lexes stop' cs ls := by
  intro rest ms hrest hcut
  refine h rest ms ?_ hcut
  cases rest with
  | nil => rfl
  | cons c rest => simpa using hstop c (by simpa using hrest)

/-- A text with nothing behind it. -/
theorem cut (h : Lexes stop cs ls) : Cut cs ls := by
  simpa using h [] [] rfl .nil

/-- Texts one behind the other. -/
theorem append (h : Lexes stop cs ls) (h' : Lexes stop' (c :: ds) ms) (hc : stop c = true) :
    Lexes stop' (cs ++ c :: ds) (ls ++ ms) := by
  intro rest ns hrest hcut
  rw [List.append_assoc, List.append_assoc]
  exact h _ _ (by simpa using hc) (h' rest ns hrest hcut)

/-- A text that is read as one lexeme, whatever follows. -/
theorem of_read (h : ∀ rest : List Char, rest.head?.all stop = true →
    Lexeme.read (c :: (cs ++ rest)) = .ok (l, rest)) : Lexes stop (c :: cs) [l] :=
  fun rest _ hrest hcut => .lexeme (h rest hrest) hcut

/-- A blank in front. -/
theorem blank (h : Lexes stop cs ls) : Lexes stop (' ' :: cs) ls :=
  fun rest ms hrest hcut => .blank rfl (h rest ms hrest hcut)

theorem nil : Lexes stop [] [] :=
  fun _ _ _ hcut => hcut

/-- A symbol in front. -/
theorem symbol (s : Symbol) (h : Lexes stop cs ls) :
    Lexes stop (s.char :: cs) (.symbol s :: ls) := by
  intro rest ms hrest hcut
  have hread : Lexeme.read (s.char :: (cs ++ rest)) = .ok (.symbol s, cs ++ rest) := by
    simp only [Lexeme.read, Symbol.ofChar?_eq_some_iff.2 rfl]
  exact .lexeme hread (h rest ms hrest hcut)

end Lexes

section Runs

variable {p : Char → Bool} {rest : List Char}

/-- A run of characters does not go on behind its end. -/
theorem takeWhile_append_of_stop (cs : List Char) (h : rest.head?.all (fun c => !p c) = true) :
    (cs ++ rest).takeWhile p = cs.takeWhile p := by
  induction cs with
  | nil => cases rest <;> simp_all
  | cons c cs ih => simp only [List.cons_append, List.takeWhile_cons, ih]

theorem dropWhile_append_of_stop (cs : List Char) (h : rest.head?.all (fun c => !p c) = true) :
    (cs ++ rest).dropWhile p = cs.dropWhile p ++ rest := by
  induction cs with
  | nil => cases rest <;> simp_all
  | cons c cs ih =>
    simp only [List.cons_append, List.dropWhile_cons, ih]
    split <;> rfl

/-- Behind a run stands another character, or nothing. -/
theorem all_head?_dropWhile (p : Char → Bool) (cs : List Char) :
    (cs.dropWhile p).head?.all (fun c => !p c) = true := by
  have hhead := List.head?_dropWhile_not p cs
  cases hd : (cs.dropWhile p).head? with
  | none => rfl
  | some c =>
    rw [hd] at hhead
    simpa using hhead

end Runs

/-- A letter or an underscore is no digit. -/
theorem isDigit_eq_false_of_beginsIdent {c : Char} (h : beginsIdent c = true) :
    c.isDigit = false := by
  obtain h | rfl : c.isAlpha = true ∨ c = '_' := by simpa [beginsIdent] using h
  · have hletter : (decide ('A'.val ≤ c.val ∧ c.val ≤ 'Z'.val) ||
        decide ('a'.val ≤ c.val) && decide (c.val ≤ 'z'.val)) = true := h
    simp only [Bool.or_eq_true, Bool.and_eq_true, decide_eq_true_eq] at hletter
    simp only [Char.isDigit, Bool.and_eq_false_iff, decide_eq_false_iff_not]
    grind
  · decide

/-- A character that begins an identifier begins nothing else. -/
theorem Lexeme.read_of_beginsIdent {c : Char} (h : beginsIdent c = true) (cs : List Char) :
    Lexeme.read (c :: cs) =
      .ok (.ident (c :: cs.takeWhile isIdentChar), cs.dropWhile isIdentChar) := by
  have hsymbol : Symbol.ofChar? c = none := by
    cases hs : Symbol.ofChar? c with
    | none => rfl
    | some s =>
      rw [← Symbol.ofChar?_eq_some_iff.1 hs] at h
      cases s <;> simp [beginsIdent, Symbol.char] at h
  have hquote : c ≠ '"' ∧ c ≠ '\'' := by
    constructor <;> rintro rfl <;> simp [beginsIdent] at h
  have hdigit := isDigit_eq_false_of_beginsIdent h
  simp only [read, hsymbol, hquote.1, hquote.2, hdigit, h, if_false, if_true, Bool.false_eq_true]

/-- **The text of an identifier.** -/
theorem lexes_ident {name : List Char} (h : IsIdentifier name) :
    Lexes endsIdent name [.ident name] := by
  obtain ⟨c, cs, rfl, hc, hcs⟩ := h
  refine .of_read fun rest hrest => ?_
  have hall : ∀ d ∈ cs, isIdentChar d = true := fun d hd => by simpa [isIdentChar] using hcs d hd
  rw [Lexeme.read_of_beginsIdent (by simpa [beginsIdent] using hc),
    takeWhile_append_of_stop cs hrest, dropWhile_append_of_stop cs hrest]
  simp [List.takeWhile_eq_self_iff.2 hall, List.dropWhile_eq_nil_iff.2 hall]

section Numerals

variable {rest : List Char}

/-- What ends a numeral is no digit, no point and no letter of an exponent. -/
theorem not_digit_of_endsNumeral {c : Char} (h : endsNumeral c = true) : c.isDigit = false := by
  simp only [endsNumeral, extendsNumeral, Char.isAlphanum, Bool.not_eq_true',
    Bool.or_eq_false_iff] at h
  exact h.2.2

theorem head_not_digit (h : rest.head?.all endsNumeral = true) :
    rest.head?.all (fun c => !c.isDigit) = true := by
  cases rest with
  | nil => rfl
  | cons c rest => simpa using not_digit_of_endsNumeral (by simpa using h)

theorem cutWhole_append (c : Char) (cs : List Char) (h : rest.head?.all endsNumeral = true) :
    cutWhole c (cs ++ rest) = ((cutWhole c cs).1, (cutWhole c cs).2 ++ rest) := by
  unfold cutWhole
  split
  · rfl
  · rw [takeWhile_append_of_stop cs (head_not_digit h),
      dropWhile_append_of_stop cs (head_not_digit h)]

theorem cutFraction_append (cs : List Char) (h : rest.head?.all endsNumeral = true) :
    cutFraction (cs ++ rest) = ((cutFraction cs).1, (cutFraction cs).2 ++ rest) := by
  match cs with
  | [] =>
    cases rest with
    | nil => rfl
    | cons c rest =>
      have hend : endsNumeral c = true := by simpa using h
      have hc : c ≠ '.' := by
        rintro rfl
        exact absurd hend (by decide)
      simp [cutFraction, hc]
  | [x] =>
    by_cases hx : x = '.'
    · subst hx
      cases rest with
      | nil => rfl
      | cons c rest =>
        have hc := not_digit_of_endsNumeral (c := c) (by simpa using h)
        simp [cutFraction, hc]
    · simp [cutFraction, hx]
  | x :: d :: ds =>
    by_cases hx : x = '.'
    · subst hx
      simp only [cutFraction, List.cons_append]
      split
      · rw [takeWhile_append_of_stop ds (head_not_digit h),
          dropWhile_append_of_stop ds (head_not_digit h)]
      · rfl
    · simp [cutFraction, hx]

/-- An exponent goes on with its digits, so it must have one. -/
theorem cutExponent_append (cs : List Char) (h : rest.head?.all endsNumeral = true)
    (hdigits : ∀ e, (cutExponent cs).1 = some e → e.digits ≠ []) :
    cutExponent (cs ++ rest) = ((cutExponent cs).1, (cutExponent cs).2 ++ rest) := by
  have htake := fun ds => takeWhile_append_of_stop ds (head_not_digit h)
  have hdrop := fun ds => dropWhile_append_of_stop ds (head_not_digit h)
  match cs with
  | [] =>
    cases rest with
    | nil => rfl
    | cons c rest =>
      have hend : endsNumeral c = true := by simpa using h
      have hc : ¬(c = 'e' ∨ c = 'E') := by
        rintro (rfl | rfl) <;> exact absurd hend (by decide)
      simp [cutExponent, hc]
  | [c] =>
    by_cases hc : c = 'e' ∨ c = 'E'
    · exact absurd rfl (hdigits ⟨c, none, []⟩ (by simp [cutExponent, hc]))
    · simp [cutExponent, hc]
  | c :: d :: ds =>
    by_cases hc : c = 'e' ∨ c = 'E'
    · by_cases hp : d = '+'
      · subst hp
        simp [cutExponent, hc, htake, hdrop]
      · by_cases hm : d = '-'
        · subst hm
          simp [cutExponent, hc, htake, hdrop]
        · have htake' := htake (d :: ds)
          have hdrop' := hdrop (d :: ds)
          simp only [List.cons_append] at htake' hdrop'
          simp [cutExponent, hc, hp, hm, htake', hdrop']
    · simp [cutExponent, hc]

/-- A numeral does not go on behind its end. -/
theorem cutNumeral_append (c : Char) (cs : List Char) (h : rest.head?.all endsNumeral = true)
    (hdigits : lacksExponentDigits (cutNumeral c cs).1 = false) :
    cutNumeral c (cs ++ rest) = ((cutNumeral c cs).1, (cutNumeral c cs).2 ++ rest) := by
  have hexponent : ∀ e, (cutExponent (cutFraction (cutWhole c cs).2).2).1 = some e →
      e.digits ≠ [] := by
    intro e he
    simpa [cutNumeral, lacksExponentDigits, he] using hdigits
  simp only [cutNumeral, cutWhole_append c cs h, cutFraction_append _ h,
    cutExponent_append _ h hexponent]

/-- A numeral that is read to the end of a text is read in front of what ends it. -/
theorem readNumeral_append {c : Char} {cs : List Char} {n : Number.Numeral}
    (h : readNumeral c cs = .ok (n, [])) (hrest : rest.head?.all endsNumeral = true) :
    readNumeral c (cs ++ rest) = .ok (n, rest) := by
  have hstop : rest.head?.any extendsNumeral = false := by
    cases rest <;> simp_all [endsNumeral]
  simp only [readNumeral] at h
  split at h
  · simp at h
  split at h
  · simp at h
  rename_i hdigits
  split at h
  · simp at h
  rename_i hrange
  simp only [Except.ok.injEq, Prod.mk.injEq] at h
  obtain ⟨hn, hnil⟩ := h
  rw [readNumeral, cutNumeral_append c cs hrest (by simpa using hdigits), hnil]
  rw [hn] at hdigits hrange ⊢
  simp only [List.nil_append, hstop, hdigits, hrange, if_false, Bool.false_eq_true]

end Numerals

/-- The same of lexemes. -/
theorem Lexeme.read_append_of_number {cs rest : List Char} {n : Number.Numeral}
    (h : Lexeme.read cs = .ok (.number n, [])) (hrest : rest.head?.all endsNumeral = true) :
    Lexeme.read (cs ++ rest) = .ok (.number n, rest) := by
  cases cs with
  | nil => simp [Lexeme.read] at h
  | cons c cs =>
    simp only [Lexeme.read] at h
    split at h
    · simp at h
    rename_i hsymbol
    split at h
    · obtain ⟨r, -, hr⟩ := map_eq_ok h
      simp at hr
    rename_i hdouble
    split at h
    · obtain ⟨r, -, hr⟩ := map_eq_ok h
      simp at hr
    rename_i hsingle
    split at h
    · rename_i hdigit
      obtain ⟨⟨m, rest'⟩, hr, hl⟩ := map_eq_ok h
      obtain ⟨rfl, rfl⟩ : m = n ∧ rest' = [] := by simpa using hl
      simp only [List.cons_append, Lexeme.read, hsymbol, hdouble, hsingle, hdigit, if_true,
        if_false, readNumeral_append hr hrest]
      rfl
    · split at h <;> simp at h

/-- **The text of a numeral.** -/
theorem lexes_number {cs : List Char} {n : Number.Numeral}
    (h : Lexeme.read cs = .ok (.number n, [])) : Lexes endsNumeral cs [.number n] := by
  cases cs with
  | nil => simp [Lexeme.read] at h
  | cons c cs => exact .of_read fun rest hrest => Lexeme.read_append_of_number h hrest

section Literals

open Json (escapeChar)

/-- What stands behind a plain character is read on its own. -/
theorem doubleBody_of_plain {c : Char} (hq : c ≠ '"') (hb : c ≠ '\\') (hc : 0x20 ≤ c.toNat)
    (col : Nat) (cs : List Char) :
    doubleBody col (c :: cs) = (doubleBody (col + 1) cs).map (prepend [c]) := by
  have hlt : ¬c.toNat < 0x20 := Nat.not_lt.2 hc
  rw [doubleBody, if_neg hlt] <;> simp_all

/-- What stands behind a short escape is read on its own. -/
theorem doubleBody_of_short {c d : Char} (h : Json.shortEscape? c = some d) (col : Nat)
    (cs : List Char) :
    doubleBody col ('\\' :: c :: cs) = (doubleBody (col + 2) cs).map (prepend ['\\', c]) := by
  have hu : c ≠ 'u' := by
    rintro rfl
    simp [Json.shortEscape?] at h
  rw [doubleBody, h] <;> simp_all

/-- What stands behind a numeric escape is read on its own. -/
theorem doubleBody_of_hex {a b c d : Char} (h : [a, b, c, d].all Number.isHexDigit = true)
    (col : Nat) (cs : List Char) :
    doubleBody col ('\\' :: 'u' :: a :: b :: c :: d :: cs) =
      (doubleBody (col + 6) cs).map (prepend ['\\', 'u', a, b, c, d]) := by
  rw [doubleBody.eq_def]
  simp only [h, if_true]

theorem isHexDigit_digitChar {n : Nat} (h : n < 16) : Number.isHexDigit n.digitChar = true := by
  rw [Number.isHexDigit, Number.hexValue?_digitChar h]
  rfl

/-- The written form of a character is read as it stands. -/
theorem exists_doubleBody_escapeChar (c : Char) (col : Nat) (cs : List Char) :
    ∃ col', doubleBody col (escapeChar c ++ cs) =
      (doubleBody col' cs).map (prepend (escapeChar c)) := by
  unfold escapeChar
  split
  · exact ⟨_, doubleBody_of_short (d := '"') (by decide) col cs⟩
  split
  · exact ⟨_, doubleBody_of_short (d := '\\') (by decide) col cs⟩
  split
  · exact ⟨_, doubleBody_of_short (d := '\x08') (by decide) col cs⟩
  split
  · exact ⟨_, doubleBody_of_short (d := '\t') (by decide) col cs⟩
  split
  · exact ⟨_, doubleBody_of_short (d := '\n') (by decide) col cs⟩
  split
  · exact ⟨_, doubleBody_of_short (d := '\x0c') (by decide) col cs⟩
  split
  · exact ⟨_, doubleBody_of_short (d := '\r') (by decide) col cs⟩
  split
  · -- a control character is written with its number in four digits
    have hzero : Number.isHexDigit '0' = true := by decide
    have hhigh := isHexDigit_digitChar (n := c.toNat / 16) (by omega)
    have hlow := isHexDigit_digitChar (n := c.toNat % 16) (by omega)
    exact ⟨_, doubleBody_of_hex (by simp [hzero, hhigh, hlow]) col cs⟩
  · rename_i hq hb _ _ _ _ _ hc
    exact ⟨_, doubleBody_of_plain hq hb (Nat.not_lt.1 hc) col cs⟩

/-- **A written string is read up to its closing quote.** -/
theorem doubleBody_escaped (cs : List Char) (col : Nat) (rest : List Char) :
    doubleBody col (cs.flatMap escapeChar ++ '"' :: rest) = .ok (cs.flatMap escapeChar, rest) := by
  induction cs generalizing col with
  | nil => simp [doubleBody]
  | cons c cs ih =>
    rw [List.flatMap_cons, List.append_assoc]
    obtain ⟨col', h⟩ := exists_doubleBody_escapeChar c col (cs.flatMap escapeChar ++ '"' :: rest)
    rw [h, ih]
    rfl

/-- **The written form of a string** is one literal. -/
theorem lexes_quote (cs : List Char) :
    Lexes anyChar (Json.quote cs) [.doubleQuoted (cs.flatMap escapeChar)] := by
  refine .of_read fun rest _ => ?_
  have hsymbol : Symbol.ofChar? '"' = none := by decide
  rw [List.append_assoc, Lexeme.read, hsymbol]
  simp only [if_true, List.singleton_append, doubleBody_escaped]
  rfl

/-- The literal stands for the string. -/
theorem value_doubleQuoted (cs : List Char) :
    (Lexeme.doubleQuoted (cs.flatMap escapeChar)).value = .ok cs := by
  simp only [Lexeme.value, unescapeDouble, Json.body_escaped cs []]

end Literals

end FormCalc
