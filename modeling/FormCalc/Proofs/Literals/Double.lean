import FormCalc.Proofs.Json.Spelling
import FormCalc.Proofs.Lossless
import FormCalc.Proofs.Parse.Formula

/-!
# Literals in double quotes

A literal in double quotes is read twice. The first reading finds where it ends and knows nothing of
surrogates; the second one decodes what lies between the quotes. Together they accept the strings of
JSON and no others.

* `Json.Spells.isDoubleBody`: what spells a string is the body of a literal.
* `unescapeDouble_ok_iff`: a body stands for the string that it spells.
* `cut_doubleQuoted_iff`: where the first reading takes a text for one literal.
* `Value.read_quoted_iff`, `Source.isQuoted_iff`: what a text between double quotes is as JSON and
  as a literal.
* `doubleQuoted_iff_json`: a text between double quotes is a literal that stands for a string if and
  only if it is the string in JSON.
-/

namespace FormCalc

variable {body cs : List Char} {s : List Char}

theorem Json.IsCode.isHexDigit {ds : List Char} {n : Nat} (h : Json.IsCode ds n) :
    ∃ a b c d, ds = [a, b, c, d] ∧ [a, b, c, d].all Number.isHexDigit = true := by
  cases h with
  | @mk a b c d w x y z ha hb hc hd =>
    exact ⟨a, b, c, d, rfl, by simp [Number.isHexDigit, ha, hb, hc, hd]⟩

/-- An escape by number in front of a body. -/
theorem Json.IsCode.isDoubleBody {ds : List Char} {n : Nat} (h : Json.IsCode ds n)
    (hbody : IsDoubleBody body) : IsDoubleBody ('\\' :: 'u' :: (ds ++ body)) := by
  obtain ⟨a, b, c, d, rfl, hhex⟩ := h.isHexDigit
  exact .hex hhex hbody

/-- What is spelled for a character in front of a body. -/
theorem Json.Spelling.isDoubleBody {w : List Char} {c : Char} (h : Json.Spelling w c)
    (hbody : IsDoubleBody body) : IsDoubleBody (w ++ body) := by
  cases h with
  | plain hquote hslash hc => exact .plain hquote hslash hc hbody
  | short h => exact .short (Json.shortEscape?_eq_some_iff.2 h) hbody
  | numbered h =>
    cases h with
    | single h => exact h.isDoubleBody hbody
    | @pair ds es n m _ hds hn hes hm hc =>
      have htrailing := hes.isDoubleBody hbody
      have hpair := hds.isDoubleBody htrailing
      simpa using hpair

/-- **What spells a string is the body of a literal.** -/
theorem Json.Spells.isDoubleBody (h : Json.Spells body s) : IsDoubleBody body := by
  induction h with
  | nil => exact .nil
  | cons h _ ih => exact h.isDoubleBody ih

/-- Two bodies in front of a quote are the same, whatever stands behind the quote. -/
theorem IsDoubleBody.eq {body' rest rest' : List Char} (h : IsDoubleBody body)
    (h' : IsDoubleBody body') (heq : body ++ '"' :: rest = body' ++ '"' :: rest') :
    body = body' ∧ rest = rest' := by
  have hread := h.read 1 rest
  rw [heq, h'.read 1 rest'] at hread
  obtain ⟨rfl, rfl⟩ := by simpa using hread
  exact ⟨rfl, rfl⟩

/-- **A body stands for the string that it spells**, and for nothing if it spells none. -/
theorem unescapeDouble_ok_iff (h : IsDoubleBody body) :
    unescapeDouble body = .ok s ↔ Json.Spells body s := by
  unfold unescapeDouble
  constructor
  · intro hok
    split at hok
    · rename_i s' rest hread
      obtain rfl := by simpa using hok
      obtain ⟨ws, hws, heq⟩ := Json.body_ok_iff.1 hread
      obtain ⟨rfl, -⟩ := h.eq hws.isDoubleBody heq
      exact hws
    · simp at hok
  · intro hs
    have hread : Json.body (body ++ ['"']) = .ok (s, []) := hs.body []
    simp only [hread]

/-- A text that is cut into no lexeme is blank. -/
theorem Cut.isGap (h : Cut cs []) : IsGap cs := by
  generalize hls : ([] : List Lexeme) = ls at h
  induction h with
  | nil => exact .nil
  | blank hc _ ih => exact IsGap.cons_iff.2 ⟨hc, ih hls⟩
  | lexeme => cases hls

/-- **A text behind a quote is one literal** if it is a body, the closing quote and blanks. -/
theorem cut_doubleQuoted_iff :
    Cut ('"' :: cs) [.doubleQuoted body] ↔
      IsDoubleBody body ∧ ∃ gap, IsGap gap ∧ cs = body ++ '"' :: gap := by
  have hsymbol : Symbol.ofChar? '"' = none := by decide
  constructor
  · intro h
    cases h with
    | blank hc _ => exact absurd hc (by decide)
    | @lexeme _ _ rest _ _ hread hrest =>
      simp only [Lexeme.read, hsymbol, if_true] at hread
      obtain ⟨⟨body', rest'⟩, hbody, heq⟩ := map_eq_ok hread
      obtain ⟨rfl, rfl⟩ : body' = body ∧ rest' = rest := by simpa using heq
      obtain ⟨hformed, hsplit⟩ := doubleBody_ok_iff.1 hbody
      exact ⟨hformed, _, hrest.isGap, hsplit⟩
  · rintro ⟨hformed, gap, hgap, rfl⟩
    have hread : Lexeme.read ('"' :: (body ++ '"' :: gap)) = .ok (.doubleQuoted body, gap) := by
      simp [Lexeme.read, hsymbol, hformed.read 1 gap, Except.map]
    have hrest : Cut (gap ++ []) [] := Cut.blanks hgap .nil
    rw [List.append_nil] at hrest
    exact .lexeme hread hrest

/-- In a text that ends with a quote, no text without quotes stands behind a quote. -/
theorem eq_nil_behind_quote {rest : List Char} (hlast : ('"' :: cs).getLast? = some '"')
    (hnone : '"' ∉ rest) (hsplit : cs = body ++ '"' :: rest) : rest = [] := by
  rcases List.eq_nil_or_concat rest with hrest | ⟨ds, d, hrest⟩
  · exact hrest
  · have hbehind : '"' :: cs = ('"' :: (body ++ '"' :: ds)) ++ [d] := by
      rw [hsplit, hrest]
      simp
    rw [hbehind, List.getLast?_concat] at hlast
    have hd : d = '"' := Option.some.inj hlast
    rw [hrest, hd] at hnone
    simp at hnone

/-- **As JSON**, a text between quotes is the string that is spelled there. -/
theorem Value.read_quoted_iff {t : String} (ht : t.toList = '"' :: cs)
    (hlast : ('"' :: cs).getLast? = some '"') (s : String) :
    Value.read t = .ok (.string s) ↔
      ∃ body, t.toList = '"' :: (body ++ ['"']) ∧ Json.Spells body s.toList := by
  rw [Value.read_quote_ok_iff ht, ht]
  constructor
  · rintro ⟨s', rest, hbody, hblank, heq⟩
    obtain rfl : s = String.ofList s' := Value.string.inj heq
    obtain ⟨body, hspells, hsplit⟩ := Json.body_ok_iff.1 hbody
    have hnone : '"' ∉ rest := fun hmem => absurd (List.all_eq_true.1 hblank _ hmem) (by decide)
    obtain rfl := eq_nil_behind_quote hlast hnone hsplit
    exact ⟨body, by rw [hsplit], by rwa [String.toList_ofList]⟩
  · rintro ⟨body, heq, hspells⟩
    obtain rfl : cs = body ++ ['"'] := (List.cons.inj heq).2
    exact ⟨s.toList, [], hspells.body [], rfl, by rw [String.ofList_toList]⟩

/-- **As a literal**, it is one token that stands for the string that is spelled there. -/
theorem Source.isQuoted_iff {source : Source} (hcs : source.contents = '"' :: cs)
    (hlast : ('"' :: cs).getLast? = some '"') (s : String) :
    (∃ token, source.IsToken token ∧ (∃ body, token.lexeme = .doubleQuoted body) ∧
        token.value = .ok s) ↔
      ∃ body, source.contents = '"' :: (body ++ ['"']) ∧ Json.Spells body s.toList := by
  constructor
  · rintro ⟨token, htoken, ⟨body, hlexeme⟩, hvalue⟩
    have hcut : Cut source.contents [.doubleQuoted body] :=
      Source.exists_isToken_iff.1 ⟨token, htoken, hlexeme⟩
    rw [hcs] at hcut
    obtain ⟨hbody, gap, hgap, hsplit⟩ := cut_doubleQuoted_iff.1 hcut
    have hnone : '"' ∉ gap := fun hmem => absurd (hgap _ hmem) (by decide)
    obtain rfl := eq_nil_behind_quote hlast hnone hsplit
    have hunescape : unescapeDouble body = .ok s.toList := by
      simp only [Token.value, hlexeme, Lexeme.value] at hvalue
      split at hvalue
      · rename_i s' hs'
        obtain rfl : String.ofList s' = s := by simpa using hvalue
        rw [hs', String.toList_ofList]
      · simp at hvalue
    exact ⟨body, by rw [hcs, hsplit], (unescapeDouble_ok_iff hbody).1 hunescape⟩
  · rintro ⟨body, hsplit, hspells⟩
    have hbody := hspells.isDoubleBody
    have hcut : Cut source.contents [.doubleQuoted body] := by
      rw [hsplit]
      exact cut_doubleQuoted_iff.2 ⟨hbody, [], .nil, rfl⟩
    obtain ⟨token, htoken, hlexeme⟩ := Source.exists_isToken_iff.2 hcut
    refine ⟨token, htoken, ⟨body, hlexeme⟩, ?_⟩
    simp only [Token.value, hlexeme, Lexeme.value, (unescapeDouble_ok_iff hbody).2 hspells,
      String.ofList_toList]

/-- **A text between double quotes is a literal if and only if it is a string in JSON.** For a text
that is short enough, has less than four gibibytes, and begins and ends with a double quote, offsets
have 32 bits, and these are the same:
- it is read as one token, a literal in double quotes that stands for the string;
- it is JSON of the string;
- between its quotes the string is spelled: by characters other than quotes, backslashes and control
  characters, by short escapes, and by escapes with four hexadecimal digits, of which two that are
  surrogates of each other stand for one character, and no surrogate stands alone. -/
theorem doubleQuoted_iff_json {t : String} {limits : Limits} (file : String)
    (hlength : t.length ≤ limits.formulaLength) (hsize : Text.size t.toList < 2 ^ 32)
    (hfirst : t.toList.head? = some '"') (hlast : t.toList.getLast? = some '"') (s : String) :
    ∃ source, Source.ofText file t limits = .ok source ∧ source.OffsetsFit ∧
      ((∃ token, source.IsToken token ∧ (∃ body, token.lexeme = .doubleQuoted body) ∧
        token.value = .ok s) ↔ Value.read t = .ok (.string s)) ∧
      (Value.read t = .ok (.string s) ↔
        ∃ body, t.toList = '"' :: (body ++ ['"']) ∧ Json.Spells body s.toList) := by
  obtain ⟨cs, hcs⟩ := List.head?_eq_some_iff.1 hfirst
  rw [hcs] at hlast
  have hjson := Value.read_quoted_iff hcs hlast s
  refine ⟨⟨file, t.toList⟩, by rw [Source.ofText_eq, if_pos hlength], Source.offsetsFit hsize, ?_,
    hjson⟩
  rw [hjson, Source.isQuoted_iff hcs hlast s]

/-- Two surrogates, an escaped backslash and an escaped quote in front of the closing quote. -/
theorem doubleQuoted_iff_json_surrogates :
    let t := "\"\\ud83d\\ude00\\\\\\\"\""
    let s := "😀\\\""
    t.length ≤ Limits.standard.formulaLength ∧ Text.size t.toList < 2 ^ 32 ∧
      t.toList.head? = some '"' ∧ t.toList.getLast? = some '"' ∧
      Value.read t = .ok (.string s) ∧
      ∃ source, Source.ofText "f" t .standard = .ok source ∧ source.OffsetsFit ∧
        ∃ token, source.IsToken token ∧ (∃ body, token.lexeme = .doubleQuoted body) ∧
          token.value = .ok s := by
  intro t s
  have hlength : t.length ≤ Limits.standard.formulaLength := by decide
  have hsize : Text.size t.toList < 2 ^ 32 := by decide
  have hfirst : t.toList.head? = some '"' := by decide
  have hlast : t.toList.getLast? = some '"' := by decide
  obtain ⟨source, hsource, hfit, htoken, hspelled⟩ :=
    doubleQuoted_iff_json "f" hlength hsize hfirst hlast s
  have hleading : Json.IsCode ['d', '8', '3', 'd'] (((13 * 16 + 8) * 16 + 3) * 16 + 13) :=
    .mk rfl rfl rfl rfl
  have htrailing : Json.IsCode ['d', 'e', '0', '0'] (((13 * 16 + 14) * 16 + 0) * 16 + 0) :=
    .mk rfl rfl rfl rfl
  have hpair : Json.Numbered _ '😀' :=
    .pair hleading (by decide) htrailing (by decide) (by decide)
  have hslash : Json.Spelling ['\\', '\\'] '\\' := .short (by decide)
  have hquote : Json.Spelling ['\\', '"'] '"' := .short (by decide)
  have hspells : Json.Spells _ ['😀', '\\', '"'] :=
    .cons (.numbered hpair) (.cons hslash (.cons hquote .nil))
  have htext : s.toList = ['😀', '\\', '"'] := by decide
  have hread : Value.read t = .ok (.string s) := by
    refine hspelled.2 ⟨_, ?_, htext ▸ hspells⟩
    decide
  exact ⟨hlength, hsize, hfirst, hlast, hread, source, hsource, hfit, htoken.2 hread⟩

end FormCalc
