import FormCalc.Proofs.Json.Steps
import FormCalc.Proofs.Numerals

/-!
# Numerals in JSON

The numerals of JSON are those of the grammar of formulas. What differs is where a text may go on
behind them.

* `Json.numeral_ok_iff`: exactly the numerals of the grammar are read, each up to where it stops.
* `IsNumber`: the texts of numbers, and the double that each stands for.
* `IsNumber.readOver`: they are read wherever a value may end behind them.
* `Value.read_numeral_ok_iff`: a text made of the characters of numerals holds a number or cannot be
  read.
-/

namespace FormCalc.Json

open Number (Numeral Exponent fractionText exponentText)

variable {α β : Type} {c : Char} {cs ds rest : List Char} {f : Fault}

/-- No digit stands in front. -/
def NoDigit (cs : List Char) : Prop :=
  cs.head?.all (fun c => !c.isDigit) = true

/-- Where the digits in front of a text end. -/
theorem digits_split_iff :
    cs.takeWhile Char.isDigit = ds ∧ cs.dropWhile Char.isDigit = rest ↔
      ds.all Char.isDigit = true ∧ cs = ds ++ rest ∧ NoDigit rest := by
  constructor
  · rintro ⟨rfl, rfl⟩
    refine ⟨List.all_takeWhile, List.takeWhile_append_dropWhile.symm, ?_⟩
    have hhead := List.head?_dropWhile_not Char.isDigit cs
    unfold NoDigit
    cases h : (cs.dropWhile Char.isDigit).head? with
    | none => rfl
    | some c => simpa [h] using hhead
  · rintro ⟨hall, rfl, hrest⟩
    rw [takeWhile_append_of_stop ds hrest, dropWhile_append_of_stop ds hrest,
      List.takeWhile_eq_self_iff.2 (List.all_eq_true.1 hall),
      List.dropWhile_eq_nil_iff.2 (List.all_eq_true.1 hall), List.nil_append]
    exact ⟨rfl, rfl⟩

theorem someDigits_ok_iff :
    someDigits f cs = .ok (ds, rest) ↔
      ds ≠ [] ∧ ds.all Char.isDigit = true ∧ cs = ds ++ rest ∧ NoDigit rest := by
  have hrun : someDigits f cs = if cs.takeWhile Char.isDigit = [] then
      .error (if cs.dropWhile Char.isDigit = [] then f else .badNumber)
      else .ok (cs.takeWhile Char.isDigit, cs.dropWhile Char.isDigit) := by
    change (if cs.takeWhile Char.isDigit = [] then _ else _ : Reader (List Char)) _ = _
    split <;> rfl
  rw [hrun, ← digits_split_iff]
  constructor
  · intro h
    split at h
    · simp at h
    · rename_i hne
      obtain ⟨rfl, rfl⟩ := by simpa using h
      exact ⟨hne, rfl, rfl⟩
  · rintro ⟨hne, rfl, rfl⟩
    rw [if_neg hne]

/-- A whole part is read up to the first character that is no digit. -/
theorem wholePart_ok_iff :
    wholePart f cs = .ok (ds, rest) ↔ IsWhole ds ∧ cs = ds ++ rest ∧ NoDigit rest := by
  have hrun : wholePart f = someDigits f >>= fun ds =>
      if ds.head? = some '0' ∧ 1 < ds.length then throw .badNumber else pure ds := rfl
  have hguard : ∀ {ds' : List Char} {mid : List Char},
      (if ds'.head? = some '0' ∧ 1 < ds'.length then throw .badNumber else pure ds' :
        Reader (List Char)) mid = .ok (ds, rest) ↔
        ¬(ds'.head? = some '0' ∧ 1 < ds'.length) ∧ ds' = ds ∧ mid = rest := by
    intro ds' mid
    split
    · rename_i h
      simp only [h, and_self, not_true_eq_false, false_and, iff_false]
      exact nofun
    · rename_i h
      constructor
      · intro heq
        cases heq
        exact ⟨h, rfl, rfl⟩
      · rintro ⟨-, rfl, rfl⟩
        rfl
  rw [hrun, bind_ok_iff]
  simp only [hguard, someDigits_ok_iff]
  constructor
  · rintro ⟨ds', mid, ⟨hne, hall, rfl, hrest⟩, hzero, rfl, rfl⟩
    refine ⟨?_, rfl, hrest⟩
    cases ds' with
    | nil => exact absurd rfl hne
    | cons d ds =>
      by_cases hd : d = '0'
      · subst hd
        have hlen : ds.length = 0 := by
          simpa using hzero
        exact .inl (by rw [List.length_eq_zero_iff.1 hlen])
      · exact .inr ⟨d, ds, rfl, hd, hall⟩
  · rintro ⟨hwhole, rfl, hrest⟩
    refine ⟨ds, rest, ⟨?_, hwhole.all_isDigit, rfl, hrest⟩, ?_, rfl, rfl⟩
    · rcases hwhole with rfl | ⟨d, ds', rfl, -⟩ <;> simp
    · rcases hwhole with rfl | ⟨d, ds', rfl, hd, -⟩ <;> simp_all

/-- A fraction is read up to the first character that is no digit; without one no point may
follow. -/
theorem fractionPart_ok_iff :
    fractionPart f cs = .ok (ds, rest) ↔
      ds.all Char.isDigit = true ∧ cs = fractionText ds ++ rest ∧
        (ds = [] → rest.head? ≠ some '.') ∧ (ds ≠ [] → NoDigit rest) := by
  by_cases hpoint : cs.head? = some '.'
  · obtain ⟨cs', rfl⟩ : ∃ cs', cs = '.' :: cs' := by
      cases cs with
      | nil => simp at hpoint
      | cons c cs' => exact ⟨cs', by simpa using hpoint⟩
    have hrun : fractionPart f ('.' :: cs') = someDigits f cs' := rfl
    rw [hrun, someDigits_ok_iff]
    constructor
    · rintro ⟨hne, hall, rfl, hrest⟩
      obtain ⟨d, ds', rfl⟩ := List.exists_cons_of_ne_nil hne
      exact ⟨hall, rfl, fun h => absurd h hne, fun _ => hrest⟩
    · rintro ⟨hall, hsplit, hnone, hsome⟩
      cases ds with
      | nil =>
        have hrest : '.' :: cs' = rest := hsplit
        exact absurd (by rw [← hrest]; rfl) (hnone rfl)
      | cons d ds => exact ⟨by simp, hall, by simpa [fractionText] using hsplit, hsome (by simp)⟩
  · have hrun : fractionPart f cs = .ok ([], cs) := by
      cases cs with
      | nil => rfl
      | cons c cs' =>
        have hc : c ≠ '.' := by simpa using hpoint
        simp [fractionPart, hc]
    rw [hrun]
    constructor
    · intro h
      obtain ⟨rfl, rfl⟩ := by simpa using h
      exact ⟨rfl, rfl, fun _ => hpoint, fun h => absurd rfl h⟩
    · rintro ⟨hall, rfl, hnone, hsome⟩
      cases ds with
      | nil => rfl
      | cons d ds => simp [fractionText] at hpoint

/-- No letter of an exponent stands in front. -/
def NoLetter (cs : List Char) : Prop :=
  cs.head? ≠ some 'e' ∧ cs.head? ≠ some 'E'

theorem exponentPart_of_noLetter (h : NoLetter cs) : exponentPart f cs = .ok (none, cs) := by
  cases cs with
  | nil => rfl
  | cons c cs =>
    obtain ⟨he, hE⟩ : c ≠ 'e' ∧ c ≠ 'E' := by simpa [NoLetter] using h
    simp [exponentPart, he, hE]

/-- Behind the letter there may be a sign. -/
theorem exponentPart_of_sign {s : Char} (hc : c = 'e' ∨ c = 'E') (hs : s = '+' ∨ s = '-') :
    exponentPart f (c :: s :: cs) =
      (someDigits f >>= fun ds => pure (some ⟨c, some s, ds⟩) : Reader (Option Exponent)) cs := by
  simp [exponentPart, hc, hs]

theorem exponentPart_of_digit (hc : c = 'e' ∨ c = 'E') (hcs : cs ≠ [])
    (hs : cs.head? ≠ some '+' ∧ cs.head? ≠ some '-') :
    exponentPart f (c :: cs) =
      (someDigits f >>= fun ds => pure (some ⟨c, none, ds⟩) : Reader (Option Exponent)) cs := by
  obtain ⟨s, cs, rfl⟩ := List.exists_cons_of_ne_nil hcs
  obtain ⟨hp, hm⟩ : s ≠ '+' ∧ s ≠ '-' := by simpa using hs
  simp [exponentPart, hc, hp, hm]

theorem someDigits_map_ok_iff {g : List Char → β} {b : β} :
    (someDigits f >>= fun ds => pure (g ds) : Reader β) cs = .ok (b, rest) ↔
      ∃ ds, ds ≠ [] ∧ ds.all Char.isDigit = true ∧ cs = ds ++ rest ∧ NoDigit rest ∧ g ds = b := by
  rw [bind_ok_iff]
  simp only [someDigits_ok_iff, pure_apply, Except.ok.injEq, Prod.mk.injEq]
  constructor
  · rintro ⟨ds, mid, ⟨hne, hall, hsplit, hmid⟩, hb, rfl⟩
    exact ⟨ds, hne, hall, hsplit, hmid, hb⟩
  · rintro ⟨ds, hne, hall, hsplit, hrest, hb⟩
    exact ⟨ds, rest, ⟨hne, hall, hsplit, hrest⟩, hb, rfl⟩

/-- An exponent is read up to the first character that is no digit; without one no letter of an
exponent may follow. -/
theorem exponentPart_ok_iff {e? : Option Exponent} :
    exponentPart f cs = .ok (e?, rest) ↔
      (∀ e, e? = some e → e.Formed) ∧ cs = exponentText e? ++ rest ∧
        (e? = none → NoLetter rest) ∧ (e? ≠ none → NoDigit rest) := by
  constructor
  · intro h
    by_cases hletter : NoLetter cs
    · rw [exponentPart_of_noLetter hletter] at h
      obtain ⟨rfl, rfl⟩ := by simpa using h
      exact ⟨by simp, rfl, fun _ => hletter, fun h => absurd rfl h⟩
    obtain ⟨c, cs, rfl, hc⟩ : ∃ c cs', cs = c :: cs' ∧ (c = 'e' ∨ c = 'E') := by
      cases cs with
      | nil => exact absurd ⟨by simp, by simp⟩ hletter
      | cons c cs => exact ⟨c, cs, rfl, by simpa [NoLetter, or_iff_not_imp_left] using hletter⟩
    cases cs with
    | nil => simp [exponentPart, hc] at h
    | cons s cs =>
      by_cases hs : s = '+' ∨ s = '-'
      · rw [exponentPart_of_sign hc hs, someDigits_map_ok_iff] at h
        obtain ⟨ds, hne, hall, rfl, hrest, rfl⟩ := h
        refine ⟨?_, by simp [exponentText], by simp, fun _ => hrest⟩
        rintro e ⟨⟩
        exact ⟨hc, .inr (by simpa using hs), hne, hall⟩
      · have hsign : (s :: cs).head? ≠ some '+' ∧ (s :: cs).head? ≠ some '-' := by
          simpa using not_or.1 hs
        rw [exponentPart_of_digit hc (by simp) hsign, someDigits_map_ok_iff] at h
        obtain ⟨ds, hne, hall, hsplit, hrest, rfl⟩ := h
        refine ⟨?_, by simp [exponentText, hsplit], by simp, fun _ => hrest⟩
        rintro e ⟨⟩
        exact ⟨hc, .inl rfl, hne, hall⟩
  · rintro ⟨hformed, rfl, hnone, hsome⟩
    cases e? with
    | none => exact exponentPart_of_noLetter (hnone rfl)
    | some e =>
      obtain ⟨letter, sign?, digits⟩ := e
      obtain ⟨hletter, hsign, hne, hall⟩ := hformed _ rfl
      simp only at hletter hsign hne hall
      have hrest := hsome (by simp)
      rcases hsign with rfl | hsign
      · -- the first digit is no sign
        obtain ⟨d, ds, rfl⟩ := List.exists_cons_of_ne_nil hne
        have hd : d.isDigit = true := by simp_all
        have hp : d ≠ '+' := by rintro rfl; simp at hd
        have hm : d ≠ '-' := by rintro rfl; simp at hd
        simp only [exponentText, Option.toList, List.nil_append, List.cons_append]
        rw [exponentPart_of_digit hletter (by simp) (by simpa using ⟨hp, hm⟩),
          someDigits_map_ok_iff]
        exact ⟨d :: ds, hne, hall, rfl, hrest, rfl⟩
      · obtain ⟨s, rfl, hs⟩ : ∃ s, sign? = some s ∧ (s = '+' ∨ s = '-') := by
          rcases hsign with rfl | rfl <;> simp
        simp only [exponentText, Option.toList, List.cons_append, List.nil_append]
        rw [exponentPart_of_sign hletter hs, someDigits_map_ok_iff]
        exact ⟨digits, hne, hall, rfl, hrest, rfl⟩

section Ends

variable {e? : Option Exponent}

theorem noDigit_fractionText : NoDigit (fractionText ds ++ rest) ↔ (ds = [] → NoDigit rest) := by
  cases ds with
  | nil => simp [fractionText]
  | cons d ds => simp [fractionText, NoDigit]

theorem noDigit_exponentText (h : ∀ e, e? = some e → e.Formed) :
    NoDigit (exponentText e? ++ rest) ↔ (e? = none → NoDigit rest) := by
  cases e? with
  | none => simp [exponentText]
  | some e =>
    rcases (h e rfl).letter with hl | hl <;> simp [exponentText, NoDigit, hl]

theorem noPoint_exponentText (h : ∀ e, e? = some e → e.Formed) :
    (exponentText e? ++ rest).head? ≠ some '.' ↔ (e? = none → rest.head? ≠ some '.') := by
  cases e? with
  | none => simp [exponentText]
  | some e =>
    rcases (h e rfl).letter with hl | hl <;> simp [exponentText, hl]

end Ends

end FormCalc.Json

namespace FormCalc

open Json (NoDigit NoLetter)

variable {cs rest : List Char} {f : Json.Fault}

/-- A numeral does not go on in what follows it. -/
structure Number.Numeral.StopsAt (n : Numeral) (rest : List Char) : Prop where
  digit : NoDigit rest
  point : n.fraction = [] → n.exponent? = none → rest.head? ≠ some '.'
  letter : n.exponent? = none → NoLetter rest

/-- **Exactly the numerals of the grammar are read**, each up to where it stops. -/
theorem Json.numeral_ok_iff {n : Number.Numeral} :
    Json.numeral f cs = .ok (n, rest) ↔ n.Formed ∧ cs = n.text ++ rest ∧ n.StopsAt rest := by
  have hrun : Json.numeral f = Json.wholePart f >>= fun whole => Json.fractionPart f >>=
      fun fraction => Json.exponentPart f >>= fun exponent? =>
        pure ⟨whole, fraction, exponent?⟩ := rfl
  obtain ⟨whole, fraction, exponent?⟩ := n
  simp only [hrun, Json.bind_ok_iff, Json.wholePart_ok_iff, Json.fractionPart_ok_iff,
    Json.exponentPart_ok_iff, Json.pure_apply, Except.ok.injEq, Prod.mk.injEq,
    Number.Numeral.mk.injEq]
  constructor
  · rintro ⟨ws, _, ⟨hwhole, rfl, hw⟩, ds, _, ⟨hfraction, rfl, hpoint, hf⟩, e?, _,
      ⟨hexponent, rfl, hletter, he⟩, ⟨rfl, rfl, rfl⟩, rfl⟩
    rw [Json.noDigit_fractionText, Json.noDigit_exponentText hexponent] at hw
    rw [Json.noDigit_exponentText hexponent] at hf
    rw [Json.noPoint_exponentText hexponent] at hpoint
    refine ⟨⟨hwhole, hfraction, hexponent⟩, by simp [Number.Numeral.text], ?_, hpoint, hletter⟩
    -- whichever part comes last ends before a character that is no digit
    by_cases hnone : e? = none
    · by_cases hnil : ds = []
      · exact hw hnil hnone
      · exact hf hnil hnone
    · exact he hnone
  · rintro ⟨⟨hwhole, hfraction, hexponent⟩, rfl, hdigit, hpoint, hletter⟩
    refine ⟨whole, _, ⟨hwhole, by simp only [Number.Numeral.text, List.append_assoc], ?_⟩,
      fraction, _, ⟨hfraction, rfl, ?_, ?_⟩, exponent?, rest,
      ⟨hexponent, rfl, hletter, fun _ => hdigit⟩, ⟨rfl, rfl, rfl⟩, rfl⟩
    · rw [Json.noDigit_fractionText, Json.noDigit_exponentText hexponent]
      exact fun _ _ => hdigit
    · rw [Json.noPoint_exponentText hexponent]
      exact hpoint
    · rw [Json.noDigit_exponentText hexponent]
      exact fun _ _ => hdigit

/-- **The texts of numbers**: a numeral of the grammar behind its sign, in range, and the double
that it stands for. -/
def IsNumber (cs : List Char) (x : Float) : Prop :=
  ∃ (negative : Bool) (n : Number.Numeral) (t : Json.NumberToken), n.Formed ∧
    cs = Number.signed negative n.text ∧ Json.NumberToken.ofNumeral? negative n = some t ∧
    t.toFloat = x

/-- A number is read behind its sign. -/
theorem Json.number_ok_iff {negative : Bool} {t : Json.NumberToken} :
    Json.number negative cs = .ok (t, rest) ↔ ∃ n : Number.Numeral, n.Formed ∧
      cs = n.text ++ rest ∧ n.StopsAt rest ∧ Json.NumberToken.ofNumeral? negative n = some t := by
  unfold Json.number
  simp only [Json.bind_ok_iff, Json.numeral_ok_iff]
  constructor
  · rintro ⟨n, mid, ⟨hn, rfl, hstop⟩, h⟩
    cases ht : Json.NumberToken.ofNumeral? negative n with
    | none => simp [ht] at h
    | some t' =>
      obtain ⟨rfl, rfl⟩ : t' = t ∧ mid = rest := by simpa [ht] using h
      exact ⟨n, hn, rfl, hstop, ht⟩
  · rintro ⟨n, hn, rfl, hstop, ht⟩
    refine ⟨n, rest, ⟨hn, rfl, hstop⟩, ?_⟩
    rw [ht]
    rfl

theorem Json.isBlank_of_isDigit {c : Char} (hc : c.isDigit = true) : Json.isBlank c = false := by
  have hne : ∀ d : Char, d.isDigit = false → c ≠ d := by
    rintro d hd rfl
    simp [hc] at hd
  simp [Json.isBlank, hne]

variable {inner? : Option (Json.Reader Value)} {bound : Nat} {c : Char} {x : Float}

theorem Value.readOver_minus : Value.readOver inner? bound ('-' :: cs) =
    (Json.number true >>= fun t => pure (.number t.toFloat) : Json.Reader Value) cs := rfl

theorem Value.readOver_digit (hc : c.isDigit = true) : Value.readOver inner? bound (c :: cs) =
    (Json.number false >>= fun t => pure (.number t.toFloat) : Json.Reader Value) (c :: cs) := by
  have hne : ∀ d : Char, d.isDigit = false → c ≠ d := by
    rintro d hd rfl
    simp [hc] at hd
  unfold Value.readOver
  rw [Json.peek_cons (Json.isBlank_of_isDigit hc)]
  simp [hne, hc]

/-- What may stand behind a value: a blank, a comma or a closing bracket. -/
def Json.isDelimiter (c : Char) : Bool :=
  Json.isBlank c || c == ',' || c == ']' || c == '}'

/-- A value may end in front of the text. -/
def Json.Ends (cs : List Char) : Prop :=
  cs.head?.all Json.isDelimiter = true

/-- No numeral goes on in what may stand behind a value. -/
theorem Number.Numeral.stopsAt_of_ends (h : Json.Ends rest) (n : Number.Numeral) :
    n.StopsAt rest := by
  have hhead : ∀ c, rest.head? = some c → Json.isDelimiter c = true := by
    intro c hc
    simpa [Json.Ends, hc] using h
  have hne : ∀ c, Json.isDelimiter c = false → rest.head? ≠ some c := by
    intro c hc heq
    simp [hhead c heq] at hc
  refine ⟨?_, fun _ _ => hne '.' (by decide), fun _ => ⟨hne 'e' (by decide), hne 'E' (by decide)⟩⟩
  unfold Json.NoDigit
  cases hc : rest.head? with
  | none => rfl
  | some c =>
    have hdelimiter := hhead c hc
    simp only [Json.isDelimiter, Json.isBlank, Bool.or_eq_true, beq_iff_eq] at hdelimiter
    rcases hdelimiter with (((((rfl | rfl) | rfl) | rfl) | rfl) | rfl) | rfl <;> rfl

theorem Number.Numeral.Formed.exists_digit {n : Number.Numeral} (h : n.Formed) :
    ∃ d ds, n.text = d :: ds ∧ d.isDigit = true := by
  have hall := h.whole.all_isDigit
  rcases h.whole with hw | ⟨d, ds, hw, -⟩
  · exact ⟨'0', _, by rw [Number.Numeral.text, hw]; rfl, by decide⟩
  · exact ⟨d, _, by rw [Number.Numeral.text, hw]; rfl, by simp_all⟩

/-- The text of a number begins with a minus or a digit. -/
theorem IsNumber.exists_cons (h : IsNumber cs x) :
    ∃ c cs', cs = c :: cs' ∧ Json.isBlank c = false ∧ c ≠ ']' := by
  obtain ⟨negative, n, t, hn, rfl, -, -⟩ := h
  cases negative with
  | true => exact ⟨'-', n.text, rfl, by decide, by decide⟩
  | false =>
    obtain ⟨d, ds, htext, hd⟩ := hn.exists_digit
    exact ⟨d, ds, htext, Json.isBlank_of_isDigit hd, by rintro rfl; simp at hd⟩

/-- **The text of a number is read as the number**, wherever a value may end behind it. -/
theorem IsNumber.readOver (h : IsNumber cs x) (hrest : Json.Ends rest) :
    Value.readOver inner? bound (cs ++ rest) = .ok (.number x, rest) := by
  obtain ⟨negative, n, t, hn, rfl, ht, rfl⟩ := h
  have hnumber : Json.number negative (n.text ++ rest) = .ok (t, rest) :=
    Json.number_ok_iff.2 ⟨n, hn, rfl, n.stopsAt_of_ends hrest, ht⟩
  have hread : (Json.number negative >>= fun t => pure (.number t.toFloat) :
      Json.Reader Value) (n.text ++ rest) = .ok (.number t.toFloat, rest) :=
    Json.bind_of_ok hnumber _
  cases negative with
  | true => exact Value.readOver_minus.trans hread
  | false =>
    obtain ⟨d, ds, htext, hd⟩ := hn.exists_digit
    simp only [Number.signed, Bool.false_eq_true, if_false]
    rw [← hread, htext]
    exact Value.readOver_digit hd

/-- What is read behind a minus or a digit is the text of a number. -/
theorem exists_isNumber_of_readOver {v : Value} (hc : c = '-' ∨ c.isDigit = true)
    (h : Value.readOver inner? bound (c :: cs) = .ok (v, rest)) :
    ∃ ds x, c :: cs = ds ++ rest ∧ IsNumber ds x ∧ v = .number x := by
  rcases hc with rfl | hc
  · rw [Value.readOver_minus, Json.bind_ok_iff] at h
    obtain ⟨t, mid, hnumber, hpure⟩ := h
    obtain ⟨rfl, rfl⟩ := by simpa using hpure
    obtain ⟨n, hn, rfl, -, ht⟩ := Json.number_ok_iff.1 hnumber
    exact ⟨'-' :: n.text, _, rfl, ⟨true, n, t, hn, rfl, ht, rfl⟩, rfl⟩
  · rw [Value.readOver_digit hc, Json.bind_ok_iff] at h
    obtain ⟨t, mid, hnumber, hpure⟩ := h
    obtain ⟨rfl, rfl⟩ := by simpa using hpure
    obtain ⟨n, hn, hsplit, -, ht⟩ := Json.number_ok_iff.1 hnumber
    exact ⟨n.text, _, hsplit, ⟨false, n, t, hn, rfl, ht, rfl⟩, rfl⟩

/-- **A text made of the characters of numerals** holds a number or cannot be read. -/
theorem Value.read_numeral_ok_iff {v : Value} (hcs : ∀ c ∈ cs, isNumeralChar c = true) :
    Value.read (String.ofList cs) = .ok v ↔ ∃ x, IsNumber cs x ∧ v = .number x := by
  rw [Value.read_ok_iff, String.toList_ofList]
  constructor
  · rintro ⟨rest, hread, hblank⟩
    change Value.readOver _ _ cs = .ok (v, rest) at hread
    cases cs with
    | nil => cases hread
    | cons c cs =>
      by_cases hc : c = '-' ∨ c.isDigit = true
      · obtain ⟨ds, x, hsplit, hx, rfl⟩ := exists_isNumber_of_readOver hc hread
        have hrest : rest = [] := by
          -- a blank is no character of a numeral
          cases rest with
          | nil => rfl
          | cons r rest =>
            have hr : isNumeralChar r = true := hcs r (by rw [hsplit]; simp)
            have hr' : Json.isBlank r = true := by simpa using List.all_eq_true.1 hblank r (by simp)
            simp only [Json.isBlank, Bool.or_eq_true, beq_iff_eq] at hr'
            rcases hr' with ((rfl | rfl) | rfl) | rfl <;> exact absurd hr (by decide)
        rw [hrest, List.append_nil] at hsplit
        exact ⟨x, hsplit ▸ hx, rfl⟩
      · -- nothing that is read begins so
        have hc' := hcs c (by simp)
        simp only [isNumeralChar, not_or.1 hc |>.2, Bool.false_or, List.contains_eq_mem,
          decide_eq_true_eq, List.mem_cons, List.not_mem_nil, or_false] at hc'
        rcases hc' with rfl | rfl | rfl | rfl | rfl
        · cases hread
        · cases hread
        · cases hread
        · cases hread
        · exact absurd (.inl rfl) hc
  · rintro ⟨x, hx, rfl⟩
    refine ⟨[], ?_, rfl⟩
    have hread : Value.readNested ((String.ofList cs).length + 1) Value.maxNesting (cs ++ []) =
        .ok (.number x, []) := hx.readOver rfl
    rwa [List.append_nil] at hread

end FormCalc
