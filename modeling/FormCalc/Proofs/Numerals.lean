import FormCalc.Proofs.Lexing

/-!
# The numerals that are read

* `Number.Numeral.Formed`: the numerals of the grammar.
* `Number.Numeral.Begun`: what may become one.
* `cutNumeral_of_formed`: they are cut from their texts, if what stands behind ends a numeral.
* `readNumeral_ok_iff`: exactly the numerals of the grammar are read, if they are in range.
* `longest_cutNumeral`: what is cut from a text is its longest front that begins a numeral.
-/

namespace FormCalc

open Number (Numeral Exponent fractionText exponentText)

variable {c : Char} {cs rest : List Char}

/-- The whole part of a numeral is a zero alone, or its digits begin with another digit. -/
def IsWhole (ds : List Char) : Prop :=
  ds = ['0'] ∨ ∃ d ds', ds = d :: ds' ∧ d ≠ '0' ∧ ds.all Char.isDigit = true

/-- An exponent that can be written: the letter, a sign if there is one, and digits. -/
structure Number.Exponent.Formed (e : Exponent) : Prop where
  letter : e.letter = 'e' ∨ e.letter = 'E'
  sign : e.sign? = none ∨ e.sign? = some '+' ∨ e.sign? = some '-'
  nonempty : e.digits ≠ []
  digits : e.digits.all Char.isDigit = true

/-- **The numerals of the grammar**: `(0|[1-9][0-9]*)(.[0-9]+)?([eE][+-]?[0-9]+)?`. Without digits
of a fraction there is no point. -/
structure Number.Numeral.Formed (n : Numeral) : Prop where
  whole : IsWhole n.whole
  fraction : n.fraction.all Char.isDigit = true
  exponent : ∀ e, n.exponent? = some e → e.Formed

/-- The text of a numeral. -/
def IsNumeral (cs : List Char) : Prop :=
  ∃ n : Numeral, n.Formed ∧ n.text = cs

/-- A numeral as it is begun: the digits of the exponent may be missing. -/
structure Number.Numeral.Begun (n : Numeral) : Prop where
  whole : IsWhole n.whole
  fraction : n.fraction.all Char.isDigit = true
  letter : ∀ e, n.exponent? = some e → e.letter = 'e' ∨ e.letter = 'E'
  sign : ∀ e, n.exponent? = some e → e.sign? = none ∨ e.sign? = some '+' ∨ e.sign? = some '-'
  digits : ∀ e, n.exponent? = some e → e.digits.all Char.isDigit = true

theorem Number.Numeral.Formed.begun {n : Numeral} (h : n.Formed) : n.Begun where
  whole := h.whole
  fraction := h.fraction
  letter e he := (h.exponent e he).letter
  sign e he := (h.exponent e he).sign
  digits e he := (h.exponent e he).digits

theorem IsWhole.all_isDigit {ds : List Char} (h : IsWhole ds) : ds.all Char.isDigit = true := by
  rcases h with rfl | ⟨d, ds', rfl, -, hall⟩
  · decide
  · exact hall

/-- The characters of numerals: digits, a point, the letters of an exponent and signs. -/
def isNumeralChar (c : Char) : Bool :=
  c.isDigit || ['.', 'e', 'E', '+', '-'].contains c

theorem Number.Numeral.Begun.mem_text {n : Numeral} (h : n.Begun) :
    ∀ x ∈ n.text, isNumeralChar x = true := by
  have hdigits : ∀ ds : List Char, ds.all Char.isDigit = true → ∀ x ∈ ds,
      isNumeralChar x = true := by
    intro ds hall x hx
    rw [isNumeralChar, List.all_eq_true.1 hall x hx, Bool.true_or]
  intro x hx
  simp only [Numeral.text, List.mem_append] at hx
  rcases hx with hx | hx | hx
  · exact hdigits _ h.whole.all_isDigit x hx
  · cases hf : n.fraction with
    | nil => simp [hf, fractionText] at hx
    | cons d ds =>
      rw [hf, fractionText] at hx
      rcases List.mem_cons.1 hx with rfl | hx
      · decide
      · exact hdigits _ h.fraction x (hf ▸ hx)
  · cases he : n.exponent? with
    | none => simp [he, exponentText] at hx
    | some e =>
      rw [he, exponentText] at hx
      rcases List.mem_cons.1 hx with rfl | hx
      · rcases h.letter e he with hl | hl <;> rw [hl] <;> decide
      · rcases List.mem_append.1 hx with hx | hx
        · rcases h.sign e he with hs | hs | hs <;> simp [hs] at hx <;> subst hx <;> decide
        · exact hdigits _ (h.digits e he) x hx

theorem isWhole_cutWhole (hc : c.isDigit = true) (cs : List Char) :
    IsWhole (cutWhole c cs).1 := by
  unfold cutWhole
  split
  · rename_i hzero
    exact .inl (by rw [hzero])
  · rename_i hzero
    exact .inr ⟨c, _, rfl, hzero, by simp [hc]⟩

theorem isDigit_cutFraction (cs : List Char) : (cutFraction cs).1.all Char.isDigit = true := by
  unfold cutFraction
  split
  · split
    · rename_i hd
      simp [hd]
    · rfl
  · rfl

/-- What is cut as an exponent may lack its digits. -/
theorem begun_cutExponent {e : Exponent} (h : (cutExponent cs).1 = some e) :
    (e.letter = 'e' ∨ e.letter = 'E') ∧
      (e.sign? = none ∨ e.sign? = some '+' ∨ e.sign? = some '-') ∧
      e.digits.all Char.isDigit = true := by
  unfold cutExponent at h
  split at h
  · simp at h
  split at h
  · rename_i hletter
    -- a plus, a minus, or no sign
    split at h <;> obtain rfl := by simpa using h
    · exact ⟨hletter, .inr (.inl rfl), List.all_takeWhile⟩
    · exact ⟨hletter, .inr (.inr rfl), List.all_takeWhile⟩
    · exact ⟨hletter, .inl rfl, List.all_takeWhile⟩
  · simp at h

theorem formed_cutExponent {e : Exponent} (h : (cutExponent cs).1 = some e)
    (hdigits : e.digits ≠ []) : e.Formed := by
  obtain ⟨hletter, hsign, hall⟩ := begun_cutExponent h
  exact ⟨hletter, hsign, hdigits, hall⟩

/-- The whole part ends before the first character that is no digit. -/
theorem cutWhole_of_isWhole {ds : List Char} (h : IsWhole (c :: ds))
    (hrest : rest.head?.all (fun c => !c.isDigit) = true) :
    cutWhole c (ds ++ rest) = (c :: ds, rest) := by
  unfold cutWhole
  rcases h with h | ⟨d, ds', h, hd, hall⟩
  · obtain ⟨rfl, rfl⟩ : c = '0' ∧ ds = [] := by simpa using h
    rfl
  · obtain ⟨rfl, rfl⟩ : c = d ∧ ds = ds' := by simpa using h
    have hall' : ∀ x ∈ ds, x.isDigit = true := by
      intro x hx
      exact List.all_eq_true.1 hall x (List.mem_cons_of_mem _ hx)
    rw [if_neg hd, takeWhile_append_of_stop ds hrest, dropWhile_append_of_stop ds hrest,
      List.takeWhile_eq_self_iff.2 hall', List.dropWhile_eq_nil_iff.2 hall', List.nil_append]

/-- A fraction ends before the first character that is no digit. -/
theorem cutFraction_of_digits {ds : List Char} (h : ds.all Char.isDigit = true)
    (hrest : rest.head?.all (fun c => !c.isDigit && c != '.') = true) :
    cutFraction (fractionText ds ++ rest) = (ds, rest) := by
  have hdigit : rest.head?.all (fun c => !c.isDigit) = true := by
    cases rest <;> simp_all
  cases ds with
  | nil =>
    cases rest with
    | nil => rfl
    | cons x rest =>
      have hx : x ≠ '.' := by simp_all
      simp [fractionText, cutFraction, hx]
  | cons d ds =>
    have hd : d.isDigit = true := by simp_all
    have hall : ∀ x ∈ ds, x.isDigit = true := by simp_all
    simp only [fractionText, List.cons_append, cutFraction, hd, if_true]
    rw [takeWhile_append_of_stop ds hdigit, dropWhile_append_of_stop ds hdigit,
      List.takeWhile_eq_self_iff.2 hall, List.dropWhile_eq_nil_iff.2 hall, List.nil_append]

/-- An exponent ends before the first character that is no digit; without one, no letter of an
exponent may follow. -/
theorem cutExponent_of_formed {e? : Option Exponent} (h : ∀ e, e? = some e → e.Formed)
    (hrest : rest.head?.all endsNumeral = true) :
    cutExponent (exponentText e? ++ rest) = (e?, rest) := by
  have hdigit := head_not_digit hrest
  cases e? with
  | none =>
    cases rest with
    | nil => rfl
    | cons x rest =>
      have hend : endsNumeral x = true := by simpa using hrest
      have hx : ¬(x = 'e' ∨ x = 'E') := by
        rintro (rfl | rfl) <;> exact absurd hend (by decide)
      simp [exponentText, cutExponent, hx]
  | some e =>
    obtain ⟨letter, sign?, digits⟩ := e
    obtain ⟨hletter, hsign, hne, hall⟩ := h _ rfl
    simp only at hletter hsign hne hall
    have htake : (digits ++ rest).takeWhile Char.isDigit = digits := by
      rw [takeWhile_append_of_stop digits hdigit,
        List.takeWhile_eq_self_iff.2 (List.all_eq_true.1 hall)]
    have hdrop : (digits ++ rest).dropWhile Char.isDigit = rest := by
      rw [dropWhile_append_of_stop digits hdigit,
        List.dropWhile_eq_nil_iff.2 (List.all_eq_true.1 hall), List.nil_append]
    rcases hsign with rfl | rfl | rfl
    · -- the first digit is no sign
      cases digits with
      | nil => exact absurd rfl hne
      | cons d ds =>
        have hd : d.isDigit = true := by simp_all
        have hp : d ≠ '+' := by rintro rfl; simp at hd
        have hm : d ≠ '-' := by rintro rfl; simp at hd
        simp only [List.cons_append] at htake hdrop
        simp [exponentText, cutExponent, hletter, hp, hm, htake, hdrop]
    · simp [exponentText, cutExponent, hletter, htake, hdrop]
    · simp [exponentText, cutExponent, hletter, htake, hdrop]

/-- Behind the digits of a fraction no exponent and no rest goes on with a digit or a point. -/
theorem head_exponentText {e? : Option Exponent} (h : ∀ e, e? = some e → e.Formed)
    (hrest : rest.head?.all endsNumeral = true) :
    (exponentText e? ++ rest).head?.all (fun c => !c.isDigit && c != '.') = true := by
  cases e? with
  | none =>
    cases rest with
    | nil => rfl
    | cons x rest =>
      have hend : endsNumeral x = true := by simpa using hrest
      have hdigit := not_digit_of_endsNumeral hend
      have hx : x ≠ '.' := by
        rintro rfl
        exact absurd hend (by decide)
      simp [exponentText, hdigit, hx]
  | some e =>
    rcases (h e rfl).letter with hl | hl <;> simp [exponentText, hl]

/-- **A numeral of the grammar is cut from its text.** -/
theorem cutNumeral_of_formed {n : Numeral} {ds : List Char} (h : n.Formed)
    (htext : n.text = c :: ds) (hrest : rest.head?.all endsNumeral = true) :
    cutNumeral c (ds ++ rest) = (n, rest) := by
  obtain ⟨whole, fraction, exponent?⟩ := n
  obtain ⟨hwhole, hfraction, hexponent⟩ := h
  simp only at hwhole hfraction hexponent
  obtain ⟨ws, rfl⟩ : ∃ ws, whole = c :: ws := by
    cases whole with
    | nil => simp [IsWhole] at hwhole
    | cons w ws =>
      have : w = c := by simp [Numeral.text] at htext; exact htext.1
      exact ⟨ws, by rw [this]⟩
  obtain rfl : ws ++ (fractionText fraction ++ exponentText exponent?) = ds := by
    simpa [Numeral.text] using htext
  have hexp := head_exponentText hexponent hrest
  have hfrac : (fractionText fraction ++ (exponentText exponent? ++ rest)).head?.all
      (fun c => !c.isDigit) = true := by
    cases fraction with
    | nil =>
      simp only [fractionText, List.nil_append]
      cases hx : (exponentText exponent? ++ rest).head? with
      | none => rfl
      | some x =>
        rw [hx] at hexp
        simp_all
    | cons d ds => simp [fractionText]
  simp only [cutNumeral, List.append_assoc, cutWhole_of_isWhole hwhole hfrac,
    cutFraction_of_digits hfraction hexp, cutExponent_of_formed hexponent hrest]

theorem readNumeral_eq_ok {n : Numeral} (h : readNumeral c cs = .ok (n, rest)) :
    cutNumeral c cs = (n, rest) ∧ rest.head?.all endsNumeral = true ∧
      lacksExponentDigits n = false ∧ n.stepwise?.isSome = true := by
  simp only [readNumeral] at h
  split at h
  · simp at h
  rename_i hstop
  split at h
  · simp at h
  rename_i hdigits
  split at h
  · simp at h
  rename_i hrange
  have hcut : cutNumeral c cs = (n, rest) := Except.ok.inj h
  rw [hcut] at hstop hdigits hrange
  refine ⟨hcut, ?_, by simpa using hdigits, by simpa [Option.isSome_iff_ne_none] using hrange⟩
  cases hhead : rest.head? with
  | none => rfl
  | some x => simpa [hhead, endsNumeral] using hstop

/-- What is cut is a numeral of the grammar, unless the digits of an exponent are missing. -/
theorem formed_cutNumeral (hc : c.isDigit = true)
    (hdigits : lacksExponentDigits (cutNumeral c cs).1 = false) : (cutNumeral c cs).1.Formed := by
  refine ⟨isWhole_cutWhole hc cs, isDigit_cutFraction _, fun e he => ?_⟩
  refine formed_cutExponent he ?_
  simpa [lacksExponentDigits, he] using hdigits

/-- The text of a numeral begins where it was read. -/
theorem Number.Numeral.Formed.exists_text {n : Numeral} (h : n.Formed)
    (htext : n.text ++ rest = c :: cs) : ∃ ds, n.text = c :: ds := by
  cases hn : n.text with
  | nil =>
    rcases h.whole with hw | ⟨d, ds, hw, -⟩ <;> simp [Numeral.text, hw] at hn
  | cons x ds =>
    rw [hn] at htext
    obtain ⟨rfl, -⟩ : x = c ∧ ds ++ rest = cs := by simpa using htext
    exact ⟨ds, rfl⟩

/-- **Exactly the numerals of the grammar are read, if they are in range.** -/
theorem readNumeral_ok_iff {n : Numeral} (hc : c.isDigit = true) :
    readNumeral c cs = .ok (n, rest) ↔
      n.Formed ∧ n.text ++ rest = c :: cs ∧ rest.head?.all endsNumeral = true ∧
        n.stepwise?.isSome = true := by
  constructor
  · intro h
    obtain ⟨hcut, hrest, hdigits, hrange⟩ := readNumeral_eq_ok h
    have hformed : (cutNumeral c cs).1.Formed := by
      refine formed_cutNumeral hc ?_
      rw [hcut]
      exact hdigits
    rw [hcut] at hformed
    exact ⟨hformed, readNumeral_split h, hrest, hrange⟩
  · rintro ⟨hformed, htext, hrest, hrange⟩
    obtain ⟨ds, hds⟩ := hformed.exists_text htext
    obtain rfl : ds ++ rest = cs := by simpa [hds] using htext
    have hcut := cutNumeral_of_formed hformed hds hrest
    have hdigits : lacksExponentDigits n = false := by
      unfold lacksExponentDigits
      split
      · rename_i e he
        have hne := (hformed.exponent e he).nonempty
        simpa using hne
      · rfl
    have hstop : rest.head?.any extendsNumeral = false := by
      cases rest <;> simp_all [endsNumeral]
    have hnone : n.stepwise?.isNone = false := by
      simpa [Option.isSome_iff_ne_none] using hrange
    simp [readNumeral, hcut, hstop, hdigits, hnone]

/-- The longest front of a text that begins a numeral. -/
structure Number.Numeral.Longest (n : Numeral) (cs : List Char) : Prop where
  begun : n.Begun
  front : n.text <+: cs
  longest : ∀ m : Numeral, m.Begun → m.text <+: cs → m.text.length ≤ n.text.length

section Longest

variable {ds : List Char}

theorem takeWhile_digits_append (h : ds.all Char.isDigit = true) (rest : List Char) :
    (ds ++ rest).takeWhile Char.isDigit = ds ++ rest.takeWhile Char.isDigit :=
  List.takeWhile_append_of_pos (List.all_eq_true.1 h)

/-- A whole part at the front is what is cut, unless it goes on with a digit. -/
theorem cutWhole_longest (h : IsWhole ds) (hsplit : ds ++ rest = c :: cs) :
    cutWhole c cs = (ds, rest) ∨
      ds.length < (cutWhole c cs).1.length ∧ ∃ d rest', rest = d :: rest' ∧ d.isDigit = true := by
  unfold cutWhole
  rcases h with rfl | ⟨d, ds', rfl, hd, hall⟩
  · obtain ⟨rfl, rfl⟩ : '0' = c ∧ rest = cs := by simpa using hsplit
    exact .inl rfl
  · obtain ⟨rfl, rfl⟩ : d = c ∧ ds' ++ rest = cs := by simpa using hsplit
    obtain ⟨-, hall'⟩ : d.isDigit = true ∧ ds'.all Char.isDigit = true := by simpa using hall
    rw [if_neg hd, takeWhile_digits_append hall']
    cases rest with
    | nil => exact .inl (by simp [List.dropWhile_eq_nil_iff.2 (List.all_eq_true.1 hall')])
    | cons x rest =>
      by_cases hx : x.isDigit = true
      · refine .inr ⟨by simp [hx], x, rest, rfl, hx⟩
      · left
        have hstop : (x :: rest).head?.all (fun c => !c.isDigit) = true := by simpa using hx
        rw [dropWhile_append_of_stop ds' hstop,
          List.dropWhile_eq_nil_iff.2 (List.all_eq_true.1 hall')]
        simp [hx]

/-- A fraction at the front is what is cut, unless it goes on with a digit or a point. -/
theorem cutFraction_longest (h : ds.all Char.isDigit = true)
    (hsplit : fractionText ds ++ rest = cs) :
    cutFraction cs = (ds, rest) ∨
      (fractionText ds).length < (fractionText (cutFraction cs).1).length ∧
        ∃ d rest', rest = d :: rest' ∧ (d.isDigit = true ∨ d = '.') := by
  subst hsplit
  by_cases hstop : rest.head?.all (fun c => !c.isDigit && c != '.') = true
  · exact .inl (cutFraction_of_digits h hstop)
  · cases rest with
    | nil => simp at hstop
    | cons x rest =>
      have hx : x.isDigit = true ∨ x = '.' := by
        by_contra hnot
        simp_all
      cases ds with
      | nil =>
        simp only [fractionText, List.nil_append]
        unfold cutFraction
        split
        · rename_i d cs heq
          obtain ⟨rfl, rfl⟩ : x = '.' ∧ rest = d :: cs := by simpa using heq
          by_cases hd : d.isDigit = true
          · rw [if_pos hd]
            exact .inr ⟨by simp, _, _, rfl, hx⟩
          · rw [if_neg hd]
            exact .inl rfl
        · exact .inl rfl
      | cons d ds =>
        obtain ⟨hd, hall⟩ : d.isDigit = true ∧ ds.all Char.isDigit = true := by simpa using h
        simp only [fractionText, List.cons_append, cutFraction, hd, if_true,
          takeWhile_digits_append hall]
        by_cases hdigit : x.isDigit = true
        · exact .inr ⟨by simp [hdigit], _, _, rfl, hx⟩
        · left
          have hstop : (x :: rest).head?.all (fun c => !c.isDigit) = true := by simpa using hdigit
          rw [dropWhile_append_of_stop ds hstop,
            List.dropWhile_eq_nil_iff.2 (List.all_eq_true.1 hall)]
          simp [hdigit]

/-- An exponent at the front is no longer than the one that is cut. -/
theorem cutExponent_longest {n : Numeral} (h : n.Begun)
    (hsplit : exponentText n.exponent? ++ rest = cs) :
    (exponentText n.exponent?).length ≤ (exponentText (cutExponent cs).1).length := by
  cases he : n.exponent? with
  | none => simp [exponentText]
  | some e =>
    have hletter := h.letter e he
    have hsign := h.sign e he
    have hdigits := h.digits e he
    rw [he] at hsplit
    obtain ⟨letter, sign?, digits⟩ := e
    simp only at hletter hsign hdigits
    subst hsplit
    simp only [exponentText, List.cons_append, List.append_assoc, cutExponent, if_pos hletter]
    rcases hsign with rfl | rfl | rfl
    · cases digits with
      | nil =>
        -- the letter alone is cut in any case
        by_cases hp : rest.head? = some '+' <;> by_cases hm : rest.head? = some '-' <;>
          cases rest <;> simp_all
      | cons d ds =>
        -- the first digit is no sign
        have hd : d.isDigit = true := by simp_all
        have hp : d ≠ '+' := by rintro rfl; simp at hd
        have hm : d ≠ '-' := by rintro rfl; simp at hd
        have htake := takeWhile_digits_append hdigits rest
        rw [List.cons_append] at htake
        simp [hp, hm, htake]
    · simp [takeWhile_digits_append hdigits]
    · simp [takeWhile_digits_append hdigits]

/-- A letter of an exponent is no digit and no point. -/
theorem Number.Numeral.Begun.exponent_eq_none {n : Numeral} (h : n.Begun) {d : Char}
    (hd : d.isDigit = true ∨ d = '.') (hsplit : exponentText n.exponent? ++ rest = d :: cs) :
    n.exponent? = none := by
  cases he : n.exponent? with
  | none => rfl
  | some e =>
    rw [he, exponentText] at hsplit
    obtain ⟨heq, -⟩ := List.cons.inj hsplit
    have hletter := h.letter e he
    rw [heq] at hletter
    rcases hletter with rfl | rfl <;> simp at hd

/-- **What is cut is the longest front of the text that begins a numeral.** -/
theorem longest_cutNumeral (hc : c.isDigit = true) (cs : List Char) :
    (cutNumeral c cs).1.Longest (c :: cs) := by
  have hbegun : (cutNumeral c cs).1.Begun :=
    ⟨isWhole_cutWhole hc cs, isDigit_cutFraction _, fun e he => (begun_cutExponent he).1,
      fun e he => (begun_cutExponent he).2.1, fun e he => (begun_cutExponent he).2.2⟩
  refine ⟨hbegun, ⟨_, cutNumeral_split c cs⟩, ?_⟩
  rintro m hm ⟨rest, hrest⟩
  simp only [Numeral.text, List.append_assoc, List.length_append, cutNumeral] at hrest ⊢
  rcases cutWhole_longest hm.whole hrest with hwhole | ⟨hwhole, d, rest', hd, hdigit⟩
  · rw [hwhole]
    rcases cutFraction_longest hm.fraction rfl with hfraction | ⟨hfraction, d, rest', hd, hdigit⟩
    · rw [hfraction]
      have hexponent := cutExponent_longest hm (Eq.refl (_ ++ rest))
      simp only
      omega
    · -- the fraction that is cut is longer, so there is no exponent
      have hnone := hm.exponent_eq_none hdigit hd
      simp only [hnone, exponentText, List.length_nil] at hfraction ⊢
      omega
  · -- the whole part that is cut is longer, so there is neither a fraction nor an exponent
    have hfraction : m.fraction = [] := by
      cases hf : m.fraction with
      | nil => rfl
      | cons x xs =>
        rw [hf, fractionText] at hd
        obtain ⟨rfl, -⟩ := List.cons.inj hd
        simp at hdigit
    rw [hfraction, fractionText, List.nil_append] at hd
    have hnone := hm.exponent_eq_none (.inl hdigit) hd
    simp only [hfraction, hnone, exponentText, fractionText, List.length_nil]
    omega

end Longest

end FormCalc
