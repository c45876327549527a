import FormCalc.Proofs.Json.Steps

/-!
# How strings are spelled in JSON

Between the quotes a character stands for itself, or it is given by a letter or by its number
behind a backslash. A number has four hexadecimal digits; a character beyond sixteen bits is given
by two of them, its leading and its trailing surrogate.

* `Spelling`: what may be written for one character.
* `Spells`: what may be written for a string.
* `body_ok_iff`: exactly the spelled strings are read, and each as the string that it spells.
* `Value.read_quote_ok_iff`: a text that begins with a quote holds a string or cannot be read.
-/

namespace FormCalc.Json

open Number (hexValue?)

/-- The letters that stand for a character behind a backslash. -/
def shortEscapes : List (Char × Char) :=
  [('"', '"'), ('\\', '\\'), ('/', '/'), ('b', '\x08'), ('f', '\x0c'), ('n', '\n'), ('r', '\r'),
    ('t', '\t')]

/-- Four hexadecimal digits and their number. -/
inductive IsCode : List Char → Nat → Prop where
  | mk {a b c d : Char} {w x y z : Nat} (ha : hexValue? a = some w) (hb : hexValue? b = some x)
      (hc : hexValue? c = some y) (hd : hexValue? d = some z) :
      IsCode [a, b, c, d] (((w * 16 + x) * 16 + y) * 16 + z)

/-- What may be written for a character behind a backslash and `u`: its number, or its leading and
its trailing surrogate. -/
inductive Numbered : List Char → Char → Prop where
  | single {ds : List Char} {c : Char} (h : IsCode ds c.toNat) : Numbered ds c
  | pair {ds es : List Char} {n m : Nat} {c : Char} (hds : IsCode ds n)
      (hn : 0xd800 ≤ n ∧ n ≤ 0xdbff) (hes : IsCode es m) (hm : 0xdc00 ≤ m ∧ m ≤ 0xdfff)
      (hc : c.toNat = 0x10000 + (n - 0xd800) * 0x400 + (m - 0xdc00)) :
      Numbered (ds ++ '\\' :: 'u' :: es) c

/-- What may be written for a character. -/
inductive Spelling : List Char → Char → Prop where
  | plain {c : Char} (hquote : c ≠ '"') (hslash : c ≠ '\\') (hc : 0x20 ≤ c.toNat) : Spelling [c] c
  | short {l c : Char} (h : (l, c) ∈ shortEscapes) : Spelling ['\\', l] c
  | numbered {ds : List Char} {c : Char} (h : Numbered ds c) : Spelling ('\\' :: 'u' :: ds) c

/-- What may be written for a string. -/
inductive Spells : List Char → List Char → Prop where
  | nil : Spells [] []
  | cons {w ws : List Char} {c : Char} {cs : List Char} (h : Spelling w c) (hs : Spells ws cs) :
      Spells (w ++ ws) (c :: cs)

variable {a c d : Char} {cs rest s : List Char} {n : Nat}

theorem shortEscape?_eq_some_iff : shortEscape? a = some c ↔ (a, c) ∈ shortEscapes := by
  constructor
  · intro h
    unfold shortEscape? at h
    unfold shortEscapes
    grind
  · intro h
    have hall : ∀ p ∈ shortEscapes, shortEscape? p.1 = some p.2 := by decide
    exact hall (a, c) h

/-- The value of a hexadecimal digit. -/
theorem hexValue?_lt (h : hexValue? a = some n) : n < 16 := by
  unfold hexValue? at h
  split at h
  · rename_i ha
    simp only [Char.isDigit, Bool.and_eq_true, decide_eq_true_eq] at ha
    have hle : a.toNat ≤ '9'.toNat := UInt32.le_iff_toNat_le.1 ha.2
    obtain rfl := by simpa using h
    simp only [Char.reduceToNat] at hle ⊢
    omega
  split at h
  · rename_i ha
    have hle : a.toNat ≤ 'f'.toNat := UInt32.le_iff_toNat_le.1 ha.2
    obtain rfl := by simpa using h
    simp only [Char.reduceToNat] at hle ⊢
    omega
  split at h
  · rename_i ha
    have hle : a.toNat ≤ 'F'.toNat := UInt32.le_iff_toNat_le.1 ha.2
    obtain rfl := by simpa using h
    simp only [Char.reduceToNat] at hle ⊢
    omega
  · simp at h

theorem IsCode.lt {ds : List Char} (h : IsCode ds n) : n < 0x10000 := by
  cases h with
  | mk ha hb hc hd =>
    have := hexValue?_lt ha
    have := hexValue?_lt hb
    have := hexValue?_lt hc
    have := hexValue?_lt hd
    omega

theorem hexCode_ok_iff : hexCode cs = .ok (n, rest) ↔ ∃ ds, IsCode ds n ∧ cs = ds ++ rest := by
  constructor
  · intro h
    unfold hexCode at h
    split at h
    · rename_i a b c d rest'
      split at h
      · rename_i w x y z ha hb hc hd
        obtain ⟨rfl, rfl⟩ := by simpa using h
        exact ⟨[a, b, c, d], .mk ha hb hc hd, rfl⟩
      · simp at h
    · split at h <;> simp at h
  · rintro ⟨ds, hds, rfl⟩
    cases hds with
    | mk ha hb hc hd => simp [hexCode, ha, hb, hc, hd]

theorem isLeading_iff : isLeading n = true ↔ 0xd800 ≤ n ∧ n ≤ 0xdbff := by
  simp [isLeading]

theorem isTrailing_iff : isTrailing n = true ↔ 0xdc00 ≤ n ∧ n ≤ 0xdfff := by
  simp [isTrailing]

/-- The number of a character is none of a surrogate. -/
theorem toNat_not_surrogate (c : Char) :
    isTrailing c.toNat = false ∧ isLeading c.toNat = false := by
  have hvalid : c.toNat.isValidChar := c.valid
  unfold Nat.isValidChar at hvalid
  rw [← Bool.not_eq_true, isTrailing_iff, ← Bool.not_eq_true, isLeading_iff]
  omega

/-- The character of a number that is none of a surrogate. -/
theorem toNat_charOfNat (h : n.isValidChar) : (Char.ofNat n).toNat = n := by
  unfold Char.ofNat
  rw [dif_pos h]
  rfl

/-- A number that is read is written for the character. -/
theorem exists_numbered (h : codeEscape cs = .ok (c, rest)) :
    ∃ ds, Numbered ds c ∧ cs = ds ++ rest := by
  unfold codeEscape at h
  split at h
  · simp at h
  rename_i n rest₁ hcode
  obtain ⟨ds, hds, rfl⟩ := hexCode_ok_iff.1 hcode
  have hlt := hds.lt
  by_cases htrailing : isTrailing n = true
  · simp [htrailing] at h
  by_cases hleading : isLeading n = true
  · -- a leading surrogate has to be followed by a trailing one
    simp only [htrailing, hleading, Bool.false_eq_true, if_false, Bool.not_true] at h
    split at h
    · rename_i rest₂
      split at h
      · simp at h
      rename_i m rest₃ hcode'
      obtain ⟨es, hes, rfl⟩ := hexCode_ok_iff.1 hcode'
      split at h
      · rename_i hm
        obtain ⟨rfl, rfl⟩ := by simpa using h
        rw [isLeading_iff] at hleading
        rw [isTrailing_iff] at hm
        have hvalid : (0x10000 + (n - 0xd800) * 0x400 + (m - 0xdc00)).isValidChar := by
          unfold Nat.isValidChar
          omega
        refine ⟨ds ++ '\\' :: 'u' :: es, .pair hds hleading hes hm ?_, by simp⟩
        exact toNat_charOfNat hvalid
      · simp at h
    all_goals simp at h
  · simp only [htrailing, hleading, Bool.false_eq_true, if_false, Bool.not_false, if_true] at h
    obtain ⟨rfl, rfl⟩ := by simpa using h
    rw [isTrailing_iff] at htrailing
    rw [isLeading_iff] at hleading
    have hvalid : n.isValidChar := by
      unfold Nat.isValidChar
      omega
    refine ⟨ds, .single ?_, rfl⟩
    rwa [toNat_charOfNat hvalid]

/-- What is written for a character by its number is read as the character. -/
theorem Numbered.codeEscape {ds : List Char} (h : Numbered ds c) (rest : List Char) :
    codeEscape (ds ++ rest) = .ok (c, rest) := by
  cases h with
  | single h =>
    have hcode : hexCode (ds ++ rest) = .ok (c.toNat, rest) := hexCode_ok_iff.2 ⟨ds, h, rfl⟩
    obtain ⟨htrailing, hleading⟩ := toNat_not_surrogate c
    simp [Json.codeEscape, hcode, htrailing, hleading, Char.ofNat_toNat]
  | @pair ds es n m _ hds hn hes hm hc =>
    have hcode : hexCode (ds ++ '\\' :: 'u' :: (es ++ rest)) =
        .ok (n, '\\' :: 'u' :: (es ++ rest)) := hexCode_ok_iff.2 ⟨ds, hds, rfl⟩
    have hcode' : hexCode (es ++ rest) = .ok (m, rest) := hexCode_ok_iff.2 ⟨es, hes, rfl⟩
    have htrailing : isTrailing n = false := by
      rw [← Bool.not_eq_true, isTrailing_iff]
      omega
    have hchar : ofSurrogates n m = c := by
      unfold ofSurrogates
      rw [← hc, Char.ofNat_toNat]
    simp [Json.codeEscape, hcode, htrailing, isLeading_iff.2 hn, hcode', isTrailing_iff.2 hm, hchar]

theorem codeEscape_ok_iff :
    codeEscape cs = .ok (c, rest) ↔ ∃ ds, Numbered ds c ∧ cs = ds ++ rest := by
  constructor
  · exact exists_numbered
  · rintro ⟨ds, hds, rfl⟩
    exact hds.codeEscape rest

theorem escape_ok_iff :
    escape cs = .ok (c, rest) ↔ ∃ w, Spelling ('\\' :: w) c ∧ cs = w ++ rest := by
  constructor
  · intro h
    cases cs with
    | nil => simp [escape] at h
    | cons a cs =>
      simp only [escape] at h
      split at h
      · rename_i d hd
        obtain ⟨rfl, rfl⟩ := by simpa using h
        exact ⟨[a], .short (shortEscape?_eq_some_iff.1 hd), rfl⟩
      · by_cases ha : a = 'u'
        · rw [if_pos ha] at h
          obtain ⟨ds, hds, rfl⟩ := codeEscape_ok_iff.1 h
          exact ⟨'u' :: ds, .numbered hds, by rw [ha]; rfl⟩
        · rw [if_neg ha] at h
          simp at h
  · rintro ⟨w, hw, rfl⟩
    cases hw with
    | plain _ hslash _ => exact absurd rfl hslash
    | short h => exact escape_of_short (shortEscape?_eq_some_iff.2 h)
    | @numbered ds _ h =>
      have hshort : shortEscape? 'u' = none := by decide
      have hcode : codeEscape (ds ++ rest) = .ok (c, rest) := codeEscape_ok_iff.2 ⟨ds, h, rfl⟩
      simp only [List.cons_append, escape, hshort, if_true]
      exact hcode

/-- What is spelled for one character is read as this character. -/
theorem Spelling.body {w : List Char} (h : Spelling w c) (cs : List Char) :
    body (w ++ cs) = (body cs).map fun r => (c :: r.1, r.2) := by
  cases h with
  | plain hquote hslash hc => exact body_of_plain hquote hslash hc
  | short h => exact body_of_escape (escape_ok_iff.2 ⟨_, .short h, rfl⟩)
  | numbered h => exact body_of_escape (escape_ok_iff.2 ⟨_, .numbered h, rfl⟩)

/-- A spelled string is read up to its closing quote. -/
theorem Spells.body {ws : List Char} (h : Spells ws s) (rest : List Char) :
    body (ws ++ '"' :: rest) = .ok (s, rest) := by
  induction h with
  | nil => simp [Json.body.eq_def]
  | cons h _ ih =>
    rw [List.append_assoc, h.body, ih]
    rfl

/-- What is read is a spelled string. -/
theorem spells_of_body (h : body cs = .ok (s, rest)) :
    ∃ ws, Spells ws s ∧ cs = ws ++ '"' :: rest := by
  induction hn : cs.length using Nat.strongRecOn generalizing cs s with
  | ind n ih =>
    subst hn
    rw [body.eq_def] at h
    split at h
    · simp at h
    rename_i c cs
    by_cases hquote : c = '"'
    · rw [if_pos hquote] at h
      obtain ⟨rfl, rfl⟩ := by simpa using h
      exact ⟨[], .nil, by rw [hquote]; rfl⟩
    rw [if_neg hquote] at h
    by_cases hslash : c = '\\'
    · rw [if_pos hslash] at h
      split at h
      · simp at h
      rename_i d cs' hescape
      split at h
      · simp at h
      rename_i s' rest' hbody
      obtain ⟨rfl, rfl⟩ := by simpa using h
      have hlength := escape_length hescape
      obtain ⟨w, hw, rfl⟩ := escape_ok_iff.1 hescape
      obtain ⟨ws, hws, rfl⟩ := ih _ (by simp only [List.length_cons]; omega) hbody rfl
      exact ⟨'\\' :: w ++ ws, .cons hw hws, by rw [hslash]; simp⟩
    rw [if_neg hslash] at h
    by_cases hcontrol : c.toNat < 0x20
    · simp [hcontrol] at h
    rw [if_neg hcontrol] at h
    split at h
    · simp at h
    rename_i s' rest' hbody
    obtain ⟨rfl, rfl⟩ := by simpa using h
    obtain ⟨ws, hws, rfl⟩ := ih _ (by simp) hbody rfl
    exact ⟨[c] ++ ws, .cons (.plain hquote hslash (Nat.not_lt.1 hcontrol)) hws, by simp⟩

/-- **Exactly the spelled strings are read**, each up to its closing quote. -/
theorem body_ok_iff : body cs = .ok (s, rest) ↔ ∃ ws, Spells ws s ∧ cs = ws ++ '"' :: rest := by
  constructor
  · exact spells_of_body
  · rintro ⟨ws, hws, rfl⟩
    exact hws.body rest

end FormCalc.Json

namespace FormCalc

variable {cs : List Char} {v : Value}

/-- Behind a quote the value is a string, whatever else may be read. -/
theorem Value.readOver_quote (inner? : Option (Json.Reader Value)) (bound : Nat)
    (cs : List Char) :
    Value.readOver inner? bound ('"' :: cs) =
      ((Json.body cs).map fun r => (Value.string (String.ofList r.1), r.2)).mapError
        Json.Failure.fault := by
  have hquote : Value.readOver inner? bound ('"' :: cs) =
      (Json.stringBody cs).bind fun r => .ok (.string r.1, r.2) := rfl
  rw [hquote, Json.stringBody]
  cases Json.body cs <;> rfl

/-- **A text that begins with a quote** holds a string with nothing but blanks behind it, or
cannot be read. -/
theorem Value.read_quote_ok_iff {t : String} (ht : t.toList = '"' :: cs) :
    Value.read t = .ok v ↔ ∃ s rest, Json.body cs = .ok (s, rest) ∧
      rest.all Json.isBlank = true ∧ v = .string (String.ofList s) := by
  have hread : Value.readNested (t.length + 1) Value.maxNesting t.toList =
      ((Json.body cs).map fun r => (Value.string (String.ofList r.1), r.2)).mapError
        Json.Failure.fault := by
    rw [ht]
    exact readOver_quote _ _ cs
  rw [read_ok_iff, hread]
  cases Json.body cs with
  | error e => simp [Except.map, Except.mapError]
  | ok r =>
    obtain ⟨s, rest⟩ := r
    constructor
    · rintro ⟨rest', heq, hblank⟩
      obtain ⟨rfl, rfl⟩ := by simpa [Except.map, Except.mapError] using heq
      exact ⟨s, rest, rfl, hblank, rfl⟩
    · rintro ⟨s', rest', heq, hblank, rfl⟩
      obtain ⟨rfl, rfl⟩ := by simpa using heq
      exact ⟨rest, rfl, hblank⟩

end FormCalc
