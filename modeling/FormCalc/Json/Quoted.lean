import FormCalc.Json.Fault
import FormCalc.Number.Digits
import FormCalc.Text.Bytes

/-!
# JSON strings

A string is written between double quotes. Double quotes, backslashes and the control characters
below the space are escaped, and nothing else is. When a string is read, any character may be
given by its number; characters beyond sixteen bits are given as two surrogates, first the leading
and then the trailing one.

* `quote`: the written form of a string.
* `body`: reads a string up to its closing quote.
* `body_escaped`: what is written reads back.
-/

namespace FormCalc.Json

open Number (hexValue? hexValue?_digitChar)

/-- The form of a character in a written string. -/
def escapeChar (c : Char) : List Char :=
  if c = '"' then ['\\', '"']
  else if c = '\\' then ['\\', '\\']
  else if c = '\x08' then ['\\', 'b']
  else if c = '\t' then ['\\', 't']
  else if c = '\n' then ['\\', 'n']
  else if c = '\x0c' then ['\\', 'f']
  else if c = '\r' then ['\\', 'r']
  else if c.toNat < 0x20 then
    ['\\', 'u', '0', '0', (c.toNat / 16).digitChar, (c.toNat % 16).digitChar]
  else [c]

/-- The written form of a string. -/
def quote (cs : List Char) : List Char :=
  '"' :: (cs.flatMap escapeChar ++ ['"'])

/-- A fault and the text that was left when it was noticed. -/
structure Failure where
  fault : Fault
  rest : List Char
deriving DecidableEq

/-- The characters that a backslash and a letter stand for. -/
def shortEscape? (c : Char) : Option Char :=
  if c = '"' then some '"'
  else if c = '\\' then some '\\'
  else if c = '/' then some '/'
  else if c = 'b' then some '\x08'
  else if c = 'f' then some '\x0c'
  else if c = 'n' then some '\n'
  else if c = 'r' then some '\r'
  else if c = 't' then some '\t'
  else none

/-- Reads four hexadecimal digits. A text of less than four bytes ends too early, whatever it
holds. -/
def hexCode (cs : List Char) : Except Failure (Nat × List Char) :=
  match cs with
  | a :: b :: c :: d :: rest =>
    match hexValue? a, hexValue? b, hexValue? c, hexValue? d with
    | some w, some x, some y, some z => .ok (((w * 16 + x) * 16 + y) * 16 + z, rest)
    | _, _, _, _ => .error ⟨.badEscape, rest⟩
  | _ => if Text.size cs < 4 then .error ⟨.endInString, []⟩ else .error ⟨.badEscape, []⟩

/-- The numbers of leading surrogates. -/
def isLeading (n : Nat) : Bool := 0xd800 ≤ n && n ≤ 0xdbff

/-- The numbers of trailing surrogates. -/
def isTrailing (n : Nat) : Bool := 0xdc00 ≤ n && n ≤ 0xdfff

/-- The character that two surrogates stand for. -/
def ofSurrogates (leading trailing : Nat) : Char :=
  Char.ofNat (0x10000 + (leading - 0xd800) * 0x400 + (trailing - 0xdc00))

/-- Reads what follows the letter of a numeric escape: the number of a character, or a leading
surrogate and a second escape with the trailing one. -/
def codeEscape (cs : List Char) : Except Failure (Char × List Char) :=
  match hexCode cs with
  | .error e => .error e
  | .ok (n, rest) =>
    if isTrailing n then .error ⟨.loneSurrogate, rest⟩
    else if !isLeading n then .ok (Char.ofNat n, rest)
    else match rest with
      | '\\' :: 'u' :: rest =>
        match hexCode rest with
        | .error e => .error e
        | .ok (m, rest) =>
          if isTrailing m then .ok (ofSurrogates n m, rest) else .error ⟨.loneSurrogate, rest⟩
      | [] | ['\\'] => .error ⟨.endInString, []⟩
      | '\\' :: rest => .error ⟨.cutSurrogatePair, rest⟩
      | rest => .error ⟨.cutSurrogatePair, rest⟩

/-- Reads what follows a backslash. -/
def escape : List Char → Except Failure (Char × List Char)
  | [] => .error ⟨.endInString, []⟩
  | c :: cs =>
    match shortEscape? c with
    | some d => .ok (d, cs)
    | none => if c = 'u' then codeEscape cs else .error ⟨.badEscape, cs⟩

theorem hexCode_length {cs rest : List Char} {n : Nat} (h : hexCode cs = .ok (n, rest)) :
    rest.length < cs.length := by
  unfold hexCode at h
  split at h
  · split at h
    · simp only [Except.ok.injEq, Prod.mk.injEq] at h
      simp [← h.2]; omega
    · simp at h
  · split at h <;> simp at h

theorem codeEscape_length {cs rest : List Char} {c : Char} (h : codeEscape cs = .ok (c, rest)) :
    rest.length < cs.length := by
  unfold codeEscape at h
  split at h
  · simp at h
  · rename_i n r hn
    have h1 := hexCode_length hn
    split at h
    · simp at h
    · split at h
      · simp only [Except.ok.injEq, Prod.mk.injEq] at h
        rw [← h.2]; exact h1
      · split at h
        · split at h
          · simp at h
          · rename_i hm
            have h2 := hexCode_length hm
            split at h
            · simp only [Except.ok.injEq, Prod.mk.injEq] at h
              rw [← h.2]
              simp at h1
              omega
            · simp at h
        all_goals simp at h

theorem escape_length {cs rest : List Char} {c : Char} (h : escape cs = .ok (c, rest)) :
    rest.length < cs.length := by
  cases cs with
  | nil => simp [escape] at h
  | cons d ds =>
    simp only [escape] at h
    split at h
    · simp only [Except.ok.injEq, Prod.mk.injEq] at h
      simp [← h.2]
    · split at h
      · have := codeEscape_length h
        simp; omega
      · simp at h

/-- Reads a string whose opening quote has been read, up to its closing quote. -/
def body (cs : List Char) : Except Failure (List Char × List Char) :=
  match cs with
  | [] => .error ⟨.endInString, []⟩
  | c :: cs =>
    if c = '"' then .ok ([], cs)
    else if c = '\\' then
      match h : escape cs with
      | .error e => .error e
      | .ok (d, rest) =>
        have := escape_length h
        match body rest with
        | .error e => .error e
        | .ok (ds, rest) => .ok (d :: ds, rest)
    else if c.toNat < 0x20 then .error ⟨.controlCharacter, cs⟩
    else match body cs with
      | .error e => .error e
      | .ok (ds, rest) => .ok (c :: ds, rest)
termination_by cs.length

/-- What follows an escape is read on its own. -/
theorem body_of_escape {cs rest : List Char} {d : Char} (h : escape cs = .ok (d, rest)) :
    body ('\\' :: cs) = (body rest).map fun r => (d :: r.1, r.2) := by
  rw [body.eq_def]
  simp only [Char.reduceEq, ↓reduceIte]
  split
  · simp_all
  · rename_i hd
    rw [h] at hd
    simp only [Except.ok.injEq, Prod.mk.injEq] at hd
    obtain ⟨rfl, rfl⟩ := hd
    cases body rest <;> rfl

theorem body_of_plain {c : Char} {cs : List Char} (hq : c ≠ '"') (hb : c ≠ '\\')
    (hc : 0x20 ≤ c.toNat) : body (c :: cs) = (body cs).map fun r => (c :: r.1, r.2) := by
  rw [body.eq_def]
  simp only [hq, hb, ↓reduceIte, Nat.not_lt.2 hc]
  cases body cs <;> rfl

theorem escape_of_short {c d : Char} {rest : List Char} (h : shortEscape? c = some d) :
    escape (c :: rest) = .ok (d, rest) := by
  simp [escape, h]

/-- A control character is read from its number in four digits. -/
theorem escape_of_control {c : Char} {rest : List Char} (h : c.toNat < 0x20) :
    escape ('u' :: '0' :: '0' :: (c.toNat / 16).digitChar :: (c.toNat % 16).digitChar :: rest) =
      .ok (c, rest) := by
  have h1 := hexValue?_digitChar (n := c.toNat / 16) (by omega)
  have h2 := hexValue?_digitChar (n := c.toNat % 16) (by omega)
  have h0 : hexValue? '0' = some 0 := by decide
  have hn : ((0 * 16 + 0) * 16 + c.toNat / 16) * 16 + c.toNat % 16 = c.toNat := by omega
  have ht : isTrailing c.toNat = false := by simp [isTrailing]; omega
  have hl : isLeading c.toNat = false := by simp [isLeading]; omega
  have hu : shortEscape? 'u' = none := by decide
  simp only [escape, hu, ↓reduceIte, codeEscape, hexCode, h0, h1, h2, hn, ht, hl]
  simp [Char.ofNat_toNat]

/-- **An escaped character reads back.** -/
theorem body_escapeChar (c : Char) (rest : List Char) :
    body (escapeChar c ++ rest) = (body rest).map fun r => (c :: r.1, r.2) := by
  unfold escapeChar
  split
  · subst_vars; exact body_of_escape (escape_of_short (by decide))
  split
  · subst_vars; exact body_of_escape (escape_of_short (by decide))
  split
  · subst_vars; exact body_of_escape (escape_of_short (by decide))
  split
  · subst_vars; exact body_of_escape (escape_of_short (by decide))
  split
  · subst_vars; exact body_of_escape (escape_of_short (by decide))
  split
  · subst_vars; exact body_of_escape (escape_of_short (by decide))
  split
  · subst_vars; exact body_of_escape (escape_of_short (by decide))
  split
  · exact body_of_escape (escape_of_control (by assumption))
  · rename_i hq hb _ _ _ _ _ hc
    exact body_of_plain hq hb (Nat.not_lt.1 hc)

/-- **A written string reads back**, whatever follows it. -/
theorem body_escaped (cs rest : List Char) :
    body (cs.flatMap escapeChar ++ '"' :: rest) = .ok (cs, rest) := by
  induction cs with
  | nil => simp [body.eq_def]
  | cons c cs ih =>
    rw [List.flatMap_cons, List.append_assoc, body_escapeChar, ih]
    rfl

/-- The number of the byte at which a fault in a text was noticed, counted from one. A cut
surrogate pair is noticed at the byte that stands in place of the missing one, any other fault at
the last byte that was read. -/
def Failure.column (e : Failure) (text : List Char) : Nat :=
  Text.size text - Text.size e.rest + if e.fault = .cutSurrogatePair then 1 else 0

end FormCalc.Json
