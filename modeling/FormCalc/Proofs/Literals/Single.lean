import FormCalc.Proofs.Lossless
import FormCalc.Proofs.Parse.Formula

/-!
# Literals in single quotes

In single quotes only the quote and the backslash are escaped, and both always are. So a text on
one line is written as a literal in one way, and every literal is written so.

* `escapeSingle`, `quoteSingle`: how a text is written.
* `IsSingleBody.escapeSingle_unescapeSingle`: every body is the escaped form of what it stands for.
* `singleQuoted_exact`: what is written is read as one token that stands for the text, and every
  token of a literal is written as the text that it stands for.
-/

namespace FormCalc

/-- A single quote and a backslash are written behind a backslash. -/
def escapeSingleChar (c : Char) : List Char :=
  if c = '\'' ∨ c = '\\' then ['\\', c] else [c]

/-- The body of the literal of a text. -/
def escapeSingle (cs : List Char) : List Char :=
  cs.flatMap escapeSingleChar

/-- The literal of a text. -/
def quoteSingle (cs : List Char) : List Char :=
  '\'' :: (escapeSingle cs ++ ['\''])

/-- The text has no line end. -/
def IsOneLine (cs : List Char) : Prop :=
  ∀ c ∈ cs, c ≠ '\n' ∧ c ≠ '\r'

instance (cs : List Char) : Decidable (IsOneLine cs) :=
  decidable_of_iff (cs.all (fun c => c != '\n' && c != '\r') = true) (by simp [IsOneLine])

variable {c : Char} {cs body : List Char}

theorem escapeSingleChar_of_special (h : c = '\'' ∨ c = '\\') :
    escapeSingleChar c = ['\\', c] := by
  unfold escapeSingleChar
  rw [if_pos h]

theorem escapeSingleChar_of_plain (hquote : c ≠ '\'') (hslash : c ≠ '\\') :
    escapeSingleChar c = [c] := by
  have h : ¬(c = '\'' ∨ c = '\\') := by
    intro h
    rcases h with h | h
    · exact hquote h
    · exact hslash h
  unfold escapeSingleChar
  rw [if_neg h]

theorem escapeSingle_cons (c : Char) (cs : List Char) :
    escapeSingle (c :: cs) = escapeSingleChar c ++ escapeSingle cs :=
  List.flatMap_cons

/-- A character that is no backslash stands for itself. -/
theorem unescapeSingle_cons (h : c ≠ '\\') (cs : List Char) :
    unescapeSingle (c :: cs) = c :: unescapeSingle cs := by
  rw [unescapeSingle]
  · intro hc _
    exact h hc
  · intro _ _ hc _
    exact h hc

/-- A backslash and a character stand for the character. -/
theorem unescapeSingle_escape (c : Char) (cs : List Char) :
    unescapeSingle ('\\' :: c :: cs) = c :: unescapeSingle cs := by
  rw [unescapeSingle]

/-- **An escaped text stands for the text.** -/
theorem unescapeSingle_escapeSingle (cs : List Char) :
    unescapeSingle (escapeSingle cs) = cs := by
  induction cs with
  | nil => rfl
  | cons c cs ih =>
    rw [escapeSingle_cons]
    by_cases hspecial : c = '\'' ∨ c = '\\'
    · rw [escapeSingleChar_of_special hspecial]
      show unescapeSingle ('\\' :: c :: escapeSingle cs) = c :: cs
      rw [unescapeSingle_escape, ih]
    · obtain ⟨hquote, hslash⟩ := not_or.1 hspecial
      rw [escapeSingleChar_of_plain hquote hslash]
      show unescapeSingle (c :: escapeSingle cs) = c :: cs
      rw [unescapeSingle_cons hslash, ih]

/-- An escaped text without line ends is a body. -/
theorem isSingleBody_escapeSingle (h : IsOneLine cs) : IsSingleBody (escapeSingle cs) := by
  induction cs with
  | nil => exact .nil
  | cons c cs ih =>
    obtain ⟨hc, hcs⟩ := List.forall_mem_cons.1 h
    have htail := ih hcs
    rw [escapeSingle_cons]
    by_cases hquote : c = '\''
    · rw [escapeSingleChar_of_special (.inl hquote), hquote]
      exact .quote htail
    · by_cases hslash : c = '\\'
      · rw [escapeSingleChar_of_special (.inr hslash), hslash]
        exact .slash htail
      · rw [escapeSingleChar_of_plain hquote hslash]
        exact .plain hquote hslash hc htail

/-- **A body is the escaped form of the text that it stands for**, which has no line end. -/
theorem IsSingleBody.escapeSingle_unescapeSingle (h : IsSingleBody body) :
    escapeSingle (unescapeSingle body) = body ∧ IsOneLine (unescapeSingle body) := by
  induction h with
  | nil => exact ⟨rfl, by simp [unescapeSingle, IsOneLine]⟩
  | @plain c body hquote hslash hc _ ih =>
    rw [unescapeSingle_cons hslash, escapeSingle_cons, escapeSingleChar_of_plain hquote hslash,
      ih.1]
    exact ⟨rfl, List.forall_mem_cons.2 ⟨hc, ih.2⟩⟩
  | quote _ ih =>
    rw [unescapeSingle_escape, escapeSingle_cons, escapeSingleChar_of_special (.inl rfl), ih.1]
    exact ⟨rfl, List.forall_mem_cons.2 ⟨by decide, ih.2⟩⟩
  | slash _ ih =>
    rw [unescapeSingle_escape, escapeSingle_cons, escapeSingleChar_of_special (.inr rfl), ih.1]
    exact ⟨rfl, List.forall_mem_cons.2 ⟨by decide, ih.2⟩⟩

/-- The literal of a text is cut into one lexeme. -/
theorem cut_quoteSingle (h : IsOneLine cs) :
    Cut (quoteSingle cs) [.singleQuoted (escapeSingle cs)] := by
  have hbody : singleBody 1 (escapeSingle cs ++ ['\'']) = .ok (escapeSingle cs, []) :=
    singleBody_ok_iff.2 ⟨isSingleBody_escapeSingle h, rfl⟩
  have hsymbol : Symbol.ofChar? '\'' = none := by decide
  have hread : Lexeme.read (quoteSingle cs) = .ok (.singleQuoted (escapeSingle cs), []) := by
    simp [quoteSingle, Lexeme.read, hsymbol, hbody, Except.map]
  exact .lexeme hread .nil

/-- **Single quotes write every text on one line, in one way.** Offsets have 32 bits in texts of
less than four gibibytes. The literal of a text on one line, if it is short enough, is read as one token
that stands for the text; and the token of a literal, in any formula, stands for a text without line
ends whose escaped form is what the token's span holds. -/
theorem singleQuoted_exact :
    (∀ (file s : String) (limits : Limits), IsOneLine s.toList →
      (quoteSingle s.toList).length ≤ limits.formulaLength →
      Text.size (quoteSingle s.toList) < 2 ^ 32 →
      ∃ source t, Source.ofText file (String.ofList (quoteSingle s.toList)) limits = .ok source ∧
        source.OffsetsFit ∧ source.IsToken t ∧ (∃ body, t.lexeme = .singleQuoted body) ∧
        t.value = .ok s) ∧
    ∀ (source : Source) (t : Token) (body : List Char), Text.size source.contents < 2 ^ 32 →
      t ∈ (tokenize source).tokens → t.lexeme = .singleQuoted body →
      source.OffsetsFit ∧ ∃ s, t.value = .ok s ∧ IsOneLine s.toList ∧
        escapeSingle s.toList = t.span.text := by
  constructor
  · intro file s limits hline hlength hsize
    let source : Source := ⟨file, quoteSingle s.toList⟩
    have hsource : Source.ofText file (String.ofList (quoteSingle s.toList)) limits =
        .ok source := by
      rw [Source.ofText_eq, String.length_ofList, if_pos hlength, String.toList_ofList]
    have hcut : Cut source.contents _ := cut_quoteSingle hline
    obtain ⟨t, htoken, hlexeme⟩ := Source.exists_isToken_iff.2 hcut
    refine ⟨source, t, hsource, Source.offsetsFit hsize, htoken, ⟨_, hlexeme⟩, ?_⟩
    simp only [Token.value, hlexeme, Lexeme.value, unescapeSingle_escapeSingle,
      String.ofList_toList]
  · intro source t body hsize ht hlexeme
    -- the token stands in the text, so its span holds the body
    obtain ⟨before, behind, hstands⟩ := source.stands t ht
    have htext : t.span.text = body := by
      rw [hstands.text, hlexeme]
      rfl
    have hbody : IsSingleBody body := by
      have hclass := hstands.inClass
      rwa [hlexeme, htext] at hclass
    obtain ⟨hescape, hline⟩ := hbody.escapeSingle_unescapeSingle
    refine ⟨Source.offsetsFit hsize, String.ofList (unescapeSingle body), ?_, ?_, ?_⟩
    · simp only [Token.value, hlexeme, Lexeme.value]
    · rwa [String.toList_ofList]
    · rw [String.toList_ofList, hescape, htext]

/-- A quote, a backslash, the character with the number zero, a tab and a character of two bytes. -/
theorem singleQuoted_exact_escapes :
    let s := "it's \\ \x00\té\\"
    IsOneLine s.toList ∧
      (quoteSingle s.toList).length ≤ Limits.standard.formulaLength ∧
      Text.size (quoteSingle s.toList) < 2 ^ 32 ∧
      ∃ source t, Source.ofText "f" (String.ofList (quoteSingle s.toList)) .standard = .ok source ∧
        source.OffsetsFit ∧ source.IsToken t ∧ (∃ body, t.lexeme = .singleQuoted body) ∧
        t.value = .ok s := by
  intro s
  have hline : IsOneLine s.toList := by decide
  have hlength : (quoteSingle s.toList).length ≤ Limits.standard.formulaLength := by decide
  have hsize : Text.size (quoteSingle s.toList) < 2 ^ 32 := by decide
  exact ⟨hline, hlength, hsize, singleQuoted_exact.1 "f" s .standard hline hlength hsize⟩

end FormCalc
