import FormCalc.Proofs.Json.Texts
import FormCalc.Proofs.Literals.Double

/-!
# JSON values that are skipped

What nobody asks for is skipped by its grammar alone. It may nest to any depth, its numbers may be
of any size, and escapes in its strings need not make up characters.

* `Json.Grammatical`: the texts of values, and of what stands between brackets.
* `Json.Grammatical.skips`: they are skipped up to their ends.
-/

namespace FormCalc.Json

/-- The brackets around elements and around members. -/
inductive Bracket where
  | square | curly

namespace Bracket

/-- The opening bracket. -/
def opening : Bracket → Char
  | .square => '['
  | .curly => '{'

/-- The closing bracket. -/
def closing : Bracket → Char
  | .square => ']'
  | .curly => '}'

end Bracket

/-- What stands in front of a value between brackets: nothing, or a key and a colon. -/
inductive KeyText : Bracket → List Char → Prop where
  | element : KeyText .square []
  | member {body gap gap' : List Char} (hbody : IsDoubleBody body) (hgap : AllBlank gap)
      (hgap' : AllBlank gap') : KeyText .curly ('"' :: (body ++ '"' :: (gap ++ ':' :: gap')))

/-- The parts of a text: a value, or what stands between brackets, from the beginning on or behind
other values. -/
inductive Part where
  | value
  | inside (b : Bracket) (first : Bool)

/-- **The grammar of JSON.** -/
inductive Grammatical : Part → List Char → Prop where
  | keyword {cs : List Char} (h : cs ∈ ["null".toList, "true".toList, "false".toList]) :
      Grammatical .value cs
  | number {negative : Bool} {n : Number.Numeral} (h : n.Formed) :
      Grammatical .value (Number.signed negative n.text)
  | string {body : List Char} (h : IsDoubleBody body) :
      Grammatical .value ('"' :: (body ++ ['"']))
  | bracketed {b : Bracket} {cs : List Char} (h : Grammatical (.inside b true) cs) :
      Grammatical .value (b.opening :: (cs ++ [b.closing]))
  | nothing {b : Bracket} {first : Bool} {gap : List Char} (h : AllBlank gap) :
      Grammatical (.inside b first) gap
  | next {b : Bracket} {first : Bool} {sep key cs ts : List Char} (hsep : Separator first sep)
      (hkey : KeyText b key) (hv : Grammatical .value cs)
      (hrest : Grammatical (.inside b false) ts) :
      Grammatical (.inside b first) (sep ++ (key ++ (cs ++ ts)))

variable {first : Bool} {b : Bracket} {c : Char} {cs ts sep gap key body rest : List Char}

theorem Bracket.isBlank_closing (b : Bracket) : isBlank b.closing = false := by
  cases b <;> decide

/-- A string is skipped up to its closing quote. -/
theorem skipString_body (h : IsDoubleBody body) (rest : List Char) :
    skipString (body ++ '"' :: rest) = .ok ((), rest) := by
  induction h with
  | nil => rw [List.nil_append, skipString.eq_def]; rfl
  | plain hquote hslash hc _ ih =>
    rw [List.cons_append, skipString.eq_def]
    simp only [hquote, hslash, if_false, Nat.not_lt.2 hc]
    exact ih
  | short hc _ ih =>
    rw [List.cons_append, List.cons_append, skipString.eq_def]
    simp only [Char.reduceEq, if_false, if_true, hc, Option.isSome_some]
    exact ih
  | @hex a b c d body hx _ ih =>
    simp only [List.all_cons, List.all_nil, Number.isHexDigit, Bool.and_eq_true, and_true,
      Option.isSome_iff_exists] at hx
    obtain ⟨⟨w, ha⟩, ⟨x, hb⟩, ⟨y, hc⟩, ⟨z, hd⟩⟩ := hx
    have hcode : hexCode ([a, b, c, d] ++ (body ++ '"' :: rest)) =
        .ok (((w * 16 + x) * 16 + y) * 16 + z, body ++ '"' :: rest) :=
      hexCode_ok_iff.2 ⟨_, .mk ha hb hc hd, rfl⟩
    have hshort : shortEscape? 'u' = none := by decide
    simp only [List.cons_append, List.nil_append] at hcode ⊢
    rw [skipString.eq_def]
    simp only [Char.reduceEq, if_false, if_true, hshort, Option.isSome_none, Bool.false_eq_true]
    split
    · simp_all
    · rename_i hrest
      rw [hcode] at hrest
      obtain ⟨-, rfl⟩ := by simpa using hrest
      exact ih

/-- Behind a separator another value is found. The blanks behind a comma are left in the text. -/
theorem moreSkipped_separator (hsep : Separator first sep) (hc : isBlank c = false)
    (hclosing : c ≠ b.closing) (cs : List Char) : ∃ gap, AllBlank gap ∧
      moreSkipped b.closing first (sep ++ c :: cs) = .ok (true, gap ++ c :: cs) := by
  unfold moreSkipped
  cases hsep with
  | first hgap =>
    refine ⟨[], rfl, ?_⟩
    rw [peek_blanks hgap, peek_cons hc]
    simp [hclosing]
  | @comma gap gap' hgap hgap' =>
    refine ⟨gap', hgap', ?_⟩
    have hcomma : ',' ≠ b.closing := by cases b <;> decide
    rw [List.append_assoc, peek_blanks hgap, List.cons_append, peek_cons (by decide)]
    simp only [hcomma, if_false, if_true, Bool.false_eq_true]
    rfl

theorem moreSkipped_close (hgap : AllBlank gap) :
    moreSkipped b.closing first (gap ++ b.closing :: rest) = .ok (false, rest) := by
  unfold moreSkipped
  rw [peek_blanks hgap, peek_cons b.isBlank_closing]
  simp only [if_true]
  rfl

/-- A key and its colon are skipped. Blanks may be left in front of the value. -/
theorem KeyText.skips (hkey : KeyText b key) (hgap : AllBlank gap) {g : Unit → Reader Unit}
    {r : Except Fault (Unit × List Char)} (h : ∀ gap', AllBlank gap' → g () (gap' ++ cs) = r) :
    (if b.closing = '}' then skipKey >>= g else g ()) (gap ++ (key ++ cs)) = r := by
  cases hkey with
  | element => exact h gap hgap
  | @member body gap₁ gap₂ hbody hgap₁ hgap₂ =>
    have hskip : skipKey (gap ++ '"' :: (body ++ '"' :: (gap₁ ++ ':' :: (gap₂ ++ cs)))) =
        .ok ((), gap₂ ++ cs) := by
      unfold skipKey
      rw [peek_blanks hgap, peek_cons (by decide)]
      simp only [if_true]
      rw [skip_bind, bind_of_ok (skipString_body hbody _)]
      exact colon_blanks hgap₁
    rw [if_pos (show Bracket.curly.closing = '}' from rfl)]
    simp only [List.cons_append, List.append_assoc]
    rw [bind_of_ok hskip]
    exact h gap₂ hgap₂

theorem skipNested_blanks {bound depth : Nat} (hgap : AllBlank gap) :
    skipNested bound depth (gap ++ cs) = skipNested bound depth cs := by
  cases depth with
  | zero => rfl
  | succ depth => exact peek_blanks hgap _

namespace Grammatical

/-- How the text of a value begins. -/
theorem exists_cons (h : Grammatical .value cs) :
    ∃ c cs', cs = c :: cs' ∧ isBlank c = false ∧ c ≠ ']' := by
  cases h with
  | keyword h =>
    have hall : ∀ cs ∈ ["null".toList, "true".toList, "false".toList],
        cs.head?.any (fun c => !isBlank c && c != ']') = true := by decide
    have hhead := hall cs h
    cases cs with
    | nil => simp at hhead
    | cons c cs => exact ⟨c, cs, rfl, by simpa using hhead⟩
  | @number negative n h =>
    cases negative with
    | true => exact ⟨'-', n.text, rfl, by decide, by decide⟩
    | false =>
      obtain ⟨d, ds, htext, hd⟩ := h.exists_digit
      exact ⟨d, ds, htext, isBlank_of_isDigit hd, by rintro rfl; simp at hd⟩
  | string h => exact ⟨'"', _, rfl, by decide, by decide⟩
  | @bracketed b cs h => exact ⟨b.opening, _, rfl, by cases b <;> decide, by cases b <;> decide⟩

/-- How a value begins together with its key. -/
theorem exists_cons_of_key (h : Grammatical .value cs) (hkey : KeyText b key) :
    ∃ c cs', key ++ cs = c :: cs' ∧ isBlank c = false ∧ c ≠ b.closing := by
  cases hkey with
  | element => exact h.exists_cons
  | member _ _ _ => exact ⟨'"', _, rfl, by decide, by decide⟩

/-- What is behind a value between brackets. -/
theorem ends (h : Grammatical (.inside b false) ts) (rest : List Char) :
    Ends (ts ++ b.closing :: rest) := by
  cases h with
  | nothing hgap => exact hgap.ends (by cases b <;> rfl)
  | next hsep _ _ _ =>
    rw [List.append_assoc]
    exact hsep.ends _

end Grammatical

/-- The part is skipped: a value if it may end there, what stands between brackets with the closing
bracket. The depth and the number of elements are bounded by the number of characters. -/
def Part.Skipped (cs : List Char) : Part → Prop
  | .value => ∀ bound depth rest, cs.length < bound → cs.length < depth → Ends rest →
      skipNested bound depth (cs ++ rest) = .ok ((), rest)
  | .inside b first => ∀ bound depth n rest, cs.length < bound → cs.length < depth →
      cs.length < n →
      skipElements (skipNested bound depth) b.closing n first (cs ++ b.closing :: rest) =
        .ok ((), rest)

namespace Part.Skipped

/-- What is skipped at any depth. -/
theorem of_skipValueOver (h : ∀ inner bound rest, Ends rest →
    skipValueOver inner bound (cs ++ rest) = .ok ((), rest)) : Part.value.Skipped cs := by
  intro bound depth rest _ hdepth hrest
  cases depth with
  | zero => omega
  | succ depth => exact h (skipNested bound depth) bound rest hrest

theorem number {negative : Bool} {n : Number.Numeral} (hn : n.Formed) :
    Part.value.Skipped (Number.signed negative n.text) := by
  refine of_skipValueOver fun inner bound rest hrest => ?_
  have hnumeral : numeral .badNumber (n.text ++ rest) = .ok (n, rest) :=
    numeral_ok_iff.2 ⟨hn, rfl, n.stopsAt_of_ends hrest⟩
  have hread : (numeral .badNumber >>= fun _ => pure () : Reader Unit) (n.text ++ rest) =
      .ok ((), rest) := bind_of_ok hnumeral _
  cases negative with
  | true => exact hread
  | false =>
    obtain ⟨d, ds, htext, hd⟩ := hn.exists_digit
    obtain ⟨hn, ht, hf, hminus⟩ : d ≠ 'n' ∧ d ≠ 't' ∧ d ≠ 'f' ∧ d ≠ '-' := by
      refine ⟨?_, ?_, ?_, ?_⟩ <;> (rintro rfl; simp at hd)
    simp only [Number.signed, Bool.false_eq_true, if_false]
    rw [← hread, htext, skipValueOver, List.cons_append, peek_cons (isBlank_of_isDigit hd)]
    simp [hn, ht, hf, hminus, hd]

theorem bracketed (h : (Part.inside b true).Skipped cs) :
    Part.value.Skipped (b.opening :: (cs ++ [b.closing])) := by
  intro bound depth rest hbound hdepth _
  simp only [List.length_cons, List.length_append, List.length_nil] at hbound hdepth
  cases depth with
  | zero => omega
  | succ depth =>
    have hinside := h bound depth bound rest (by omega) (by omega) (by omega)
    rw [List.cons_append, List.append_assoc]
    cases b with
    | square | curly => exact hinside

theorem nothing (hgap : AllBlank gap) : (Part.inside b first).Skipped gap := by
  intro bound depth n rest _ _ hn
  cases n with
  | zero => omega
  | succ n =>
    rw [skipElements, bind_of_ok (moreSkipped_close hgap)]
    rfl

theorem next (hsep : Separator first sep) (hkey : KeyText b key) (hcs : Grammatical .value cs)
    (hts : Grammatical (.inside b false) ts) (hv : Part.value.Skipped cs)
    (hrest : (Part.inside b false).Skipped ts) :
    (Part.inside b first).Skipped (sep ++ (key ++ (cs ++ ts))) := by
  intro bound depth n rest hbound hdepth hn
  obtain ⟨c, cs', hcons, hblank, hclosing⟩ := hcs.exists_cons_of_key hkey
  have hpositive : 0 < (key ++ cs).length := by rw [hcons]; simp
  simp only [List.length_append] at hbound hdepth hn hpositive
  cases n with
  | zero => omega
  | succ n =>
    obtain ⟨gap, hgap, hmore⟩ := moreSkipped_separator hsep hblank hclosing
      (cs' ++ (ts ++ b.closing :: rest))
    have hvalue := hv bound depth (ts ++ b.closing :: rest) (by omega) (by omega) (hts.ends rest)
    have helements := hrest bound depth n rest (by omega) (by omega) (by omega)
    -- the first character is looked at before the key is read, or the value if there is no key
    have htext : sep ++ (key ++ (cs ++ ts)) ++ b.closing :: rest =
        sep ++ c :: (cs' ++ (ts ++ b.closing :: rest)) := by
      rw [← List.cons_append, ← hcons]
      simp only [List.append_assoc]
    have hback : gap ++ c :: (cs' ++ (ts ++ b.closing :: rest)) =
        gap ++ (key ++ (cs ++ (ts ++ b.closing :: rest))) := by
      rw [← List.cons_append, ← hcons]
      simp only [List.append_assoc]
    rw [htext, skipElements, bind_of_ok hmore, if_pos rfl, hback]
    refine hkey.skips hgap fun gap' hgap' => ?_
    exact (bind_of_ok ((skipNested_blanks hgap').trans hvalue) _).trans helements

end Part.Skipped

/-- **A text of the grammar is skipped up to its end.** -/
theorem Grammatical.skipped {part : Part} (h : Grammatical part cs) : part.Skipped cs := by
  induction h with
  | @keyword cs h =>
    refine .of_skipValueOver fun inner bound rest _ => ?_
    simp only [List.mem_cons, List.not_mem_nil, or_false] at h
    rcases h with rfl | rfl | rfl <;> rfl
  | number h => exact .number h
  | string h =>
    refine .of_skipValueOver fun inner bound rest _ => ?_
    rw [List.cons_append, List.append_assoc]
    exact skipString_body h rest
  | bracketed _ ih => exact ih.bracketed
  | nothing hgap => exact .nothing hgap
  | next hsep hkey hv hrest ihv ihrest => exact .next hsep hkey hv hrest ihv ihrest

/-- **A value is skipped up to its end**, with any blanks in front of it. -/
theorem Grammatical.skips (h : Grammatical .value cs) (hgap : AllBlank gap) (hrest : Ends rest) :
    skipValue (gap ++ (cs ++ rest)) = .ok ((), rest) := by
  have hbound : cs.length < (gap ++ (cs ++ rest)).length + 1 := by
    simp only [List.length_append]
    omega
  rw [skipValue, get_bind, skipNested_blanks hgap]
  exact h.skipped _ _ rest hbound hbound hrest

end FormCalc.Json
