import FormCalc.Token.Stream

/-!
# The tokens of a text

* `Lexeme.read_formed`: a lexeme that is read is not the end, and an identifier has the form of one.
* `TokenStream.Formed`: what holds of the tokens of every text: where reading was not stopped, the
  end is the last token and stands nowhere else.
* `Source.words`: the tokens before the end.
* `exists_joined`, `exists_bracketed`: tokens are found by their lexemes.
-/

namespace FormCalc

/-- A letter or an underscore, and behind it letters, digits and underscores. -/
def IsIdentifier (name : List Char) : Prop :=
  ∃ c cs, name = c :: cs ∧ (c.isAlpha ∨ c = '_') ∧ ∀ d ∈ cs, d.isAlphanum ∨ d = '_'

instance (name : List Char) : Decidable (IsIdentifier name) :=
  match name with
  | [] => .isFalse fun ⟨_, _, h, _⟩ => nomatch h
  | c :: cs =>
    decidable_of_iff (beginsIdent c = true ∧ cs.all isIdentChar = true)
      ⟨fun h => ⟨c, cs, rfl, by simpa [beginsIdent, isIdentChar] using h⟩,
        fun ⟨_, _, heq, h⟩ => by cases heq; simpa [beginsIdent, isIdentChar] using h⟩

/-- A lexeme that is written with characters. -/
def Lexeme.Formed : Lexeme → Prop
  | .ident name => IsIdentifier name
  | .eof => False
  | _ => True

/-- **A lexeme is formed, unless the text is at its end.** -/
theorem Lexeme.read_formed {c : Char} {cs rest : List Char} {l : Lexeme}
    (h : read (c :: cs) = .ok (l, rest)) : l.Formed := by
  simp only [read] at h
  split at h
  · simp only [Except.ok.injEq, Prod.mk.injEq] at h
    rw [← h.1]
    trivial
  · -- only of identifiers is a form asked, and they are what is tried last
    split at h
    · obtain ⟨r, -, hl⟩ := map_eq_ok h
      simp only [Prod.mk.injEq] at hl
      rw [← hl.1]
      trivial
    · split at h
      · obtain ⟨r, -, hl⟩ := map_eq_ok h
        simp only [Prod.mk.injEq] at hl
        rw [← hl.1]
        trivial
      · split at h
        · obtain ⟨r, -, hl⟩ := map_eq_ok h
          simp only [Prod.mk.injEq] at hl
          rw [← hl.1]
          trivial
        · split at h
          · rename_i hc
            simp only [Except.ok.injEq, Prod.mk.injEq] at h
            rw [← h.1]
            refine ⟨c, _, rfl, by simpa [beginsIdent] using hc, fun d hd => ?_⟩
            have hall := List.all_eq_true.1 (List.all_takeWhile (p := isIdentChar) (l := cs)) d hd
            simpa [isIdentChar] using hall
          · simp at h

/-- The token at the end of a text. -/
def Token.IsEnd (t : Token) : Prop :=
  t.lexeme = .eof

theorem Lexeme.Formed.not_isEnd {t : Token} (h : t.lexeme.Formed) : ¬t.IsEnd := by
  intro ht
  rw [ht] at h
  exact h

/-- What holds of the tokens of every text. -/
structure TokenStream.Formed (stream : TokenStream) : Prop where
  /-- Where reading was not stopped, the end is the last token. -/
  ended : stream.failure? = none →
    ∃ ts t, stream.tokens = ts ++ [t] ∧ t.IsEnd ∧ ∀ u ∈ ts, u.lexeme.Formed
  /-- Where it was stopped, there is no end. -/
  failed : ∀ err, stream.failure? = some err →
    (∀ u ∈ stream.tokens, u.lexeme.Formed) ∧ ∃ site fault, err = .malformed site fault

theorem tokensFrom_formed (source : Source) (p : Place) (cs : List Char) :
    (tokensFrom source p cs).Formed := by
  fun_induction tokensFrom source p cs with
  | case1 p cs q hcs =>
    refine ⟨fun _ => ⟨[], _, rfl, rfl, by simp⟩, fun err h => ?_⟩
    simp at h
  | case2 p cs q c ds hcs fault distance hread =>
    refine ⟨fun h => by simp at h, fun err h => ⟨by simp, ?_⟩⟩
    simp only [Option.some.injEq] at h
    exact ⟨_, _, h.symm⟩
  | case3 p cs q c ds hcs l rest hread hlt stream ih =>
    have hl : (l.token source q).lexeme.Formed := Lexeme.read_formed hread
    refine ⟨fun h => ?_, fun err h => ?_⟩
    · obtain ⟨ts, t, hts, ht, hall⟩ := ih.ended h
      refine ⟨l.token source q :: ts, t, ?_, ht, List.forall_mem_cons.2 ⟨hl, hall⟩⟩
      simp only [List.cons_append]
      rw [← hts]
    · obtain ⟨hall, herr⟩ := ih.failed err h
      exact ⟨List.forall_mem_cons.2 ⟨hl, hall⟩, herr⟩

theorem tokenize_formed (source : Source) : (tokenize source).Formed :=
  tokensFrom_formed source .start source.contents

/-- The tokens before the end. -/
def Source.words (source : Source) : List Token :=
  (tokenize source).tokens.dropLast

/-- **A text that is cut into tokens up to its end.** -/
theorem Source.tokens_eq {source : Source} (h : (tokenize source).failure? = none) :
    ∃ t, (tokenize source).tokens = source.words ++ [t] ∧ t.IsEnd ∧
      ∀ u ∈ source.words, u.lexeme.Formed := by
  obtain ⟨ts, t, hts, ht, hall⟩ := (tokenize_formed source).ended h
  have hwords : source.words = ts := by
    rw [words, hts, List.dropLast_concat]
  rw [hwords]
  exact ⟨t, hts, ht, hall⟩

section Lexemes

variable {ts : List Token} {ls ms : List Lexeme} {l l' : Lexeme}

/-- A token between other ones, by its lexeme. -/
theorem exists_joined (h : ts.map Token.lexeme = ls ++ l :: ms) :
    ∃ us t vs, ts = us ++ t :: vs ∧ us.map Token.lexeme = ls ∧ t.lexeme = l ∧
      vs.map Token.lexeme = ms := by
  obtain ⟨us, vs, rfl, hus, hvs⟩ := List.map_eq_append_iff.1 h
  obtain ⟨t, vs, rfl, ht, hms⟩ := List.map_eq_cons_iff.1 hvs
  exact ⟨us, t, vs, rfl, hus, ht, hms⟩

/-- Tokens between two other ones, by their lexemes. -/
theorem exists_bracketed (h : ts.map Token.lexeme = l :: (ls ++ [l'])) :
    ∃ o us c, ts = o :: us ++ [c] ∧ o.lexeme = l ∧ us.map Token.lexeme = ls ∧
      c.lexeme = l' := by
  obtain ⟨o, us, rfl, ho, hus⟩ := List.map_eq_cons_iff.1 h
  obtain ⟨us, c, vs, rfl, hls, hc, hvs⟩ := exists_joined hus
  obtain rfl := List.map_eq_nil_iff.1 hvs
  exact ⟨o, us, c, rfl, ho, hls, hc⟩

end Lexemes

end FormCalc
