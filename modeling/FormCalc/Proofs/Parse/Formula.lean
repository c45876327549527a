import FormCalc.Proofs.Parse.Complete
import FormCalc.Proofs.Tokens

/-!
# What a formula is

* `Source.parse_eq_ok_iff`: the parser returns exactly the trees that the grammar derives from all
  tokens before the end, if neither ceiling is passed.
* `parse_eq_ok_iff`: the same for a text, which must also be short enough.
-/

namespace FormCalc

open Progress Parse

variable {a : Assignment} {s s' : Progress} {e : Expr}

/-- The end goes on with nothing. -/
theorem Level.stops_of_isEnd {l : Level} {t : Token} (h : t.IsEnd) : l.Stops t := by
  intro o _ ho
  rw [Token.IsEnd, ho] at h
  simp at h

/-- A formula is an expression one level down, with the end behind it. -/
theorem formula_eq_ok_iff :
    Parse.formula a s = .ok e s' ↔
      ¬s.current.IsEnd ∧ nested a (expression a) s = .ok e s' ∧ s'.current.IsEnd := by
  unfold Parse.formula Token.IsEnd
  rw [current_bind]
  by_cases h : s.current.lexeme = .eof
  · rw [if_pos h]
    simp [h]
  · rw [if_neg h]
    constructor
    · intro hok
      obtain ⟨x, t, h1, hok⟩ := bind_eq_ok.1 hok
      rw [current_bind] at hok
      by_cases ht : t.current.lexeme = .eof
      · rw [if_pos ht] at hok
        obtain ⟨rfl, rfl⟩ := pure_eq_ok.1 hok
        exact ⟨h, h1, ht⟩
      · rw [if_neg ht] at hok
        exact absurd hok fault_ne_ok
    · rintro ⟨-, h1, ht⟩
      rw [bind_of_ok h1, current_bind, if_pos ht, pure_apply]

/-- Two ways to cut tokens before the first end are the same. -/
theorem eq_of_append_end {ts us vs : List Token} {t u : Token} (h : ts ++ [t] = us ++ u :: vs)
    (hu : u.IsEnd) (hts : ∀ x ∈ ts, ¬x.IsEnd) (hus : ∀ x ∈ us, ¬x.IsEnd) (ht : t.IsEnd) :
    ts = us := by
  rcases List.append_eq_append_iff.1 h with ⟨ws, rfl, hws⟩ | ⟨ws, rfl, hws⟩
  · cases ws with
    | nil => simp
    | cons w ws =>
      simp only [List.cons_append, List.cons.injEq] at hws
      exact absurd (hws.1 ▸ ht) (hus w (by simp))
  · cases ws with
    | nil => simp
    | cons w ws =>
      simp only [List.cons_append, List.cons.injEq] at hws
      exact absurd (hws.1 ▸ hu) (hts w (by simp))

/-- A parser begins at the first token of its source. -/
theorem Parser.ofSource_eq {source : Source} (limits : Limits) {t : Token} {ts : List Token}
    (h : (tokenize source).tokens = t :: ts) :
    Parser.ofSource source limits = .ok ⟨⟨source, limits, (tokenize source).failure?⟩,
      ⟨t, ts, 0, 0, 0⟩, .front source⟩ := by
  simp only [Parser.ofSource, h]

/-- What a source is, is what its parser makes of the first formula. -/
theorem Source.parse_eq {source : Source} {limits : Limits} {t : Token} {ts : List Token}
    (h : (tokenize source).tokens = t :: ts) :
    source.parse limits = match Parse.formula ⟨source, limits, (tokenize source).failure?⟩
        ⟨t, ts, 0, 0, 0⟩ with
      | .ok e _ => .ok e
      | .error e _ => .error e := by
  unfold Source.parse
  rw [Parser.ofSource_eq limits h]
  change (Parser.formula _).1 = _
  unfold Parser.formula Parser.run
  cases Parse.formula ⟨source, limits, (tokenize source).failure?⟩ ⟨t, ts, 0, 0, 0⟩ <;> rfl

/-- The parser is right where it stops: the tokens that it took are all tokens before the end. -/
theorem Source.of_formula_eq_ok {source : Source} {limits : Limits} {t : Token} {ts : List Token}
    (htokens : (tokenize source).tokens = t :: ts)
    (h : Parse.formula ⟨source, limits, (tokenize source).failure?⟩ ⟨t, ts, 0, 0, 0⟩ = .ok e s') :
    (tokenize source).failure? = none ∧ Derives Expr.Sound .sum source.words e ∧
      1 + peak source.words ≤ limits.depth ∧ e.nodeCount ≤ limits.nodes := by
  have hended : Ended ⟨source, limits, (tokenize source).failure?⟩ ⟨t, ts, 0, 0, 0⟩ := by
    intro hnone
    obtain ⟨us, u, hus, hu, -⟩ := (tokenize_formed source).ended hnone
    refine ⟨u, ?_, hu⟩
    rw [ahead, ← htokens, hus, List.getLast?_concat]
  obtain ⟨-, hnested, hend⟩ := formula_eq_ok_iff.1 h
  obtain ⟨us, hder, hin⟩ := nested_reads expression_reads hended hnested
  have hahead : (tokenize source).tokens = us ++ s'.current :: s'.upcoming := by
    rw [htokens]
    exact hin.took.ahead
  -- a text that cannot be cut up to its end has no end to stop at
  have hnone : (tokenize source).failure? = none := by
    cases hf : (tokenize source).failure? with
    | none => rfl
    | some err =>
      have hformed := ((tokenize_formed source).failed err hf).1 s'.current (by rw [hahead]; simp)
      exact absurd hend hformed.not_isEnd
  obtain ⟨u, hu, huend, hformed⟩ := source.tokens_eq hnone
  have hwords : source.words = us := eq_of_append_end (hu.symm.trans hahead) hend
    (fun x hx => (hformed x hx).not_isEnd) hder.ne_eof huend
  rw [hwords]
  have hroom := hin.took.room
  have hcount := hin.took.count
  have hnodes := hin.took.nodes
  have hdepth := hin.room
  simp only [down] at hroom hcount hnodes hdepth
  exact ⟨hnone, hder, by omega, by omega⟩

/-- All tokens before the end are taken where no ceiling is in the way. -/
theorem Source.formula_eq_ok {source : Source} {limits : Limits}
    (hnone : (tokenize source).failure? = none) (hder : Derives Expr.Sound .sum source.words e)
    (hdepth : 1 + peak source.words ≤ limits.depth) (hnodes : e.nodeCount ≤ limits.nodes) :
    ∃ t ts s', (tokenize source).tokens = t :: ts ∧
      Parse.formula ⟨source, limits, (tokenize source).failure?⟩ ⟨t, ts, 0, 0, 0⟩ = .ok e s' := by
  obtain ⟨u, hu, huend, hformed⟩ := source.tokens_eq hnone
  obtain ⟨t, ts, hwords⟩ := List.exists_cons_of_ne_nil hder.ne_nil
  have hstart : ¬t.IsEnd := (hformed t (by simp [hwords])).not_isEnd
  rw [hwords] at hu hder hdepth
  -- where the parser stops: with the end in hand and nothing behind it
  let s' : Progress := ⟨u, [], stopAfter 0 (t :: ts), 0, e.nodeCount⟩
  refine ⟨t, ts ++ [u], s', hu, formula_eq_ok_iff.2 ⟨hstart, ?_, huend⟩⟩
  have htook : Took ⟨source, limits, (tokenize source).failure?⟩
      (down ⟨t, ts ++ [u], 0, 0, 0⟩) (t :: ts) e.nodeCount s'.down := by
    refine ⟨rfl, rfl, rfl, ?_, ?_, ?_⟩ <;> simp only [down, s'] <;> omega
  refine nested_eq_ok_iff.2 ⟨by simp only; omega, s'.down, ?_, (up_down s').symm⟩
  exact hder.expression_eq_ok htook (Level.stops_of_isEnd huend)

/-- **The parser returns exactly the trees of the grammar that pass no ceiling.** -/
theorem Source.parse_eq_ok_iff {source : Source} {limits : Limits} :
    source.parse limits = .ok e ↔
      (tokenize source).failure? = none ∧ Derives Expr.Sound .sum source.words e ∧
        1 + peak source.words ≤ limits.depth ∧ e.nodeCount ≤ limits.nodes := by
  constructor
  · intro h
    cases htokens : (tokenize source).tokens with
    | nil =>
      simp only [Source.parse, Parser.ofSource, htokens] at h
      cases hf : (tokenize source).failure? <;> simp [hf, bind, Except.bind] at h
    | cons t ts =>
      rw [source.parse_eq htokens] at h
      split at h
      · rename_i x s' hok
        obtain rfl : x = e := by simpa using h
        exact Source.of_formula_eq_ok htokens hok
      · simp at h
  · rintro ⟨hnone, hder, hdepth, hnodes⟩
    obtain ⟨t, ts, s', htokens, hok⟩ := Source.formula_eq_ok hnone hder hdepth hnodes
    rw [source.parse_eq htokens, hok]

theorem exists_eq_ok_of_isOk {ε α : Type} {r : Except ε α} (h : r.isOk = true) :
    ∃ x, r = .ok x := by
  cases r with
  | ok x => exact ⟨x, rfl⟩
  | error e => cases h

/-- **Only the number of characters decides whether a text is short enough.** The number of bytes
is no smaller, so a text of few bytes need not be counted. -/
theorem Source.ofText_eq (file text : String) (limits : Limits) :
    Source.ofText file text limits =
      if text.length ≤ limits.formulaLength then .ok ⟨file, text.toList⟩
      else .error (.limit (.formulaLength text.length limits.formulaLength)) := by
  have hsize := Text.length_le_size text.toList
  rw [String.length_toList] at hsize
  unfold Source.ofText Limits.checkLength ensureAtMost ensure
  by_cases h : text.length ≤ limits.formulaLength
  · simp only [if_pos h]
    split <;> rfl
  · -- too many characters are too many bytes, so the characters are counted
    simp only [if_neg h]
    rw [if_pos (by omega)]
    rfl

/-- **A text is accepted if it is short enough and its source is.** -/
theorem parse_eq_ok_iff {file text : String} {limits : Limits} {f : Formula} :
    parse file text limits = .ok f ↔ f.source = ⟨file, text.toList⟩ ∧
      text.length ≤ limits.formulaLength ∧ f.source.parse limits = .ok f.tree := by
  unfold parse
  rw [Source.ofText_eq]
  by_cases h : text.length ≤ limits.formulaLength
  · simp only [if_pos h]
    change (Source.parse ⟨file, text.toList⟩ limits).bind _ = _ ↔ _
    cases hparse : Source.parse ⟨file, text.toList⟩ limits with
    | error err =>
      refine ⟨fun hok => by simp [Except.bind] at hok, ?_⟩
      rintro ⟨hsource, -, hok⟩
      rw [hsource, hparse] at hok
      simp at hok
    | ok tree =>
      obtain ⟨source, tree'⟩ := f
      constructor
      · intro hok
        simp only [Except.bind, pure, Except.pure, Except.ok.injEq, Formula.mk.injEq] at hok
        obtain ⟨rfl, rfl⟩ := hok
        exact ⟨rfl, h, hparse⟩
      · rintro ⟨rfl, -, hok⟩
        simp only at hok
        rw [hparse] at hok
        obtain rfl : tree = tree' := by simpa using hok
        rfl
  · simp only [if_neg h]
    refine ⟨fun hok => ?_, fun hok => absurd hok.2.1 h⟩
    simp [bind, Except.bind] at hok

end FormCalc
