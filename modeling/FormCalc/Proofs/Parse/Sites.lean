import FormCalc.Proofs.Parse.Formula
import FormCalc.Proofs.Parse.Keeps

/-!
# Where the parser fails

A parse fails at a token that was ahead of it, or behind the last one, where the text could not be
cut. The tokens that are met are those ahead when the parse begins; each step leaves some of them
ahead.

* `Progress.Met`: all tokens ahead are met.
* `Locates`: what is claimed of a parse; `congruence_locates`: it holds of the steps.
* `Source.parse_raised`: it holds of the parse of a source.
-/

namespace FormCalc

open Progress Parse

/-- The spans of the tokens ahead are among those that are met. -/
def Progress.Met (met : Span → Prop) (s : Progress) : Prop :=
  ∀ t ∈ s.ahead, met t.span

/-- A parse leaves met tokens ahead of it. If it fails, it does so at one of them or where the text
could not be cut. -/
structure Locates (a : Assignment) (met : Span → Prop) {α : Type} (p : Parse α) : Prop where
  ok : ∀ s x s', s.Met met → p s = .ok x s' → s'.Met met
  error : ∀ s err s', s.Met met → p s = .error err s' → a.failure? = some err ∨ err.RaisedAt met

namespace Locates

variable {α β : Type} {a : Assignment} {met : Span → Prop} {p : Parse α}

theorem bind {f : α → Parse β} (hp : Locates a met p) (hf : ∀ x, Locates a met (f x)) :
    Locates a met (p >>= f) := by
  constructor
  · intro s y s' hs h
    obtain ⟨x, t, h1, h2⟩ := bind_eq_ok.1 h
    exact (hf x).ok t y s' (hp.ok s x t hs h1) h2
  · intro s err s' hs h
    rcases bind_eq_error.1 h with h1 | ⟨x, t, h1, h2⟩
    · exact hp.error s err s' hs h1
    · exact (hf x).error t err s' (hp.ok s x t hs h1) h2

/-- What reads off a figure of the tokens ahead does not fail. -/
theorem read {f : Progress → α} (hp : ∀ s, p s = .ok (f s) s) : Locates a met p := by
  constructor
  · intro s x s' hs h
    obtain ⟨-, rfl⟩ : f s = x ∧ s = s' := by simpa [hp] using h
    exact hs
  · intro s err s' _ h
    simp [hp] at h

theorem current {f : Token → Parse β} (hf : ∀ t, met t.span → Locates a met (f t)) :
    Locates a met (Parse.current >>= f) := by
  have hcurrent : ∀ s : Progress, s.Met met → met s.current.span := fun s hs =>
    hs s.current (List.mem_cons_self (l := s.upcoming))
  constructor
  · intro s x s' hs h
    exact (hf _ (hcurrent s hs)).ok s x s' hs h
  · intro s err s' hs h
    exact (hf _ (hcurrent s hs)).error s err s' hs h

theorem lift {r : Except FormulaError α}
    (hr : ∀ err, r = .error err → ¬err.IsCeiling ∧ err.RaisedAt met) :
    Locates a met (Parse.lift r) := by
  constructor
  · intro s x s' hs h
    obtain ⟨-, rfl⟩ := lift_eq_ok.1 h
    exact hs
  · intro s err s' _ h
    unfold Parse.lift at h
    cases r with
    | ok x => simp at h
    | error e =>
      obtain ⟨rfl, -⟩ : e = err ∧ s = s' := by simpa using h
      exact .inr (hr e rfl).2

theorem fault (f : Fault) : Locates a met (Parse.fault (α := α) f) := by
  constructor
  · exact fun s x s' _ h => absurd h fault_ne_ok
  · intro s err s' hs h
    obtain ⟨rfl, -⟩ : _ = err ∧ s = s' := by simpa [Parse.fault] using h
    exact .inr (.of_site (hs s.current (List.mem_cons_self (l := s.upcoming))) rfl)

/-- The token in hand is taken, if there is another one behind it or if it is the end. -/
theorem advance : Locates a met (Parse.advance a) := by
  constructor
  · intro s x s' hs h t ht
    unfold Parse.advance at h
    simp only at h
    split at h
    · rename_i u us _ hup
      obtain rfl := (EStateM.Result.ok.inj h).2
      exact hs t (List.mem_cons_of_mem _ (by rw [hup]; exact ht))
    · simp at h
    · rename_i hup _
      obtain rfl := (EStateM.Result.ok.inj h).2
      exact hs t ht
  · intro s err s' hs h
    unfold Parse.advance at h
    simp only at h
    split at h
    · simp at h
    · rename_i e _ hfailure
      obtain ⟨rfl, -⟩ := EStateM.Result.error.inj h
      exact .inl hfailure
    · simp at h

theorem countNode : Locates a met (Parse.countNode a) := by
  constructor
  · intro s x s' hs h t ht
    have hahead := (countNode_eq_ok_iff.1 h).ahead
    rw [List.nil_append] at hahead
    exact hs t (by rw [hahead]; exact ht)
  · intro s err s' _ h
    unfold Parse.countNode at h
    simp only at h
    split at h
    · simp at h
    · obtain ⟨rfl, -⟩ := EStateM.Result.error.inj h
      exact .inr (.limit _)

/-- Going down a level and up again leaves the tokens as they are. -/
theorem nested {p : Parse Expr} (hp : Locates a met p) : Locates a met (Parse.nested a p) := by
  constructor
  · intro s x s' hs h
    obtain ⟨-, t, hinner, rfl⟩ := nested_eq_ok_iff.1 h
    exact hp.ok s.down x t hs hinner
  · intro s err s' hs h
    rcases nested_eq_error_iff.1 h with ⟨-, rfl, -⟩ | ⟨-, hinner⟩
    · exact .inr (.limit _)
    · exact hp.error s.down err s' hs hinner

end Locates

/-- **All steps of the parser fail at tokens that were ahead**, or behind the last one. -/
theorem congruence_locates (a : Assignment) (met : Span → Prop) :
    Congruence a a met fun _ p _ => Locates a met p where
  pure := fun _ => .read fun _ => rfl
  bind := .bind
  lift := .lift
  fault := .fault
  current := .current
  symbol? := .read fun _ => rfl
  steps := .read fun _ => rfl
  lastStop := .read fun _ => rfl
  advance := .advance
  countNode := .countNode
  nested := .nested

/-- **The parser fails at a token of its source**, or where the source could not be cut. -/
theorem Source.parse_raised {source : Source} {limits : Limits} {err : FormulaError}
    (h : source.parse limits = .error err) :
    (tokenize source).failure? = some err ∨
      err.RaisedAt fun sp => ∃ t ∈ (tokenize source).tokens, t.span = sp := by
  cases htokens : (tokenize source).tokens with
  | nil =>
    simp only [Source.parse, Parser.ofSource, htokens] at h
    cases hfailure : (tokenize source).failure? with
    | some e =>
      obtain rfl : e = err := by simpa [hfailure, bind, Except.bind] using h
      exact .inl rfl
    | none =>
      -- a text that is cut up to its end has the end as a token
      obtain ⟨ts, t, hts, -⟩ := (tokenize_formed source).ended hfailure
      rw [htokens] at hts
      exact absurd hts (by simp)
  | cons t ts =>
    rw [source.parse_eq htokens] at h
    split at h
    · simp at h
    · rename_i e s' hfails
      obtain rfl : e = err := by simpa using h
      have hlocates := (congruence_locates ⟨source, limits, (tokenize source).failure?⟩
        fun sp => ∃ u ∈ t :: ts, u.span = sp).formula
      have hmet : Progress.Met (fun sp => ∃ u ∈ t :: ts, u.span = sp) ⟨t, ts, 0, 0, 0⟩ :=
        fun u hu => ⟨u, hu, rfl⟩
      exact hlocates.error _ _ _ hmet hfails

end FormCalc
