import FormCalc.Error

/-!
# Sequences of results

What a sequence of steps returns and where it fails.

* `FormulaError.IsCeiling`, `FormulaError.RaisedAt`: what an error is and where it is reported.
* `bind_ok_iff`, `bind_error_iff`: a sequence of two steps.
* `mapM_error`: a step for each element of a list.
* `Agree`: two results are the same error, or values that are related.
* `Persists`: two results are the same, unless the first one is the error of a ceiling.
-/

namespace FormCalc

/-- A ceiling was passed. -/
def FormulaError.IsCeiling : FormulaError → Prop
  | .limit (.blockedName _) => False
  | .limit _ => True
  | _ => False

/-- The error is that of a ceiling or of a blocked name, or it is reported at the start of one of
some spans. -/
def FormulaError.RaisedAt (met : Span → Prop) (err : FormulaError) : Prop :=
  (∃ e, err = .limit e) ∨ ∃ sp, met sp ∧ err.site? = some sp.site

namespace FormulaError.RaisedAt

variable {met met' : Span → Prop} {err : FormulaError}

theorem limit (e : LimitError) : RaisedAt met (.limit e) :=
  .inl ⟨e, rfl⟩

theorem of_site {sp : Span} (hsp : met sp) (h : err.site? = some sp.site) : RaisedAt met err :=
  .inr ⟨sp, hsp, h⟩

theorem mono (h : RaisedAt met err) (hmet : ∀ sp, met sp → met' sp) : RaisedAt met' err := by
  rcases h with h | ⟨sp, hsp, h⟩
  · exact .inl h
  · exact .inr ⟨sp, hmet sp hsp, h⟩

end FormulaError.RaisedAt

variable {ε α β : Type} {x : Except ε α} {f : α → Except ε β} {e : ε}

theorem bind_ok_iff {y : β} : (x >>= f) = .ok y ↔ ∃ a, x = .ok a ∧ f a = .ok y := by
  cases x <;> simp [bind, Except.bind]

theorem pure_ok_iff {a b : α} : (pure a : Except ε α) = .ok b ↔ a = b := by
  simp [pure, Except.pure]

theorem pure_ne_error {a : α} : (pure a : Except ε α) ≠ .error e := by
  simp [pure, Except.pure]

theorem throw_ne_ok {a : α} : (throw e : Except ε α) ≠ .ok a := by
  simp [throw, throwThe, MonadExceptOf.throw]

theorem throw_error_iff {e' : ε} : (throw e : Except ε α) = .error e' ↔ e = e' := by
  simp [throw, throwThe, MonadExceptOf.throw]

/-- A sequence fails where its first step fails, or the second one behind it. -/
theorem bind_error_iff : (x >>= f) = .error e ↔ x = .error e ∨ ∃ a, x = .ok a ∧ f a = .error e := by
  cases x <;> simp [bind, Except.bind]

/-- A step for each element fails at one of the elements. -/
theorem mapM_error {xs : List α} (h : xs.mapM f = .error e) : ∃ x ∈ xs, f x = .error e := by
  induction xs with
  | nil => simp [pure, Except.pure] at h
  | cons x xs ih =>
    rw [List.mapM_cons] at h
    rcases bind_error_iff.1 h with h | ⟨y, -, h⟩
    · exact ⟨x, by simp, h⟩
    · rcases bind_error_iff.1 h with h | ⟨ys, -, h⟩
      · obtain ⟨z, hz, h⟩ := ih h
        exact ⟨z, by simp [hz], h⟩
      · exact absurd h pure_ne_error

theorem ensure_ok_iff {c : Except LimitError α} {a : α} : ensure c = .ok a ↔ c = .ok a := by
  cases c <;> simp

theorem ensure_error_iff {c : Except LimitError α} {err : FormulaError} :
    ensure c = .error err ↔ ∃ e, c = .error e ∧ err = .limit e := by
  cases c <;> simp [eq_comm]

/-- Two results agree: they are the same error, or values that are related. -/
inductive Agree (R : α → β → Prop) : Except ε α → Except ε β → Prop where
  | ok {a : α} {b : β} (h : R a b) : Agree R (.ok a) (.ok b)
  | error (e : ε) : Agree R (.error e) (.error e)

namespace Agree

theorem exists_or {R : α → β → Prop} {y : Except ε β} (h : Agree R x y) :
    (∃ a b, x = .ok a ∧ y = .ok b ∧ R a b) ∨ ∃ e, x = .error e ∧ y = .error e := by
  cases h with
  | ok h => exact .inl ⟨_, _, rfl, rfl, h⟩
  | error e => exact .inr ⟨e, rfl, rfl⟩

variable {γ δ : Type} {R : α → β → Prop} {S : γ → δ → Prop} {y : Except ε β}

/-- Steps that agree on related values agree behind results that agree. -/
theorem bind {g : α → Except ε γ} {k : β → Except ε δ} (h : Agree R x y)
    (hstep : ∀ a b, R a b → Agree S (g a) (k b)) : Agree S (x >>= g) (y >>= k) := by
  cases h with
  | ok h => exact hstep _ _ h
  | error e => exact .error e

/-- Steps that return the same on related values return the same behind results that agree. -/
theorem bind_eq {g : α → Except ε γ} {k : β → Except ε γ} (h : Agree R x y)
    (hstep : ∀ a b, R a b → g a = k b) : (x >>= g) = (y >>= k) := by
  cases h with
  | ok h => exact hstep _ _ h
  | error e => rfl

/-- Equal results agree where the value is related to itself. -/
theorem of_eq {R : α → α → Prop} {x y : Except ε α} (h : x = y) (hR : ∀ a, x = .ok a → R a a) :
    Agree R x y := by
  subst h
  cases x with
  | ok a => exact .ok (hR a rfl)
  | error e => exact .error e

theorem of_map_eq {x y : Except ε α} {g : α → γ} (h : x.map g = y.map g) :
    Agree (fun a b => g a = g b) x y := by
  -- an error and a value are not mapped to the same result
  cases x <;> cases y <;> simp only [Except.map, Except.ok.injEq, Except.error.injEq,
    reduceCtorEq] at h
  · exact h ▸ .error _
  · exact .ok h

theorem ensure {R : α → β → Prop} {x : Except LimitError α} {y : Except LimitError β}
    (h : Agree R x y) : Agree R (ensure x) (ensure y) := by
  cases h with
  | ok h => exact .ok h
  | error e => exact .error _

end Agree

/-- The second result is the first one, unless that one is the error of a ceiling. -/
inductive Persists {α : Type} : Except FormulaError α → Except FormulaError α → Prop where
  | same (r : Except FormulaError α) : Persists r r
  | ceiling {err : FormulaError} {r : Except FormulaError α} (h : err.IsCeiling) :
      Persists (.error err) r

namespace Persists

/-- Behind results that persist, steps that do. -/
theorem bind {r r' : Except FormulaError α} {g k : α → Except FormulaError β}
    (h : Persists r r') (hstep : ∀ a, Persists (g a) (k a)) : Persists (r >>= g) (r' >>= k) := by
  cases h with
  | same r =>
    cases r with
    | ok a => exact hstep a
    | error e => exact .same _
  | ceiling h => exact .ceiling h

/-- What is not the error of a ceiling is the second result, too. -/
theorem eq {r r' : Except FormulaError α} (h : Persists r r')
    (hr : ∀ err, r = .error err → ¬err.IsCeiling) : r' = r := by
  cases h with
  | same r => rfl
  | ceiling h => exact absurd h (hr _ rfl)

end Persists

end FormCalc
