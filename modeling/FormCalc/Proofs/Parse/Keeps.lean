import FormCalc.Proofs.Parse.Relation

/-!
# What every parse keeps

A relation between the progress before and behind each step of the parser holds of whole parses,
those that fail included.

* `Keeps`: a parse keeps one relation when it succeeds and another one when it fails.
* `Steps`: what has to be shown of the steps.
* `Steps.congruence`: then it holds of every rule.
-/

namespace FormCalc

open Progress

/-- A parse that succeeds relates the progress before and behind it, and so does one that fails,
with its error. -/
structure Keeps {α : Type} (R : Progress → Progress → Prop)
    (Q : Progress → FormulaError → Progress → Prop) (p : Parse α) : Prop where
  ok : ∀ s x s', p s = .ok x s' → R s s'
  error : ∀ s err s', p s = .error err s' → Q s err s'

/-- What has to be shown of the steps of the parser. Errors that pass no ceiling are raised in
several places, where nothing has been done yet. -/
structure Steps (a : Assignment) (R : Progress → Progress → Prop)
    (Q : Progress → FormulaError → Progress → Prop) : Prop where
  refl : ∀ s, R s s
  trans : ∀ s t u, R s t → R t u → R s u
  after : ∀ s t err u, R s t → Q t err u → Q s err u
  raise : ∀ s err, ¬err.IsCeiling → Q s err s
  advance : Keeps R Q (Parse.advance a)
  countNode : Keeps R Q (Parse.countNode a)
  nested : ∀ p : Parse Expr, Keeps R Q p → Keeps R Q (Parse.nested a p)

namespace Parse

variable {α β : Type} {a : Assignment} {s s' : Progress}

/-- A sequence fails where its first part fails, or the second one behind it. -/
theorem bind_eq_error {p : Parse α} {f : α → Parse β} {err : FormulaError} :
    (p >>= f) s = .error err s' ↔
      p s = .error err s' ∨ ∃ x t, p s = .ok x t ∧ f x t = .error err s' := by
  change EStateM.bind p f s = _ ↔ _
  unfold EStateM.bind
  cases p s with
  | ok x t =>
    constructor
    · exact fun h => .inr ⟨x, t, rfl, h⟩
    · rintro (h | ⟨_, _, ⟨⟩, h⟩)
      · simp at h
      · exact h
  | error e t => simp

/-- Parsing one level down fails at the ceiling or below. -/
theorem nested_eq_error_iff {p : Parse α} {err : FormulaError} :
    nested a p s = .error err s' ↔
      a.limits.depth < s.depth + 1 ∧ err = .limit (.depth (s.depth + 1) a.limits.depth) ∧
        s' = s.down ∨
      s.depth + 1 ≤ a.limits.depth ∧ p s.down = .error err s' := by
  rw [nested_apply]
  by_cases h : s.depth + 1 ≤ a.limits.depth
  · have hlt : ¬a.limits.depth < s.depth + 1 := by omega
    rw [if_pos h]
    cases p s.down <;> simp [h, hlt]
  · have hlt : a.limits.depth < s.depth + 1 := by omega
    simp [h, hlt, eq_comm]

end Parse

namespace Keeps

open Parse

variable {α β : Type} {a : Assignment} {R : Progress → Progress → Prop}
  {Q : Progress → FormulaError → Progress → Prop} {p : Parse α} {f : α → Parse β}

/-- A sequence keeps what its parts keep. -/
theorem bind (hs : Steps a R Q) (hp : Keeps R Q p) (hf : ∀ x, Keeps R Q (f x)) :
    Keeps R Q (p >>= f) := by
  constructor
  · intro s y s' h
    obtain ⟨x, t, h1, h2⟩ := bind_eq_ok.1 h
    exact hs.trans s t s' (hp.ok s x t h1) ((hf x).ok t y s' h2)
  · intro s err s' h
    rcases bind_eq_error.1 h with h1 | ⟨x, t, h1, h2⟩
    · exact hp.error s err s' h1
    · exact hs.after s t err s' (hp.ok s x t h1) ((hf x).error t err s' h2)

/-- A parse that leaves the progress as it is. -/
theorem of_still (hs : Steps a R Q) (hok : ∀ s x s', p s = .ok x s' → s = s')
    (herr : ∀ s err s', p s = .error err s' → s = s' ∧ ¬err.IsCeiling) : Keeps R Q p := by
  constructor
  · intro s x s' h
    rw [← hok s x s' h]
    exact hs.refl s
  · intro s err s' h
    obtain ⟨rfl, hc⟩ := herr s err s' h
    exact hs.raise s err hc

theorem pure (hs : Steps a R Q) (x : α) : Keeps R Q (Pure.pure x : Parse α) := by
  refine of_still hs (fun s y s' h => ?_) fun s err s' h => ?_
  · exact (pure_eq_ok.1 h).2
  · simp at h

theorem lift (hs : Steps a R Q) {r : Except FormulaError α}
    (hr : ∀ err, r = .error err → ¬err.IsCeiling) : Keeps R Q (Parse.lift r) := by
  refine of_still hs (fun s x s' h => (lift_eq_ok.1 h).2) fun s err s' h => ?_
  unfold Parse.lift at h
  cases r with
  | ok x => simp at h
  | error e =>
    simp only [EStateM.Result.error.injEq] at h
    exact ⟨h.2, hr err (by rw [h.1])⟩

theorem fault (hs : Steps a R Q) (f : Fault) : Keeps R Q (Parse.fault (α := α) f) := by
  refine of_still hs (fun s x s' h => absurd h fault_ne_ok) fun s err s' h => ?_
  simp only [Parse.fault, EStateM.Result.error.injEq] at h
  obtain ⟨rfl, rfl⟩ := h
  exact ⟨rfl, id⟩

/-- The token in hand, the symbol in hand, and the figures that rules ask for. -/
theorem current (hs : Steps a R Q) : Keeps R Q Parse.current :=
  of_still hs (fun s x s' h => by simp_all [Parse.current]) fun s err s' h => by
    simp [Parse.current] at h

theorem symbol? (hs : Steps a R Q) : Keeps R Q Parse.symbol? :=
  of_still hs (fun s x s' h => by simp_all [Parse.symbol?]) fun s err s' h => by
    simp [Parse.symbol?] at h

theorem steps (hs : Steps a R Q) : Keeps R Q Parse.steps :=
  of_still hs (fun s x s' h => by simp_all [Parse.steps]) fun s err s' h => by
    simp [Parse.steps] at h

theorem lastStop (hs : Steps a R Q) : Keeps R Q Parse.lastStop :=
  of_still hs (fun s x s' h => by simp_all [Parse.lastStop]) fun s err s' h => by
    simp [Parse.lastStop] at h

end Keeps

/-- **What the steps keep, every rule keeps.** -/
theorem Steps.congruence {a : Assignment} {R : Progress → Progress → Prop}
    {Q : Progress → FormulaError → Progress → Prop} (hs : Steps a R Q) :
    Congruence a a (fun _ => True) fun _ p _ => Keeps R Q p where
  pure := .pure hs
  bind := .bind hs
  lift := fun hr => .lift hs fun err herr => (hr err herr).1
  fault := .fault hs
  current := fun hf => .bind hs (.current hs) fun t => hf t trivial
  symbol? := .symbol? hs
  steps := .steps hs
  lastStop := .lastStop hs
  advance := hs.advance
  countNode := hs.countNode
  nested := fun hp => hs.nested _ hp

end FormCalc
