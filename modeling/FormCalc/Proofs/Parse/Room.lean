import FormCalc.Proofs.Parse.Formula
import FormCalc.Proofs.Parse.Keeps

/-!
# Parsing with more room

A parse is compared with one of the same tokens that is farther from its ceilings, because they
are higher or because less has been counted.

* `Roomier`: the same tokens, and as much room at least.
* `Outlasts`: the second parse ends as the first one does, unless that one passes a ceiling.
* `congruence_outlasts`: this holds of the steps of a parse, and so of every rule.
* `Source.parse_persists`: so higher ceilings only remove the errors of ceilings.
-/

namespace FormCalc

open Progress Parse

/-- The assignment under other ceilings. -/
def Assignment.under (a : Assignment) (limits : Limits) : Assignment :=
  { a with limits := limits }

/-- From `s'`, under `limits`, there are the same tokens ahead as from `s`, and as much room up to
the ceilings at least. -/
structure Roomier (a : Assignment) (limits : Limits) (s s' : Progress) : Prop where
  current : s'.current = s.current
  upcoming : s'.upcoming = s.upcoming
  lastStop : s'.lastStop = s.lastStop
  depth : a.limits.depth + s'.depth ≤ limits.depth + s.depth
  nodes : a.limits.nodes + s'.nodes ≤ limits.nodes + s.nodes

/-- How a parse with more room ends, by the end of the other one. A parse that succeeds comes back
to the depth at which it began. -/
inductive Follows {α : Type} (a : Assignment) (limits : Limits) (s s' : Progress) :
    EStateM.Result FormulaError Progress α → EStateM.Result FormulaError Progress α → Prop where
  | ok {x : α} {t t' : Progress} (room : Roomier a limits t t') (depth : t.depth = s.depth)
      (depth' : t'.depth = s'.depth) : Follows a limits s s' (.ok x t) (.ok x t')
  | error {err : FormulaError} {t t' : Progress} :
      Follows a limits s s' (.error err t) (.error err t')
  | ceiling {err : FormulaError} {t : Progress} {r : EStateM.Result FormulaError Progress α}
      (h : err.IsCeiling) : Follows a limits s s' (.error err t) r

/-- With more room the second parse ends as the first one does, unless that one passes a
ceiling. -/
def Outlasts (a : Assignment) (limits : Limits) (α : Type) (p p' : Parse α) : Prop :=
  ∀ s s', Roomier a limits s s' → Follows a limits s s' (p s) (p' s')

variable {a : Assignment} {limits : Limits} {s s' : Progress} {α β : Type}

/-- A parse that reads off a figure of the tokens ahead. -/
theorem Outlasts.read {p : Parse α} (f : Progress → α) (hp : ∀ s, p s = .ok (f s) s)
    (hf : ∀ s s', Roomier a limits s s' → f s' = f s) : Outlasts a limits α p p := by
  intro s s' h
  rw [hp, hp, hf s s' h]
  exact .ok h rfl rfl

theorem Outlasts.bind {p p' : Parse α} {f f' : α → Parse β} (hp : Outlasts a limits α p p')
    (hf : ∀ x, Outlasts a limits β (f x) (f' x)) : Outlasts a limits β (p >>= f) (p' >>= f') := by
  intro s s' h
  change Follows a limits s s' (EStateM.bind p f s) (EStateM.bind p' f' s')
  unfold EStateM.bind
  have hfirst := hp s s' h
  generalize p s = r, p' s' = r' at hfirst
  cases hfirst with
  | @ok x t t' room depth depth' =>
    -- behind the first part the depth is what it was, so it is what the second part comes back to
    have hsecond := hf x t t' room
    simp only
    generalize f x t = r, f' x t' = r' at hsecond
    cases hsecond with
    | ok room' d d' => exact .ok room' (d.trans depth) (d'.trans depth')
    | error => exact .error
    | ceiling hc => exact .ceiling hc
  | error => exact .error
  | ceiling hc => exact .ceiling hc

theorem outlasts_advance : Outlasts a limits Unit (advance a) (advance (a.under limits)) := by
  intro s s' h
  have hcurrent := h.current
  unfold Parse.advance
  simp only [h.upcoming, Assignment.under]
  split
  · exact .ok ⟨rfl, rfl, by simp only [hcurrent], h.depth, h.nodes⟩ rfl rfl
  · exact .error
  · exact .ok ⟨h.current, rfl, by simp only [hcurrent], h.depth, h.nodes⟩ rfl rfl

theorem outlasts_countNode : Outlasts a limits Unit (countNode a) (countNode (a.under limits)) := by
  intro s s' h
  have hnodes := h.nodes
  unfold Parse.countNode Limits.checkNodes ensureAtMost
  simp only [Assignment.under]
  by_cases hle : s.nodes + 1 ≤ a.limits.nodes
  · have hle' : s'.nodes + 1 ≤ limits.nodes := by omega
    simp only [hle, hle', if_true]
    exact .ok ⟨h.current, h.upcoming, h.lastStop, h.depth, by simp only; omega⟩ rfl rfl
  · simp only [hle, if_false]
    exact .ceiling trivial

/-- One level down there is as much more room. -/
theorem outlasts_nested {p p' : Parse Expr} (hp : Outlasts a limits Expr p p') :
    Outlasts a limits Expr (nested a p) (nested (a.under limits) p') := by
  intro s s' h
  have hroom := h.depth
  rw [nested_apply, nested_apply]
  by_cases hd : s.depth + 1 ≤ a.limits.depth
  · have hd' : s'.depth + 1 ≤ (a.under limits).limits.depth := by
      simp only [Assignment.under]; omega
    have hinner := hp s.down s'.down
      ⟨h.current, h.upcoming, h.lastStop, by simp only [down]; omega, h.nodes⟩
    rw [if_pos hd, if_pos hd']
    generalize p s.down = r, p' s'.down = r' at hinner
    cases hinner with
    | @ok x t t' room depth depth' =>
      have hroom' := room.depth
      simp only [down] at depth depth'
      refine .ok ⟨room.current, room.upcoming, room.lastStop, ?_, room.nodes⟩ ?_ ?_ <;>
        simp only [up] <;> omega
    | error => exact .error
    | ceiling hc => exact .ceiling hc
  · rw [if_neg hd]
    exact .ceiling trivial

/-- **With more room every rule ends in the same way, unless a ceiling was passed.** -/
theorem congruence_outlasts (a : Assignment) (limits : Limits) :
    Congruence a (a.under limits) (fun _ => True) (Outlasts a limits) where
  pure := fun x => .read (fun _ => x) (fun _ => rfl) fun _ _ _ => rfl
  bind := .bind
  lift := by
    intro α r _ s s' h
    cases r with
    | ok x => exact .ok h rfl rfl
    | error err => exact .error
  fault := by
    intro α f s s' h
    simp only [Parse.fault, h.current]
    exact .error
  current := fun hf =>
    .bind (.read Progress.current (fun _ => rfl) fun _ _ h => h.current) fun t => hf t trivial
  symbol? := .read (fun s => s.current.lexeme.symbol?) (fun _ => rfl) fun _ _ h => by
    rw [h.current]
  steps := .read (fun s => s.upcoming.length + 1) (fun _ => rfl) fun _ _ h => by rw [h.upcoming]
  lastStop := .read Progress.lastStop (fun _ => rfl) fun _ _ h => h.lastStop
  advance := outlasts_advance
  countNode := outlasts_countNode
  nested := outlasts_nested

/-- **Under higher ceilings the parse of a source ends in the same way, unless a ceiling was
passed.** -/
theorem Source.parse_persists (source : Source) {limits limits' : Limits}
    (hdepth : limits.depth ≤ limits'.depth) (hnodes : limits.nodes ≤ limits'.nodes) :
    Persists (source.parse limits) (source.parse limits') := by
  cases htokens : (tokenize source).tokens with
  | nil =>
    -- without tokens there is nothing that the ceilings are asked about
    have hsame : source.parse limits = source.parse limits' := by
      simp only [Source.parse, Parser.ofSource, htokens]
      cases (tokenize source).failure? <;> rfl
    rw [hsame]
    exact .same _
  | cons t ts =>
    rw [source.parse_eq htokens, source.parse_eq htokens]
    have hformula := (congruence_outlasts ⟨source, limits, (tokenize source).failure?⟩
      limits').formula ⟨t, ts, 0, 0, 0⟩ ⟨t, ts, 0, 0, 0⟩
      ⟨rfl, rfl, rfl, Nat.add_le_add_right hdepth 0, Nat.add_le_add_right hnodes 0⟩
    simp only [Assignment.under] at hformula
    generalize Parse.formula ⟨source, limits, _⟩ _ = r at hformula ⊢
    generalize Parse.formula ⟨source, limits', _⟩ _ = r' at hformula ⊢
    cases hformula with
    | ok => exact .same _
    | error => exact .same _
    | ceiling h => exact .ceiling h

end FormCalc
