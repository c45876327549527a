import FormCalc.Proofs.Parse.Room

/-!
# The counters of a parse

What every parse does to the depth and to the number of nodes, those that fail included, and what
the counters and the end of the last token do to the parse.

* `Onward`: tokens were taken and nodes counted, if any.
* `steps_onward`: every parse goes onward. One that succeeds comes back to its depth, and one that
  fails may stay below it.
* `nestedElse_eq`: no level is left where there is none.
* `Forgets`: a parse does not ask where the token in front of it ended, because the first token that
  it takes ends behind that. `forgets_expression`, `forgets_formula`.
* `ok_of_less`: what succeeds with higher counters succeeds with lower ones.
-/

namespace FormCalc

open Progress Parse

variable {α β : Type} {a : Assignment} {s s' : Progress}

/-- Tokens were taken and nodes counted, if any. -/
structure Onward (s s' : Progress) : Prop where
  ahead : ∃ ts, s.ahead = ts ++ s'.ahead
  nodes : s.nodes ≤ s'.nodes

namespace Onward

theorem refl (s : Progress) : Onward s s :=
  ⟨⟨[], rfl⟩, Nat.le_refl _⟩

theorem trans {s'' : Progress} (h : Onward s s') (h' : Onward s' s'') : Onward s s'' := by
  obtain ⟨⟨ts, hts⟩, hnodes⟩ := h
  obtain ⟨⟨us, hus⟩, hnodes'⟩ := h'
  exact ⟨⟨ts ++ us, by rw [hts, hus, List.append_assoc]⟩, Nat.le_trans hnodes hnodes'⟩

theorem ended (h : Onward s s') (hs : s.Ended a) : s'.Ended a := by
  obtain ⟨ts, hts⟩ := h.ahead
  exact ended_of_ahead hs hts

end Onward

/-- What a parse that succeeds has done: it is back at its depth. -/
def Returned (s s' : Progress) : Prop :=
  Onward s s' ∧ s'.depth = s.depth

/-- What a parse that fails has done: it may have gone down. -/
def Stopped (s : Progress) (_ : FormulaError) (s' : Progress) : Prop :=
  Onward s s' ∧ s.depth ≤ s'.depth

/-- A parse one level down comes back up by the level that it went down. -/
theorem nested_returned {p : Parse α} (hp : Keeps Returned Stopped p) :
    Keeps Returned Stopped (nested a p) := by
  constructor
  · intro s x s' h
    obtain ⟨-, t, hok, rfl⟩ := nested_eq_ok_iff.1 h
    obtain ⟨hon, hdepth⟩ := hp.ok _ _ _ hok
    simp only [down] at hdepth
    exact ⟨⟨hon.ahead, hon.nodes⟩, by simp only [up]; omega⟩
  · intro s err s' h
    rcases nested_eq_error_iff.1 h with ⟨-, -, rfl⟩ | ⟨-, herr⟩
    · exact ⟨⟨⟨[], rfl⟩, Nat.le_refl _⟩, Nat.le_succ _⟩
    · obtain ⟨hon, hdepth⟩ := hp.error _ _ _ herr
      simp only [down] at hdepth
      exact ⟨⟨hon.ahead, hon.nodes⟩, by omega⟩

/-- **Every step goes onward.** -/
theorem steps_onward (a : Assignment) : Steps a Returned Stopped where
  refl := fun s => ⟨.refl s, rfl⟩
  trans := fun s t u h h' => ⟨h.1.trans h'.1, h'.2.trans h.2⟩
  after := fun s t err u h h' => ⟨h.1.trans h'.1, h.2 ▸ h'.2⟩
  raise := fun s err _ => ⟨.refl s, Nat.le_refl _⟩
  advance := by
    constructor
    · intro s x s' h
      unfold Parse.advance at h
      simp only at h
      split at h <;> simp only [EStateM.Result.ok.injEq, reduceCtorEq, true_and] at h
      · rename_i t ts _ hup
        subst h
        exact ⟨⟨⟨[s.current], by simp [ahead, hup]⟩, Nat.le_refl _⟩, rfl⟩
      · subst h
        exact ⟨⟨⟨[], rfl⟩, Nat.le_refl _⟩, rfl⟩
    · intro s err s' h
      unfold Parse.advance at h
      simp only at h
      split at h <;> simp only [EStateM.Result.error.injEq, reduceCtorEq] at h
      obtain ⟨-, rfl⟩ := h
      exact ⟨⟨⟨[], rfl⟩, Nat.le_refl _⟩, Nat.le_refl _⟩
  countNode := by
    constructor
    · intro s x s' h
      have htook := countNode_eq_ok_iff.1 h
      have hnodes := htook.nodes
      exact ⟨⟨⟨[], htook.ahead⟩, by omega⟩, htook.depth⟩
    · intro s err s' h
      unfold Parse.countNode at h
      simp only at h
      split at h <;> simp only [EStateM.Result.error.injEq, reduceCtorEq] at h
      obtain ⟨-, rfl⟩ := h
      exact ⟨⟨⟨[], rfl⟩, Nat.le_succ _⟩, Nat.le_refl _⟩
  nested := fun _ hp => nested_returned hp

/-- Coming back up a level, where something else is done if there is none. -/
def Parse.leaveElse (u : Parse Unit) : Parse Unit := fun s =>
  if s.depth = 0 then u s else leave s

/-- Parsing one level down, where something else is done if there is no level to come up from. -/
def Parse.nestedElse (a : Assignment) (u : Parse Unit) (p : Parse α) : Parse α := do
  enter a
  let x ← p
  leaveElse u
  return x

/-- Only where the first part succeeds is the second one of account. -/
theorem bind_congr_ok {p : Parse α} {f g : α → Parse β}
    (h : ∀ x t, p s = .ok x t → f x t = g x t) : (p >>= f) s = (p >>= g) s := by
  change EStateM.bind p f s = EStateM.bind p g s
  unfold EStateM.bind
  cases hp : p s with
  | ok x t => exact h x t hp
  | error err t => rfl

/-- **No level is left where there is none.** A parse that comes back to its depth is still one
level down when the level is left. -/
theorem nestedElse_eq {p : Parse α} (u : Parse Unit) (hp : Keeps Returned Stopped p) :
    nestedElse a u p = nested a p := by
  funext s
  refine bind_congr_ok fun _ t henter => bind_congr_ok fun x t' hok => ?_
  have hdown : t.depth = s.depth + 1 := by
    unfold enter at henter
    simp only at henter
    split at henter <;> simp only [EStateM.Result.ok.injEq, reduceCtorEq, true_and] at henter
    rw [← henter]
  have hdepth : t'.depth = t.depth := (hp.ok _ _ _ hok).2
  have hleave : leaveElse u t' = leave t' := if_neg (by omega)
  change EStateM.bind _ _ t' = EStateM.bind _ _ t'
  unfold EStateM.bind
  rw [hleave]

/-- The progress with the last token ending elsewhere. -/
def Progress.behind (s : Progress) (d : Nat) : Progress := { s with lastStop := d }

/-- What the parse returns, and where it stops, does not depend on where the last token ended. -/
def Forgets (p : Parse α) : Prop :=
  ∀ s d x t, p s = .ok x t → p (s.behind d) = .ok x t

/-- The parse hands on where the last token ended. -/
def HandsOn (p : Parse α) : Prop :=
  ∀ s d x t, p s = .ok x t → p (s.behind d) = .ok x (t.behind d)

section Forgets

variable {p : Parse α} {f : α → Parse β}

/-- Once it is forgotten, it is so for all that follows. -/
theorem Forgets.bind (hp : Forgets p) : Forgets (p >>= f) := by
  intro s d y t h
  obtain ⟨x, t', h1, h2⟩ := bind_eq_ok.1 h
  rw [bind_of_ok (hp s d x t' h1), h2]

theorem HandsOn.forgets (hp : HandsOn p) (hf : ∀ x, Forgets (f x)) : Forgets (p >>= f) := by
  intro s d y t h
  obtain ⟨x, t', h1, h2⟩ := bind_eq_ok.1 h
  rw [bind_of_ok (hp s d x t' h1)]
  exact hf x t' d y t h2

theorem forgets_fault (f : Fault) : Forgets (fault f : Parse α) :=
  fun _ _ _ _ h => absurd h fault_ne_ok

/-- A token that is taken ends where it ends. -/
theorem forgets_advance : Forgets (advance a) :=
  fun _ _ _ _ h => h

theorem handsOn_lift {r : Except FormulaError α} : HandsOn (lift r) := by
  intro s d x t h
  obtain ⟨rfl, rfl⟩ := lift_eq_ok.1 h
  rfl

theorem handsOn_current : HandsOn current := by
  intro s d x t h
  cases h
  rfl

theorem handsOn_steps : HandsOn steps := by
  intro s d x t h
  cases h
  rfl

theorem handsOn_countNode : HandsOn (countNode a) := by
  intro s d x t h
  unfold countNode at h ⊢
  simp only [behind] at h ⊢
  split at h
  · simp only [EStateM.Result.ok.injEq, true_and] at h
    rw [← h]
  · simp at h

theorem handsOn_enter : HandsOn (enter a) := by
  intro s d x t h
  unfold enter at h ⊢
  simp only [behind] at h ⊢
  split at h
  · simp only [EStateM.Result.ok.injEq, true_and] at h
    rw [← h]
  · simp at h

theorem forgets_ident : Forgets (ident a) := by
  refine handsOn_current.forgets fun t => ?_
  split
  · exact handsOn_lift.forgets fun _ => forgets_advance.bind
  · exact forgets_fault _

/-- What an expression begins with is a token that is taken, or there is none. -/
theorem forgets_primary (p : Parse Expr) : Forgets (primary a p) := by
  refine handsOn_current.forgets fun t => ?_
  split
  · exact handsOn_countNode.forgets fun _ => forgets_advance.bind
  · exact handsOn_countNode.forgets fun _ => handsOn_lift.forgets fun _ => forgets_advance.bind
  · exact handsOn_countNode.forgets fun _ => handsOn_lift.forgets fun _ => forgets_advance.bind
  · exact forgets_ident.bind
  · exact forgets_advance.bind
  · exact forgets_fault _
  · exact forgets_fault _

theorem forgets_unary (p : Parse Expr) : Forgets (unary a p) := by
  refine handsOn_current.forgets fun t => ?_
  split
  · exact forgets_advance.bind
  · exact (forgets_primary p).bind

theorem forgets_sum (p : Parse Expr) : Forgets (sum a p) :=
  (forgets_unary p).bind.bind.bind

/-- **An expression does not ask where the token in front of it ended.** -/
theorem forgets_expression : Forgets (expression a) := by
  refine handsOn_steps.forgets fun n => ?_
  cases n with
  | zero => exact forgets_fault _
  | succ n => exact forgets_sum _

/-- **A formula does not ask where the token in front of it ended.** -/
theorem forgets_formula : Forgets (formula a) := by
  refine handsOn_current.forgets fun t => ?_
  split
  · exact forgets_fault _
  · have hnested : Forgets (nested a (expression a)) :=
      handsOn_enter.forgets fun _ => forgets_expression.bind
    exact hnested.bind

end Forgets

/-- **What succeeds with higher counters succeeds with lower ones**, and has the same tokens ahead.
Where the last token ended before may be different. -/
theorem ok_of_less {p : Parse Expr} {e : Expr} {t' : Progress}
    (hroom : Outlasts a a.limits Expr p p) (hforgets : Forgets p)
    (hcurrent : s.current = s'.current) (hupcoming : s.upcoming = s'.upcoming)
    (hdepth : s.depth ≤ s'.depth) (hnodes : s.nodes ≤ s'.nodes) (h : p s' = .ok e t') :
    ∃ t, p s = .ok e t ∧ t.current = t'.current ∧ t.upcoming = t'.upcoming := by
  have hfollows := hroom s' (s.behind s'.lastStop)
    ⟨hcurrent, hupcoming, rfl, Nat.add_le_add_left hdepth _, Nat.add_le_add_left hnodes _⟩
  rw [h] at hfollows
  generalize hr : p (s.behind s'.lastStop) = r at hfollows
  cases hfollows with
  | @ok _ _ t room _ _ =>
    exact ⟨t, hforgets (s.behind s'.lastStop) s.lastStop e t hr, room.current, room.upcoming⟩

end FormCalc
