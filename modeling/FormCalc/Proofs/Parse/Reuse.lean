import FormCalc.Proofs.Parse.Counters
import FormCalc.Proofs.Parse.Formula

/-!
# Parsers that are used again

A parser can go on after an expression and after an error, and it can be put back to where a clone
of it stood. What a call returns then depends on what was done before, and so do the counters.

* `Handling`: what is done with parsers; `Parser.Reached`: the parsers that it leads to.
* `Parser.Ready`: what every one of them keeps, by `ready_run` for a call and `ready_apply` for
  whatever is done.
* `counters_kept`: how a call moves the counters, and that higher counters never make a call
  succeed.
-/

namespace FormCalc

open Progress Parse

/-- What is done with parsers, which are told by their number. -/
inductive Handling where
  /-- An expression is parsed with one of them. -/
  | expression (i : Nat)
  /-- A formula is parsed with one of them. -/
  | formula (i : Nat)
  /-- A clone of one of them is put behind all. -/
  | clone (i : Nat)
  /-- One of them is put back to where another one stands. -/
  | restore (i j : Nat)

/-- The parsers after something is done. What is done with a parser that there is not, does
nothing. -/
def Handling.apply (ps : List Parser) : Handling → List Parser
  | .expression i => ps.modify i fun p => p.expression.2
  | .formula i => ps.modify i fun p => p.formula.2
  | .clone i => ps ++ ps[i]?.toList
  | .restore i j => (ps[j]?).elim ps fun p => ps.set i p

namespace Parser

variable {p q : Parser} {ps : List Parser}

/-- The parser is one of those that any handling of new parsers leads to. -/
def Reached (p : Parser) : Prop :=
  ∃ (starts : List Parser) (hs : List Handling),
    (∀ q ∈ starts, ∃ source limits, ofSource source limits = .ok q) ∧
      p ∈ hs.foldl Handling.apply starts

/-- Both parsers work on the same source under the same ceilings, with the same token in hand and
the same to come. -/
structure SameTokens (p q : Parser) : Prop where
  assignment : p.assignment = q.assignment
  current : p.progress.current = q.progress.current
  upcoming : p.progress.upcoming = q.progress.upcoming

/-- The tokens ahead end with the end, unless there is a fault behind them. -/
def Ready (p : Parser) : Prop :=
  p.progress.Ended p.assignment

/-- Tokens of a text behind whatever token is in hand. -/
theorem ended_of_formed {a : Assignment} {s : Progress} {stream : TokenStream}
    (h : stream.Formed) (ha : a.failure? = stream.failure?) (hs : s.upcoming = stream.tokens) :
    s.Ended a := by
  intro hnone
  obtain ⟨ts, t, hts, ht, -⟩ := h.ended (ha.symm.trans hnone)
  refine ⟨t, ?_, ht⟩
  rw [ahead, hs, hts, ← List.cons_append, List.getLast?_concat]

theorem ready_ofSource {source : Source} {limits : Limits} (h : ofSource source limits = .ok p) :
    p.Ready := by
  cases htokens : (tokenize source).tokens with
  | nil =>
    simp only [ofSource, htokens] at h
    cases hf : (tokenize source).failure? <;> simp [hf] at h
  | cons t ts =>
    rw [ofSource_eq limits htokens, Except.ok.injEq] at h
    subst h
    intro hnone
    obtain ⟨us, u, hus, hu, -⟩ := (tokenize_formed source).ended hnone
    refine ⟨u, ?_, hu⟩
    rw [ahead, ← htokens, hus, List.getLast?_concat]

theorem Ready.resumed (h : p.Ready) : p.resumed.Ready := by
  unfold Parser.resumed
  cases p.origin.behindFault with
  | none => exact h
  | some k => exact ended_of_formed (tokensFrom_formed _ k.place k.rest) rfl rfl

/-- **A call leaves a parser ready**, also if it fails and even if it fails behind the last token
that could be read. -/
theorem Ready.run {rule : Assignment → Parse Expr}
    (hrule : ∀ a, Keeps Returned Stopped (rule a)) (h : p.Ready) : (p.run rule).2.Ready := by
  unfold Parser.run
  cases hp : rule p.assignment p.progress with
  | ok e s => exact ((hrule _).ok _ _ _ hp).1.ended h
  | error err s =>
    have hstopped : Ready { p with progress := s } := ((hrule _).error _ _ _ hp).1.ended h
    simp only
    split
    · exact hstopped.resumed
    · exact hstopped

theorem Ready.expression (h : p.Ready) : p.expression.2.Ready :=
  h.run fun a => (steps_onward a).congruence.expression

theorem Ready.formula (h : p.Ready) : p.formula.2.Ready :=
  h.run fun a => (steps_onward a).congruence.formula

theorem ready_modify {f : Parser → Parser} (hf : ∀ q : Parser, q.Ready → (f q).Ready) (i : Nat)
    (h : ∀ q ∈ ps, q.Ready) : ∀ q ∈ ps.modify i f, q.Ready := by
  intro q hq
  obtain ⟨j, hj, rfl⟩ := List.mem_iff_getElem.1 hq
  rw [List.getElem_modify]
  split
  · exact hf _ (h _ (List.getElem_mem _))
  · exact h _ (List.getElem_mem _)

/-- **Whatever is done with parsers that are ready, they are ready after it.** -/
theorem ready_apply (c : Handling) (h : ∀ q ∈ ps, q.Ready) : ∀ q ∈ c.apply ps, q.Ready := by
  cases c with
  | expression i => exact ready_modify (fun _ hq => hq.expression) i h
  | formula i => exact ready_modify (fun _ hq => hq.formula) i h
  | clone i =>
    intro q hq
    rcases List.mem_append.1 hq with hq | hq
    · exact h q hq
    · exact h q (List.mem_of_getElem? (Option.mem_toList.1 hq))
  | restore i j =>
    intro q hq
    cases hj : ps[j]? with
    | none =>
      simp only [Handling.apply, hj, Option.elim] at hq
      exact h q hq
    | some r =>
      simp only [Handling.apply, hj, Option.elim] at hq
      rcases List.mem_or_eq_of_mem_set hq with hq | rfl
      · exact h q hq
      · exact h q (List.mem_of_getElem? hj)

/-- **Every parser that is reached is ready.** -/
theorem Reached.ready (h : p.Reached) : p.Ready := by
  obtain ⟨starts, hs, hstarts, hp⟩ := h
  have hready : ∀ q ∈ starts, q.Ready := by
    intro q hq
    obtain ⟨source, limits, hof⟩ := hstarts q hq
    exact ready_ofSource hof
  clear hstarts
  induction hs generalizing starts with
  | nil => exact hready p hp
  | cons c hs ih => exact ih (c.apply starts) hp (ready_apply c hready)

/-- How a call moves the counters, and what they do to the call. -/
structure KeepsCounters (p : Parser) (call : Parser → Except FormulaError Expr × Parser) :
    Prop where
  /-- A call that succeeds comes back to its depth and has counted the nodes of its tree. -/
  succeeded : ∀ e, (call p).1 = .ok e → (call p).2.progress.depth = p.progress.depth ∧
    (call p).2.nodeCount = p.nodeCount + e.nodeCount
  /-- A call that fails lowers neither counter. -/
  failed : ∀ err, (call p).1 = .error err → p.progress.depth ≤ (call p).2.progress.depth ∧
    p.nodeCount ≤ (call p).2.nodeCount
  /-- A call that succeeds with higher counters succeeds with these, and has the same tokens
  ahead. -/
  lower : ∀ q : Parser, p.SameTokens q → p.progress.depth ≤ q.progress.depth →
    p.nodeCount ≤ q.nodeCount → ∀ e, (call q).1 = .ok e →
      (call p).1 = .ok e ∧ (call p).2.SameTokens (call q).2

/-- Reading behind a fault does not touch the counters. -/
theorem counters_resumed (p : Parser) :
    p.resumed.progress.depth = p.progress.depth ∧ p.resumed.progress.nodes = p.progress.nodes := by
  unfold Parser.resumed
  cases p.origin.behindFault <;> exact ⟨rfl, rfl⟩

theorem run_of_ok {rule : Assignment → Parse Expr} {e : Expr} {s : Progress}
    (h : rule p.assignment p.progress = .ok e s) :
    p.run rule = (.ok e, { p with progress := s }) := by
  unfold Parser.run
  rw [h]

theorem exists_of_run_ok {rule : Assignment → Parse Expr} {e : Expr}
    (h : (p.run rule).1 = .ok e) : ∃ s, rule p.assignment p.progress = .ok e s := by
  unfold Parser.run at h
  cases hp : rule p.assignment p.progress with
  | ok x s =>
    simp only [hp, Except.ok.injEq] at h
    exact ⟨s, by rw [h]⟩
  | error err s => simp [hp] at h

/-- **What is shown of a rule of the parser, of all progress that is ended.** -/
theorem Ready.keepsCounters {rule : Assignment → Parse Expr} (hready : p.Ready)
    (hrule : ∀ a, Keeps Returned Stopped (rule a))
    (hcount : ∀ a s e s', s.Ended a → rule a s = .ok e s' → s'.nodes = s.nodes + e.nodeCount)
    (hroom : ∀ a, Outlasts a a.limits Expr (rule a) (rule a)) (hforgets : ∀ a, Forgets (rule a)) :
    p.KeepsCounters (·.run rule) where
  succeeded := by
    intro e h
    obtain ⟨s, hs⟩ := exists_of_run_ok h
    rw [run_of_ok hs]
    exact ⟨((hrule _).ok _ _ _ hs).2, hcount _ _ _ _ hready hs⟩
  failed := by
    intro err h
    unfold Parser.run at h ⊢
    cases hp : rule p.assignment p.progress with
    | ok e s => simp [hp] at h
    | error err s =>
      obtain ⟨hon, hdepth⟩ := (hrule _).error _ _ _ hp
      obtain ⟨hdepth', hnodes'⟩ := counters_resumed { p with progress := s }
      simp only [nodeCount]
      split
      · exact ⟨hdepth'.symm ▸ hdepth, hnodes'.symm ▸ hon.nodes⟩
      · exact ⟨hdepth, hon.nodes⟩
  lower := by
    intro q hsame hdepth hnodes e h
    obtain ⟨t, ht⟩ := exists_of_run_ok h
    have ht' := ht
    rw [← hsame.assignment] at ht'
    obtain ⟨s, hs, hcurrent, hupcoming⟩ := ok_of_less (hroom _) (hforgets _) hsame.current
      hsame.upcoming hdepth hnodes ht'
    rw [run_of_ok hs, run_of_ok ht]
    exact ⟨rfl, hsame.assignment, hcurrent, hupcoming⟩

theorem Ready.expression_keepsCounters (h : p.Ready) : p.KeepsCounters Parser.expression := by
  refine h.keepsCounters (fun a => (steps_onward a).congruence.expression) ?_
    (fun a => (congruence_outlasts a a.limits).expression) fun a => forgets_expression
  intro a s e s' hs hok
  obtain ⟨ts, -, htook⟩ := expression_reads s e s' hs hok
  exact htook.nodes

theorem Ready.formula_keepsCounters (h : p.Ready) : p.KeepsCounters Parser.formula := by
  refine h.keepsCounters (fun a => (steps_onward a).congruence.formula) ?_
    (fun a => (congruence_outlasts a a.limits).formula) fun a => forgets_formula
  intro a s e s' hs hok
  obtain ⟨-, hnested, -⟩ := formula_eq_ok_iff.1 hok
  obtain ⟨ts, -, hin⟩ := nested_reads expression_reads hs hnested
  exact hin.took.nodes

/-- **The counters of parsers, across successes and failures.** Whatever was done before, a call
that succeeds leaves the depth as it was and counts exactly the nodes of its tree, one that fails
lowers neither counter, and what succeeds with higher counters succeeds with lower ones. Wherever a
level is left there is one: a parser in which something else is done at depth zero is the same. -/
theorem counters_kept (h : p.Reached) :
    (∀ call ∈ [Parser.expression, Parser.formula], p.KeepsCounters call) ∧
    ∀ u : Parse Unit,
      (∀ n, Parse.nestedElse p.assignment u (Parse.expressionWithin p.assignment n) =
        Parse.nested p.assignment (Parse.expressionWithin p.assignment n)) ∧
      Parse.nestedElse p.assignment u (Parse.expression p.assignment) =
        Parse.nested p.assignment (Parse.expression p.assignment) := by
  constructor
  · intro call hcall
    simp only [List.mem_cons, List.not_mem_nil, or_false] at hcall
    rcases hcall with rfl | rfl
    · exact h.ready.expression_keepsCounters
    · exact h.ready.formula_keepsCounters
  · intro u
    have hsteps := (steps_onward p.assignment).congruence
    exact ⟨fun n => nestedElse_eq u (hsteps.expressionWithin n), nestedElse_eq u hsteps.expression⟩

/-- A group that is given up at a fault of the text leaves the parser a level down. The next call
reads on behind the fault and stays on that level. -/
theorem counters_kept_below : ∃ p : Parser, p.Reached ∧ p.progress.depth = 1 ∧
    ∃ e, p.expression.1 = .ok e ∧ p.expression.2.progress.depth = 1 ∧
      p.expression.2.nodeCount = p.nodeCount + e.nodeCount := by
  let start := ofSource ⟨"f", "(a 1x".toList⟩ .standard
  have hstart : start.isOk = true := by decide +kernel
  have hdepth : (start.toOption.map fun p => p.expression.2.progress.depth) = some 1 := by
    decide +kernel
  have hok : (start.toOption.any fun p => p.expression.2.expression.1.isOk) = true := by
    decide +kernel
  obtain ⟨p, hp⟩ := exists_eq_ok_of_isOk hstart
  rw [hp] at hdepth hok
  have hreached : p.expression.2.Reached := by
    refine ⟨[p], [.expression 0], fun q hq => ?_, List.mem_singleton_self _⟩
    rw [List.mem_singleton.1 hq]
    exact ⟨_, _, hp⟩
  have hdown : p.expression.2.progress.depth = 1 := by simpa [Except.toOption] using hdepth
  obtain ⟨e, he⟩ := exists_eq_ok_of_isOk (by simpa [Except.toOption] using hok)
  have hkept := (counters_kept hreached).1 _ (List.mem_cons_self ..)
  obtain ⟨hdepth', hnodes⟩ := hkept.succeeded e he
  exact ⟨p.expression.2, hreached, hdown, e, he, hdepth'.trans hdown, hnodes⟩

end Parser

end FormCalc
