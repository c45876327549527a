import FormCalc.Expr.Eval
import FormCalc.Proofs.Result
import FormCalc.Proofs.Grammar

/-!
# What evaluation can fail with

A tree fails at one of its nodes, and there are few ways to fail at a node: at a name, at a look-up,
in an operator or a function, or in a call that names no function or misses its argument. What a
tree fails with and where it is reported is read off the node.

* `OperandError`: the errors of operators and functions, which do not depend on the context
  having blocked keys.
* `Refused`: such an error, reported at one of some spans; `ArithOp.apply_refused` and
  `Builtin.apply_refused`: operators fail at an operand or at themselves, functions at an argument.
* `Evaluation.FailsHere`: the ways to fail at a node.
* `Evaluation.eval_fails`: a tree that fails does so at one of its nodes.
* `RuntimeError`: the errors of a tree of which every call is accepted and no name is blocked.
* `Evaluation.eval_error`: such a tree fails with these only.
* `Evaluation.eval_raised`: the places that a tree of which every call is accepted fails at.
* `Evaluation.eval_aborted`: a tree that ends the program calls a function without arguments.
-/

namespace FormCalc

variable {limits : Limits} {met met' : Span → Prop} {err : FormulaError} {operation : String}
  {o : Operand} {args : List Operand}

/-- The errors of operators and functions on their operands. -/
inductive OperandError (limits : Limits) : FormulaError → Prop where
  | mismatch (site : Site) (m : Mismatch) : OperandError limits (.typeMismatch site m)
  | division (site : Site) : OperandError limits (.divisionByZero site)
  | arraySize {n : Nat} (h : limits.arraySize < n) :
      OperandError limits (.limit (.arraySize n limits.arraySize))

/-- An error of an operator or a function that is reported at one of some spans, if at all. -/
structure Refused (limits : Limits) (met : Span → Prop) (err : FormulaError) : Prop where
  kind : OperandError limits err
  raised : err.RaisedAt met

namespace Refused

theorem mono (h : Refused limits met err) (hmet : ∀ sp, met sp → met' sp) :
    Refused limits met' err :=
  ⟨h.kind, h.raised.mono hmet⟩

theorem mismatch {sp : Span} (hsp : met sp) (m : Mismatch) :
    Refused limits met (.typeMismatch sp.site m) :=
  ⟨.mismatch _ _, .of_site hsp rfl⟩

theorem of_checkArray {n : Nat} (h : ensure (limits.checkArray n) = .error err) :
    Refused limits met err := by
  obtain ⟨_, he, rfl⟩ := ensure_error_iff.1 h
  obtain ⟨hlt, rfl⟩ := ensureAtMost_eq_error_iff.1 he
  exact ⟨.arraySize hlt, .limit _⟩

end Refused

/-- The spans of operands. -/
def isSpanOf (args : List Operand) (sp : Span) : Prop :=
  ∃ o ∈ args, o.span = sp

namespace Operand

theorem number_refused (h : o.number operation = .error err) :
    Refused limits (o.span = ·) err := by
  unfold number at h
  split at h <;> simp only [Except.error.injEq, reduceCtorEq] at h
  rw [← h]
  exact .mismatch rfl _

theorem text_refused (h : o.text operation = .error err) : Refused limits (o.span = ·) err := by
  unfold text at h
  split at h <;> simp only [Except.error.injEq, reduceCtorEq] at h
  rw [← h]
  exact .mismatch rfl _

theorem items_refused (h : o.items operation = .error err) : Refused limits (o.span = ·) err := by
  unfold items at h
  split at h <;> simp only [Except.error.injEq, reduceCtorEq] at h
  rw [← h]
  exact .mismatch rfl _

end Operand

/-- **An operator fails at an operand**, or at itself. -/
theorem ArithOp.apply_refused {op : ArithOp} {span : Span} {lhs rhs : Operand}
    (h : op.apply span lhs rhs = .error err) :
    Refused limits (fun sp => sp = span ∨ isSpanOf [lhs, rhs] sp) err := by
  have hlhs : ∀ sp, lhs.span = sp → sp = span ∨ isSpanOf [lhs, rhs] sp := fun sp hsp =>
    .inr ⟨lhs, by simp, hsp⟩
  have hrhs : ∀ sp, rhs.span = sp → sp = span ∨ isSpanOf [lhs, rhs] sp := fun sp hsp =>
    .inr ⟨rhs, by simp, hsp⟩
  unfold ArithOp.apply at h
  split at h
  · rcases bind_error_iff.1 h with h | ⟨s, -, h⟩
    · exact (Operand.text_refused h).mono hlhs
    · rcases bind_error_iff.1 h with h | ⟨t, -, h⟩
      · exact (Operand.text_refused h).mono hrhs
      · exact absurd h pure_ne_error
  · rcases bind_error_iff.1 h with h | ⟨x, -, h⟩
    · exact (Operand.number_refused h).mono hlhs
    · rcases bind_error_iff.1 h with h | ⟨y, -, h⟩
      · exact (Operand.number_refused h).mono hrhs
      · split at h
        · exact absurd h pure_ne_error
        · obtain rfl := throw_error_iff.1 h
          exact ⟨.division _, .of_site (.inl rfl) rfl⟩

namespace Builtin

variable {b : Builtin} {arg : Operand}

theorem comparands_refused (h : b.comparands limits args = .error err) :
    Refused limits (isSpanOf args) err := by
  unfold comparands at h
  split at h
  · rcases bind_error_iff.1 h with h | ⟨_, -, h⟩
    · exact .of_checkArray h
    · exact absurd h pure_ne_error
  · obtain ⟨o, ho, h⟩ := mapM_error h
    exact (Operand.number_refused h).mono fun sp hsp => ⟨o, ho, hsp⟩

theorem elements_refused (h : b.elements limits arg = .error err) :
    Refused limits (arg.span = ·) err := by
  rcases bind_error_iff.1 h with h | ⟨items, -, h⟩
  · exact Operand.items_refused h
  · rcases bind_error_iff.1 h with h | ⟨_, -, h⟩
    · exact .of_checkArray h
    · exact absurd h pure_ne_error

/-- **A function that has an argument fails at an argument.** -/
theorem apply_refused (hne : args ≠ []) (h : b.apply limits args = .error err) :
    Refused limits (isSpanOf args) err := by
  obtain ⟨arg, args, rfl⟩ := List.exists_cons_of_ne_nil hne
  have hfirst : ∀ sp, arg.span = sp → isSpanOf (arg :: args) sp := fun sp hsp =>
    ⟨arg, List.mem_cons_self, hsp⟩
  cases b with
  | max | min =>
    rcases bind_error_iff.1 h with h | ⟨xs, -, h⟩
    · exact comparands_refused h
    · exact absurd h pure_ne_error
  | abs =>
    rcases bind_error_iff.1 h with h | ⟨x, -, h⟩
    · exact (Operand.number_refused h).mono hfirst
    · exact absurd h pure_ne_error
  | count | sum =>
    rcases bind_error_iff.1 h with h | ⟨items, -, h⟩
    · exact (elements_refused h).mono hfirst
    · exact absurd h pure_ne_error

/-- A function that has no argument fails by reading it. -/
theorem eq_aborted_of_apply_nil (h : b.apply limits [] = .error err) : err = .aborted := by
  cases b with
  | max | min => exact absurd h pure_ne_error
  | abs | count | sum => exact (Except.error.inj h).symm

end Builtin

/-- The spans of a node and of the nodes right below it. -/
def Expr.isSpanHere (x : Expr) (sp : Span) : Prop :=
  ∃ y ∈ x :: x.children, y.span = sp

namespace Evaluation

/-- The ways to fail at a node. -/
inductive FailsHere (ev : Evaluation) : Expr → FormulaError → Prop where
  /-- Its name is blocked. -/
  | name {x : Expr} {name : String} (hname : name ∈ x.name?) (hblocked : name ∈ blockedNames) :
      FailsHere ev x (.limit (.blockedName name))
  /-- A blocked name is looked up in an object. -/
  | key {sp : Span} {target i : Expr} {members : List (String × Value)} {name : String}
      (htarget : ev.eval target = .ok (.object members)) (hi : ev.eval i = .ok (.string name))
      (hblocked : name ∈ blockedNames) :
      FailsHere ev (.index sp target i) (.limit (.blockedName name))
  /-- The values of the nodes below it are refused. -/
  | refused {x : Expr} {err : FormulaError} (h : Refused ev.limits x.isSpanHere err) :
      FailsHere ev x err
  /-- There is no function of its name. -/
  | unknown {sp nsp : Span} {name : String} {args : List Expr}
      (hnone : Builtin.ofName? name = none) :
      FailsHere ev (.call sp nsp name args) (.unknownFunction nsp.site name .evaluation)
  /-- The function has no argument to read. -/
  | missing {sp nsp : Span} {name : String} (hsome : (Builtin.ofName? name).isSome) :
      FailsHere ev (.call sp nsp name []) .aborted

variable {ev : Evaluation} {e : Expr} {name : String}

theorem checkName_error (h : checkName name = .error err) :
    name ∈ blockedNames ∧ err = .limit (.blockedName name) := by
  obtain ⟨_, he, rfl⟩ := ensure_error_iff.1 h
  obtain ⟨hblocked, rfl⟩ := checkName_eq_error_iff.1 he
  exact ⟨hblocked, rfl⟩

theorem checkTarget_error {v : Value} (h : ev.checkTarget v = .error err) :
    Refused ev.limits met err := by
  unfold checkTarget at h
  split at h
  · exact .of_checkArray h
  · simp at h

/-- Only a blocked name on an object is refused by a look-up. -/
theorem select_error {v j : Value} (h : ensure (v.select j) = .error err) :
    ∃ members name, v = .object members ∧ j = .string name ∧ name ∈ blockedNames ∧
      err = .limit (.blockedName name) := by
  obtain ⟨e, he, rfl⟩ := ensure_error_iff.1 h
  unfold Value.select at he
  split at he
  · split at he <;> simp at he
  · -- a string on an object is the only look-up that checks a name
    rename_i members name
    rcases bind_error_iff.1 he with he | ⟨_, -, he⟩
    · obtain ⟨hblocked, rfl⟩ := checkName_eq_error_iff.1 he
      exact ⟨members, name, rfl, rfl, hblocked, rfl⟩
    · exact absurd he pure_ne_error
  · simp at he

/-- As many operands as expressions, each with the span of its own. -/
theorem span_evalAll {es : List Expr} {operands : List Operand}
    (h : ev.evalAll es = .ok operands) : operands.map Operand.span = es.map Expr.span := by
  induction es generalizing operands with
  | nil =>
    obtain rfl := pure_ok_iff.1 h
    rfl
  | cons e es ih =>
    rw [evalAll] at h
    obtain ⟨v, -, h⟩ := bind_ok_iff.1 h
    obtain ⟨rest, hrest, h⟩ := bind_ok_iff.1 h
    obtain rfl := pure_ok_iff.1 h
    rw [List.map_cons, ih hrest, List.map_cons]

theorem length_evalAll {es : List Expr} {operands : List Operand}
    (h : ev.evalAll es = .ok operands) : operands.length = es.length := by
  have hlength := congrArg List.length (span_evalAll h)
  rwa [List.length_map, List.length_map] at hlength

theorem evalAll_error {es : List Expr} (h : ev.evalAll es = .error err) :
    ∃ e ∈ es, ev.eval e = .error err := by
  induction es with
  | nil => exact absurd h pure_ne_error
  | cons e es ih =>
    rw [evalAll] at h
    rcases bind_error_iff.1 h with h | ⟨v, -, h⟩
    · exact ⟨e, by simp, h⟩
    · rcases bind_error_iff.1 h with h | ⟨rest, -, h⟩
      · obtain ⟨x, hx, h⟩ := ih h
        exact ⟨x, by simp [hx], h⟩
      · exact absurd h pure_ne_error

/-- **One node.** If it fails, a node right below it has failed with the error, or the node itself
fails. -/
theorem eval_fails_below (h : ev.eval e = .error err) :
    (∃ x ∈ e.children, ev.eval x = .error err) ∨ ev.FailsHere e err := by
  cases e with
  | number | text => exact absurd h pure_ne_error
  | var sp name =>
    rw [eval] at h
    rcases bind_error_iff.1 h with h | ⟨_, -, h⟩
    · obtain ⟨hblocked, rfl⟩ := checkName_error h
      exact .inr (.name rfl hblocked)
    · exact absurd h pure_ne_error
  | field sp target nsp name =>
    rw [eval] at h
    rcases bind_error_iff.1 h with h | ⟨_, -, h⟩
    · obtain ⟨hblocked, rfl⟩ := checkName_error h
      exact .inr (.name rfl hblocked)
    rcases bind_error_iff.1 h with h | ⟨v, -, h⟩
    · exact .inl ⟨target, by simp [Expr.children], h⟩
    · exact absurd h pure_ne_error
  | index sp target i =>
    rw [eval] at h
    rcases bind_error_iff.1 h with h | ⟨v, hv, h⟩
    · exact .inl ⟨target, by simp [Expr.children], h⟩
    -- the size of the target is checked before the index is evaluated
    rcases bind_error_iff.1 h with h | ⟨_, -, h⟩
    · exact .inr (.refused (checkTarget_error h))
    rcases bind_error_iff.1 h with h | ⟨j, hj, h⟩
    · exact .inl ⟨i, by simp [Expr.children], h⟩
    · obtain ⟨members, name, rfl, rfl, hblocked, rfl⟩ := select_error h
      exact .inr (.key hv hj hblocked)
  | negate sp operand =>
    rw [eval] at h
    rcases bind_error_iff.1 h with h | ⟨v, -, h⟩
    · exact .inl ⟨operand, by simp [Expr.children], h⟩
    rcases bind_error_iff.1 h with h | ⟨x, -, h⟩
    · refine .inr (.refused ((Operand.number_refused h).mono fun sp hsp => ?_))
      exact ⟨operand, by simp [Expr.children], hsp⟩
    · exact absurd h pure_ne_error
  | arith sp op lhs rhs =>
    rw [eval] at h
    rcases bind_error_iff.1 h with h | ⟨v, -, h⟩
    · exact .inl ⟨lhs, by simp [Expr.children], h⟩
    rcases bind_error_iff.1 h with h | ⟨w, -, h⟩
    · exact .inl ⟨rhs, by simp [Expr.children], h⟩
    · refine .inr (.refused ((ArithOp.apply_refused h).mono ?_))
      rintro _ (rfl | ⟨o, ho, rfl⟩)
      · exact ⟨_, List.mem_cons_self, rfl⟩
      · simp only [List.mem_cons, List.not_mem_nil, or_false] at ho
        rcases ho with rfl | rfl
        · exact ⟨lhs, by simp [Expr.children], rfl⟩
        · exact ⟨rhs, by simp [Expr.children], rfl⟩
  | call sp nsp name args =>
    rw [eval] at h
    cases hb : Builtin.ofName? name with
    | none =>
      rw [hb] at h
      obtain rfl := throw_error_iff.1 h
      exact .inr (.unknown hb)
    | some b =>
      rw [hb] at h
      rcases bind_error_iff.1 h with h | ⟨operands, hoperands, h⟩
      · exact .inl (evalAll_error h)
      -- the operands stand where the arguments stand
      have hspans := span_evalAll hoperands
      cases operands with
      | nil =>
        obtain rfl : args = [] := by simpa using hspans.symm
        obtain rfl := Builtin.eq_aborted_of_apply_nil h
        exact .inr (.missing (by rw [hb, Option.isSome_some]))
      | cons o operands =>
        refine .inr (.refused ((Builtin.apply_refused (List.cons_ne_nil _ _) h).mono ?_))
        rintro _ ⟨p, hp, rfl⟩
        have hmem := List.mem_map_of_mem (f := Operand.span) hp
        rw [hspans] at hmem
        obtain ⟨a, ha, hspan⟩ := List.mem_map.1 hmem
        exact ⟨a, List.mem_cons_of_mem _ ha, hspan⟩

/-- **A tree that fails does so at one of its nodes.** The induction goes from a node to the one
right below it that has failed. -/
theorem eval_fails (h : ev.eval e = .error err) : ∃ x ∈ e.subtrees, ev.FailsHere x err := by
  induction e using Expr.induct_children with
  | h e ih =>
    rcases eval_fails_below h with ⟨c, hc, h⟩ | hhere
    · obtain ⟨x, hx, hfails⟩ := ih c hc h
      exact ⟨x, Expr.subtrees_subset hc hx, hfails⟩
    · exact ⟨e, e.self_mem_subtrees, hhere⟩

end Evaluation

/-- The errors of the evaluation of a tree. A name is only refused as the index of an object. -/
inductive RuntimeError (ev : Evaluation) (e : Expr) : FormulaError → Prop where
  | operand {err : FormulaError} (h : OperandError ev.limits err) : RuntimeError ev e err
  | blocked {sp : Span} {target i : Expr} {members : List (String × Value)} {name : String}
      (hmem : .index sp target i ∈ e.subtrees) (htarget : ev.eval target = .ok (.object members))
      (hi : ev.eval i = .ok (.string name)) (hname : name ∈ blockedNames) :
      RuntimeError ev e (.limit (.blockedName name))

/-- A node that can be evaluated: its name is not blocked, and a call is accepted. -/
structure Expr.Callable (x : Expr) : Prop where
  name : x.NameAllowed
  call : x.CallAccepted

/-- A call that is accepted has an argument. -/
theorem Expr.CallAccepted.ne_nil {sp nsp : Span} {name : String} {args : List Expr}
    (h : (Expr.call sp nsp name args).CallAccepted) : args ≠ [] := by
  obtain ⟨b, -, hcount⟩ := h
  -- every function wants one argument at least
  rintro rfl
  rw [List.length_nil, b.accepts_zero] at hcount
  simp at hcount

/-- The spans of the nodes of a tree. -/
def Expr.HasSpan (e : Expr) (sp : Span) : Prop :=
  ∃ x ∈ e.subtrees, x.span = sp

theorem Expr.HasSpan.of_here {e x : Expr} {sp : Span} (hx : x ∈ e.subtrees)
    (h : x.isSpanHere sp) : e.HasSpan sp := by
  obtain ⟨y, hy, hspan⟩ := h
  rcases List.mem_cons.1 hy with rfl | hy
  · exact ⟨y, hx, hspan⟩
  · exact ⟨y, subtrees_trans hx (subtrees_subset hy y.self_mem_subtrees), hspan⟩

namespace Evaluation

variable {ev : Evaluation} {e : Expr}

/-- **A tree of callable nodes only fails where it is computed.** -/
theorem eval_error (hall : ∀ x ∈ e.subtrees, x.Callable) (h : ev.eval e = .error err) :
    RuntimeError ev e err := by
  obtain ⟨x, hx, hfails⟩ := eval_fails h
  cases hfails with
  | name hname hblocked => exact absurd hblocked ((hall x hx).name _ hname)
  | key htarget hi hblocked => exact .blocked hx htarget hi hblocked
  | refused h => exact .operand h.kind
  | unknown hnone =>
    obtain ⟨b, hb, -⟩ := (hall _ hx).call
    simp [hnone] at hb
  | missing => exact absurd rfl (hall _ hx).call.ne_nil

/-- **A tree of which every call is accepted fails at one of its nodes**, if not at a ceiling or
a blocked name. -/
theorem eval_raised (hall : ∀ x ∈ e.subtrees, x.CallAccepted) (h : ev.eval e = .error err) :
    err.RaisedAt e.HasSpan := by
  obtain ⟨x, hx, hfails⟩ := eval_fails h
  cases hfails with
  | name | key => exact .limit _
  | refused h => exact h.raised.mono fun sp hsp => .of_here hx hsp
  | unknown hnone =>
    obtain ⟨b, hb, -⟩ := hall _ hx
    simp [hnone] at hb
  | missing => exact absurd rfl (hall _ hx).ne_nil

/-- **A tree that ends the program calls a function without arguments.** -/
theorem eval_aborted (h : ev.eval e = .error .aborted) :
    ∃ sp nsp name, .call sp nsp name [] ∈ e.subtrees ∧ (Builtin.ofName? name).isSome := by
  obtain ⟨x, hx, hfails⟩ := eval_fails h
  cases hfails with
  | refused h =>
    -- no operator and no function that has its arguments ends the program
    cases h.kind
  | missing hsome => exact ⟨_, _, _, hx, hsome⟩

end Evaluation

end FormCalc
