import FormCalc.Proofs.Effects
import FormCalc.Proofs.Parse.Room

/-!
# Raising ceilings

Under higher ceilings an answer stays what it is; only the errors of ceilings may go away. This is
so of the length of the text, of parsing, and of evaluation, and each hands on what it returns.

* `Limits.AtMost`: all four ceilings are at least as high.
* `parse_persists`, `Formula.eval_persists`: parsing and evaluation.
* `evalFormula_raised`: both together.
-/

namespace FormCalc

/-- All four ceilings of the second are at least as high. -/
structure Limits.AtMost (limits limits' : Limits) : Prop where
  formulaLength : limits.formulaLength ≤ limits'.formulaLength
  depth : limits.depth ≤ limits'.depth
  nodes : limits.nodes ≤ limits'.nodes
  arraySize : limits.arraySize ≤ limits'.arraySize

variable {limits limits' : Limits}

/-- **A parse persists.** The length of the text is asked about first, then the tokens are read. -/
theorem parse_persists (file text : String) (h : limits.AtMost limits') :
    Persists (parse file text limits) (parse file text limits') := by
  have hlength := h.formulaLength
  have hsource : Persists (Source.ofText file text limits) (Source.ofText file text limits') := by
    rw [Source.ofText_eq, Source.ofText_eq]
    by_cases hle : text.length ≤ limits.formulaLength
    · rw [if_pos hle, if_pos (Nat.le_trans hle hlength)]
      exact .same _
    · rw [if_neg hle]
      exact .ceiling trivial
  exact hsource.bind fun source =>
    (source.parse_persists h.depth h.nodes).bind fun tree => .same _

/-- What is a formula stays the same formula. -/
theorem parse_eq_ok_of_atMost {file text : String} {f : Formula} (h : limits.AtMost limits')
    (hok : parse file text limits = .ok f) : parse file text limits' = .ok f := by
  rw [(parse_persists file text h).eq fun err herr => by simp [hok] at herr, hok]

/-- **Ceilings have no part in what a text is.** Under the larger of two ceilings it is what it is
under each. -/
theorem parse_unique {file text : String} {f f' : Formula} (hf : parse file text limits = .ok f)
    (hf' : parse file text limits' = .ok f') : f = f' := by
  let high : Limits := ⟨max limits.formulaLength limits'.formulaLength,
    max limits.depth limits'.depth, max limits.nodes limits'.nodes,
    max limits.arraySize limits'.arraySize⟩
  have hleft : limits.AtMost high :=
    ⟨Nat.le_max_left _ _, Nat.le_max_left _ _, Nat.le_max_left _ _, Nat.le_max_left _ _⟩
  have hright : limits'.AtMost high :=
    ⟨Nat.le_max_right _ _, Nat.le_max_right _ _, Nat.le_max_right _ _, Nat.le_max_right _ _⟩
  have hsame := parse_eq_ok_of_atMost hleft hf
  rw [parse_eq_ok_of_atMost hright hf'] at hsame
  exact (Except.ok.inj hsame).symm

section Evaluation

variable {context : Value}

theorem checkArray_persists (h : limits.arraySize ≤ limits'.arraySize) (n : Nat) :
    Persists (ensure (limits.checkArray n)) (ensure (limits'.checkArray n)) := by
  unfold Limits.checkArray ensureAtMost
  by_cases hle : n ≤ limits.arraySize
  · rw [if_pos hle, if_pos (Nat.le_trans hle h)]
    exact .same _
  · rw [if_neg hle]
    exact .ceiling trivial

theorem Builtin.comparands_persists (b : Builtin) (h : limits.arraySize ≤ limits'.arraySize)
    (args : List Operand) :
    Persists (b.comparands limits args) (b.comparands limits' args) := by
  unfold comparands
  split
  · exact (checkArray_persists h _).bind fun _ => .same _
  · exact .same _

theorem Builtin.elements_persists (b : Builtin) (h : limits.arraySize ≤ limits'.arraySize)
    (arg : Operand) : Persists (b.elements limits arg) (b.elements limits' arg) :=
  (Persists.same _).bind fun _ => (checkArray_persists h _).bind fun _ => .same _

/-- A function asks about the size of an array at most. -/
theorem Builtin.apply_persists (b : Builtin) (h : limits.arraySize ≤ limits'.arraySize)
    (args : List Operand) : Persists (b.apply limits args) (b.apply limits' args) := by
  unfold apply
  cases b with
  | max | min => exact (comparands_persists _ h args).bind fun _ => .same _
  | abs => cases args <;> exact .same _
  | count | sum =>
    cases args with
    | nil => exact .same _
    | cons arg args => exact (elements_persists _ h arg).bind fun _ => .same _

theorem Evaluation.checkTarget_persists (h : limits.arraySize ≤ limits'.arraySize) (v : Value) :
    Persists (checkTarget ⟨limits, context⟩ v) (checkTarget ⟨limits', context⟩ v) := by
  unfold checkTarget
  cases v with
  | array items => exact checkArray_persists h _
  | _ => exact .same _

/-- Operands one after the other, if each persists. -/
theorem Evaluation.evalAll_persists {es : List Expr}
    (h : ∀ e ∈ es, Persists (eval ⟨limits, context⟩ e) (eval ⟨limits', context⟩ e)) :
    Persists (evalAll ⟨limits, context⟩ es) (evalAll ⟨limits', context⟩ es) := by
  induction es with
  | nil => exact .same _
  | cons e es ih =>
    rw [evalAll, evalAll]
    exact (h e (by simp)).bind fun v =>
      (ih fun x hx => h x (by simp [hx])).bind fun operands => .same _

/-- **The value of a tree persists.** The induction follows the tree; ceilings are asked about
where an array is looked into and by functions. -/
theorem Evaluation.eval_persists (h : limits.arraySize ≤ limits'.arraySize) (e : Expr) :
    Persists (eval ⟨limits, context⟩ e) (eval ⟨limits', context⟩ e) := by
  induction e using Expr.induct with
  | number sp x | text sp s | var sp name => exact .same _
  | field sp target nsp name ih =>
    rw [eval, eval]
    exact (Persists.same _).bind fun _ => ih.bind fun v => .same _
  | index sp target i iht ihi =>
    rw [eval, eval]
    exact iht.bind fun v => (checkTarget_persists h v).bind fun _ => ihi.bind fun j => .same _
  | negate sp operand ih =>
    rw [eval, eval]
    exact ih.bind fun v => .same _
  | arith sp op lhs rhs ihl ihr =>
    rw [eval, eval]
    exact ihl.bind fun v => ihr.bind fun w => .same _
  | call sp nsp name args ih =>
    rw [eval, eval]
    cases Builtin.ofName? name with
    | none => exact .same _
    | some b => exact (evalAll_persists ih).bind fun operands => b.apply_persists h operands

theorem Formula.eval_persists (f : Formula) (h : limits.arraySize ≤ limits'.arraySize)
    (context : Value) : Persists (f.eval limits context) (f.eval limits' context) :=
  Evaluation.eval_persists h f.tree

end Evaluation

/-- What an engine answers persists with another one of higher ceilings. -/
theorem Engine.answer_persists {e e' : Engine} (h : e.limits.AtMost e'.limits) (text : String)
    (context : Value) : Persists (e.answer text context) (e'.answer text context) :=
  (parse_persists sourceName text h).bind fun f => f.eval_persists h.arraySize context

/-- **Raising ceilings never changes an answer, it only removes the errors of ceilings.** Whatever
the text, the context and the workspaces: what an engine answers, if it is not that a ceiling was
passed, is what an engine of higher ceilings answers. -/
theorem evalFormula_raised {e e' : Engine} (h : e.limits.AtMost e'.limits) (text : String)
    (context : Value) (w w' : Workspace)
    (hanswer : ∀ err, ((e.evalFormula text context).run w).1 = .error err → ¬err.IsCeiling) :
    ((e'.evalFormula text context).run w').1 = ((e.evalFormula text context).run w).1 := by
  rw [(Engine.evalFormula_tells w text context).result] at hanswer
  rw [(Engine.evalFormula_tells w text context).result,
    (Engine.evalFormula_tells w' text context).result]
  exact (Engine.answer_persists h text context).eq hanswer

/-- A formula at all four ceilings, with an operand that is no number: its error stays what it is
under the standard ceilings. -/
theorem evalFormula_raised_mismatch :
    let context : Value := .object [("a", .array [.number 1, .number 2]), ("b", .object [])]
    let tight : Engine := ⟨0, ⟨23, 3, 8, 2⟩⟩
    tight.limits.AtMost Limits.standard ∧
      ∃ site mismatch,
        ((tight.evalFormula "sum(a) + max(b['x'], b)" context).run {}).1 =
          .error (.typeMismatch site mismatch) ∧
        ((Engine.evalFormula ⟨1, .standard⟩ "sum(a) + max(b['x'], b)" context).run {}).1 =
          .error (.typeMismatch site mismatch) := by
  intro context tight
  have hlimits : tight.limits.AtMost Limits.standard :=
    ⟨by decide, by decide, by decide, by decide⟩
  have hfails : (match ((tight.evalFormula "sum(a) + max(b['x'], b)" context).run {}).1 with
      | .error (.typeMismatch _ _) => true
      | _ => false) = true := by decide +kernel
  refine ⟨hlimits, ?_⟩
  split at hfails
  · rename_i site mismatch heq
    refine ⟨site, mismatch, heq, ?_⟩
    have hother : ∀ err, ((tight.evalFormula "sum(a) + max(b['x'], b)" context).run {}).1 =
        .error err → ¬err.IsCeiling := by
      intro err herr
      rw [heq] at herr
      cases herr
      exact id
    exact (evalFormula_raised hlimits _ context {} {} hother).trans heq
  · cases hfails

end FormCalc
