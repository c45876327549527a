import FormCalc.Expr.Eval
import FormCalc.Proofs.Result
import FormCalc.Proofs.Tree
import Mathlib.Data.List.Forall2

/-!
# Evaluation in two contexts

If a relation between values is kept by look-ups and functions, then a tree evaluates to related
values, or fails with the same error, in related contexts.

* `Value.outer`: what operators see of a value.
* `Simulation`: what has to be shown of a relation.
* `Simulation.eval`: it carries over to trees.
-/

namespace FormCalc

namespace Value

/-- A value without what is inside of it. -/
def outer : Value → Value
  | .array _ => .array []
  | .object _ => .object []
  | v => v

/-- A value with nothing inside of it. -/
def IsScalar : Value → Prop
  | .array _ | .object _ => False
  | _ => True

end Value

variable {limits : Limits}

section Operators

variable {v w v' w' : Value} {span span' : Span} {operation : String}

/-- The views of an operand do not look inside. -/
theorem Operand.number_outer :
    (Operand.mk span v.outer).number operation = (Operand.mk span v).number operation := by
  cases v <;> rfl

theorem Operand.text_outer :
    (Operand.mk span v.outer).text operation = (Operand.mk span v).text operation := by
  cases v <;> rfl

theorem Value.isString_outer : v.outer.isString = v.isString := by
  cases v <;> rfl

theorem Operand.number_eq (h : v.outer = w.outer) :
    (Operand.mk span v).number operation = (Operand.mk span w).number operation := by
  rw [← Operand.number_outer, h, Operand.number_outer]

theorem Operand.text_eq (h : v.outer = w.outer) :
    (Operand.mk span v).text operation = (Operand.mk span w).text operation := by
  rw [← Operand.text_outer, h, Operand.text_outer]

/-- **Operators do not look inside values.** -/
theorem ArithOp.apply_eq {op : ArithOp} {sp : Span} (h : v.outer = w.outer)
    (h' : v'.outer = w'.outer) :
    op.apply sp ⟨span, v⟩ ⟨span', v'⟩ = op.apply sp ⟨span, w⟩ ⟨span', w'⟩ := by
  have hs : v.isString = w.isString := by rw [← Value.isString_outer, h, Value.isString_outer]
  have hs' : v'.isString = w'.isString := by rw [← Value.isString_outer, h', Value.isString_outer]
  unfold ArithOp.apply
  simp only [hs, hs', Operand.number_eq h, Operand.number_eq h', Operand.text_eq h,
    Operand.text_eq h']

/-- Operators return scalars. -/
theorem ArithOp.isScalar_apply {op : ArithOp} {sp : Span} {lhs rhs : Operand} {r : Value}
    (h : op.apply sp lhs rhs = .ok r) : r.IsScalar := by
  unfold ArithOp.apply at h
  split at h
  · obtain ⟨s, -, h⟩ := bind_ok_iff.1 h
    obtain ⟨t, -, h⟩ := bind_ok_iff.1 h
    simp only [pure, Except.pure, Except.ok.injEq] at h
    rw [← h]
    trivial
  · obtain ⟨x, -, h⟩ := bind_ok_iff.1 h
    obtain ⟨y, -, h⟩ := bind_ok_iff.1 h
    split at h
    · simp only [pure, Except.pure, Except.ok.injEq] at h
      rw [← h]
      trivial
    · exact absurd h throw_ne_ok

end Operators

/-- The operands stand at the same place and have related values. -/
def Operand.Related (R : Value → Value → Prop) (o o' : Operand) : Prop :=
  o.span = o'.span ∧ R o.value o'.value

/-- A call is one of those that are told by `Call`. -/
def Expr.CallsOnly (Call : Builtin → Nat → Prop) : Expr → Prop
  | .call _ _ name args => ∀ b, Builtin.ofName? name = some b → Call b args.length
  | _ => True

/-- What has to be shown of a relation between values. `Call` tells which functions are called,
with how many arguments. -/
structure Simulation (R : Value → Value → Prop) (Call : Builtin → Nat → Prop) (limits : Limits) :
    Prop where
  scalar : ∀ v, v.IsScalar → R v v
  outer : ∀ v w, R v w → v.outer = w.outer
  member : ∀ v w name, R v w → name ∉ blockedNames → R (v.member name) (w.member name)
  target : ∀ v w c c', R v w →
    Evaluation.checkTarget ⟨limits, c⟩ v = Evaluation.checkTarget ⟨limits, c'⟩ w
  select : ∀ v w j k c, R v w → R j k → Evaluation.checkTarget ⟨limits, c⟩ v = .ok () →
    Agree R (v.select j) (w.select k)
  builtin : ∀ (b : Builtin) args args', Call b args.length →
    List.Forall₂ (Operand.Related R) args args' →
    Agree R (b.apply limits args) (b.apply limits args')

namespace Simulation

open Evaluation

variable {R : Value → Value → Prop} {Call : Builtin → Nat → Prop} {c c' : Value} {e : Expr}

/-- Where a blocked name is refused, nothing else is asked. -/
theorem checkName {name : String} {f g : Unit → Except FormulaError Value}
    (h : name ∉ blockedNames → Agree R (f ()) (g ())) :
    Agree R (Evaluation.checkName name >>= f) (Evaluation.checkName name >>= g) := by
  cases hcheck : Evaluation.checkName name with
  | ok u => exact h (checkName_eq_ok.1 hcheck)
  | error err => exact .error err

/-- Operands that are evaluated one after the other. -/
theorem evalAll {es : List Expr}
    (h : ∀ e ∈ es, Agree R (eval ⟨limits, c⟩ e) (eval ⟨limits, c'⟩ e)) :
    Agree (fun args args' => args.length = es.length ∧
        List.Forall₂ (Operand.Related R) args args')
      (Evaluation.evalAll ⟨limits, c⟩ es) (Evaluation.evalAll ⟨limits, c'⟩ es) := by
  induction es with
  | nil => exact .ok ⟨rfl, .nil⟩
  | cons e es ih =>
    rw [Evaluation.evalAll, Evaluation.evalAll]
    refine (h e (by simp)).bind fun v w hv => ?_
    refine (ih fun x hx => h x (by simp [hx])).bind fun args args' hargs => .ok ?_
    exact ⟨congrArg (· + 1) hargs.1, .cons ⟨rfl, hv⟩ hargs.2⟩

/-- **A tree evaluates to related values, or fails with the same error, in related contexts.** -/
theorem eval (hs : Simulation R Call limits) (hc : R c c')
    (hcall : ∀ x ∈ e.subtrees, x.CallsOnly Call) :
    Agree R (Evaluation.eval ⟨limits, c⟩ e) (Evaluation.eval ⟨limits, c'⟩ e) := by
  induction e using Expr.induct with
  | number sp x | text sp s => exact .ok (hs.scalar _ trivial)
  | var sp name =>
    rw [Evaluation.eval, Evaluation.eval]
    exact checkName fun hname => .ok (hs.member _ _ _ hc hname)
  | field sp target nsp name ih =>
    have htarget := ih fun x hx => hcall x (by simp [Expr.subtrees, hx])
    rw [Evaluation.eval, Evaluation.eval]
    exact checkName fun hname => htarget.bind fun v w hv => .ok (hs.member _ _ _ hv hname)
  | index sp target i iht ihi =>
    have htarget := iht fun x hx => hcall x (by simp [Expr.subtrees, hx])
    have hi := ihi fun x hx => hcall x (by simp [Expr.subtrees, hx])
    rw [Evaluation.eval, Evaluation.eval]
    refine htarget.bind fun v w hv => ?_
    -- the size of the target is checked before the index is evaluated
    rw [← hs.target v w c c' hv]
    cases hcheck : Evaluation.checkTarget ⟨limits, c⟩ v with
    | ok u => exact hi.bind fun j k hj => (hs.select v w j k c hv hj hcheck).ensure
    | error err => exact .error err
  | negate sp operand ih =>
    have hoperand := ih fun x hx => hcall x (by simp [Expr.subtrees, hx])
    rw [Evaluation.eval, Evaluation.eval]
    refine hoperand.bind fun v w hv => ?_
    simp only [Operand.number_eq (hs.outer v w hv)]
    refine .of_eq rfl fun r hr => ?_
    obtain ⟨x, -, hr⟩ := bind_ok_iff.1 hr
    simp only [pure, Except.pure, Except.ok.injEq] at hr
    exact hs.scalar r (hr ▸ trivial)
  | arith sp op lhs rhs ihl ihr =>
    have hlhs := ihl fun x hx => hcall x (by simp [Expr.subtrees, hx])
    have hrhs := ihr fun x hx => hcall x (by simp [Expr.subtrees, hx])
    rw [Evaluation.eval, Evaluation.eval]
    refine hlhs.bind fun v w hv => hrhs.bind fun v' w' hv' => ?_
    exact .of_eq (ArithOp.apply_eq (hs.outer v w hv) (hs.outer v' w' hv'))
      fun r hr => hs.scalar r (ArithOp.isScalar_apply hr)
  | call sp nsp name args ih =>
    rw [Evaluation.eval, Evaluation.eval]
    cases hb : Builtin.ofName? name with
    | none => exact .error _
    | some b =>
      have hargs : ∀ a ∈ args, Agree R (Evaluation.eval ⟨limits, c⟩ a)
          (Evaluation.eval ⟨limits, c'⟩ a) := fun a ha =>
        ih a ha fun x hx =>
          hcall x (List.mem_cons_of_mem _ (Expr.mem_subtreesAll.2 ⟨a, ha, hx⟩))
      refine (evalAll hargs).bind fun operands operands' hoperands => ?_
      refine hs.builtin b operands operands' ?_ hoperands.2
      -- there are as many operands as arguments
      rw [hoperands.1]
      exact hcall _ (Expr.self_mem_subtrees _) b hb

end Simulation

end FormCalc
