import FormCalc.Proofs.Eval.Additions
import FormCalc.Proofs.Oversized

/-!
# Functions of arrays

What the functions that take an array make of it can be written out as an addition, or as a call,
of the numbers in it.

* `Value.isNumber`, `Expr.IsNumber`: the elements that are used, and how they are written.
* `Value.filter_isNumber`: the numbers of an array are its elements that are numbers.
* `Evaluation.evalAll_numbers`: numbers that are written out evaluate to themselves.
* `Evaluation.eval_aggregates`: `sum`, `max`, `min` and `count` of an array.
-/

namespace FormCalc

open List (Forall₂)

/-- Whether the value is a number. -/
def Value.isNumber : Value → Bool
  | .number _ => true
  | _ => false

/-- The expression is a number that is written out. -/
def Expr.IsNumber (e : Expr) (x : Float) : Prop :=
  ∃ sp, e = .number sp x

section Arrays

variable {limits : Limits} {items : List Value} {ns : List Float} {operands : List Operand}

/-- The numbers of an array are its elements that are numbers, in their order. -/
theorem Value.filter_isNumber (items : List Value) :
    items.filter isNumber = (numbers items).map .number := by
  induction items with
  | nil => rfl
  | cons v items ih =>
    cases v with
    | number x => exact congrArg (Value.number x :: ·) ih
    | _ => exact ih

theorem Value.numbers_eq_of_filter (h : items.filter isNumber = ns.map .number) :
    numbers items = ns := by
  rw [filter_isNumber] at h
  exact List.map_injective_iff.2 (fun _ _ => Value.number.inj) h

/-- Numbers count as themselves. -/
theorem mapM_number {operation : String} (h : operands.map (·.value) = ns.map .number) :
    operands.mapM (Operand.number operation) = .ok ns := by
  induction ns generalizing operands with
  | nil =>
    obtain rfl : operands = [] := List.map_eq_nil_iff.1 h
    rfl
  | cons x ns ih =>
    obtain ⟨⟨sp, v⟩, operands, rfl, rfl, hrest⟩ := List.map_eq_cons_iff.1 h
    rw [List.mapM_cons, ih hrest]
    rfl

/-- A size within the ceiling passes. -/
theorem checkArray_within {n : Nat} (h : n ≤ limits.arraySize) :
    ensure (limits.checkArray n) = .ok () :=
  ensure_ok_iff.2 (ensureAtMost_eq_ok_iff.2 h)

namespace Builtin

variable {b : Builtin} {sp : Span}

/-- The elements of an array within the ceiling. -/
theorem elements_array (h : items.length ≤ limits.arraySize) :
    b.elements limits ⟨sp, .array items⟩ = .ok items := by
  change (ensure (limits.checkArray items.length) >>= fun _ => pure items) = _
  rw [checkArray_within h]
  rfl

/-- A function compares the numbers of its arguments by a choice between two of them. -/
def Compares (b : Builtin) (choose : Float → Float → Float) : Prop :=
  ∀ limits operands, b.apply limits operands = (b.comparands limits operands).map (best choose)

theorem compares_max : Compares .max larger := fun limits operands => by
  rw [apply]
  cases comparands .max limits operands <;> rfl

theorem compares_min : Compares .min smaller := fun limits operands => by
  rw [apply]
  cases comparands .min limits operands <;> rfl

/-- **An only argument that is an array** is compared by the numbers in it. -/
theorem comparands_array (h : items.length ≤ limits.arraySize) :
    b.comparands limits [⟨sp, .array items⟩] = .ok (Value.numbers items) := by
  change (ensure (limits.checkArray items.length) >>= fun _ => pure (Value.numbers items)) = _
  rw [checkArray_within h]
  rfl

/-- **Arguments that are numbers** are compared themselves. A single one is told from an array by
its value. -/
theorem comparands_numbers (h : operands.map (·.value) = ns.map .number) :
    b.comparands limits operands = .ok ns := by
  unfold comparands
  split
  · -- a single array is no number
    cases ns with
    | nil => cases h
    | cons x ns => cases (List.cons.inj h).1
  · exact mapM_number h

end Builtin

end Arrays

theorem best_eq_number (choose : Float → Float → Float) {ns : List Float} (h : ns ≠ []) :
    ∃ x, best choose ns = .number x := by
  cases ns with
  | nil => exact absurd rfl h
  | cons x ns => exact ⟨_, rfl⟩

namespace Evaluation

variable {ev : Evaluation} {sp nameSpan : Span} {b : Builtin} {es : List Expr} {ns : List Float}
  {items : List Value}

theorem eval_call {operands : List Operand} (h : ev.evalAll es = .ok operands) :
    ev.eval (.call sp nameSpan b.name es) = b.apply ev.limits operands := by
  rw [eval, Builtin.ofName?_eq_some_iff.2 rfl, h]
  rfl

/-- A call with one argument. -/
theorem eval_call_one {arg : Expr} {v : Value} (h : ev.eval arg = .ok v) :
    ev.eval (.call sp nameSpan b.name [arg]) = b.apply ev.limits [⟨arg.span, v⟩] := by
  refine eval_call ?_
  rw [evalAll, evalAll, h]
  rfl

/-- Numbers that are written out evaluate to themselves. -/
theorem evalAll_numbers (ev : Evaluation) (h : Forall₂ Expr.IsNumber es ns) :
    ∃ operands, ev.evalAll es = .ok operands ∧ operands.map (·.value) = ns.map .number := by
  induction h with
  | nil => exact ⟨[], rfl, rfl⟩
  | @cons e x es ns he _ ih =>
    obtain ⟨sp, rfl⟩ := he
    obtain ⟨operands, hoperands, hvalues⟩ := ih
    refine ⟨⟨sp, .number x⟩ :: operands, ?_, congrArg (Value.number x :: ·) hvalues⟩
    rw [evalAll, eval, hoperands]
    rfl

/-- **A sum written out.** -/
theorem eval_addChain_numbers {zeroSpan : Span} {rest : List (Span × Expr)}
    (h : Forall₂ Expr.IsNumber (rest.map (·.2)) ns) :
    ev.eval (.addChain (.number zeroSpan 0) rest) = .ok (.number (ns.foldl (· + ·) 0)) := by
  obtain ⟨operands, hoperands, hvalues⟩ := evalAll_numbers ev h
  have hzero : ev.eval (.number zeroSpan 0) = .ok (.number 0) := rfl
  have hnumbers : ∀ v ∈ operands.map (·.value), v.IsScalar ∧ v.isString = false := by
    rw [hvalues]
    exact List.forall_mem_map.2 fun _ _ => ⟨trivial, rfl⟩
  rw [eval_addChain_of_scalars hzero trivial hoperands
      fun o ho => (hnumbers _ (List.mem_map_of_mem ho)).1,
    Value.foldl_plus_number fun v hv => (hnumbers v hv).2, hvalues, List.foldl_map]
  rfl

variable {choose : Float → Float → Float}

/-- **A comparison written out.** -/
theorem eval_call_numbers (hb : b.Compares choose) (h : Forall₂ Expr.IsNumber es ns) :
    ev.eval (.call sp nameSpan b.name es) = .ok (best choose ns) := by
  obtain ⟨operands, hoperands, hvalues⟩ := evalAll_numbers ev h
  rw [eval_call hoperands, hb, Builtin.comparands_numbers hvalues]
  rfl

variable {arg : Expr}

/-- The comparison of the numbers in an array. -/
theorem eval_call_array (hb : b.Compares choose) (harg : ev.eval arg = .ok (.array items))
    (h : items.length ≤ ev.limits.arraySize) :
    ev.eval (.call sp nameSpan b.name [arg]) = .ok (best choose (Value.numbers items)) := by
  rw [eval_call_one harg, hb, Builtin.comparands_array h]
  rfl

theorem eval_sum_array (harg : ev.eval arg = .ok (.array items))
    (h : items.length ≤ ev.limits.arraySize) :
    ev.eval (.call sp nameSpan Builtin.sum.name [arg]) =
      .ok (.number ((Value.numbers items).foldl (· + ·) 0)) := by
  rw [eval_call_one harg, Builtin.apply, Builtin.elements_array h]
  rfl

theorem eval_count_array (harg : ev.eval arg = .ok (.array items))
    (h : items.length ≤ ev.limits.arraySize) :
    ev.eval (.call sp nameSpan Builtin.count.name [arg]) =
      .ok (.number (Float.ofNat items.length)) := by
  rw [eval_call_one harg, Builtin.apply, Builtin.elements_array h]
  rfl

/-- **The functions of arrays.** Of an array within the ceiling, whatever stands between its
numbers,

* the sum is that of zero and the numbers, written out as additions from the left;
* the maximum and the minimum are those of the numbers, written out as arguments; without a number
  there is none;
* the count is the number of all elements.

Of an array above the ceiling there is neither; all four report its length. -/
theorem eval_aggregates (harg : ev.eval arg = .ok (.array items)) (sp nameSpan : Span) :
    (items.length ≤ ev.limits.arraySize →
      ∀ ns, items.filter Value.isNumber = ns.map .number →
        (∀ zeroSpan rest, Forall₂ Expr.IsNumber (rest.map Prod.snd) ns → ∃ x,
          ev.eval (.call sp nameSpan "sum" [arg]) = .ok (.number x) ∧
          ev.eval (.addChain (.number zeroSpan 0) rest) = .ok (.number x)) ∧
        (∀ name ∈ ["max", "min"],
          (ns = [] → ev.eval (.call sp nameSpan name [arg]) = .ok .undefined) ∧
          ∀ sp' nameSpan' args, args ≠ [] → Forall₂ Expr.IsNumber args ns → ∃ x,
            ev.eval (.call sp nameSpan name [arg]) = .ok (.number x) ∧
            ev.eval (.call sp' nameSpan' name args) = .ok (.number x)) ∧
        ev.eval (.call sp nameSpan "count" [arg]) = .ok (.number (Float.ofNat items.length))) ∧
    (ev.limits.arraySize < items.length → ∀ name ∈ ["sum", "max", "min", "count"],
      ev.eval (.call sp nameSpan name [arg]) =
        .error (.limit (.arraySize items.length ev.limits.arraySize))) := by
  refine ⟨fun hsize ns hns => ?within, fun hsize name hname => ?above⟩
  case within =>
    obtain rfl := Value.numbers_eq_of_filter hns
    -- the maximum and the minimum differ in the choice only
    have hcompare {b : Builtin} {choose : Float → Float → Float} (hb : b.Compares choose) :
        (Value.numbers items = [] →
          ev.eval (.call sp nameSpan b.name [arg]) = .ok .undefined) ∧
        ∀ sp' nameSpan' args, args ≠ [] → Forall₂ Expr.IsNumber args (Value.numbers items) → ∃ x,
          ev.eval (.call sp nameSpan b.name [arg]) = .ok (.number x) ∧
          ev.eval (.call sp' nameSpan' b.name args) = .ok (.number x) := by
      rw [eval_call_array hb harg hsize]
      refine ⟨fun hnone => by rw [hnone]; rfl, fun sp' nameSpan' args hne hargs => ?_⟩
      have hsome : Value.numbers items ≠ [] := by
        rintro hnone
        rw [hnone] at hargs
        exact hne (List.forall₂_nil_right_iff.1 hargs)
      obtain ⟨x, hx⟩ := best_eq_number choose hsome
      exact ⟨x, congrArg Except.ok hx, by rw [eval_call_numbers hb hargs, hx]⟩
    refine ⟨fun zeroSpan rest hrest => ?_, ?_, eval_count_array harg hsize⟩
    · exact ⟨_, eval_sum_array harg hsize, eval_addChain_numbers hrest⟩
    · simp only [List.forall_mem_cons]
      exact ⟨hcompare Builtin.compares_max, hcompare Builtin.compares_min, List.forall_mem_nil _⟩
  case above =>
    have hlarge {b : Builtin} (hb : b ≠ .abs) : ev.eval (.call sp nameSpan b.name [arg]) =
        .error (.limit (.arraySize items.length ev.limits.arraySize)) := by
      rw [eval_call_one harg, Builtin.apply_large hb hsize]
    revert name
    simp only [List.forall_mem_cons]
    exact ⟨hlarge (b := .sum) nofun, hlarge (b := .max) nofun, hlarge (b := .min) nofun,
      hlarge (b := .count) nofun, List.forall_mem_nil _⟩

/-- Elements of other kinds are counted only; as operands, the boolean would be one. -/
theorem eval_aggregates_mixed :
    let ev : Evaluation := ⟨{},
      .object [("a", .array [.number 1, .bool true, .number 2.5, .string "x", .null])]⟩
    let sp := Expr.noSpan
    let written := [Expr.number sp 1, Expr.number sp 2.5]
    (∃ x, ev.eval (.call sp sp "sum" [.var sp "a"]) = .ok (.number x) ∧
      ev.eval (.addChain (.number sp 0) (written.map (sp, ·))) = .ok (.number x)) ∧
    (∃ x, ev.eval (.call sp sp "max" [.var sp "a"]) = .ok (.number x) ∧
      ev.eval (.call sp sp "max" written) = .ok (.number x)) ∧
    ev.eval (.call sp sp "count" [.var sp "a"]) = .ok (.number 5) := by
  intro ev sp written
  have harray : ev.eval (.var sp "a") =
      .ok (.array [.number 1, .bool true, .number 2.5, .string "x", .null]) := by
    have hname : checkName "a" = .ok () := checkName_eq_ok.2 (by decide)
    rw [eval, hname]
    rfl
  have hwritten : Forall₂ Expr.IsNumber written [1, 2.5] :=
    .cons ⟨sp, rfl⟩ (.cons ⟨sp, rfl⟩ .nil)
  have hsize : 5 ≤ ev.limits.arraySize := by simp [ev]
  obtain ⟨hsum, hcompare, hcount⟩ := (eval_aggregates harray sp sp).1 hsize [1, 2.5] rfl
  exact ⟨hsum sp (written.map (sp, ·)) hwritten,
    (hcompare "max" (by simp)).2 sp sp written (by simp [written]) hwritten, hcount⟩

end Evaluation

end FormCalc
