import FormCalc.Proofs.Confinement
import FormCalc.Proofs.Eval.Simulation

/-!
# Arrays above the ceiling are not looked into

* `Value.SameWithin`: two values are the same but for the elements of arrays above the ceiling, at
  every level.
* `comparands_eq`, `elements_agree`: functions ask for the size of an array before they look at its
  elements.
* `eval_sameWithin`: in contexts that are the same within the ceiling, an expression evaluates to
  values that are the same within the ceiling, or fails with the same error.
-/

namespace FormCalc

open List (Forall₂)

namespace Value

/-- The values are the same but for arrays of more than `n` elements. Such an array is matched with
any array of the same length. -/
inductive SameWithin (n : Nat) : Value → Value → Prop where
  | scalar {v : Value} (h : v.IsScalar) : SameWithin n v v
  | large {xs ys : List Value} (h : n < xs.length) (hlength : xs.length = ys.length) :
      SameWithin n (.array xs) (.array ys)
  | array {xs ys : List Value} (h : Forall₂ (SameWithin n) xs ys) :
      SameWithin n (.array xs) (.array ys)
  | object {ms ns : List (String × Value)} (hkeys : ms.map (·.1) = ns.map (·.1))
      (h : Forall₂ (SameWithin n) (ms.map (·.2)) (ns.map (·.2))) :
      SameWithin n (.object ms) (.object ns)

namespace SameWithin

variable {n : Nat} {v w : Value} {xs ys : List Value} {ms : List (String × Value)}

theorem outer_eq (h : v.SameWithin n w) : v.outer = w.outer := by
  cases h <;> rfl

/-- **What is matched with an array** is an array of the same length, and unless the array is too
large, their elements are the same within the ceiling. -/
theorem exists_array (h : SameWithin n (.array xs) w) :
    ∃ ys, w = .array ys ∧ xs.length = ys.length ∧
      (xs.length ≤ n → Forall₂ (SameWithin n) xs ys) := by
  cases h with
  | scalar h => exact absurd h id
  | large hlt hlength => exact ⟨_, rfl, hlength, fun hle => absurd hlt (by omega)⟩
  | array h => exact ⟨_, rfl, h.length_eq, fun _ => h⟩

/-- An object is matched with an object. -/
theorem exists_object (h : SameWithin n (.object ms) w) : ∃ ns, w = .object ns := by
  cases h with
  | scalar h => exact absurd h id
  | object _ _ => exact ⟨_, rfl⟩

theorem eq_of_isScalar (h : v.SameWithin n w) (hv : v.IsScalar) : w = v := by
  cases h with
  | scalar _ => rfl
  | large _ _ | array _ | object _ _ => exact absurd hv id

theorem undefined : SameWithin n .undefined .undefined := .scalar trivial

/-- A key is found in both or in neither. -/
theorem find? {ns : List (String × Value)} (name : String) (hkeys : ms.map (·.1) = ns.map (·.1))
    (h : Forall₂ (SameWithin n) (ms.map (·.2)) (ns.map (·.2))) :
    SameWithin n ((Table.find? name ms).getD .undefined)
      ((Table.find? name ns).getD .undefined) := by
  induction ms generalizing ns with
  | nil =>
    obtain rfl : ns = [] := List.map_eq_nil_iff.1 hkeys.symm
    exact undefined
  | cons a ms ih =>
    obtain ⟨k, v⟩ := a
    obtain ⟨⟨l, w⟩, ns, rfl, rfl, hrest⟩ := List.map_eq_cons_iff.1 hkeys.symm
    obtain ⟨hvw, hvalues⟩ := List.forall₂_cons.1 h
    rw [Table.find?, Table.find?]
    by_cases hk : l = name
    · rw [if_pos hk, if_pos hk]
      exact hvw
    · rw [if_neg hk, if_neg hk]
      exact ih hrest.symm hvalues

theorem member (h : v.SameWithin n w) (name : String) :
    (v.member name).SameWithin n (w.member name) := by
  cases h with
  | object hkeys h => exact find? name hkeys h
  | scalar h =>
    cases v with
    | array | object => exact absurd h id
    | _ => exact undefined
  | large _ _ | array _ => exact undefined

theorem element (h : Forall₂ (SameWithin n) xs ys) (i : Nat) :
    ((Value.array xs).element i).SameWithin n ((Value.array ys).element i) := by
  rw [Value.element, Value.element]
  induction h generalizing i with
  | nil => exact undefined
  | cons hab _ ih =>
    cases i with
    | zero => exact hab
    | succ i => exact ih i

theorem numbers_eq (h : Forall₂ (SameWithin n) xs ys) : numbers xs = numbers ys := by
  induction h with
  | nil => rfl
  | @cons v w xs ys hvw _ ih =>
    have hcons : ∀ (v : Value) (vs : List Value),
        numbers (v :: vs) = numbers [v] ++ numbers vs := by
      intro v vs
      have happend : numbers ([v] ++ vs) = numbers [v] ++ numbers vs := List.filterMap_append
      exact happend
    rw [hcons, hcons w, ih]
    -- a number is matched with itself only
    cases hvw <;> rfl

end SameWithin

end Value

open Value (SameWithin)

variable {limits : Limits}

/-- **A look-up in an array within the ceiling.** -/
theorem Value.SameWithin.select {v w j k : Value} {c : Value}
    (h : v.SameWithin limits.arraySize w) (hj : j.SameWithin limits.arraySize k)
    (hcheck : Evaluation.checkTarget ⟨limits, c⟩ v = .ok ()) :
    Agree (SameWithin limits.arraySize) (v.select j) (w.select k) := by
  cases v with
  | array xs =>
    obtain ⟨ys, rfl, -, hitems⟩ := h.exists_array
    have hle : xs.length ≤ limits.arraySize := ensureAtMost_eq_ok_iff.1 (ensure_ok_iff.1 hcheck)
    have helements := hitems hle
    cases j with
    | number x =>
      obtain rfl := hj.eq_of_isScalar trivial
      cases hi : Number.natural? x with
      | none =>
        simp only [Value.select, hi]
        exact .ok .undefined
      | some i =>
        simp only [Value.select, hi]
        exact .ok (.element helements i)
    | array | object => cases hj <;> exact .ok .undefined
    | _ =>
      obtain rfl := hj.eq_of_isScalar trivial
      exact .ok .undefined
  | object ms =>
    have hobject := h
    obtain ⟨ns, rfl⟩ := h.exists_object
    cases j with
    | string name =>
      obtain rfl := hj.eq_of_isScalar trivial
      change Agree _ (checkName name >>= fun _ => _) (checkName name >>= fun _ => _)
      cases checkName name with
      | error e => exact .error e
      | ok u => exact .ok (hobject.member name)
    | array | object => cases hj <;> exact .ok .undefined
    | _ =>
      obtain rfl := hj.eq_of_isScalar trivial
      exact .ok .undefined
  | _ =>
    obtain rfl := h.eq_of_isScalar trivial
    exact .ok .undefined

section Functions

variable {arg arg' : Operand} {args args' : List Operand}

theorem Operand.Related.number_eq {operation : String}
    (h : Operand.Related (SameWithin limits.arraySize) arg arg') :
    arg.number operation = arg'.number operation := by
  obtain ⟨span, v⟩ := arg
  obtain ⟨span', w⟩ := arg'
  obtain ⟨rfl, hvw⟩ : span = span' ∧ v.SameWithin limits.arraySize w := h
  exact Operand.number_eq hvw.outer_eq

/-- **Elements are taken from arrays within the ceiling only.** -/
theorem elements_agree (b : Builtin)
    (h : Operand.Related (SameWithin limits.arraySize) arg arg') :
    Agree (fun xs ys => xs.length = ys.length ∧ Value.numbers xs = Value.numbers ys)
      (b.elements limits arg) (b.elements limits arg') := by
  obtain ⟨span, v⟩ := arg
  obtain ⟨span', w⟩ := arg'
  obtain ⟨rfl, hvw⟩ : span = span' ∧ v.SameWithin limits.arraySize w := h
  cases v with
  | array xs =>
    obtain ⟨ys, rfl, hlength, hitems⟩ := hvw.exists_array
    change Agree _ (ensure (limits.checkArray xs.length) >>= fun _ => pure xs)
      (ensure (limits.checkArray ys.length) >>= fun _ => pure ys)
    rw [← hlength]
    -- behind the check the arrays have the same numbers
    cases hcheck : limits.checkArray xs.length with
    | error e => exact .error _
    | ok u =>
      have hle : xs.length ≤ limits.arraySize := ensureAtMost_eq_ok_iff.1 hcheck
      exact .ok ⟨hlength, Value.SameWithin.numbers_eq (hitems hle)⟩
  | object ms =>
    obtain ⟨ns, rfl⟩ := hvw.exists_object
    exact .error _
  | _ =>
    obtain rfl := hvw.eq_of_isScalar trivial
    exact .of_eq rfl fun _ _ => ⟨rfl, rfl⟩

/-- Several operands as numbers. -/
theorem mapM_number_eq {operation : String}
    (h : Forall₂ (Operand.Related (SameWithin limits.arraySize)) args args') :
    args.mapM (Operand.number operation) = args'.mapM (Operand.number operation) := by
  induction h with
  | nil => rfl
  | cons ho _ ih => rw [List.mapM_cons, List.mapM_cons, ho.number_eq, ih]

/-- **The numbers that are compared** are taken from an array within the ceiling, or from operands
as they are. -/
theorem comparands_eq (b : Builtin)
    (h : Forall₂ (Operand.Related (SameWithin limits.arraySize)) args args') :
    b.comparands limits args = b.comparands limits args' := by
  have hmap : args.mapM (Operand.number b.name) =
      args'.mapM (Operand.number b.name) := mapM_number_eq h
  cases h with
  | nil => rfl
  | @cons o o' rest rest' ho hrest =>
    obtain ⟨span, v⟩ := o
    obtain ⟨span', w⟩ := o'
    obtain ⟨rfl, hvw⟩ : span = span' ∧ v.SameWithin limits.arraySize w := ho
    cases v with
    | array xs =>
      obtain ⟨ys, rfl, hlength, hitems⟩ := hvw.exists_array
      cases hrest with
      | cons _ _ => exact hmap
      | nil =>
        -- the one argument is an array: its size is checked, then its numbers are taken
        change (ensure (limits.checkArray xs.length) >>= fun _ => pure (Value.numbers xs)) =
          (ensure (limits.checkArray ys.length) >>= fun _ => pure (Value.numbers ys))
        rw [← hlength]
        cases hcheck : limits.checkArray xs.length with
        | error e => rfl
        | ok u =>
          have hle : xs.length ≤ limits.arraySize := ensureAtMost_eq_ok_iff.1 hcheck
          rw [Value.SameWithin.numbers_eq (hitems hle)]
    | object ms =>
      obtain ⟨ns, rfl⟩ := hvw.exists_object
      cases hrest <;> exact hmap
    | _ =>
      obtain rfl := hvw.eq_of_isScalar trivial
      cases hrest <;> exact hmap

/-- **Functions return the same.** -/
theorem Builtin.apply_eq_of_sameWithin (b : Builtin)
    (h : Forall₂ (Operand.Related (SameWithin limits.arraySize)) args args') :
    b.apply limits args = b.apply limits args' := by
  cases b with
  | max | min =>
    change (comparands _ limits args >>= fun _ => _) = (comparands _ limits args' >>= fun _ => _)
    rw [comparands_eq _ h]
  | abs =>
    cases h with
    | nil => rfl
    | cons ho _ =>
      change (Operand.number _ _ >>= fun _ => _) = (Operand.number _ _ >>= fun _ => _)
      rw [ho.number_eq]
  | count =>
    cases h with
    | nil => rfl
    | cons ho _ =>
      refine (elements_agree .count ho).bind_eq fun xs ys hxs => ?_
      rw [hxs.1]
  | sum =>
    cases h with
    | nil => rfl
    | cons ho _ =>
      refine (elements_agree .sum ho).bind_eq fun xs ys hxs => ?_
      rw [hxs.2]

/-- The check of a size above the ceiling fails. -/
theorem checkArray_large {n : Nat} (h : limits.arraySize < n) :
    ensure (limits.checkArray n) = .error (.limit (.arraySize n limits.arraySize)) := by
  rw [Limits.checkArray, ensureAtMost, if_neg (by omega), ensure_error]

/-- Where the one argument is too large, its elements are not even asked for. -/
theorem Builtin.apply_large {b : Builtin} {items : List Value} {sp : Span} (hb : b ≠ .abs)
    (h : limits.arraySize < items.length) :
    b.apply limits [⟨sp, .array items⟩] =
      .error (.limit (.arraySize items.length limits.arraySize)) := by
  have helements (b : Builtin) : b.elements limits ⟨sp, .array items⟩ =
      .error (.limit (.arraySize items.length limits.arraySize)) := by
    change (ensure (limits.checkArray items.length) >>= fun _ => pure items) = _
    rw [checkArray_large h]
    rfl
  have hcomparands (b : Builtin) : b.comparands limits [⟨sp, .array items⟩] =
      .error (.limit (.arraySize items.length limits.arraySize)) := by
    change (ensure (limits.checkArray items.length) >>= fun _ => pure (Value.numbers items)) = _
    rw [checkArray_large h]
    rfl
  cases b with
  | abs => exact absurd rfl hb
  | max | min => rw [apply, hcomparands]; rfl
  | count | sum => rw [apply, helements]; rfl

end Functions

/-- A value of a computed kind has nothing inside of it. -/
theorem Value.isScalar_of_computed {v : Value} (h : v.kind ∈ Value.computedKinds) :
    v.IsScalar := by
  cases v with
  | array | object => simp [Value.kind, Value.computedKinds] at h
  | _ => trivial

/-- **Values that are the same within the ceiling are not told apart.** -/
theorem simulation_sameWithin (limits : Limits) :
    Simulation (SameWithin limits.arraySize) (fun b n => b.arity.accepts n = true) limits where
  scalar := fun v hv => .scalar hv
  outer := fun v w h => h.outer_eq
  member := fun v w name h _ => h.member name
  target := fun v w c c' h => by
    cases v with
    | array xs =>
      obtain ⟨ys, rfl, hlength, -⟩ := h.exists_array
      exact congrArg (fun n => ensure (limits.checkArray n)) hlength
    | object ms =>
      obtain ⟨ns, rfl⟩ := h.exists_object
      rfl
    | _ =>
      obtain rfl := h.eq_of_isScalar trivial
      rfl
  select := fun v w j k c h hj hcheck => h.select hj hcheck
  builtin := fun b args args' _ h =>
    .of_eq (b.apply_eq_of_sameWithin h) fun r hr =>
      .scalar (Value.isScalar_of_computed (Builtin.computed_apply hr))

/-- **Arrays above the ceiling are not looked into.** In two contexts that are the same but for the
elements of such arrays, at any level, an expression with accepted calls evaluates to values that
are the same but for such elements, or fails with the same error. An index into such an array is
refused for its size whatever the expression of the index is, and so is each function that looks
at elements. -/
theorem eval_sameWithin (limits : Limits) (e : Expr)
    (hcalls : ∀ x ∈ e.subtrees, x.CallsOnly fun b n => b.arity.accepts n = true) {c c' : Value}
    (h : c.SameWithin limits.arraySize c') :
    ((∃ v v', Evaluation.eval ⟨limits, c⟩ e = .ok v ∧
        Evaluation.eval ⟨limits, c'⟩ e = .ok v' ∧ v.SameWithin limits.arraySize v') ∨
      ∃ err, Evaluation.eval ⟨limits, c⟩ e = .error err ∧
        Evaluation.eval ⟨limits, c'⟩ e = .error err) ∧
    (∀ sp target i items, Evaluation.eval ⟨limits, c⟩ target = .ok (.array items) →
      limits.arraySize < items.length →
      Evaluation.eval ⟨limits, c⟩ (.index sp target i) =
        .error (.limit (.arraySize items.length limits.arraySize))) ∧
    ∀ (b : Builtin) sp items, b ≠ .abs → limits.arraySize < items.length →
      b.apply limits [⟨sp, .array items⟩] =
        .error (.limit (.arraySize items.length limits.arraySize)) := by
  refine ⟨((simulation_sameWithin limits).eval h hcalls).exists_or,
    fun sp target i items htarget hlarge => ?_,
    fun b sp items hb hlarge => Builtin.apply_large hb hlarge⟩
  rw [Evaluation.eval, htarget]
  -- the size is checked before the index is evaluated
  change (ensure (limits.checkArray items.length) >>= fun _ => _) = _
  rw [checkArray_large hlarge]
  rfl

/-- An array one element above the ceiling, with elements of other kinds in the other context, and
an index that would not have a value. -/
theorem eval_sameWithin_index :
    let limits : Limits := { arraySize := 1 }
    let c : Value := .object [("a", .array [.null, .bool true])]
    let c' : Value := .object [("a", .array [.number 1, .object []])]
    let e : Expr := .index Expr.noSpan (.var Expr.noSpan "a")
      (.call Expr.noSpan Expr.noSpan "sum" [.text Expr.noSpan "x"])
    (∀ x ∈ e.subtrees, x.CallsOnly fun b n => b.arity.accepts n = true) ∧
      c.SameWithin limits.arraySize c' ∧
      Evaluation.eval ⟨limits, c⟩ e = .error (.limit (.arraySize 2 1)) ∧
      Evaluation.eval ⟨limits, c'⟩ e = .error (.limit (.arraySize 2 1)) := by
  intro limits c c' e
  have hcalls : ∀ x ∈ e.subtrees, x.CallsOnly fun b n => b.arity.accepts n = true := by
    have hsum : ∀ b, Builtin.ofName? "sum" = some b → b.arity.accepts 1 = true := by
      intro b hb
      obtain rfl : Builtin.sum = b := by simpa [Builtin.ofName?, Builtin.all, Builtin.name] using hb
      rfl
    simp only [e, Expr.subtrees, Expr.subtreesAll, List.cons_append, List.nil_append,
      List.forall_mem_cons]
    exact ⟨trivial, trivial, hsum, trivial, List.forall_mem_nil _⟩
  have hsame : c.SameWithin limits.arraySize c' :=
    .object rfl (.cons (.large (by decide) rfl) .nil)
  obtain ⟨hboth, hindex, -⟩ := eval_sameWithin limits e hcalls hsame
  have hname : Evaluation.checkName "a" = .ok () := Evaluation.checkName_eq_ok.2 (by decide)
  have htarget : Evaluation.eval ⟨limits, c⟩ (.var Expr.noSpan "a") =
      .ok (.array [.null, .bool true]) := by
    rw [Evaluation.eval, hname]
    rfl
  have herror := hindex Expr.noSpan _ (.call Expr.noSpan Expr.noSpan "sum" [.text Expr.noSpan "x"])
    _ htarget (by decide)
  refine ⟨hcalls, hsame, herror, ?_⟩
  rcases hboth with ⟨v, v', hv, -, -⟩ | ⟨err, herr, herr'⟩
  · rw [herror] at hv
    cases hv
  · rw [herror] at herr
    obtain rfl := Except.error.inj herr
    exact herr'

end FormCalc
