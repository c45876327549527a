import FormCalc.Expr.Eval
import FormCalc.Proofs.Result
import FormCalc.Proofs.Tree

/-!
# Evaluation does not ask for places

The spans of a tree and the text they lie in decide where an error is reported, and nothing else.

* `FormulaError.bare`: an error without its place.
* `Alike`: two results have related values, or errors that only differ in their places.
* `Evaluation.eval_bare`: a tree without the places of its nodes evaluates alike.
* `Evaluation.eval_alike_of_bare`: so do two trees that only differ in places.
-/

namespace FormCalc

/-- A site that is no place. -/
def noSite : Site := ⟨⟨"", []⟩, 0, 0⟩

/-- The error without its place. -/
def FormulaError.bare : FormulaError → FormulaError
  | .aborted => .aborted
  | .limit e => .limit e
  | .malformed _ fault => .malformed noSite fault
  | .unknownFunction _ name stage => .unknownFunction noSite name stage
  | .argumentCount _ name arity actual => .argumentCount noSite name arity actual
  | .notParsed id => .notParsed id
  | .divisionByZero _ => .divisionByZero noSite
  | .typeMismatch _ mismatch => .typeMismatch noSite mismatch

/-- Two results are alike: they have related values, or errors that are the same without their
places. -/
def Alike {α β : Type} (R : α → β → Prop) (x : Except FormulaError α) (y : Except FormulaError β) :
    Prop :=
  Agree R (x.mapError FormulaError.bare) (y.mapError FormulaError.bare)

namespace Alike

variable {α β γ δ : Type} {R : α → β → Prop} {S : γ → δ → Prop} {x : Except FormulaError α}
  {y : Except FormulaError β}

theorem ok {a : α} {b : β} (h : R a b) : Alike R (.ok a) (.ok b) :=
  Agree.ok h

theorem error {err err' : FormulaError} (h : err.bare = err'.bare) :
    Alike R (.error err) (.error err') := by
  have herror : Agree R (.error err.bare) (.error err'.bare) := by
    rw [h]
    exact .error _
  exact herror

theorem refl (x : Except FormulaError α) : Alike Eq x x :=
  .of_eq rfl fun _ _ => rfl

/-- Alike steps behind alike results. -/
theorem bind {g : α → Except FormulaError γ} {k : β → Except FormulaError δ} (h : Alike R x y)
    (hstep : ∀ a b, R a b → Alike S (g a) (k b)) : Alike S (x >>= g) (y >>= k) := by
  have hbind : ∀ {α γ : Type} (x : Except FormulaError α) (g : α → Except FormulaError γ),
      (x >>= g).mapError FormulaError.bare =
        x.mapError FormulaError.bare >>= fun a => (g a).mapError FormulaError.bare := by
    intro α γ x g
    cases x <;> rfl
  rw [Alike, hbind, hbind]
  exact Agree.bind h hstep

/-- Results that are alike are the same without places. -/
theorem mapError_eq {y : Except FormulaError α} (h : Alike Eq x y) :
    x.mapError FormulaError.bare = y.mapError FormulaError.bare := by
  rcases h.exists_or with ⟨a, b, hx, hy, rfl⟩ | ⟨err, hx, hy⟩
  · rw [hx, hy]
  · rw [hx, hy]

theorem of_mapError_eq {y : Except FormulaError α}
    (h : x.mapError FormulaError.bare = y.mapError FormulaError.bare) : Alike Eq x y :=
  .of_eq h fun _ _ => rfl

end Alike

variable {limits limits' : Limits} {operation : String}
  {o o' lhs lhs' rhs rhs' : Operand} {args args' : List Operand}

section Operators

/-- The views of an operand are alike wherever the operand stands. -/
theorem Operand.number_alike (h : o.value = o'.value) :
    Alike Eq (o.number operation) (o'.number operation) := by
  unfold number
  rw [h]
  cases o'.value <;> first | exact .ok rfl | exact .error rfl

theorem Operand.text_alike (h : o.value = o'.value) :
    Alike Eq (o.text operation) (o'.text operation) := by
  unfold text
  rw [h]
  cases o'.value <;> first | exact .ok rfl | exact .error rfl

theorem Operand.items_alike (h : o.value = o'.value) :
    Alike Eq (o.items operation) (o'.items operation) := by
  unfold items
  rw [h]
  cases o'.value <;> first | exact .ok rfl | exact .error rfl

theorem ArithOp.apply_alike {op : ArithOp} {sp sp' : Span} (hl : lhs.value = lhs'.value)
    (hr : rhs.value = rhs'.value) :
    Alike Eq (op.apply sp lhs rhs) (op.apply sp' lhs' rhs') := by
  unfold apply
  rw [hl, hr]
  split
  · refine (Operand.text_alike hl).bind fun s s' hs => ?_
    refine (Operand.text_alike hr).bind fun t t' ht => ?_
    rw [hs, ht]
    exact .refl _
  · refine (Operand.number_alike hl).bind fun x x' hx => ?_
    refine (Operand.number_alike hr).bind fun y y' hy => ?_
    rw [hx, hy]
    cases op.compute? x' y' with
    | some z => exact .ok rfl
    | none => exact .error rfl

end Operators

section Builtins

/-- Only one of the ceilings matters to evaluation. -/
theorem checkArray_eq (h : limits.arraySize = limits'.arraySize) (n : Nat) :
    limits.checkArray n = limits'.checkArray n := by
  simp only [Limits.checkArray, h]

theorem mapM_number_alike (h : args.map Operand.value = args'.map Operand.value) :
    Alike Eq (args.mapM (Operand.number operation)) (args'.mapM (Operand.number operation)) := by
  induction args generalizing args' with
  | nil =>
    obtain rfl : args' = [] := by simpa using h.symm
    exact .ok rfl
  | cons o args ih =>
    cases args' with
    | nil => simp at h
    | cons o' args' =>
      obtain ⟨hvalue, hargs⟩ : o.value = o'.value ∧
        args.map Operand.value = args'.map Operand.value := by simpa using h
      rw [List.mapM_cons, List.mapM_cons]
      refine (Operand.number_alike hvalue).bind fun x x' hx => ?_
      refine (ih hargs).bind fun xs xs' hxs => ?_
      rw [hx, hxs]
      exact .refl _

namespace Builtin

theorem comparands_alike (b : Builtin) (hsize : limits.arraySize = limits'.arraySize)
    (h : args.map Operand.value = args'.map Operand.value) :
    Alike Eq (b.comparands limits args) (b.comparands limits' args') := by
  have hnumbers : Alike Eq (args.mapM (Operand.number b.name))
      (args'.mapM (Operand.number b.name)) := mapM_number_alike h
  -- an array is looked into only if it is the one argument
  match args, args', h with
  | [], [], _ => exact hnumbers
  | [⟨sp, v⟩], [⟨sp', v'⟩], h =>
    obtain rfl : v = v' := by simpa using h
    cases v with
    | array items =>
      simp only [comparands, checkArray_eq hsize]
      exact .refl _
    | _ => exact hnumbers
  | o :: p :: args, o' :: p' :: args', _ => simpa only [comparands] using hnumbers

theorem elements_alike (b : Builtin) (hsize : limits.arraySize = limits'.arraySize)
    (h : o.value = o'.value) :
    Alike Eq (b.elements limits o) (b.elements limits' o') := by
  unfold elements
  refine (Operand.items_alike h).bind fun items items' hitems => ?_
  rw [hitems, checkArray_eq hsize]
  exact .refl _

/-- **Functions do not ask for places.** -/
theorem apply_alike (b : Builtin) (hsize : limits.arraySize = limits'.arraySize)
    (h : args.map Operand.value = args'.map Operand.value) :
    Alike Eq (b.apply limits args) (b.apply limits' args') := by
  cases b with
  | max | min =>
    refine (comparands_alike _ hsize h).bind fun xs ys hxs => ?_
    rw [hxs]
    exact .refl _
  | abs | count | sum =>
    match args, args', h with
    | [], [], _ => exact .error rfl
    | o :: args, o' :: args', h =>
      have hvalue : o.value = o'.value := by simp_all
      first
        | refine (Operand.number_alike hvalue).bind fun x y hx => ?_
        | refine (elements_alike _ hsize hvalue).bind fun x y hx => ?_
      rw [hx]
      exact .refl _

end Builtin

end Builtins

namespace Evaluation

variable {ev ev' : Evaluation} {e e' : Expr}

theorem checkTarget_eq (hsize : ev.limits.arraySize = ev'.limits.arraySize) (v : Value) :
    ev.checkTarget v = ev'.checkTarget v := by
  cases v with
  | array items => simp only [checkTarget, checkArray_eq hsize]
  | _ => rfl

/-- Arguments one after the other, if each evaluates alike. -/
theorem evalAll_bare {es : List Expr} (h : ∀ e ∈ es, Alike Eq (ev.eval e) (ev'.eval e.bare)) :
    Alike (fun args args' => args.map Operand.value = args'.map Operand.value)
      (ev.evalAll es) (ev'.evalAll (Expr.bareAll es)) := by
  induction es with
  | nil => exact .ok rfl
  | cons e es ih =>
    rw [Expr.bareAll, evalAll, evalAll]
    refine (h e (by simp)).bind fun v w hv => ?_
    refine (ih fun x hx => h x (by simp [hx])).bind fun args args' hargs => .ok ?_
    simp only [List.map_cons, hv, hargs]

/-- **A tree evaluates alike without the places of its nodes**, in any source. The induction
follows the tree; places are used only where an error is made. -/
theorem eval_bare (hsize : ev.limits.arraySize = ev'.limits.arraySize)
    (hcontext : ev.context = ev'.context) (e : Expr) :
    Alike Eq (ev.eval e) (ev'.eval e.bare) := by
  induction e using Expr.induct with
  | number sp x | text sp s => exact .ok rfl
  | var sp name =>
    rw [Expr.bare, eval, eval, hcontext]
    exact .refl _
  | field sp target nsp name ih =>
    rw [Expr.bare, eval, eval]
    refine (Alike.refl _).bind fun _ _ _ => ih.bind fun v w hv => ?_
    rw [hv]
    exact .refl _
  | index sp target i iht ihi =>
    rw [Expr.bare, eval, eval]
    refine iht.bind fun v w hv => ?_
    rw [hv, checkTarget_eq hsize]
    refine (Alike.refl _).bind fun _ _ _ => ihi.bind fun j k hj => ?_
    rw [hj]
    exact .refl _
  | negate sp operand ih =>
    rw [Expr.bare, eval, eval]
    refine ih.bind fun v w hv => (Operand.number_alike hv).bind fun x y hx => ?_
    rw [hx]
    exact .refl _
  | arith sp op lhs rhs ihl ihr =>
    rw [Expr.bare, eval, eval]
    exact ihl.bind fun v w hv => ihr.bind fun v' w' hv' => ArithOp.apply_alike hv hv'
  | call sp nsp name args ih =>
    rw [Expr.bare, eval, eval]
    cases Builtin.ofName? name with
    | none => exact .error rfl
    | some b => exact (evalAll_bare ih).bind fun operands operands' h => b.apply_alike hsize h

/-- **Trees that only differ in places evaluate alike**, whatever the texts they lie in. -/
theorem eval_alike_of_bare (hsize : ev.limits.arraySize = ev'.limits.arraySize)
    (hcontext : ev.context = ev'.context) (h : e.bare = e'.bare) :
    Alike Eq (ev.eval e) (ev'.eval e') := by
  have hfirst := eval_bare hsize hcontext e
  have hsecond : Alike Eq (ev'.eval e') (ev'.eval e'.bare) := eval_bare rfl rfl e'
  rw [h] at hfirst
  exact .of_mapError_eq (hfirst.mapError_eq.trans hsecond.mapError_eq.symm)

end Evaluation

end FormCalc
