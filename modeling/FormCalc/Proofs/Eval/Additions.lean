import FormCalc.Proofs.Eval.Simulation

/-!
# Chains of additions

An addition of two values without elements or members is a sum of numbers or a joined text. A chain
joins from its first string on and never adds again.

* `Value.plus`: the addition of two scalars, `Value.total`, `Value.lead`: what a chain comes to
  without a string, and in front of its first string.
* `ArithOp.apply_add`, `ArithOp.apply_add_left`, `ArithOp.apply_add_right`: what one addition does.
* `Evaluation.eval_addChain_of_scalars`, `Evaluation.eval_addChain_mismatch`: what a chain does.
* `Evaluation.eval_addChain`: a chain adds, then joins, and fails at an array or an object.
-/

namespace FormCalc

/-- A chain of additions, from the left. Each operand behind the first one stands with the span of
its addition. -/
def Expr.addChain (first : Expr) (rest : List (Span × Expr)) : Expr :=
  rest.foldl (fun lhs next => .arith next.1 .add lhs next.2) first

namespace Value

/-- What a value counts as in a sum. -/
def addend : Value → Float
  | .number x => x
  | .bool b => if b then 1 else 0
  | _ => 0

/-- What a value is in a joined text. -/
def joined : Value → String
  | .string s => s
  | .number x => String.ofList (Number.plain x)
  | .bool b => if b then "true" else "false"
  | _ => ""

/-- The addition of two scalars. -/
def plus (v w : Value) : Value :=
  if v.isString ∨ w.isString then .string (v.joined ++ w.joined)
  else .number (v.addend + w.addend)

/-- The sum of what values count as, from left to right. -/
def total : List Value → Float
  | [] => 0
  | v :: vs => vs.foldl (fun x w => x + w.addend) v.addend

/-- The text of what stands in front of the first string of a chain. A single value is not added
to anything, so it is joined as it is. -/
def lead : List Value → String
  | [] => ""
  | [v] => v.joined
  | v :: w :: vs => (Value.number (total (v :: w :: vs))).joined

/-- The texts of values, one behind the other. -/
def texts (vs : List Value) : String :=
  String.join (vs.map joined)

section Plus

variable {v w : Value} {vs : List Value}

theorem plus_of_isString (h : v.isString ∨ w.isString) :
    v.plus w = .string (v.joined ++ w.joined) :=
  if_pos h

theorem plus_string (s : String) : v.plus (.string s) = .string (v.joined ++ s) :=
  plus_of_isString (.inr rfl)

theorem plus_of_not_isString (hv : v.isString = false) (hw : w.isString = false) :
    v.plus w = .number (v.addend + w.addend) :=
  if_neg (by simp [hv, hw])

theorem isScalar_plus : (v.plus w).IsScalar := by
  unfold plus
  split <;> trivial

/-- Without a string, a number is only added to. -/
theorem foldl_plus_number (hvs : ∀ w ∈ vs, w.isString = false) (x : Float) :
    vs.foldl plus (.number x) = .number (vs.foldl (fun x w => x + w.addend) x) := by
  induction vs generalizing x with
  | nil => rfl
  | cons w vs ih =>
    have hplus : (Value.number x).plus w = .number (x + w.addend) :=
      plus_of_not_isString rfl (hvs w (by simp))
    rw [List.foldl_cons, hplus, ih fun u hu => hvs u (by simp [hu]), List.foldl_cons]

/-- **Numbers are added as long as there is no string.** -/
theorem foldl_plus_total (hv : v.isString = false) (hw : w.isString = false)
    (hvs : ∀ u ∈ vs, u.isString = false) :
    (w :: vs).foldl plus v = .number (total (v :: w :: vs)) := by
  rw [List.foldl_cons, plus_of_not_isString hv hw, foldl_plus_number hvs]
  rfl

/-- **To a string, everything is joined.** -/
theorem foldl_plus_string (s : String) (vs : List Value) :
    vs.foldl plus (.string s) = .string (s ++ texts vs) := by
  induction vs generalizing s with
  | nil => simp [texts]
  | cons w vs ih =>
    have hplus : (Value.string s).plus w = .string (s ++ w.joined) := plus_of_isString (.inl rfl)
    rw [List.foldl_cons, hplus, ih, String.append_assoc]
    simp [texts, String.join_cons]

/-- **The first string** is joined to what stands in front of it. -/
theorem foldl_plus_lead {front back : List Value} {s : String}
    (hfront : ∀ u ∈ front, u.isString = false) (h : v :: vs = front ++ .string s :: back) :
    vs.foldl plus v = .string (lead front ++ s ++ texts back) := by
  match front with
  | [] =>
    obtain ⟨rfl, rfl⟩ := List.cons.inj h
    rw [foldl_plus_string, lead, String.empty_append]
  | [u] =>
    obtain ⟨rfl, rfl⟩ : v = u ∧ vs = .string s :: back := by simpa using h
    rw [List.foldl_cons, plus_string, foldl_plus_string, lead]
  | u :: t :: front =>
    obtain ⟨rfl, rfl⟩ : v = u ∧ vs = t :: front ++ .string s :: back := by simpa using h
    simp only [List.forall_mem_cons] at hfront
    rw [List.foldl_append, foldl_plus_total hfront.1 hfront.2.1 hfront.2.2, List.foldl_cons,
      plus_string, foldl_plus_string, lead]

end Plus

end Value

section Operands

variable {operation : String} {v : Value} {sp : Span}

/-- A scalar that is no string counts as a number. -/
theorem Operand.number_of_isScalar (h : v.IsScalar) (hs : v.isString = false) :
    (Operand.mk sp v).number operation = .ok v.addend := by
  cases v with
  | array | object => exact absurd h id
  | string s => exact absurd hs (by simp [Value.isString])
  | _ => rfl

/-- A scalar has a text. -/
theorem Operand.text_of_isScalar (h : v.IsScalar) :
    (Operand.mk sp v).text operation = .ok v.joined := by
  cases v with
  | array | object => exact absurd h id
  | _ => rfl

/-- What is no scalar is no number and has no text. -/
theorem Operand.number_mismatch (h : ¬v.IsScalar) :
    (Operand.mk sp v).number operation =
      .error (.typeMismatch sp.site (.notNumeric operation v.kind)) := by
  cases v with
  | array | object => rfl
  | _ => exact absurd trivial h

theorem Operand.text_mismatch (h : ¬v.IsScalar) :
    (Operand.mk sp v).text operation =
      .error (.typeMismatch sp.site (.notText operation v.kind)) := by
  cases v with
  | array | object => rfl
  | _ => exact absurd trivial h

end Operands

/-- Why an array or an object is not added. -/
def Value.complaints (v : Value) : List Mismatch :=
  [.notNumeric ArithOp.add.symbol v.kind, .notText ArithOp.add.symbol v.kind]

namespace ArithOp

variable {v w : Value} (sp lsp rsp : Span)

/-- **The addition of two scalars.** -/
theorem apply_add (hv : v.IsScalar) (hw : w.IsScalar) :
    add.apply sp ⟨lsp, v⟩ ⟨rsp, w⟩ = .ok (v.plus w) := by
  by_cases hs : v.isString ∨ w.isString
  · rw [apply, if_pos ⟨rfl, hs⟩, Operand.text_of_isScalar hv, Operand.text_of_isScalar hw,
      Value.plus_of_isString hs]
    rfl
  · obtain ⟨hvs, hws⟩ : v.isString = false ∧ w.isString = false := by simpa using hs
    rw [apply, if_neg fun h => hs h.2, Operand.number_of_isScalar hv hvs,
      Operand.number_of_isScalar hw hws, Value.plus_of_not_isString hvs hws]
    rfl

/-- An array or an object on the left. -/
theorem apply_add_left (hv : ¬v.IsScalar) (w : Value) : ∃ complaint ∈ v.complaints,
    add.apply sp ⟨lsp, v⟩ ⟨rsp, w⟩ = .error (.typeMismatch lsp.site complaint) := by
  by_cases hs : v.isString ∨ w.isString
  · refine ⟨.notText add.symbol v.kind, by simp [Value.complaints], ?_⟩
    rw [apply, if_pos ⟨rfl, hs⟩, Operand.text_mismatch hv]
    rfl
  · refine ⟨.notNumeric add.symbol v.kind, by simp [Value.complaints], ?_⟩
    rw [apply, if_neg fun h => hs h.2, Operand.number_mismatch hv]
    rfl

/-- An array or an object on the right of a scalar. -/
theorem apply_add_right (hv : v.IsScalar) (hw : ¬w.IsScalar) : ∃ complaint ∈ w.complaints,
    add.apply sp ⟨lsp, v⟩ ⟨rsp, w⟩ = .error (.typeMismatch rsp.site complaint) := by
  by_cases hs : v.isString ∨ w.isString
  · refine ⟨.notText add.symbol w.kind, by simp [Value.complaints], ?_⟩
    rw [apply, if_pos ⟨rfl, hs⟩, Operand.text_of_isScalar hv, Operand.text_mismatch hw]
    rfl
  · -- the scalar on the left counts as a number, since it is no string
    obtain ⟨hvs, -⟩ : v.isString = false ∧ w.isString = false := by simpa using hs
    refine ⟨.notNumeric add.symbol w.kind, by simp [Value.complaints], ?_⟩
    rw [apply, if_neg fun h => hs h.2, Operand.number_of_isScalar hv hvs,
      Operand.number_mismatch hw]
    rfl

end ArithOp

namespace Evaluation

variable {ev : Evaluation} {first : Expr} {rest : List (Span × Expr)} {v : Value}
  {operands : List Operand}

theorem eval_arith {sp : Span} {op : ArithOp} {lhs rhs : Expr} {w : Value}
    (hv : ev.eval lhs = .ok v) (hw : ev.eval rhs = .ok w) :
    ev.eval (.arith sp op lhs rhs) = op.apply sp ⟨lhs.span, v⟩ ⟨rhs.span, w⟩ := by
  rw [eval, hv, hw]
  rfl

/-- Operands are expressions that evaluate one after the other. -/
theorem evalAll_cons_ok {e : Expr} {es : List Expr} (h : ev.evalAll (e :: es) = .ok operands) :
    ∃ v tail, operands = ⟨e.span, v⟩ :: tail ∧ ev.eval e = .ok v ∧ ev.evalAll es = .ok tail := by
  rw [evalAll] at h
  obtain ⟨v, hv, h⟩ := bind_ok_iff.1 h
  obtain ⟨tail, htail, h⟩ := bind_ok_iff.1 h
  exact ⟨v, tail, (pure_ok_iff.1 h).symm, hv, htail⟩

/-- A chain fails where its first operand does. -/
theorem eval_addChain_error {err : FormulaError} (h : ev.eval first = .error err)
    (rest : List (Span × Expr)) : ev.eval (first.addChain rest) = .error err := by
  induction rest generalizing first with
  | nil => exact h
  | cons next rest ih =>
    have hnext : ev.eval (.arith next.1 .add first next.2) = .error err := by
      rw [eval, h]
      rfl
    exact ih hnext

/-- **A chain of scalars adds them up from the left.** The induction is on the operands; what was
added so far is the first operand of the rest. -/
theorem eval_addChain_of_scalars (hfirst : ev.eval first = .ok v) (hv : v.IsScalar)
    (hrest : ev.evalAll (rest.map (·.2)) = .ok operands)
    (hoperands : ∀ o ∈ operands, o.value.IsScalar) :
    ev.eval (first.addChain rest) = .ok ((operands.map (·.value)).foldl Value.plus v) := by
  induction rest generalizing first v operands with
  | nil =>
    obtain rfl : [] = operands := pure_ok_iff.1 hrest
    exact hfirst
  | cons next rest ih =>
    obtain ⟨w, tail, rfl, hw, htail⟩ := evalAll_cons_ok hrest
    obtain ⟨hscalar, htailScalar⟩ := List.forall_mem_cons.1 hoperands
    have hnext : ev.eval (.arith next.1 .add first next.2) = .ok (v.plus w) := by
      rw [eval_arith hfirst hw, ArithOp.apply_add _ _ _ hv hscalar]
    rw [List.map_cons, List.foldl_cons]
    exact ih hnext Value.isScalar_plus htail htailScalar

/-- **A chain fails at the first operand that is no scalar.** -/
theorem eval_addChain_mismatch (hfirst : ev.eval first = .ok v) (hv : v.IsScalar)
    (hrest : ev.evalAll (rest.map (·.2)) = .ok operands)
    (hoperands : ∃ o ∈ operands, ¬o.value.IsScalar) :
    ∃ front o back, operands = front ++ o :: back ∧ (∀ p ∈ front, p.value.IsScalar) ∧
      ¬o.value.IsScalar ∧ ∃ complaint ∈ o.value.complaints,
        ev.eval (first.addChain rest) = .error (.typeMismatch o.span.site complaint) := by
  induction rest generalizing first v operands with
  | nil =>
    obtain rfl : [] = operands := pure_ok_iff.1 hrest
    simp at hoperands
  | cons next rest ih =>
    obtain ⟨w, tail, rfl, hw, htail⟩ := evalAll_cons_ok hrest
    by_cases hscalar : w.IsScalar
    · -- what is added so far is a scalar, so the mismatch is among the operands behind it
      have hnext : ev.eval (.arith next.1 .add first next.2) = .ok (v.plus w) := by
        rw [eval_arith hfirst hw, ArithOp.apply_add _ _ _ hv hscalar]
      have hlater : ∃ o ∈ tail, ¬o.value.IsScalar :=
        ((List.exists_mem_cons_iff _ _ _).1 hoperands).resolve_left (not_not.2 hscalar)
      obtain ⟨front, o, back, rfl, hfront, herror⟩ := ih hnext Value.isScalar_plus htail hlater
      exact ⟨⟨_, w⟩ :: front, o, back, rfl, by simpa using ⟨hscalar, hfront⟩, herror⟩
    · obtain ⟨complaint, hcomplaint, herror⟩ :=
        ArithOp.apply_add_right next.1 first.span next.2.span hv hscalar
      rw [← eval_arith hfirst hw] at herror
      exact ⟨[], ⟨_, w⟩, tail, rfl, by simp, hscalar, complaint, hcomplaint,
        eval_addChain_error herror rest⟩

/-- **Chains of additions.** In a chain of two or more operands that all have values,

* without a string, an array or an object, what the operands count as is summed up from the left;
* otherwise, without an array or an object, the first string is joined to the text of what is in
  front of it, which is a sum only if it is more than one operand, and the texts of all operands
  behind it follow;
* the first array or object is reported as a mismatch. -/
theorem eval_addChain (hne : rest ≠ [])
    (h : ev.evalAll (first :: rest.map (·.2)) = .ok operands) :
    ((∀ o ∈ operands, o.value.IsScalar ∧ o.value.isString = false) →
      ev.eval (first.addChain rest) = .ok (.number (Value.total (operands.map (·.value))))) ∧
    (∀ front s back, operands.map (·.value) = front ++ .string s :: back →
      (∀ v ∈ front, v.IsScalar ∧ v.isString = false) → (∀ v ∈ back, v.IsScalar) →
      ev.eval (first.addChain rest) =
        .ok (.string (Value.lead front ++ s ++ Value.texts back))) ∧
    ((∃ o ∈ operands, ¬o.value.IsScalar) →
      ∃ front o back, operands = front ++ o :: back ∧ (∀ p ∈ front, p.value.IsScalar) ∧
        ¬o.value.IsScalar ∧ ∃ complaint ∈ o.value.complaints,
          ev.eval (first.addChain rest) = .error (.typeMismatch o.span.site complaint)) := by
  obtain ⟨next, rest, rfl⟩ := List.exists_cons_of_ne_nil hne
  obtain ⟨v, tail, rfl, hv, htail⟩ := evalAll_cons_ok h
  refine ⟨fun hall => ?numbers, fun front s back hvalues hfront hback => ?texts,
    fun hexists => ?mismatch⟩
  case numbers =>
    obtain ⟨hvalue, htailValues⟩ := List.forall_mem_cons.1 hall
    rw [eval_addChain_of_scalars hv hvalue.1 htail fun o ho => (htailValues o ho).1]
    obtain ⟨w, tail, rfl, -, -⟩ := evalAll_cons_ok htail
    obtain ⟨hw, htailValues⟩ := List.forall_mem_cons.1 htailValues
    have hstrings : ∀ u ∈ tail.map (·.value), u.isString = false :=
      List.forall_mem_map.2 fun o ho => (htailValues o ho).2
    exact congrArg Except.ok (Value.foldl_plus_total hvalue.2 hw.2 hstrings)
  case texts =>
    have hscalars : ∀ u ∈ (⟨first.span, v⟩ :: tail).map Operand.value, u.IsScalar := by
      rw [hvalues, List.forall_mem_append, List.forall_mem_cons]
      exact ⟨fun u hu => (hfront u hu).1, trivial, hback⟩
    obtain ⟨hscalar, htailScalars⟩ := List.forall_mem_cons.1 (List.forall_mem_map.1 hscalars)
    rw [eval_addChain_of_scalars hv hscalar htail htailScalars,
      Value.foldl_plus_lead (fun u hu => (hfront u hu).2) hvalues]
  case mismatch =>
    by_cases hscalar : v.IsScalar
    · have hlater : ∃ o ∈ tail, ¬o.value.IsScalar :=
        ((List.exists_mem_cons_iff _ _ _).1 hexists).resolve_left (not_not.2 hscalar)
      obtain ⟨front, o, back, rfl, hfront, herror⟩ := eval_addChain_mismatch hv hscalar htail hlater
      exact ⟨⟨_, v⟩ :: front, o, back, rfl, by simpa using ⟨hscalar, hfront⟩, herror⟩
    · -- the first operand is on the left of the first addition, whatever the second one is
      obtain ⟨w, tail, rfl, hw, -⟩ := evalAll_cons_ok htail
      obtain ⟨complaint, hcomplaint, herror⟩ :=
        ArithOp.apply_add_left next.1 first.span next.2.span hscalar w
      rw [← eval_arith hv hw] at herror
      exact ⟨[], ⟨_, v⟩, _, rfl, by simp, hscalar, complaint, hcomplaint,
        eval_addChain_error herror rest⟩

/-- Two operands in front of the first string are added up; the same operand behind it is joined as
it is. -/
theorem eval_addChain_switch :
    let ev : Evaluation := ⟨{}, .object [("a", .bool true), ("b", .null)]⟩
    let sp := Expr.noSpan
    ev.eval (Expr.addChain (.var sp "a")
      [(sp, .var sp "b"), (sp, .text sp "x"), (sp, .var sp "a")]) = .ok (.string "1xtrue") := by
  intro ev sp
  have hoperands : ev.evalAll [.var sp "a", .var sp "b", .text sp "x", .var sp "a"] =
      .ok [⟨sp, .bool true⟩, ⟨sp, .null⟩, ⟨sp, .string "x"⟩, ⟨sp, .bool true⟩] := by
    cbv
  have hrest : [(sp, Expr.var sp "b"), (sp, .text sp "x"), (sp, .var sp "a")] ≠ [] := by simp
  have hchain := (eval_addChain hrest hoperands).2.1 [.bool true, .null] "x" [.bool true] rfl
    (by simp [Value.IsScalar, Value.isString]) (by simp [Value.IsScalar])
  have htext : Value.lead [.bool true, .null] ++ "x" ++ Value.texts [.bool true] = "1xtrue" := by
    decide +kernel
  rw [htext] at hchain
  exact hchain

end Evaluation

end FormCalc
