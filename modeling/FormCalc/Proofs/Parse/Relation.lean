import FormCalc.Proofs.Parse.Run
import FormCalc.Proofs.Result

/-!
# Relations between parses

What holds of two runs of the parser, under two assignments, is shown of the steps of the parser and
of sequences; the rules are put together from these.

* `Congruence`: what has to be shown of a relation between parses.
* `Congruence.expression`, `Congruence.formula`: then it holds of expressions and of formulas.
-/

namespace FormCalc

open Parse

/-- What has to be shown of a relation between parses under two assignments. Errors that pass no
ceiling are raised in several places; they only depend on the span of a token that was in hand,
which is met. -/
structure Congruence (a a' : Assignment) (met : Span → Prop)
    (rel : (α : Type) → Parse α → Parse α → Prop) : Prop where
  pure : ∀ {α : Type} (x : α), rel α (Pure.pure x) (Pure.pure x)
  bind : ∀ {α β : Type} {p p' : Parse α} {f f' : α → Parse β}, rel α p p' →
    (∀ x, rel β (f x) (f' x)) → rel β (p >>= f) (p' >>= f')
  lift : ∀ {α : Type} {r : Except FormulaError α},
    (∀ err, r = .error err → ¬err.IsCeiling ∧ err.RaisedAt met) →
    rel α (Parse.lift r) (Parse.lift r)
  fault : ∀ {α : Type} (f : Fault), rel α (Parse.fault f) (Parse.fault f)
  current : ∀ {β : Type} {f f' : Token → Parse β}, (∀ t, met t.span → rel β (f t) (f' t)) →
    rel β (Parse.current >>= f) (Parse.current >>= f')
  symbol? : rel (Option Symbol) Parse.symbol? Parse.symbol?
  steps : rel Nat Parse.steps Parse.steps
  lastStop : rel Nat Parse.lastStop Parse.lastStop
  advance : rel Unit (Parse.advance a) (Parse.advance a')
  countNode : rel Unit (Parse.countNode a) (Parse.countNode a')
  nested : ∀ {p p' : Parse Expr}, rel Expr p p' →
    rel Expr (Parse.nested a p) (Parse.nested a' p')

section Raised

variable {met : Span → Prop} {err : FormulaError}

/-- A name is refused without passing a ceiling. -/
theorem raised_of_checkName {name : String}
    (h : FormCalc.ensure (checkName name) = .error err) :
    ¬err.IsCeiling ∧ err.RaisedAt met := by
  obtain ⟨_, he, rfl⟩ := ensure_error_iff.1 h
  obtain ⟨-, rfl⟩ := checkName_eq_error_iff.1 he
  exact ⟨id, .limit _⟩

/-- The number of arguments is refused at the name. -/
theorem raised_of_checkArity {sp : Span} {name : String} {b : Builtin} {n : Nat}
    (hsp : met sp) (h : checkArity sp name b n = .error err) :
    ¬err.IsCeiling ∧ err.RaisedAt met := by
  unfold checkArity at h
  split at h
  · simp at h
  · simp only [Except.error.injEq] at h
    rw [← h]
    exact ⟨id, .of_site hsp rfl⟩

/-- A literal is refused at its token. -/
theorem raised_of_value {t : Token} (ht : met t.span) (h : t.value = .error err) :
    ¬err.IsCeiling ∧ err.RaisedAt met := by
  unfold Token.value at h
  split at h
  · simp at h
  · simp only [Except.error.injEq] at h
    rw [← h]
    exact ⟨id, .of_site ht rfl⟩

end Raised

namespace Congruence

variable {a a' : Assignment} {met : Span → Prop}
  {rel : (α : Type) → Parse α → Parse α → Prop} {p p' : Parse Expr}

theorem close (hc : Congruence a a' met rel) (c : Construct) :
    rel Unit (Parse.close a c) (Parse.close a' c) := by
  refine hc.bind hc.symbol? fun o => ?_
  split
  · exact hc.advance
  · exact hc.fault _

/-- An identifier, and what comes behind it, for which its span has been met. -/
theorem ident (hc : Congruence a a' met rel) {β : Type} {f f' : Span × String → Parse β}
    (hf : ∀ x, met x.1 → rel β (f x) (f' x)) :
    rel β (Parse.ident a >>= f) (Parse.ident a' >>= f') := by
  unfold Parse.ident
  rw [bind_assoc, bind_assoc]
  refine hc.current fun t ht => ?_
  split
  · simp only [bind_assoc, pure_bind]
    exact hc.bind (hc.lift fun err => raised_of_checkName) fun _ =>
      hc.bind hc.advance fun _ => hf _ ht
  · -- behind the fault nothing is left to do
    exact hc.fault _

theorem arguments (hc : Congruence a a' met rel) (hp : rel Expr p p') (n : Nat) :
    rel (List Expr) (Parse.arguments a p n) (Parse.arguments a' p' n) := by
  induction n with
  | zero => exact hc.fault _
  | succ n ih =>
    refine hc.bind (hc.nested hp) fun e => hc.bind hc.symbol? fun o => ?_
    split
    · exact hc.bind hc.advance fun _ => hc.bind ih fun _ => hc.pure _
    · exact hc.pure _

theorem callArguments (hc : Congruence a a' met rel) (hp : rel Expr p p') :
    rel (List Expr) (Parse.callArguments a p) (Parse.callArguments a' p') := by
  refine hc.bind hc.symbol? fun o => ?_
  split
  · exact hc.pure _
  · exact hc.bind hc.steps fun n => hc.arguments hp n

theorem call (hc : Congruence a a' met rel) (hp : rel Expr p p') {sp : Span} (hsp : met sp)
    (name : String) : rel Expr (Parse.call a p sp name) (Parse.call a' p' sp name) := by
  unfold Parse.call
  cases Builtin.ofName? name with
  | none =>
    refine hc.lift (r := .error _) fun err h => ?_
    simp only [Except.error.injEq] at h
    rw [← h]
    exact ⟨id, .of_site hsp rfl⟩
  | some b =>
    refine hc.bind hc.advance fun _ => hc.bind (hc.callArguments hp) fun args => ?_
    refine hc.bind (hc.close _) fun _ => hc.bind ?_ fun _ => hc.bind hc.countNode fun _ =>
      hc.bind hc.lastStop fun _ => hc.pure _
    exact hc.lift fun err => raised_of_checkArity hsp

theorem primary (hc : Congruence a a' met rel) (hp : rel Expr p p') :
    rel Expr (Parse.primary a p) (Parse.primary a' p') := by
  have hvalue : ∀ t : Token, met t.span → rel String (Parse.lift t.value) (Parse.lift t.value) :=
    fun t ht => hc.lift fun err => raised_of_value ht
  refine hc.current fun t ht => ?_
  split
  · exact hc.bind hc.countNode fun _ => hc.bind hc.advance fun _ => hc.pure _
  · exact hc.bind hc.countNode fun _ => hc.bind (hvalue t ht) fun _ =>
      hc.bind hc.advance fun _ => hc.pure _
  · exact hc.bind hc.countNode fun _ => hc.bind (hvalue t ht) fun _ =>
      hc.bind hc.advance fun _ => hc.pure _
  · refine hc.ident fun x hx => hc.bind hc.symbol? fun o => ?_
    split
    · exact hc.call hp hx _
    · exact hc.bind hc.countNode fun _ => hc.pure _
  · exact hc.bind hc.advance fun _ => hc.bind (hc.nested hp) fun _ =>
      hc.bind (hc.close _) fun _ => hc.pure _
  · exact hc.fault _
  · exact hc.fault _

theorem references (hc : Congruence a a' met rel) (hp : rel Expr p p') (n : Nat) (e : Expr) :
    rel Expr (Parse.references a p n e) (Parse.references a' p' n e) := by
  induction n generalizing e with
  | zero => exact hc.pure _
  | succ n ih =>
    refine hc.bind hc.symbol? fun o => ?_
    split
    · exact hc.bind hc.advance fun _ => hc.ident fun _ _ =>
        hc.bind hc.countNode fun _ => hc.bind hc.lastStop fun _ => ih _
    · exact hc.bind hc.advance fun _ => hc.bind (hc.nested hp) fun _ =>
        hc.bind (hc.close _) fun _ => hc.bind hc.countNode fun _ =>
          hc.bind hc.lastStop fun _ => ih _
    · exact hc.pure _

theorem postfixed (hc : Congruence a a' met rel) (hp : rel Expr p p') :
    rel Expr (Parse.postfixed a p) (Parse.postfixed a' p') :=
  hc.bind (hc.primary hp) fun _ => hc.bind hc.steps fun _ => hc.references hp _ _

theorem unary (hc : Congruence a a' met rel) (hp : rel Expr p p') :
    rel Expr (Parse.unary a p) (Parse.unary a' p') := by
  refine hc.current fun t _ => ?_
  split
  · exact hc.bind hc.advance fun _ => hc.bind (hc.postfixed hp) fun _ =>
      hc.bind hc.countNode fun _ => hc.bind hc.lastStop fun _ => hc.pure _
  · exact hc.postfixed hp

theorem exponents (hc : Congruence a a' met rel) (hp : rel Expr p p') (n : Nat) :
    rel (List Expr) (Parse.exponents a p n) (Parse.exponents a' p' n) := by
  induction n with
  | zero => exact hc.pure _
  | succ n ih =>
    refine hc.bind hc.symbol? fun o => ?_
    split
    · exact hc.bind hc.advance fun _ => hc.bind (hc.unary hp) fun _ =>
        hc.bind hc.countNode fun _ => hc.bind ih fun _ => hc.pure _
    · exact hc.pure _

theorem power (hc : Congruence a a' met rel) (hp : rel Expr p p') :
    rel Expr (Parse.power a p) (Parse.power a' p') :=
  hc.bind (hc.unary hp) fun _ => hc.bind hc.steps fun _ =>
    hc.bind (hc.exponents hp _) fun _ => hc.pure _

theorem chain (hc : Congruence a a' met rel) (hp : rel Expr p p')
    (operator? : Symbol → Option ArithOp) (n : Nat) (e : Expr) :
    rel Expr (Parse.chain a operator? p n e) (Parse.chain a' operator? p' n e) := by
  induction n generalizing e with
  | zero => exact hc.pure _
  | succ n ih =>
    refine hc.bind hc.symbol? fun o => ?_
    split
    · exact hc.bind hc.advance fun _ => hc.bind hp fun _ => hc.bind hc.countNode fun _ => ih _
    · exact hc.pure _

theorem product (hc : Congruence a a' met rel) (hp : rel Expr p p') :
    rel Expr (Parse.product a p) (Parse.product a' p') :=
  hc.bind (hc.power hp) fun _ => hc.bind hc.steps fun _ => hc.chain (hc.power hp) _ _ _

theorem sum (hc : Congruence a a' met rel) (hp : rel Expr p p') :
    rel Expr (Parse.sum a p) (Parse.sum a' p') :=
  hc.bind (hc.product hp) fun _ => hc.bind hc.steps fun _ => hc.chain (hc.product hp) _ _ _

/-- **What holds of the steps holds of an expression**, however deep brackets may be nested. The
induction is on the fuel, of which each bracket takes one. -/
theorem expressionWithin (hc : Congruence a a' met rel) (n : Nat) :
    rel Expr (Parse.expressionWithin a n) (Parse.expressionWithin a' n) := by
  induction n with
  | zero => exact hc.fault _
  | succ n ih => exact hc.sum ih

theorem expression (hc : Congruence a a' met rel) :
    rel Expr (Parse.expression a) (Parse.expression a') :=
  hc.bind hc.steps fun n => hc.expressionWithin n

/-- **What holds of the steps holds of a formula.** -/
theorem formula (hc : Congruence a a' met rel) :
    rel Expr (Parse.formula a) (Parse.formula a') := by
  refine hc.current fun t _ => ?_
  split
  · exact hc.fault _
  · refine hc.bind (hc.nested hc.expression) fun e => hc.current fun t _ => ?_
    split
    · exact hc.pure _
    · exact hc.fault _

end Congruence

end FormCalc
