import FormCalc.Proofs.Parse.Accepts

/-!
# The parser is complete

* `Accepting`: what is shown of each level by induction on derivations.
* `Derives.accepting`: the parser takes what the grammar derives, one case for each rule.
* `Derives.expression_eq_ok`: so it does with an expression that nothing goes on with.
-/

namespace FormCalc

open Progress Parse

variable {a : Assignment} {s s' : Progress} {e : Expr} {l m : Level} {ts us : List Token}

/-- A token that is a node. -/
theorem Took.leaf {t : Token} (ht : t.IsPlain) (h : Took a s [t] 1 s') :
    s.current = t ∧ ∃ u, countNode a s = .ok () u ∧ advance a u = .ok () s' := by
  have h' : Took a s ([] ++ [t]) (1 + 0) s' := h
  obtain ⟨u, h1, h2⟩ := h'.split balanced_nil
  obtain ⟨hcurrent, v, hnext, hv⟩ := h2.uncons ht
  obtain rfl := (Took.refl a v).eq_of_eq hv
  exact ⟨h1.current_eq ▸ hcurrent, u, countNode_eq_ok_iff.2 h1, hnext.advance⟩

section Primary

variable {t : Token} {sp : Span}

theorem accepts_number {v : Number.Numeral} (ht : t.lexeme = .number v)
    (node : Expr.Sound [t] (.number sp v.nearest)) :
    Accepts a .primary [t] (.number sp v.nearest) := by
  intro n s s' hn htook hstop
  obtain ⟨rfl, u, hcount, hadvance⟩ := htook.leaf (.of_number ht)
  obtain rfl : sp = _ := node.placed
  change Parse.primary a (expressionWithin a n) s = _
  rw [Parse.primary, current_bind]
  simp only [ht]
  rw [bind_of_ok hcount, bind_of_ok hadvance, pure_apply]
  rfl

theorem accepts_text {v : List Char} (ht : t.lexeme.value = .ok v)
    (node : Expr.Sound [t] (.text sp (String.ofList v))) :
    Accepts a .primary [t] (.text sp (String.ofList v)) := by
  intro n s s' hn htook hstop
  obtain ⟨rfl, u, hcount, hadvance⟩ := htook.leaf (.of_value ht)
  obtain rfl : sp = _ := node.placed
  have hvalue : lift s.current.value u = .ok (String.ofList v) u :=
    lift_eq_ok.2 ⟨by simp [Token.value, ht], rfl⟩
  change Parse.primary a (expressionWithin a n) s = _
  rw [Parse.primary, current_bind]
  cases h : s.current.lexeme with
  | doubleQuoted | singleQuoted =>
    simp only
    rw [bind_of_ok hcount, bind_of_ok hvalue, bind_of_ok hadvance, pure_apply]
    rfl
  | _ => simp [h, Lexeme.value] at ht

theorem accepts_var {name : List Char} (ht : t.lexeme = .ident name)
    (node : Expr.Sound [t] (.var sp (String.ofList name))) :
    Accepts a .primary [t] (.var sp (String.ofList name)) := by
  intro n s s' hn htook hstop
  have hplain : t.IsPlain := .of_ident ht
  obtain ⟨u, h1, hcount, hcurrent, -⟩ := htook.unnode (n := 0) hplain.balanced
  obtain ⟨rfl, v, hnext, hv⟩ := h1.uncons hplain
  obtain rfl := (Took.refl a v).eq_of_eq hv
  obtain rfl : sp = _ := node.placed
  have hident := hnext.ident (a := a) ht (node.name _ rfl)
  -- with a bracket behind it the name would be that of a function
  have hcall : v.current.lexeme.symbol? ≠ some .openParen := by
    rw [hcurrent]
    exact mt Lexeme.symbol?_eq_some.1 (hstop _ (by simp [Level.continuing]))
  change Parse.primary a (expressionWithin a n) s = _
  rw [Parse.primary, current_bind]
  simp only [ht]
  rw [bind_of_ok hident]
  simp only
  rw [symbol?_bind, if_neg hcall, bind_of_ok hcount, pure_apply]
  rfl

theorem accepts_group {d : Token} (ht : t.lexeme = .symbol .openParen) (hb : Balanced ts)
    (h : Accepts a .sum ts e) (hd : d.lexeme = .symbol .closeParen) :
    Accepts a .primary (t :: ts ++ [d]) e := by
  intro n s s' hn htook hstop
  obtain ⟨rfl, u, u', hadvance, hnested, hclose⟩ := bracketed_of_accepts (c := .group) h hb
    (.of_round ht hd) hd hn htook
  change Parse.primary a (expressionWithin a n) s = _
  rw [Parse.primary, current_bind]
  simp only [ht]
  rw [bind_of_ok hadvance, bind_of_ok hnested, bind_of_ok hclose, pure_apply]

theorem accepts_call {o d : Token} {name : List Char} {args : List (List Token × Expr)}
    {nsp : Span} (ht : t.lexeme = .ident name) (ho : o.lexeme = .symbol .openParen)
    (hsep : Separated (args.map (·.1)) us) (hargs : ∀ x ∈ args, Argument a x.1 x.2)
    (hd : d.lexeme = .symbol .closeParen)
    (node : Expr.Sound (t :: (o :: us ++ [d]))
      (.call sp nsp (String.ofList name) (args.map (·.2)))) :
    Accepts a .primary (t :: (o :: us ++ [d]))
      (.call sp nsp (String.ofList name) (args.map (·.2))) := by
  intro n s s' hn htook hstop
  have hplain : t.IsPlain := .of_ident ht
  have hlast := htook.lastStop_eq (by simp)
  rw [peak_cons hplain] at hn
  obtain ⟨rfl, u, hnext, h1⟩ := htook.uncons hplain
  obtain ⟨rfl, rfl⟩ := node.placed
  obtain ⟨b, hb, hcount⟩ := node.call
  have hident := hnext.ident (a := a) ht (node.name _ rfl)
  have hopen : u.current.lexeme.symbol? = some .openParen := by
    rw [h1.head_eq]
    exact Lexeme.symbol?_eq_some.2 ho
  have hcount' : b.arity.accepts args.length = true := by simpa using hcount
  have hcall := call_of_inside s.current.span hb hcount' ho hsep hargs hd hn h1
  change Parse.primary a (expressionWithin a n) s = _
  rw [Parse.primary, current_bind]
  simp only [ht]
  rw [bind_of_ok hident]
  simp only
  rw [symbol?_bind, if_pos hopen, hcall, hlast]
  rfl

end Primary

section Reference

variable {d : Token} {target : Expr} {sp nsp : Span}

/-- **A reference takes a field.** -/
theorem Resumes.field {t : Token} {name : List Char} (hb : Balanced ts)
    (left : Resumes a .reference .primary ts target) (hd : d.lexeme = .symbol .dot)
    (ht : t.lexeme = .ident name)
    (node : Expr.Sound (ts ++ [d, t]) (.field sp target nsp (String.ofList name))) :
    Resumes a .reference .primary (ts ++ [d, t]) (.field sp target nsp (String.ofList name)) := by
  intro n s s' hn htook hstop
  have hdot : d.IsPlain := .of_symbol hd (by decide)
  have hident : t.IsPlain := .of_ident ht
  have hlast := htook.lastStop_eq (by simp)
  rw [hb.peak_append, peak_cons hdot] at hn
  obtain ⟨u, h1, h2⟩ := Took.split (m := target.nodeCount) (n := 1) hb htook
  have hlen := h2.length_upcoming
  -- the dot, the name, and the node of both
  obtain ⟨rfl, u1, hnext1, h3⟩ := h2.uncons hdot
  obtain ⟨u2, h4, hcount, -⟩ := h3.unnode (n := 0) hident.balanced
  obtain ⟨rfl, u3, hnext2, h5⟩ := h4.uncons hident
  obtain rfl := (Took.refl a u3).eq_of_eq h5
  have hstop' : Level.primary.Stops u.current := by simp [Level.Stops, Level.continuing, hd]
  obtain ⟨k, hk, heq⟩ := left n s u (by omega) h1 hstop'
  simp only [List.length_cons, List.length_nil] at hlen
  obtain ⟨k, rfl⟩ : ∃ k', k = k' + 1 := ⟨k - 1, by omega⟩
  obtain ⟨rfl, rfl⟩ := node.placed
  have hname := hnext2.ident (a := a) ht (node.name _ rfl)
  have hsym : u.current.lexeme.symbol? = some .dot := Lexeme.symbol?_eq_some.2 hd
  refine ⟨k, by omega, ?_⟩
  rw [heq]
  change references a _ (k + 1) target u = references a _ k _ s'
  rw [references, symbol?_bind]
  simp only [hsym]
  rw [bind_of_ok hnext1.advance, bind_of_ok hname, bind_of_ok hcount, lastStop_bind, hlast]
  simp

/-- **A reference takes an index.** -/
theorem Resumes.index {o : Token} {position : Expr} (hb : Balanced ts)
    (left : Resumes a .reference .primary ts target) (ho : o.lexeme = .symbol .openBracket)
    (hbi : Balanced us) (inner : Accepts a .sum us position)
    (hd : d.lexeme = .symbol .closeBracket)
    (node : Expr.Sound (ts ++ (o :: us ++ [d])) (.index sp target position)) :
    Resumes a .reference .primary (ts ++ (o :: us ++ [d])) (.index sp target position) := by
  intro n s s' hn htook hstop
  have hsquare : Brackets o d := .of_square ho hd
  have hlast := htook.lastStop_eq (by simp)
  rw [hb.peak_append] at hn
  rw [Expr.nodeCount, Nat.add_assoc] at htook
  obtain ⟨u, h1, h2⟩ := htook.split hb
  have hlen := h2.length_upcoming
  obtain ⟨u', h3, hcount, -⟩ := h2.unnode (hbi.bracketed hsquare)
  obtain ⟨rfl, u1, u2, hadvance, hnested, hclose⟩ := bracketed_of_accepts (c := .index) (n := n)
    inner hbi hsquare hd (by omega) h3
  have hstop' : Level.primary.Stops u.current := by simp [Level.Stops, Level.continuing, ho]
  obtain ⟨k, hk, heq⟩ := left n s u (by omega) h1 hstop'
  simp only [List.length_cons, List.length_append] at hlen
  obtain ⟨k, rfl⟩ : ∃ k', k = k' + 1 := ⟨k - 1, by omega⟩
  obtain rfl : sp = _ := node.placed
  have hsym : u.current.lexeme.symbol? = some .openBracket := Lexeme.symbol?_eq_some.2 ho
  refine ⟨k, by omega, ?_⟩
  rw [heq]
  change references a _ (k + 1) target u = references a _ k _ s'
  rw [references, symbol?_bind]
  simp only [hsym]
  rw [bind_of_ok hadvance, bind_of_ok hnested, bind_of_ok hclose, bind_of_ok hcount,
    lastStop_bind, hlast]

end Reference

/-- A minus sign and the reference behind it. -/
theorem accepts_negate {t : Token} {sp : Span} (ht : t.lexeme = .symbol .minus)
    (hb : Balanced ts) (h : Accepts a .reference ts e)
    (node : Expr.Sound (t :: ts) (.negate sp e)) :
    Accepts a .unary (t :: ts) (.negate sp e) := by
  intro n s s' hn htook hstop
  have hminus : t.IsPlain := .of_symbol ht (by decide)
  have hlast := htook.lastStop_eq (by simp)
  rw [peak_cons hminus] at hn
  obtain ⟨rfl, u, hnext, h1⟩ := htook.uncons hminus
  obtain ⟨u', h2, hcount, hcurrent, -⟩ := h1.unnode hb
  have hok := h n u u' hn h2 (hcurrent ▸ hstop)
  change Parse.postfixed a (expressionWithin a n) u = _ at hok
  obtain rfl : sp = _ := node.placed
  change Parse.unary a (expressionWithin a n) s = _
  rw [Parse.unary, current_bind, if_pos ht, bind_of_ok hnext.advance, bind_of_ok hok,
    bind_of_ok hcount, lastStop_bind, pure_apply, hlast]
  rfl

/-- A reference without a minus sign. -/
theorem accepts_unsigned (hb : ∃ t us, ts = t :: us ∧ Level.reference.Begins t)
    (h : Accepts a .reference ts e) : Accepts a .unary ts e := by
  intro n s s' hn htook hstop
  -- a reference does not begin with a minus sign, so the branch for signs is not taken
  have hminus : s.current.lexeme ≠ .symbol .minus := by
    obtain ⟨t, us, rfl, -, ht⟩ := hb
    rw [htook.head_eq]
    intro heq
    simpa [Level.beginning] using ht _ heq
  have hok := h n s s' hn htook hstop
  change Parse.postfixed a (expressionWithin a n) s = _ at hok
  change Parse.unary a (expressionWithin a n) s = _
  rw [Parse.unary, current_bind, if_neg hminus, hok]

/-- What is shown of a level by induction on derivations: where operands are joined from the left,
the parser goes on with the tree; a power is the list of its operands. -/
def Accepting (a : Assignment) (ts : List Token) (e : Expr) : Level → Prop
  | .sum => Resumes a .sum .product ts e
  | .product => Resumes a .product .power ts e
  | .power => ∃ us vs first es, ts = us ++ vs ∧ e = Expr.powers first es ∧
      PowerOperand a us first ∧ Raised (PowerOperand a) vs es
  | .unary => Accepts a .unary ts e
  | .reference => Resumes a .reference .primary ts e
  | .primary => Accepts a .primary ts e

theorem Accepting.accepts (h : Accepting a ts e l) : Accepts a l ts e := by
  cases l with
  | sum | product | reference => exact Resumes.accepts rfl h
  | power =>
    obtain ⟨us, vs, first, es, rfl, rfl, hfirst, hes⟩ := h
    exact accepts_powers hfirst hes
  | unary | primary => exact h

/-- An operand is a chain, a power or a unary expression of its own. -/
theorem Accepting.operand (hl : l.operand? = some m) (hder : Derives Expr.Sound m ts e)
    (h : Accepting a ts e m) : Accepting a ts e l := by
  cases l with
  | sum | product | reference =>
    cases hl
    exact h.accepts.resumes rfl (by simp)
  | power =>
    cases hl
    exact ⟨ts, [], e, [], by simp, rfl, ⟨hder.balanced, h⟩, .none⟩
  | unary =>
    cases hl
    exact accepts_unsigned hder.begins h.accepts
  | primary => cases hl

/-- **The parser takes what the grammar derives.** The induction follows the derivation. -/
theorem Derives.accepting (h : Derives Expr.Sound l ts e) : Accepting a ts e l := by
  induction h with
  | operand hl hder ih => exact ih.operand hl hder
  | @join l m ts us t op lhs rhs sp hl hop left ht right node ihl ihr =>
    obtain rfl : sp = _ := node.placed
    cases l with
    | sum | product =>
      cases hl
      exact Resumes.join rfl hop left.balanced right.balanced ihl ht ihr.accepts
    | power | unary | reference | primary => simp [Level.operators] at hop
  | @power us vs t lhs rhs sp left ht right node ihl ihr =>
    -- the operands of the power on the right come behind the first one
    obtain ⟨ws, xs, first, es, rfl, rfl, hfirst, hes⟩ := ihr
    obtain rfl : sp = _ := node.placed
    exact ⟨us, t :: (ws ++ xs), lhs, first :: es, rfl, rfl, ⟨left.balanced, ihl⟩,
      .more ht hfirst hes⟩
  | negate ht hder node ih => exact accepts_negate ht hder.balanced ih.accepts node
  | field hder hd hn node ih => exact Resumes.field hder.balanced ih hd hn node
  | index hder ho inner hc node iht ihi =>
    exact Resumes.index hder.balanced iht ho inner.balanced ihi.accepts hc node
  | number ht node => exact accepts_number ht node
  | text ht node => exact accepts_text ht node
  | var ht node => exact accepts_var ht node
  | group ho inner hc ih => exact accepts_group ho inner.balanced ih.accepts hc
  | call hn ho hargs inner hc node ih =>
    refine accepts_call hn ho hargs (fun x hx => ?_) hc node
    exact ⟨(inner x hx).balanced, (inner x hx).begins, (ih x hx).accepts⟩

/-- **An expression is taken if nothing goes on with it.** The fuel of the parser is enough, as
every bracket is a token. -/
theorem Derives.expression_eq_ok (h : Derives Expr.Sound .sum ts e)
    (htook : Took a s ts e.nodeCount s') (hstop : Level.sum.Stops s'.current) :
    expression a s = .ok e s' := by
  have hlen := htook.length_upcoming
  have hpeak := peak_le_length ts
  rw [expression, steps_bind]
  exact h.accepting.accepts _ s s' (by omega) htook hstop

end FormCalc
